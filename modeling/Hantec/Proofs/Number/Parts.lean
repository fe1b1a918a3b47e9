import Hantec.Number.Reading
import Hantec.Number.Written
import Hantec.Proofs.Number.Rounding

/-!
# The parts of a number

The sign, the mantissa and the exponent of a number are told by its bits, and arithmetic unpacks a
number into the same parts and packs its results from them. So a number is what its parts say.
-/

namespace Hantec.Number

open Float.Model Float.Model.UnpackedFloat

theorem toNat_unpackExponent (b : BitVec Format.binary64.numBits) :
    (unpackExponent b).toNat = b.toNat / Nat.pow 2 52 % 2048 := by
  unfold unpackExponent
  simp only [BitVec.toNat_cast, BitVec.extractLsb_toNat]
  rw [Nat.shiftRight_eq_div_pow]

theorem toNat_unpackMantissa (b : BitVec Format.binary64.numBits) :
    (unpackMantissa b).toNat = b.toNat % Nat.pow 2 52 := by
  unfold unpackMantissa
  simp only [BitVec.toNat_cast, BitVec.extractLsb_toNat]
  rw [Nat.shiftRight_zero]

theorem eq_of_toNat_toBits {x y : Float} (h : x.toBits.toNat = y.toBits.toNat) : x = y := by
  obtain ⟨⟨b, hb⟩⟩ := x
  obtain ⟨⟨d, hd⟩⟩ := y
  obtain rfl : b = d := UInt64.toNat_inj.mp h
  rfl

def signOf (neg : Bool) : Sign := if neg then .negative else .positive

theorem ofBitVec_unpackSign (b : BitVec Format.binary64.numBits) :
    Sign.ofBitVec (unpackSign b) = signOf (Nat.pow 2 63 ≤ b.toNat) := by
  have htoNat : (unpackSign b).toNat = b.toNat / 2 ^ 63 % 2 := by
    unfold unpackSign
    simp only [BitVec.toNat_cast, BitVec.extractLsb_toNat]
    rw [Nat.shiftRight_eq_div_pow]
  have hlt : b.toNat < 2 ^ 64 := b.isLt
  have hzero : unpackSign b = 0#1 ↔ ¬ Nat.pow 2 63 ≤ b.toNat := by
    rw [← BitVec.toNat_inj, htoNat]
    show b.toNat / 2 ^ 63 % 2 = 0 ↔ ¬ 2 ^ 63 ≤ b.toNat
    omega
  unfold Sign.ofBitVec signOf
  simp only [hzero]
  by_cases h : Nat.pow 2 63 ≤ b.toNat <;> simp [h]

theorem toNat_one_append (v : BitVec 52) : (1#1 ++ v).toNat = Nat.pow 2 52 + v.toNat := by
  have hlt : v.toNat < 2 ^ 52 := v.isLt
  rw [BitVec.toNat_append, ← Nat.shiftLeft_add_eq_or_of_lt hlt]
  rfl

section Unpack

variable {b : BitVec Format.binary64.numBits}

theorem unpackExponent_ne_neg_one (h : b.toNat / Nat.pow 2 52 % 2048 ≠ 2047) :
    unpackExponent b ≠ -1#_ := by
  rw [Ne, ← BitVec.toNat_inj, toNat_unpackExponent]
  exact h

theorem unpackExponent_eq_zero_iff :
    unpackExponent b = 0#_ ↔ b.toNat / Nat.pow 2 52 % 2048 = 0 := by
  rw [← BitVec.toNat_inj, toNat_unpackExponent]
  rfl

theorem unpackMantissa_eq_zero_iff : unpackMantissa b = 0#_ ↔ b.toNat % Nat.pow 2 52 = 0 := by
  rw [← BitVec.toNat_inj, toNat_unpackMantissa]
  rfl

theorem exponentBias_binary64 : Format.binary64.exponentBias = 1023 := rfl

theorem unpack_zero (hfield : b.toNat / Nat.pow 2 52 % 2048 = 0)
    (hfrac : b.toNat % Nat.pow 2 52 = 0) :
    UnpackedFloat.unpack Format.binary64 b = .zero (signOf (Nat.pow 2 63 ≤ b.toNat)) := by
  unfold UnpackedFloat.unpack
  dsimp only
  rw [if_neg (unpackExponent_ne_neg_one (by omega)), if_pos (unpackExponent_eq_zero_iff.2 hfield),
    dif_pos (unpackMantissa_eq_zero_iff.2 hfrac), ofBitVec_unpackSign]

theorem unpack_subnormal (hfield : b.toNat / Nat.pow 2 52 % 2048 = 0)
    (hfrac : 0 < b.toNat % Nat.pow 2 52) :
    UnpackedFloat.unpack Format.binary64 b =
      .finite (signOf (Nat.pow 2 63 ≤ b.toNat)) (b.toNat % Nat.pow 2 52) (-1074) hfrac := by
  unfold UnpackedFloat.unpack
  dsimp only
  rw [if_neg (unpackExponent_ne_neg_one (by omega)), if_pos (unpackExponent_eq_zero_iff.2 hfield),
    dif_neg (unpackMantissa_eq_zero_iff.not.2 hfrac.ne'), ofBitVec_unpackSign]
  simp [toNat_unpackExponent, toNat_unpackMantissa, hfield, exponentBias_binary64]

theorem unpack_normal (hfield : b.toNat / Nat.pow 2 52 % 2048 ≠ 0)
    (hfull : b.toNat / Nat.pow 2 52 % 2048 ≠ 2047)
    (hpos : 0 < Nat.pow 2 52 + b.toNat % Nat.pow 2 52) :
    UnpackedFloat.unpack Format.binary64 b =
      .finite (signOf (Nat.pow 2 63 ≤ b.toNat)) (Nat.pow 2 52 + b.toNat % Nat.pow 2 52)
        ((b.toNat / Nat.pow 2 52 % 2048 : ℕ) - 1075) hpos := by
  have hmant : (1#1 ++ unpackMantissa b).toNat = Nat.pow 2 52 + b.toNat % Nat.pow 2 52 := by
    rw [toNat_one_append, toNat_unpackMantissa]
  unfold UnpackedFloat.unpack
  dsimp only
  rw [if_neg (unpackExponent_ne_neg_one hfull), if_neg (unpackExponent_eq_zero_iff.not.2 hfield),
    ofBitVec_unpackSign]
  simp only [hmant, toNat_unpackExponent, exponentBias_binary64, finite.injEq, true_and]
  norm_num

end Unpack

/-- The parts of a number are those that it is unpacked into. -/
theorem unpack_of_ofFloat? {x : Float} {d : Dyadic} (h : Dyadic.ofFloat? x = some d) :
    (d.mant = 0 ∧ x.toModel.unpack = .zero (signOf d.neg)) ∨
    ∃ hm : 0 < d.mant, IsCanonical d.mant d.exp ∧ d.exp ≤ 971 ∧
      x.toModel.unpack = .finite (signOf d.neg) d.mant d.exp hm := by
  have hfrac : x.toBits.toNat % Nat.pow 2 52 < Nat.pow 2 52 := Nat.mod_lt _ (by decide)
  have hfield : x.toBits.toNat / Nat.pow 2 52 % 2048 < 2048 := Nat.mod_lt _ (by decide)
  unfold Dyadic.ofFloat? at h
  dsimp only at h
  split at h
  case isTrue => cases h
  case isFalse hfull =>
    split at h
    case isTrue hsub =>
      cases h
      by_cases hzero : x.toBits.toNat % Nat.pow 2 52 = 0
      · exact .inl ⟨hzero, unpack_zero hsub hzero⟩
      · have hpos := Nat.pos_of_ne_zero hzero
        refine .inr ⟨hpos, ⟨hpos, hfrac.trans (by decide), le_rfl, fun h => absurd rfl h⟩,
          by norm_num, unpack_subnormal hsub hpos⟩
    case isFalse hnormal =>
      cases h
      have hpos : 0 < Nat.pow 2 52 + x.toBits.toNat % Nat.pow 2 52 :=
        Nat.add_pos_left (by decide) _
      refine .inr ⟨hpos, ⟨hpos, ?_, ?_, fun _ => Nat.le_add_right _ _⟩, ?_,
        unpack_normal hnormal hfull hpos⟩
      · have htwice : Nat.pow 2 52 + Nat.pow 2 52 = 2 ^ 53 := by decide
        show Nat.pow 2 52 + x.toBits.toNat % Nat.pow 2 52 < 2 ^ 53
        omega
      · show (-1074 : ℤ) ≤ (x.toBits.toNat / Nat.pow 2 52 % 2048 : ℕ) - 1075
        omega
      · show ((x.toBits.toNat / Nat.pow 2 52 % 2048 : ℕ) : ℤ) - 1075 ≤ 971
        omega

section Parts

variable {x : Float} {d : Dyadic}

theorem unpack_of_mant_eq_zero (h : Dyadic.ofFloat? x = some d) (hm : d.mant = 0) :
    x.toModel.unpack = .zero (signOf d.neg) := by
  obtain ⟨-, hunpack⟩ | ⟨hpos, -⟩ := unpack_of_ofFloat? h
  · exact hunpack
  · exact absurd hm hpos.ne'

theorem unpack_of_mant_pos (h : Dyadic.ofFloat? x = some d) (hm : 0 < d.mant) :
    x.toModel.unpack = .finite (signOf d.neg) d.mant d.exp hm := by
  obtain ⟨hzero, -⟩ | ⟨_, -, -, hunpack⟩ := unpack_of_ofFloat? h
  · exact absurd hzero hm.ne'
  · exact hunpack

theorem isCanonical_of_ofFloat? (h : Dyadic.ofFloat? x = some d) (hm : 0 < d.mant) :
    IsCanonical d.mant d.exp ∧ d.exp ≤ 971 := by
  obtain ⟨hzero, -⟩ | ⟨-, hcanon, hexp, -⟩ := unpack_of_ofFloat? h
  · exact absurd hzero hm.ne'
  · exact ⟨hcanon, hexp⟩

end Parts

theorem two_pow_le_packComponents (neg : Bool) (e : BitVec 11) (m : BitVec 52) :
    decide (Nat.pow 2 63 ≤ (packComponents Format.binary64 (signOf neg) e m).toNat) = neg := by
  have hmsb : (packComponents Format.binary64 (signOf neg) e m).msb = neg := by
    unfold packComponents
    rw [BitVec.msb_append, BitVec.msb_append]
    cases neg <;> rfl
  rw [BitVec.msb_eq_decide] at hmsb
  exact hmsb

theorem ofFloat?_ofModel (m : Float.Model) {neg : Bool} {e : BitVec 11} {f : BitVec 52}
    (h : m.toBits.toBitVec = packComponents Format.binary64 (signOf neg) e f)
    (he : e.toNat ≠ 2047) :
    Dyadic.ofFloat? (.ofModel m) =
      some (if e.toNat = 0 then ⟨neg, f.toNat, -1074⟩
        else ⟨neg, Nat.pow 2 52 + f.toNat, (e.toNat : ℤ) - 1075⟩) := by
  have hbits : (Float.ofModel m).toBits.toNat =
      (packComponents Format.binary64 (signOf neg) e f).toNat := by
    rw [← h]
    rfl
  have hfield : (Float.ofModel m).toBits.toNat / Nat.pow 2 52 % 2048 = e.toNat := by
    rw [hbits, ← toNat_unpackExponent, unpackExponent_packComponents]
  have hfrac : (Float.ofModel m).toBits.toNat % Nat.pow 2 52 = f.toNat := by
    rw [hbits, ← toNat_unpackMantissa, unpackMantissa_packComponents]
  have hneg : decide (Nat.pow 2 63 ≤ (Float.ofModel m).toBits.toNat) = neg := by
    rw [hbits, two_pow_le_packComponents]
  unfold Dyadic.ofFloat?
  dsimp only
  rw [hfield, hfrac, hneg, if_neg he]
  split <;> rfl

/-- A number has the parts that it was packed from. -/
theorem ofFloat?_pack {M : ℕ} {E : ℤ} (hM : IsCanonical M E) (hE : E ≤ 971) (neg : Bool) :
    Dyadic.ofFloat? (.ofModel (.pack (.finite (signOf neg) M E hM.pos))) = some ⟨neg, M, E⟩ := by
  have hmin := hM.min_le
  have hlt := hM.lt
  have hbits : (Float.Model.pack (.finite (signOf neg) M E hM.pos)).toBits.toBitVec =
      UnpackedFloat.pack Format.binary64 (.finite (signOf neg) M E hM.pos) := rfl
  have hbias : (E + (Format.binary64.exponentBias : ℕ) +
      (Format.binary64.mantissaBitsWithoutImplicit : ℕ)).toNat = (E + 1075).toNat := by
    rw [exponentBias_binary64]
    congr 1
    norm_num
    ring
  unfold UnpackedFloat.pack at hbits
  dsimp only at hbits
  rw [hbias, if_neg (by norm_num; omega)] at hbits
  by_cases hnormal : 2 ^ 52 ≤ M
  · have hlog : M.log2 + 1 = Format.binary64.mantissaBits := by
      have h₁ := (Nat.le_log2 hM.pos.ne').2 hnormal
      have h₂ := (Nat.log2_lt hM.pos.ne').2 hlt
      show M.log2 + 1 = 53
      omega
    rw [if_pos hlog] at hbits
    rw [ofFloat?_ofModel _ hbits (by simp; omega)]
    have hexp : (BitVec.ofNat 11 (E + 1075).toNat).toNat = (E + 1075).toNat := by
      rw [BitVec.toNat_ofNat]
      omega
    have hmant : Nat.pow 2 52 + (BitVec.ofNat 52 M).toNat = M := by
      rw [BitVec.toNat_ofNat]
      show 2 ^ 52 + M % 2 ^ 52 = M
      omega
    rw [hexp, hmant, if_neg (by omega)]
    congr 2
    omega
  · have hE' : E = -1074 := by
      by_contra hne
      exact hnormal (hM.normal hne)
    have hlog : ¬ M.log2 + 1 = Format.binary64.mantissaBits := by
      have h₂ := (Nat.log2_lt hM.pos.ne').2 (not_le.1 hnormal)
      show ¬ M.log2 + 1 = 53
      omega
    rw [if_neg hlog] at hbits
    rw [ofFloat?_ofModel _ hbits (by simp)]
    have hmant : (BitVec.ofNat 52 M).toNat = M := by
      rw [BitVec.toNat_ofNat]
      omega
    rw [hmant, hE']
    rfl

theorem unpack_pack {M : ℕ} {E : ℤ} (hM : IsCanonical M E) (hE : E ≤ 971) (neg : Bool) :
    (Float.Model.pack (.finite (signOf neg) M E hM.pos)).unpack =
      .finite (signOf neg) M E hM.pos :=
  unpack_of_mant_pos (ofFloat?_pack hM hE neg) hM.pos

/-- A number that is not finite is one of three. -/
theorem eq_of_ofFloat?_eq_none {x : Float} (h : Dyadic.ofFloat? x = none) :
    x = nan ∨ x = infinity ∨ x = -infinity := by
  have hfield : x.toBits.toNat / Nat.pow 2 52 % 2048 = 2047 := by
    unfold Dyadic.ofFloat? at h
    dsimp only at h
    split at h
    case isTrue hfull => exact hfull
    case isFalse => split at h <;> cases h
  have hlt := x.toBits.toNat_lt
  by_cases hfrac : x.toBits.toNat % Nat.pow 2 52 = 0
  · have hbits : x.toBits.toNat = 0x7FF0000000000000 ∨ x.toBits.toNat = 0xFFF0000000000000 := by
      have hpow : Nat.pow 2 52 = 0x10000000000000 := rfl
      rw [hpow] at hfield hfrac
      omega
    exact .inr (hbits.imp (eq_of_toNat_toBits ·) (eq_of_toNat_toBits ·))
  -- All numbers that are not comparable have the same bits.
  · refine .inl (eq_of_toNat_toBits (congrArg BitVec.toNat (x.toModel.valid.eq_packedNaN ?_ ?_)))
    · refine BitVec.eq_of_toNat_eq ?_
      rw [toNat_unpackExponent]
      exact hfield
    · intro hzero
      refine hfrac ?_
      have hnat := congrArg BitVec.toNat hzero
      rwa [toNat_unpackMantissa] at hnat

/-- The parts of a number tell its bits. -/
theorem toNat_toBits_of_ofFloat? {x : Float} {d : Dyadic} (h : Dyadic.ofFloat? x = some d) :
    x.toBits.toNat = (if d.neg then 2 ^ 63 else 0) +
      if d.mant < 2 ^ 52 then d.mant else (d.exp + 1075).toNat * 2 ^ 52 + (d.mant - 2 ^ 52) := by
  have hlt : x.toBits.toNat < 2 ^ 64 := x.toBits.toNat_lt
  have hpow : Nat.pow 2 52 = 2 ^ 52 := rfl
  have hsign : Nat.pow 2 63 = 2 ^ 63 := rfl
  unfold Dyadic.ofFloat? at h
  simp only [hpow, hsign] at h
  split at h
  case isTrue => cases h
  case isFalse =>
    split at h <;> cases h <;> simp only [decide_eq_true_eq] <;> split <;> split <;> omega

theorem eq_of_ofFloat? {x y : Float} {d : Dyadic} (hx : Dyadic.ofFloat? x = some d)
    (hy : Dyadic.ofFloat? y = some d) : x = y :=
  eq_of_toNat_toBits ((toNat_toBits_of_ofFloat? hx).trans (toNat_toBits_of_ofFloat? hy).symm)

end Hantec.Number
