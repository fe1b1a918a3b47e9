import Hantec.Proofs.Number.Parts

/-!
# Decimals are read as the nearest number

A decimal is read by a product or a quotient with a power of ten, which is rounded once. So a
decimal in the interval of a number is read as that number.
-/

namespace Hantec.Number

open Float.Model Float.Model.UnpackedFloat

variable {M : ℕ} {E : ℤ} {q : ℚ}

/-! ## The size of what is read as a number -/

theorem gap_pos (m : ℕ) (e : ℤ) : 0 < gap m e := by
  unfold gap
  split <;> norm_num

/-- A number is read as itself. -/
theorem readsAs_self (M : ℕ) (E : ℤ) : ReadsAs (M * 2 ^ E) M E := by
  have hpos : (0 : ℚ) < 2 ^ E := by positivity
  have hgap := gap_pos M E
  have hlow : (M - gap M E) * 2 ^ E < M * 2 ^ E := mul_lt_mul_of_pos_right (by linarith) hpos
  have hhigh : (M : ℚ) * 2 ^ E < (M + 1 / 2) * 2 ^ E := mul_lt_mul_of_pos_right (by linarith) hpos
  exact ⟨hlow.le, hhigh.le, fun _ => ⟨hlow, hhigh⟩⟩

theorem ReadsAs.two_zpow_le (hM : IsCanonical M E) (hq : ReadsAs q M E) : 2 ^ (-1075 : ℤ) ≤ q := by
  have hone : (1 : ℚ) ≤ M := by exact_mod_cast hM.pos
  have hgap := gap_le M E
  have hhalf : (2 : ℚ) ^ (-1075 : ℤ) = 1 / 2 * 2 ^ (-1074 : ℤ) := by
    rw [one_div, ← zpow_neg_one, ← zpow_add₀ two_ne_zero]
    rfl
  rw [hhalf]
  refine le_trans (mul_le_mul ?_ ?_ (by positivity) ?_) hq.low
  · linarith
  · exact zpow_le_zpow_right₀ one_le_two hM.min_le
  · linarith

theorem ReadsAs.pos (hM : IsCanonical M E) (hq : ReadsAs q M E) : 0 < q :=
  (by positivity : (0 : ℚ) < 2 ^ (-1075 : ℤ)).trans_le (hq.two_zpow_le hM)

theorem ReadsAs.lt_two_zpow (hM : IsCanonical M E) (hE : E ≤ 971) (hq : ReadsAs q M E) :
    q < 2 ^ (1024 : ℤ) :=
  (hM.lt_two_zpow hq).trans_le (zpow_le_zpow_right₀ one_le_two (by omega))

/-! ## Whole numbers -/

section Whole

variable {n : ℕ}

theorem two_pow_le_scaled (hn : 0 < n) (hlog : n.log2 ≤ 52) : 2 ^ 52 ≤ n * 2 ^ (52 - n.log2) := by
  calc
    2 ^ 52 = 2 ^ n.log2 * 2 ^ (52 - n.log2) := by rw [← Nat.pow_add, Nat.add_sub_cancel' hlog]
    _ ≤ n * 2 ^ (52 - n.log2) := Nat.mul_le_mul_right _ (Nat.log2_self_le hn.ne')

theorem scaled_lt_two_pow (hlog : n.log2 ≤ 52) : n * 2 ^ (52 - n.log2) < 2 ^ 53 := by
  have hsum : n.log2 + 1 + (52 - n.log2) = 53 := by omega
  calc
    n * 2 ^ (52 - n.log2) < 2 ^ (n.log2 + 1) * 2 ^ (52 - n.log2) :=
      Nat.mul_lt_mul_of_pos_right Nat.lt_log2_self (Nat.two_pow_pos _)
    _ = 2 ^ 53 := by rw [← Nat.pow_add, hsum]

/-- A number with at most 53 bits is shifted up until it has as many. -/
theorem exists_isCanonical (hn : 0 < n) (hlt : n < 2 ^ 53) {e : ℤ} (he : -1022 ≤ e) :
    ∃ M E, IsCanonical M E ∧ E ≤ e ∧ 2 ^ 52 ≤ M ∧ (M * 2 ^ E : ℚ) = n * 2 ^ e := by
  have hlog : n.log2 ≤ 52 := by
    have := (Nat.log2_lt hn.ne').2 hlt
    omega
  have hpow := two_pow_le_scaled hn hlog
  refine ⟨n * 2 ^ (52 - n.log2), e - (52 - n.log2 : ℕ),
    ⟨by positivity, scaled_lt_two_pow hlog, by omega, fun _ => hpow⟩, by omega, hpow, ?_⟩
  rw [zpow_sub₀ two_ne_zero, zpow_natCast]
  push_cast
  field_simp

theorem exists_isCanonical_whole (hn : 0 < n) (hlt : n < 2 ^ 53) :
    ∃ M E, IsCanonical M E ∧ E ≤ 0 ∧ 2 ^ 52 ≤ M ∧ (M * 2 ^ E : ℚ) = n := by
  simpa using exists_isCanonical hn hlt (e := 0) (by norm_num)

theorem log2_shiftLeft {m : ℕ} (hm : m ≠ 0) (k : ℕ) : (m <<< k).log2 = m.log2 + k := by
  induction k with
  | zero => rfl
  | succ k ih =>
    rw [Nat.shiftLeft_succ, Nat.log2_two_mul (by simpa [Nat.shiftLeft_eq] using hm), ih,
      Nat.add_assoc]

/-- A rational in the interval of a number is rounded to it, whatever its exponent is. -/
theorem round_eq {m : ℕ} {e : ℤ} (hM : IsCanonical M E) (hq : ReadsAs (m * 2 ^ e) M E) (s : Sign) :
    UnpackedFloat.round Format.binary64 s m e = .finite s M E hM.pos := by
  have hm : m ≠ 0 := by
    rintro rfl
    simpa using hq.pos hM
  rw [UnpackedFloat.round, decreaseExponent]
  generalize hk : (e - Format.binary64.targetExponent (totalExponent m e)).toNat = k
  refine roundWithAccuracy_eq hM hq ?_ ?_ s
  · have hvalue : (m * 2 ^ e / 2 ^ (e - k) : ℚ) = (m <<< k : ℕ) := by
      rw [zpow_sub₀ two_ne_zero, zpow_natCast, Nat.shiftLeft_eq]
      push_cast
      field_simp
    rw [hvalue]
    exact .exact _
  · rw [targetExponent_binary64, totalExponent] at hk ⊢
    rw [log2_shiftLeft hm]
    omega

theorem toFloat_eq (hn : 0 < n) (hlt : n < 2 ^ 64) :
    n.toUInt64.toFloat = .ofModel (.pack (UnpackedFloat.round Format.binary64 .positive n 0)) := by
  have htoNat : n.toUInt64.toNat = n := Nat.mod_eq_of_lt hlt
  have hcompare : compare (n : ℤ) 0 = .gt := Int.compare_eq_gt.2 (by omega)
  show Float.ofModel (.pack (normalize Format.binary64 (n.toUInt64.toNat : ℤ) 0 .positive)) = _
  rw [htoNat, UnpackedFloat.normalize, hcompare]
  rfl

/-- A whole number with at most 53 bits is not rounded. -/
theorem exists_unpack_toFloat (hn : 0 < n) (hlt : n < 2 ^ 53) :
    ∃ (m : ℕ) (e : ℤ) (h : 0 < m), 2 ^ 52 ≤ m ∧ (m * 2 ^ e : ℚ) = n ∧
      n.toUInt64.toFloat.toModel.unpack = .finite .positive m e h := by
  obtain ⟨M, E, hM, hE, hpow, hvalue⟩ := exists_isCanonical_whole hn hlt
  have hreads : ReadsAs (n * 2 ^ (0 : ℤ)) M E := by
    rw [zpow_zero, mul_one, ← hvalue]
    exact readsAs_self M E
  refine ⟨M, E, hM.pos, hpow, hvalue, ?_⟩
  rw [toFloat_eq hn (by omega), round_eq hM hreads]
  exact unpack_pack hM (by omega) false

end Whole

/-! ## Powers of ten -/

/-- Whether a number is `10 ^ k`, with a mantissa of 53 bits. -/
def isTenPow (k : ℕ) (x : Float) : Bool :=
  match Dyadic.ofFloat? x with
  | some d => !d.neg && 2 ^ 52 ≤ d.mant && d.mant * 2 ^ d.exp.toNat == 10 ^ k * 2 ^ (-d.exp).toNat
  | none => false

theorem isTenPow_getElem :
    ∀ k, (h : k < Float.exactlyRepresentablePowersOfTen.size) →
      isTenPow k Float.exactlyRepresentablePowersOfTen[k] = true := by decide +kernel

theorem exists_unpack_of_isTenPow {k : ℕ} {x : Float} (h : isTenPow k x = true) :
    ∃ (m : ℕ) (e : ℤ) (hm : 0 < m), 2 ^ 52 ≤ m ∧ (m * 2 ^ e : ℚ) = 10 ^ k ∧
      x.toModel.unpack = .finite .positive m e hm := by
  unfold isTenPow at h
  split at h
  case h_2 => cases h
  case h_1 d hd =>
    obtain ⟨neg, m, e⟩ := d
    simp only [Bool.and_eq_true, Bool.not_eq_true', decide_eq_true_eq, beq_iff_eq] at h
    obtain ⟨⟨rfl, hm⟩, hvalue⟩ := h
    have hpos : 0 < m := (by norm_num : 0 < 2 ^ 52).trans_le hm
    refine ⟨m, e, hpos, hm, ?_, unpack_of_mant_pos hd hpos⟩
    have hvalue : (m * 2 ^ e.toNat : ℚ) = 10 ^ k * 2 ^ (-e).toNat := by exact_mod_cast hvalue
    have hexp : (2 : ℚ) ^ e = 2 ^ e.toNat / 2 ^ (-e).toNat := by
      rw [← zpow_natCast, ← zpow_natCast, ← zpow_sub₀ two_ne_zero]
      congr 1
      omega
    rw [hexp, mul_div_assoc', hvalue, mul_div_cancel_right₀ _ (by positivity)]

/-! ## Decimals -/

section Decimals

variable {m : ℕ} {e : ℤ}

theorem ReadsAs.coef_pos (hM : IsCanonical M E) (hq : ReadsAs (m * 10 ^ e) M E) : 0 < m := by
  refine Nat.pos_of_ne_zero ?_
  rintro rfl
  simpa using hq.pos hM

/-- Small decimals are read with exact powers of ten. -/
theorem fast_eq (hM : IsCanonical M E) (hq : ReadsAs (m * 10 ^ e) M E) (hm : 0 < m)
    (hlt : m < 2 ^ 53) (he : e.natAbs < Float.exactlyRepresentablePowersOfTen.size) :
    (if e < 0 then m.toUInt64.toFloat / Float.exactlyRepresentablePowersOfTen[e.natAbs]
      else m.toUInt64.toFloat * Float.exactlyRepresentablePowersOfTen[e.natAbs]) =
      .ofModel (.pack (.finite .positive M E hM.pos)) := by
  obtain ⟨m₁, e₁, h₁, hbits, hvalue₁, hunpack₁⟩ := exists_unpack_toFloat hm hlt
  obtain ⟨m₂, e₂, h₂, -, hvalue₂, hunpack₂⟩ := exists_unpack_of_isTenPow (isTenPow_getElem _ he)
  split
  case isTrue hneg =>
    have hexp : e = -(e.natAbs : ℤ) := by omega
    have hq : ReadsAs (m₁ * 2 ^ e₁ / (m₂ * 2 ^ e₂)) M E := by
      rw [hvalue₁, hvalue₂, div_eq_mul_inv, ← zpow_natCast, ← zpow_neg, ← hexp]
      exact hq
    show Float.ofModel (.pack (UnpackedFloat.div Format.binary64 _ _)) = _
    rw [hunpack₁, hunpack₂, div_eq_finite hM hq]
    rfl
  case isFalse hneg =>
    have hexp : e = (e.natAbs : ℤ) := by omega
    have hq : ReadsAs (m₁ * 2 ^ e₁ * (m₂ * 2 ^ e₂)) M E := by
      rw [hvalue₁, hvalue₂, ← zpow_natCast, ← hexp]
      exact hq
    show Float.ofModel (.pack (UnpackedFloat.mul Format.binary64 _ _)) = _
    rw [hunpack₁, hunpack₂, mul_eq_finite hM hq (hbits.trans (Nat.le_mul_of_pos_right _ h₂))]
    rfl

theorem two_zpow_le_ten_zpow (k : ℤ) (hk : 0 ≤ k) : (2 : ℚ) ^ (3 * k) ≤ 10 ^ k := by
  rw [zpow_mul]
  exact zpow_le_zpow_left₀ hk (by norm_num) (by norm_num)

theorem ten_pow_length_le (hm : 0 < m) :
    (10 : ℚ) ^ ((Nat.toDigits 10 m).length - 1 : ℤ) ≤ m := by
  obtain ⟨n, hn⟩ : ∃ n, (Nat.toDigits 10 m).length = n + 1 :=
    ⟨_, (Nat.succ_pred_eq_of_pos Nat.length_toDigits_pos).symm⟩
  rw [hn]
  have hle : 10 ^ n ≤ m := by
    cases n with
    | zero => exact hm
    | succ n =>
      by_contra hlt
      have := (Nat.length_toDigits_le_iff (b := 10) (by decide) n.succ_pos).2 (not_le.1 hlt)
      omega
  push_cast
  rw [add_sub_cancel_right, zpow_natCast]
  exact_mod_cast hle

theorem lt_ten_pow_length (m : ℕ) : (m : ℚ) < 10 ^ ((Nat.toDigits 10 m).length : ℤ) := by
  rw [zpow_natCast]
  exact_mod_cast (Nat.length_toDigits_le_iff (b := 10) (by decide) Nat.length_toDigits_pos).1 le_rfl

/-- What is read as a number is of a size that is not ruled out. -/
theorem ReadsAs.lead_bounds (hM : IsCanonical M E) (hE : E ≤ 971)
    (hq : ReadsAs (m * 10 ^ e) M E) :
    -400 ≤ e + (Nat.toDigits 10 m).length ∧ e + (Nat.toDigits 10 m).length ≤ 400 := by
  have hm := hq.coef_pos hM
  have hpos : (0 : ℚ) < 10 ^ e := by positivity
  generalize hlen : (Nat.toDigits 10 m).length = n
  have hten : (1 : ℚ) < 10 := by norm_num
  constructor
  · have hlt : (10 : ℚ) ^ (-400 : ℤ) < 10 ^ (e + n) := by
      calc
        (10 : ℚ) ^ (-400 : ℤ) ≤ 2 ^ (-(3 * 400) : ℤ) := by
          rw [zpow_neg, zpow_neg]
          exact inv_anti₀ (by positivity) (two_zpow_le_ten_zpow 400 (by norm_num))
        _ ≤ 2 ^ (-1075 : ℤ) := zpow_le_zpow_right₀ one_le_two (by norm_num)
        _ ≤ m * 10 ^ e := hq.two_zpow_le hM
        _ < 10 ^ (n : ℤ) * 10 ^ e := mul_lt_mul_of_pos_right (hlen ▸ lt_ten_pow_length m) hpos
        _ = 10 ^ (e + n) := by rw [← zpow_add₀ (by norm_num), add_comm]
    exact ((zpow_lt_zpow_iff_right₀ hten).1 hlt).le
  · have hlt : (10 : ℚ) ^ (e + (n - 1)) < 10 ^ (400 : ℤ) := by
      calc
        (10 : ℚ) ^ (e + (n - 1)) = 10 ^ (n - 1 : ℤ) * 10 ^ e := by
          rw [← zpow_add₀ (by norm_num), add_comm]
        _ ≤ m * 10 ^ e := mul_le_mul_of_nonneg_right (hlen ▸ ten_pow_length_le hm) hpos.le
        _ < 2 ^ (1024 : ℤ) := hq.lt_two_zpow hM hE
        _ ≤ 2 ^ (3 * 400 : ℤ) := zpow_le_zpow_right₀ one_le_two (by norm_num)
        _ ≤ 10 ^ (400 : ℤ) := two_zpow_le_ten_zpow 400 (by norm_num)
    have := (zpow_lt_zpow_iff_right₀ hten).1 hlt
    omega

theorem length_toDigits_le_log2 (m : ℕ) : (Nat.toDigits 10 m).length ≤ m.log2 + 1 := by
  rw [Nat.length_toDigits_le_iff (by decide) (Nat.succ_pos _)]
  exact Nat.lt_log2_self.trans_le (Nat.pow_le_pow_left (by decide) _)

/-- Other decimals are read in one step. -/
theorem ofScientific_slow (hM : IsCanonical M E) (hE : E ≤ 971) (hq : ReadsAs (m * 10 ^ e) M E) :
    UnpackedFloat.ofScientific Format.binary64 m e = .finite .positive M E hM.pos := by
  have hm := hq.coef_pos hM
  obtain ⟨hlow, hhigh⟩ := hq.lead_bounds hM hE
  have hlen := length_toDigits_le_log2 m
  have hlarge : ¬ e > 2 ^ Format.binary64.exponentBits := by
    norm_num
    omega
  have hsmall : ¬ e < -((2 ^ Format.binary64.exponentBits : ℤ) + m.log2) := by
    norm_num
    omega
  rw [UnpackedFloat.ofScientific, dif_neg hm.ne', if_neg hlarge, if_neg hsmall]
  split
  case isTrue hpos =>
    have hexp : e = (e.toNat : ℤ) := by omega
    refine mul_eq_finite hM ?_ ?_
    · have hvalue : (((m <<< Format.binary64.mantissaBits : ℕ) : ℚ) *
          2 ^ (-(Format.binary64.mantissaBits : ℕ) : ℤ) * ((10 ^ e.toNat : ℕ) * 2 ^ (0 : ℤ))) =
          m * 10 ^ e := by
        conv_rhs => rw [hexp]
        rw [Nat.shiftLeft_eq, zpow_natCast, zpow_neg, zpow_natCast]
        push_cast
        field_simp
      rw [hvalue]
      exact hq
    · have hbits : Format.binary64.mantissaBits = 53 := rfl
      rw [Nat.shiftLeft_eq, hbits]
      have hten : 0 < 10 ^ e.toNat := by positivity
      nlinarith [Nat.mul_pos hm hten]
  case isFalse hneg =>
    have hexp : e = -((-e).toNat : ℤ) := by omega
    refine div_eq_finite hM ?_
    have hvalue : ((m * 2 ^ (0 : ℤ)) / ((10 ^ (-e).toNat : ℕ) * 2 ^ (0 : ℤ)) : ℚ) = m * 10 ^ e := by
      conv_rhs => rw [hexp]
      rw [zpow_neg, zpow_natCast]
      push_cast
      field_simp
    rw [hvalue]
    exact hq

theorem int_of_sign_natAbs (e : ℤ) :
    (if decide (e < 0) = true then Int.negOfNat e.natAbs else Int.ofNat e.natAbs) = e := by
  simp only [decide_eq_true_eq, Int.negOfNat_eq, Int.ofNat_eq_natCast]
  split <;> omega

theorem ofScientific_eq (hM : IsCanonical M E) (hE : E ≤ 971) (hq : ReadsAs (m * 10 ^ e) M E) :
    Float.ofScientific m (e < 0) e.natAbs = .ofModel (.pack (.finite .positive M E hM.pos)) := by
  unfold Float.ofScientific
  split
  case isTrue hfast =>
    have hsize : e.natAbs < Float.exactlyRepresentablePowersOfTen.size :=
      Nat.lt_succ_of_le hfast.2
    simpa only [decide_eq_true_eq] using fast_eq hM hq (hq.coef_pos hM) hfast.1 hsize
  case isFalse =>
    dsimp only
    rw [int_of_sign_natAbs, Float.Model.ofScientific, ofScientific_slow hM hE hq]

/-- A decimal in the interval of a number is read as the number. -/
theorem ofFloat?_ofDecimal (hM : IsCanonical M E) (hE : E ≤ 971) (hq : ReadsAs (m * 10 ^ e) M E) :
    Dyadic.ofFloat? (ofDecimal m e) = some ⟨false, M, E⟩ := by
  have hm := hq.coef_pos hM
  obtain ⟨hlow, hhigh⟩ := hq.lead_bounds hM hE
  have hguard : ¬ ((m = 0 || e + (Nat.toDigits 10 m).length < -400) = true) := by
    simp [hm.ne', hlow]
  rw [ofDecimal, if_neg hguard, if_neg (not_lt.2 hhigh), ofScientific_eq hM hE hq]
  exact ofFloat?_pack hM hE false

end Decimals

end Hantec.Number
