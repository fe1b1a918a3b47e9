import Hantec.Run.Machine

/-!
# Times

A time is a number that is not negative. The sum of two times is a time, and no script waits for
less than no time, so a clock that is set to the end of a wait shows a time.
-/

namespace Hantec

open Float.Model (Format UnpackedFloat)
open Float.Model.UnpackedFloat

/-- A number with a sign, where zero has both of them. -/
inductive HasSign (σ : Sign) : UnpackedFloat → Prop where
  | infinity : HasSign σ (.infinity σ)
  | zero (τ : Sign) : HasSign σ (.zero τ)
  | finite (m : Nat) (e : Int) (h : 0 < m) : HasSign σ (.finite σ m e h)

namespace HasSign

variable {σ : Sign} {u v : UnpackedFloat}

theorem ofDite {p : Prop} [Decidable p] {a : p → UnpackedFloat} {b : ¬p → UnpackedFloat}
    (ha : ∀ h, HasSign σ (a h)) (hb : ∀ h, HasSign σ (b h)) : HasSign σ (dite p a b) := by
  by_cases h : p
  · rw [dif_pos h]
    exact ha h
  · rw [dif_neg h]
    exact hb h

theorem ofIte {p : Prop} [Decidable p] (hu : HasSign σ u) (hv : HasSign σ v) :
    HasSign σ (if p then u else v) :=
  ofDite (fun _ => hu) fun _ => hv

/-! ## Packing -/

theorem sign_packComponents (e : BitVec Format.binary64.exponentBits)
    (m : BitVec Format.binary64.mantissaBitsWithoutImplicit) :
    Sign.ofBitVec (unpackSign (packComponents .binary64 σ e m)) = σ := by
  have hsign : unpackSign (packComponents .binary64 σ e m) = σ.toBitVec := by
    change (σ.toBitVec ++ e ++ m).extractLsb' 63 1 = σ.toBitVec
    rw [BitVec.extractLsb'_append_eq_of_le (by decide),
      BitVec.extractLsb'_append_eq_of_le (by decide)]
    exact BitVec.extractLsb'_eq_self
  rw [hsign]
  cases σ <;> rfl

theorem unpack_packComponents {e : BitVec Format.binary64.exponentBits}
    {m : BitVec Format.binary64.mantissaBitsWithoutImplicit}
    (h : e = -1#_ → m = 0#_) :
    HasSign σ (unpack .binary64 (packComponents .binary64 σ e m)) := by
  have hm : unpackMantissa (packComponents .binary64 σ e m) = m := unpackMantissa_packComponents
  have he : unpackExponent (packComponents .binary64 σ e m) = e := unpackExponent_packComponents
  have hσ : Sign.ofBitVec (unpackSign (packComponents .binary64 σ e m)) = σ :=
    sign_packComponents e m
  generalize packComponents .binary64 σ e m = x at hm he hσ
  subst hσ
  unfold unpack
  dsimp only
  by_cases hall : unpackExponent x = -1#_
  · rw [if_pos hall, if_pos (hm.trans (h (he.symm.trans hall)))]
    exact .infinity
  · rw [if_neg hall]
    exact ofIte (ofDite (fun _ => .zero _) fun _ => .finite _ _ _) (.finite _ _ _)

theorem unpack_pack (h : HasSign σ u) : HasSign σ (unpack .binary64 (pack .binary64 u)) := by
  cases h with
  | infinity => exact unpack_packComponents fun _ => rfl
  | zero τ =>
    have hzero : unpack .binary64 (pack .binary64 (.zero τ)) = .zero τ := by
      cases τ <;> rfl
    rw [hzero]
    exact .zero τ
  | finite m e hm =>
    unfold pack
    dsimp only
    split
    · exact unpack_packComponents fun _ => rfl
    · rename_i hsmall
      split
      · -- The exponent is below the one of infinity.
        refine unpack_packComponents fun he => ?_
        have hval : _ % 2 ^ 11 = 2 ^ 11 - 1 := congrArg BitVec.toNat he
        have hlt : _ + 1 < 2 ^ 11 := Nat.not_le.mp hsmall
        rw [Nat.mod_eq_of_lt (Nat.lt_of_succ_lt hlt)] at hval
        omega
      · exact unpack_packComponents fun he => absurd he (by decide)

/-! ## Arithmetic -/

theorem roundWithAccuracy (m : Nat) (e : Int) (a : Accuracy) :
    HasSign σ (UnpackedFloat.roundWithAccuracy .binary64 σ m e a) := by
  unfold UnpackedFloat.roundWithAccuracy
  dsimp only
  exact ofDite (fun _ => .zero σ) fun _ => .finite _ _ _

theorem add (hu : HasSign .positive u) (hv : HasSign .positive v) :
    HasSign .positive (UnpackedFloat.add .binary64 u v) := by
  cases hu with
  | infinity => cases hv <;> exact .infinity
  | zero σ =>
    cases hv with
    | infinity => exact .infinity
    | zero τ => cases σ <;> cases τ <;> exact .zero _
    | finite m e h => exact .finite m e h
  | finite m e h =>
    cases hv with
    | infinity => exact .infinity
    | zero τ => exact .finite m e h
    | finite m' e' h' =>
      unfold UnpackedFloat.add UnpackedFloat.normalize
      dsimp only [Sign.apply]
      split
      · -- The sum of two positive mantissas is not negative.
        rename_i hneg
        have hlt := Int.compare_eq_lt.mp hneg
        omega
      · exact .zero _
      · exact roundWithAccuracy _ _ _

/-- A quotient by a positive number has the sign of what is divided. -/
theorem div (hu : HasSign σ u) (m : Nat) (e : Int) (hm : 0 < m) :
    HasSign σ (UnpackedFloat.div .binary64 u (.finite .positive m e hm)) := by
  cases hu with
  | infinity => cases σ <;> exact .infinity
  | zero τ => exact .zero _
  | finite m' e' h' =>
    cases σ <;> exact roundWithAccuracy _ _ _

theorem exists_of_ne_notANumber (h : u ≠ .notANumber) : ∃ σ, HasSign σ u := by
  cases u with
  | infinity σ => exact ⟨σ, .infinity⟩
  | notANumber => exact absurd rfl h
  | zero τ => exact ⟨τ, .zero τ⟩
  | finite σ m e hm => exact ⟨σ, .finite m e hm⟩

end HasSign

/-! ## Times -/

variable {x y : Float}

/-- A time is a number of positive sign. -/
theorem zero_le_iff_hasSign : 0 ≤ x ↔ HasSign .positive x.toModel.unpack := by
  have hle : 0 ≤ x ↔ UnpackedFloat.le (.zero .positive) x.toModel.unpack = true := by
    show decide _ = true ↔ _
    rw [decide_eq_true_iff]
    exact Iff.rfl
  rw [hle]
  generalize x.toModel.unpack = u
  constructor
  · intro h
    cases u with
    | infinity σ =>
      cases σ with
      | negative => cases h
      | positive => exact .infinity
    | notANumber => cases h
    | zero τ => exact .zero τ
    | finite σ m e hm =>
      cases σ with
      | negative => cases h
      | positive => exact .finite m e hm
  · intro h
    cases h <;> rfl

theorem zero_le_add (hx : 0 ≤ x) (hy : 0 ≤ y) : 0 ≤ x + y := by
  rw [zero_le_iff_hasSign] at hx hy ⊢
  exact (hx.add hy).unpack_pack

theorem le_self_of_zero_le (hx : 0 ≤ x) : x ≤ x := by
  rw [zero_le_iff_hasSign] at hx
  have hle : UnpackedFloat.le x.toModel.unpack x.toModel.unpack = true := by
    generalize x.toModel.unpack = u at hx
    cases hx with
    | infinity => rfl
    | zero τ => rfl
    | finite m e h =>
      have hcompare : UnpackedFloat.compare (.finite .positive m e h) (.finite .positive m e h) =
          some ((compare e e).then (compare m m)) := rfl
      rw [UnpackedFloat.le, hcompare]
      simp
  show decide _ = true
  rw [decide_eq_true_iff]
  exact hle

/-- What is positive when it is divided by a thousand is not negative. -/
theorem zero_le_of_div (h : x / 1000 > 0) : 0 ≤ x := by
  have hlt : UnpackedFloat.lt (.zero .positive) (x / 1000).toModel.unpack = true := by
    have h : decide ((0 : Float).toModel < (x / 1000).toModel) = true := h
    exact decide_eq_true_iff.mp h
  obtain ⟨m, e, hm, hthousand⟩ : ∃ m e hm, (1000 : Float).toModel.unpack =
      .finite .positive m e hm := ⟨_, _, _, rfl⟩
  have hquotient : (x / 1000).toModel.unpack = unpack .binary64 (pack .binary64
      (UnpackedFloat.div .binary64 x.toModel.unpack (.finite .positive m e hm))) := by
    rw [← hthousand]
    rfl
  rw [hquotient] at hlt
  rw [zero_le_iff_hasSign]
  by_cases hnan : x.toModel.unpack = .notANumber
  · have hdiv : UnpackedFloat.div .binary64 .notANumber (.finite .positive m e hm) =
        .notANumber := rfl
    rw [hnan, hdiv] at hlt
    exact absurd hlt (by decide)
  · obtain ⟨σ, hσ⟩ := HasSign.exists_of_ne_notANumber hnan
    cases σ with
    | positive => exact hσ
    | negative =>
      have hneg := (hσ.div m e hm).unpack_pack
      generalize unpack .binary64 _ = v at hneg hlt
      cases hneg <;> cases hlt

theorem zero_le_worker : 0 ≤ Delay.worker.length := by decide

/-- No sleep takes less than no time. -/
theorem zero_le_sleepDelay (ms : Float) : 0 ≤ (sleepDelay ms).length := by
  unfold sleepDelay
  split
  · rename_i h
    exact zero_le_of_div h
  · decide

/-- No loader lets a program wait for less than no time. -/
theorem Loader.zero_le_of_mem_waits (l : Loader) {path : String} {d : Delay}
    (h : d ∈ l.waits path) : 0 ≤ d.length := by
  unfold waits at h
  split at h
  case h_3 =>
    obtain ⟨ms, -, rfl⟩ := List.mem_map.1 h
    exact zero_le_sleepDelay ms
  all_goals
    obtain rfl : d = .worker := by grind
    exact zero_le_worker

end Hantec
