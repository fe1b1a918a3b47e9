import Mathlib

/-!
# Rounding to the nearest number

The numbers of the language are rounded results. A rational that is to be rounded is given by a
mantissa with two further bits, which tell whether the rest is below a half, a half, or above it.
Every rational in the interval around a number is rounded to that number: the interval ends half way
to the neighbours of the number, and the ends belong to it if the mantissa is even.
-/

namespace Hantec.Number

open Float.Model Float.Model.UnpackedFloat

/-! ## Mantissas with two further bits -/

/-- The mantissa stands for a rational: the bits tell its next half and if something is left. -/
def Represents (em : ExtendedMantissa) (y : ℚ) : Prop :=
  ∃ δ : ℚ, 0 ≤ δ ∧ δ < 1 / 2 ∧ y = em.mantissa + (if em.roundBit then 1 / 2 else 0) + δ ∧
    (em.stickyBit = true ↔ δ ≠ 0)

namespace Represents

variable {em : ExtendedMantissa} {y : ℚ}

theorem exact (m : ℕ) : Represents (.ofMantissaAndAccuracy m .exact) m := by
  refine ⟨0, le_rfl, by norm_num, ?_, ?_⟩ <;> simp [ExtendedMantissa.ofMantissaAndAccuracy]

theorem fraction (m : ℕ) {num den : ℕ} (h : num < den) :
    Represents (.ofMantissaAndAccuracy m (accuracyOfFraction num den)) (m + num / den) := by
  have hden : (0 : ℚ) < den := by exact_mod_cast Nat.zero_lt_of_lt h
  by_cases hnum : num = 0
  · subst hnum
    simpa [accuracyOfFraction] using exact m
  have hpos : (0 : ℚ) < num / den := div_pos (by exact_mod_cast Nat.pos_of_ne_zero hnum) hden
  rw [accuracyOfFraction, if_neg hnum]
  cases horder : compare (2 * num) den with
  | lt =>
    have hlt : (2 * num : ℚ) < den := by exact_mod_cast Nat.compare_eq_lt.1 horder
    refine ⟨num / den, hpos.le, ?_, ?_, ?_⟩
    · rw [div_lt_div_iff₀ hden two_pos]
      linarith
    · simp [ExtendedMantissa.ofMantissaAndAccuracy]
    · simp [ExtendedMantissa.ofMantissaAndAccuracy, hpos.ne']
  | eq =>
    have heq : (2 * num : ℚ) = den := by exact_mod_cast Nat.compare_eq_eq.1 horder
    refine ⟨0, le_rfl, by norm_num, ?_, ?_⟩
    · simp only [ExtendedMantissa.ofMantissaAndAccuracy, if_true, add_zero, add_right_inj]
      rw [div_eq_div_iff hden.ne' two_ne_zero]
      linarith
    · simp [ExtendedMantissa.ofMantissaAndAccuracy]
  | gt =>
    have hgt : (den : ℚ) < 2 * num := by exact_mod_cast Nat.compare_eq_gt.1 horder
    have hhalf : 1 / 2 < (num : ℚ) / den := by
      rw [div_lt_div_iff₀ two_pos hden]
      linarith
    have hone : (num : ℚ) / den < 1 := by
      rw [div_lt_one hden]
      exact_mod_cast h
    refine ⟨num / den - 1 / 2, by linarith, by linarith, ?_, ?_⟩
    · simp only [ExtendedMantissa.ofMantissaAndAccuracy, if_true]
      ring
    · simp only [ExtendedMantissa.ofMantissaAndAccuracy, true_iff]
      exact (sub_pos.2 hhalf).ne'

theorem mantissa_le (h : Represents em y) : (em.mantissa : ℚ) ≤ y := by
  obtain ⟨δ, hδ, -, rfl, -⟩ := h
  split <;> linarith

theorem lt_mantissa_add_one (h : Represents em y) : y < em.mantissa + 1 := by
  obtain ⟨δ, -, hδ, rfl, -⟩ := h
  split <;> linarith

/-- What is shifted out is kept in the bits as far as it matters. -/
theorem shiftRightOne (h : Represents em y) : Represents em.shiftRightOne (y / 2) := by
  obtain ⟨δ, hδ, hlt, rfl, hsticky⟩ := h
  have hm : (em.mantissa : ℚ) = 2 * (em.mantissa / 2 : ℕ) + (em.mantissa % 2 : ℕ) := by
    exact_mod_cast (Nat.div_add_mod em.mantissa 2).symm
  -- The old bit becomes a quarter of the new mantissa, so it belongs to the rest.
  refine ⟨(if em.roundBit then 1 / 4 else 0) + δ / 2, ?_, ?_, ?_, ?_⟩
  · split <;> linarith
  · split <;> linarith
  · simp only [ExtendedMantissa.shiftRightOne]
    rcases Nat.mod_two_eq_zero_or_one em.mantissa with hmod | hmod <;>
      cases em.roundBit <;> simp [hm, hmod] <;> ring
  · simp only [ExtendedMantissa.shiftRightOne, Bool.or_eq_true, hsticky]
    cases em.roundBit with
    | true =>
      simp only [true_or, if_true, true_iff]
      linarith
    | false => simp

theorem shiftRight (h : Represents em y) (n : ℕ) : Represents (em >>> n) (y / 2 ^ n) := by
  show Represents (n.repeat ExtendedMantissa.shiftRightOne em) _
  induction n with
  | zero => simpa [Nat.repeat] using h
  | succ n ih =>
    rw [Nat.repeat, pow_succ, ← div_div]
    exact ih.shiftRightOne

/-- The rounded mantissa is the only whole number that is as near to the rational as that. -/
theorem roundedMantissa_eq (h : Represents em y) {n : ℕ} (hlow : (n : ℚ) - 1 / 2 ≤ y)
    (hhigh : y ≤ n + 1 / 2)
    (hodd : n % 2 = 1 → (n : ℚ) - 1 / 2 < y ∧ y < n + 1 / 2) : em.roundedMantissa = n := by
  obtain ⟨δ, hδ, hlt, rfl, hsticky⟩ := h
  obtain ⟨m, round, sticky⟩ := em
  have hle {a b : ℕ} (hab : (a : ℚ) < b + 1) : a ≤ b := by
    have : a < b + 1 := by exact_mod_cast hab
    omega
  cases round with
  | false =>
    simp only [Bool.false_eq_true, if_false, add_zero] at hlow hhigh
    -- Below the half it is the mantissa itself, whatever the rest is.
    have hmn : m ≤ n := hle (by linarith)
    have hnm : n ≤ m := hle (by linarith)
    obtain rfl : m = n := le_antisymm hmn hnm
    cases sticky <;> rfl
  | true =>
    simp only [if_true] at hlow hhigh hodd
    have hmn : m ≤ n := hle (by linarith)
    cases sticky with
    | false =>
      obtain rfl : δ = 0 := by simpa using hsticky
      have hnm : n ≤ m + 1 := hle (by push_cast; linarith)
      have heven : n % 2 = 0 := by
        refine (Nat.mod_two_eq_zero_or_one n).resolve_right fun hn => ?_
        obtain ⟨h₁, h₂⟩ := hodd hn
        have h₁ : (n : ℚ) < m + 1 := by linarith
        have h₂ : (m : ℚ) < n := by linarith
        have h₁ := hle h₁
        have h₂ : m < n := by exact_mod_cast h₂
        omega
      show m + m % 2 = n
      omega
    | true =>
      have hδ : 0 < δ := lt_of_le_of_ne hδ (Ne.symm (hsticky.1 rfl))
      have hnm : n ≤ m + 1 := hle (by push_cast; linarith)
      have hlt : (m : ℚ) < n := by linarith
      have hlt : m < n := by exact_mod_cast hlt
      show m + 1 = n
      omega

end Represents

/-! ## The interval of a number -/

/-- How far below a number the rationals are rounded to it, by its parts and as a fraction of the
distance to the next number above. Below a power of two the numbers stand twice as close. -/
def gap (m : ℕ) (e : ℤ) : ℚ := if m = 2 ^ 52 ∧ e ≠ -1074 then 1 / 4 else 1 / 2

structure ReadsAs (q : ℚ) (m : ℕ) (e : ℤ) : Prop where
  low : (m - gap m e) * 2 ^ e ≤ q
  high : q ≤ (m + 1 / 2) * 2 ^ e
  odd : m % 2 = 1 → (m - gap m e) * 2 ^ e < q ∧ q < (m + 1 / 2) * 2 ^ e

/-- The parts of a positive number: the mantissa has 53 bits, or the exponent is the least one. -/
structure IsCanonical (m : ℕ) (e : ℤ) : Prop where
  pos : 0 < m
  lt : m < 2 ^ 53
  min_le : -1074 ≤ e
  normal : e ≠ -1074 → 2 ^ 52 ≤ m

theorem targetExponent_binary64 (t : ℤ) :
    Format.binary64.targetExponent t = max (t - 53) (-1074) := by
  simp only [Format.targetExponent]
  rfl

theorem gap_le (m : ℕ) (e : ℤ) : gap m e ≤ 1 / 2 := by
  unfold gap
  split <;> norm_num

/-! ## The exponent of a rounded result -/

section Target

variable {m : ℕ} {e k : ℤ} {q : ℚ}

/-- The rational lies between a mantissa and the next one, and the mantissa has enough bits. -/
structure Located (q : ℚ) (m : ℕ) (e : ℤ) : Prop where
  low : m * 2 ^ e ≤ q
  high : q < (m + 1) * 2 ^ e
  fine : e ≤ Format.binary64.targetExponent (totalExponent m e)

theorem two_pow_log2_le (hm : m ≠ 0) (e : ℤ) : (2 : ℚ) ^ ((m.log2 : ℤ) + e) ≤ m * 2 ^ e := by
  rw [zpow_add₀ two_ne_zero, zpow_natCast]
  gcongr
  exact_mod_cast Nat.log2_self_le hm

theorem lt_two_pow_log2 (m : ℕ) (e : ℤ) : (m + 1) * (2 : ℚ) ^ e ≤ 2 ^ ((m.log2 : ℤ) + 1 + e) := by
  have hlt : ((m + 1 : ℕ) : ℚ) ≤ 2 ^ (m.log2 + 1) := by exact_mod_cast Nat.lt_log2_self
  rw [zpow_add₀ two_ne_zero]
  gcongr
  exact_mod_cast hlt

/-- Without a mantissa the result has the least exponent. -/
theorem Located.le_of_mantissa_eq_zero (h : Located q 0 e) : e ≤ -1074 := by
  have hfine := h.fine
  rw [targetExponent_binary64, totalExponent] at hfine
  simp at hfine
  omega

theorem Located.target_le (h : Located q m e) (hq : q < 2 ^ k) (hk : -1074 ≤ k - 53) :
    Format.binary64.targetExponent (totalExponent m e) ≤ k - 53 := by
  rw [targetExponent_binary64, totalExponent]
  by_cases hm : m = 0
  · subst hm
    have := h.le_of_mantissa_eq_zero
    simp
    omega
  · have hlt : (m.log2 : ℤ) + e < k := by
      rw [← zpow_lt_zpow_iff_right₀ (one_lt_two : (1 : ℚ) < 2)]
      exact ((two_pow_log2_le hm e).trans h.low).trans_lt hq
    omega

theorem Located.le_target (h : Located q m e) (hq : 2 ^ k ≤ q) :
    k - 52 ≤ Format.binary64.targetExponent (totalExponent m e) := by
  have hlt : k < (m.log2 : ℤ) + 1 + e := by
    rw [← zpow_lt_zpow_iff_right₀ (one_lt_two : (1 : ℚ) < 2)]
    exact hq.trans_lt (h.high.trans_le (lt_two_pow_log2 m e))
  rw [targetExponent_binary64, totalExponent]
  omega

end Target

/-! ## Rounding -/

section Rounding

variable {m M : ℕ} {e E : ℤ} {q : ℚ}

theorem shiftToTargetExponent_of_lt (hm : m < 2 ^ 53) (he : -1074 ≤ e) :
    shiftToTargetExponent Format.binary64 m e .exact = (⟨m, false, false⟩, e) := by
  have hlog : m.log2 ≤ 52 := by
    by_cases h : m = 0
    · simp [h]
    · have := (Nat.log2_lt h).2 hm
      omega
  have hshift : (Format.binary64.targetExponent (totalExponent m e) - e).toNat = 0 := by
    rw [targetExponent_binary64, totalExponent]
    omega
  rw [shiftToTargetExponent, shiftToExponent, hshift]
  simp only [Nat.cast_zero, add_zero]
  rfl

/-- A mantissa that was rounded up to a power of two is halved. -/
theorem shiftToTargetExponent_two_pow (he : -1074 ≤ e) :
    shiftToTargetExponent Format.binary64 (2 ^ 53) e .exact = (⟨2 ^ 52, false, false⟩, e + 1) := by
  have hshift :
      (Format.binary64.targetExponent (totalExponent (2 ^ 53) e) - e).toNat = 1 := by
    rw [targetExponent_binary64, totalExponent, Nat.log2_two_pow]
    omega
  rw [shiftToTargetExponent, shiftToExponent, hshift]
  rfl

theorem IsCanonical.lt_two_zpow (hM : IsCanonical M E) (hq : ReadsAs q M E) : q < 2 ^ (53 + E) := by
  have hle : (M : ℚ) + 1 ≤ 2 ^ 53 := by exact_mod_cast hM.lt
  rw [zpow_add₀ two_ne_zero, zpow_ofNat]
  refine hq.high.trans_lt (mul_lt_mul_of_pos_right ?_ (by positivity))
  linarith

/-- A rational in the interval of a number has the exponent of the number, except below a power of
two, where it has the next smaller one. -/
theorem target_cases (hM : IsCanonical M E) (hq : ReadsAs q M E) (h : Located q m e) :
    Format.binary64.targetExponent (totalExponent m e) = E ∨
    Format.binary64.targetExponent (totalExponent m e) = E - 1 ∧ M = 2 ^ 52 ∧ E ≠ -1074 ∧
      q < 2 ^ 52 * 2 ^ E := by
  have hmin := hM.min_le
  have hle := h.target_le (hM.lt_two_zpow hq) (by omega)
  by_cases hE : E = -1074
  · left
    have hge : -1074 ≤ Format.binary64.targetExponent (totalExponent m e) := by
      rw [targetExponent_binary64]
      omega
    omega
  have hnormal := hM.normal hE
  by_cases hbig : (2 : ℚ) ^ 52 * 2 ^ E ≤ q
  · left
    have hge := h.le_target (k := 52 + E) (by rw [zpow_add₀ two_ne_zero]; exact_mod_cast hbig)
    omega
  · right
    have hpos : (0 : ℚ) < 2 ^ E := by positivity
    have hsmall : (M - gap M E) * 2 ^ E < 2 ^ 52 * 2 ^ E := hq.low.trans_lt (not_le.1 hbig)
    have hsmall := lt_of_mul_lt_mul_right hsmall hpos.le
    have hM52 : M = 2 ^ 52 := by
      have hgap := gap_le M E
      have hlt : (M : ℚ) < 2 ^ 52 + 1 := by linarith
      have hlt : M < 2 ^ 52 + 1 := by exact_mod_cast hlt
      omega
    refine ⟨?_, hM52, hE, not_le.1 hbig⟩
    have hlow := hq.low
    rw [hM52, gap, if_pos ⟨rfl, hE⟩] at hlow
    have hge := h.le_target (k := 51 + E) <| by
      rw [zpow_add₀ two_ne_zero]
      refine le_trans (mul_le_mul_of_nonneg_right ?_ hpos.le) hlow
      norm_num
    have hlt := h.target_le (k := 52 + E)
      (by rw [zpow_add₀ two_ne_zero]; exact_mod_cast not_le.1 hbig) (by omega)
    omega

/-- The first shift leads to the exponent of the result. -/
theorem Represents.shiftToTargetExponent {acc : Accuracy}
    (hrep : Represents (.ofMantissaAndAccuracy m acc) (q / 2 ^ e))
    (hfine : e ≤ Format.binary64.targetExponent (totalExponent m e)) :
    ∃ em, shiftToTargetExponent Format.binary64 m e acc =
        (em, Format.binary64.targetExponent (totalExponent m e)) ∧
      Represents em (q / 2 ^ Format.binary64.targetExponent (totalExponent m e)) := by
  generalize hT : Format.binary64.targetExponent (totalExponent m e) = T at *
  have hsum : e + ((T - e).toNat : ℤ) = T := by omega
  refine ⟨ExtendedMantissa.ofMantissaAndAccuracy m acc >>> (T - e).toNat, ?_, ?_⟩
  · rw [UnpackedFloat.shiftToTargetExponent, shiftToExponent, hT, hsum]
  · have hshift := hrep.shiftRight (T - e).toNat
    rwa [div_div, ← zpow_natCast, ← zpow_add₀ two_ne_zero, hsum] at hshift

theorem Represents.located {acc : Accuracy}
    (hrep : Represents (.ofMantissaAndAccuracy m acc) (q / 2 ^ e))
    (hfine : e ≤ Format.binary64.targetExponent (totalExponent m e)) : Located q m e := by
  have hpos : (0 : ℚ) < 2 ^ e := by positivity
  have hmantissa : (ExtendedMantissa.ofMantissaAndAccuracy m acc).mantissa = m := by
    cases acc with
    | exact => rfl
    | inexact order => cases order <;> rfl
  refine ⟨?_, ?_, hfine⟩
  · rw [← le_div_iff₀ hpos, ← hmantissa]
    exact hrep.mantissa_le
  · rw [← div_lt_iff₀ hpos, ← hmantissa]
    exact hrep.lt_mantissa_add_one

theorem ReadsAs.roundedMantissa_eq (hq : ReadsAs q M E) {em : ExtendedMantissa}
    (hem : Represents em (q / 2 ^ E)) : em.roundedMantissa = M := by
  have hpos : (0 : ℚ) < 2 ^ E := by positivity
  have hgap := gap_le M E
  refine hem.roundedMantissa_eq ?_ ?_ fun hodd => ⟨?_, ?_⟩
  · rw [le_div_iff₀ hpos]
    exact (mul_le_mul_of_nonneg_right (by linarith) hpos.le).trans hq.low
  · rw [div_le_iff₀ hpos]
    exact hq.high
  · rw [lt_div_iff₀ hpos]
    exact (mul_le_mul_of_nonneg_right (by linarith) hpos.le).trans_lt (hq.odd hodd).1
  · rw [div_lt_iff₀ hpos]
    exact (hq.odd hodd).2

/-- Below a power of two the mantissa is rounded up to the next one. -/
theorem ReadsAs.roundedMantissa_eq_two_pow (hq : ReadsAs q (2 ^ 52) E) (hE : E ≠ -1074)
    (hlt : q < 2 ^ 52 * 2 ^ E) {em : ExtendedMantissa} (hem : Represents em (q / 2 ^ (E - 1))) :
    em.roundedMantissa = 2 ^ 53 := by
  have hpos : (0 : ℚ) < 2 ^ (E - 1) := by positivity
  have hlow := hq.low
  have htwo : (2 : ℚ) ^ E = 2 * 2 ^ (E - 1) := by
    rw [← zpow_one_add₀ two_ne_zero, add_sub_cancel]
  rw [gap, if_pos ⟨rfl, hE⟩, htwo] at hlow
  rw [htwo] at hlt
  refine hem.roundedMantissa_eq ?_ ?_ fun hodd => ?_
  · rw [le_div_iff₀ hpos]
    refine le_trans (le_of_eq ?_) hlow
    push_cast
    ring
  · rw [div_le_iff₀ hpos]
    push_cast
    linarith
  · norm_num at hodd

/-- What lies in the interval of a number is rounded to it. -/
theorem roundWithAccuracy_eq {acc : Accuracy} (hM : IsCanonical M E) (hq : ReadsAs q M E)
    (hrep : Represents (.ofMantissaAndAccuracy m acc) (q / 2 ^ e))
    (hfine : e ≤ Format.binary64.targetExponent (totalExponent m e)) (s : Sign) :
    roundWithAccuracy Format.binary64 s m e acc = .finite s M E hM.pos := by
  have hmin := hM.min_le
  have htarget := target_cases hM hq (hrep.located hfine)
  obtain ⟨em, hfirst, hem⟩ := hrep.shiftToTargetExponent hfine
  generalize Format.binary64.targetExponent (totalExponent m e) = T at *
  rw [roundWithAccuracy, hfirst]
  rcases htarget with rfl | ⟨rfl, rfl, hE, hlt⟩
  · simp only [hq.roundedMantissa_eq hem, shiftToTargetExponent_of_lt hM.lt hmin, hM.pos.ne',
      dite_false]
  · simp only [hq.roundedMantissa_eq_two_pow hE hlt hem,
      shiftToTargetExponent_two_pow (show -1074 ≤ E - 1 by omega)]
    simp

/-! ## Products and quotients -/

variable {m₁ m₂ : ℕ} {e₁ e₂ : ℤ} {h₁ : 0 < m₁} {h₂ : 0 < m₂} {s₁ s₂ : Sign}

theorem le_target_of_two_pow_le (hm : 2 ^ 52 ≤ m) (e : ℤ) :
    e ≤ Format.binary64.targetExponent (totalExponent m e) := by
  have hlog : 52 ≤ m.log2 := (Nat.le_log2 (by omega)).2 hm
  rw [targetExponent_binary64, totalExponent]
  omega

theorem mul_eq_finite (hM : IsCanonical M E)
    (hq : ReadsAs (m₁ * 2 ^ e₁ * (m₂ * 2 ^ e₂)) M E) (hm : 2 ^ 52 ≤ m₁ * m₂) :
    UnpackedFloat.mul Format.binary64 (.finite s₁ m₁ e₁ h₁) (.finite s₂ m₂ e₂ h₂) =
      .finite (s₁ * s₂) M E hM.pos := by
  refine roundWithAccuracy_eq hM hq ?_ (le_target_of_two_pow_le hm _) _
  have hvalue : (m₁ * 2 ^ e₁ * (m₂ * 2 ^ e₂)) / 2 ^ (e₁ + e₂) = ((m₁ * m₂ : ℕ) : ℚ) := by
    rw [zpow_add₀ two_ne_zero]
    push_cast
    field_simp
  rw [hvalue]
  exact .exact _

/-- The quotient has enough bits, or its exponent is the least one. -/
theorem divCore_fine (h₁ : 0 < m₁) (h₂ : 0 < m₂) (e₁ e₂ : ℤ) :
    (divCore Format.binary64 m₁ e₁ m₂ e₂).2.1 ≤ Format.binary64.targetExponent
      (totalExponent (divCore Format.binary64 m₁ e₁ m₂ e₂).1
        (divCore Format.binary64 m₁ e₁ m₂ e₂).2.1) := by
  simp only [divCore]
  generalize ht : min (e₁ - e₂)
    (Format.binary64.targetExponent (totalExponent m₁ e₁ - totalExponent m₂ e₂)) = t
  rw [targetExponent_binary64, totalExponent, totalExponent] at ht
  by_cases hmin : t ≤ -1074
  · rw [targetExponent_binary64]
    omega
  refine le_target_of_two_pow_le ?_ t
  rw [Nat.shiftLeft_eq, Nat.le_div_iff_mul_le h₂]
  have hshift : 52 + (m₂.log2 + 1) ≤ m₁.log2 + (e₁ - e₂ - t).toNat := by omega
  calc
    2 ^ 52 * m₂ ≤ 2 ^ 52 * 2 ^ (m₂.log2 + 1) := Nat.mul_le_mul_left _ Nat.lt_log2_self.le
    _ = 2 ^ (52 + (m₂.log2 + 1)) := (Nat.pow_add ..).symm
    _ ≤ 2 ^ (m₁.log2 + (e₁ - e₂ - t).toNat) := Nat.pow_le_pow_right two_pos hshift
    _ = 2 ^ m₁.log2 * 2 ^ (e₁ - e₂ - t).toNat := Nat.pow_add ..
    _ ≤ m₁ * 2 ^ (e₁ - e₂ - t).toNat := Nat.mul_le_mul_right _ (Nat.log2_self_le h₁.ne')

theorem divCore_represents (h₂ : 0 < m₂) (m₁ : ℕ) (e₁ e₂ : ℤ) :
    Represents
      (.ofMantissaAndAccuracy (divCore Format.binary64 m₁ e₁ m₂ e₂).1
        (divCore Format.binary64 m₁ e₁ m₂ e₂).2.2)
      (m₁ * 2 ^ e₁ / (m₂ * 2 ^ e₂) / 2 ^ (divCore Format.binary64 m₁ e₁ m₂ e₂).2.1) := by
  simp only [divCore]
  generalize ht : min (e₁ - e₂)
    (Format.binary64.targetExponent (totalExponent m₁ e₁ - totalExponent m₂ e₂)) = t
  generalize hk : (e₁ - e₂ - t).toNat = k
  have hm₂ : (m₂ : ℚ) ≠ 0 := by exact_mod_cast h₂.ne'
  have hsum : e₁ = e₂ + t + k := by omega
  have hdiv : ((m₁ * 2 ^ k / m₂ : ℕ) : ℚ) * m₂ + (m₁ * 2 ^ k % m₂ : ℕ) = m₁ * 2 ^ k := by
    exact_mod_cast Nat.div_add_mod' (m₁ * 2 ^ k) m₂
  have hvalue : (m₁ * 2 ^ e₁ / (m₂ * 2 ^ e₂) / 2 ^ t : ℚ) =
      ((m₁ * 2 ^ k / m₂ : ℕ) : ℚ) + (m₁ * 2 ^ k % m₂ : ℕ) / m₂ := by
    rw [hsum, zpow_add₀ two_ne_zero, zpow_add₀ two_ne_zero, zpow_natCast]
    field_simp
    linarith
  rw [Nat.shiftLeft_eq, hvalue]
  exact .fraction _ (Nat.mod_lt _ h₂)

theorem div_eq_finite (hM : IsCanonical M E)
    (hq : ReadsAs (m₁ * 2 ^ e₁ / (m₂ * 2 ^ e₂)) M E) :
    UnpackedFloat.div Format.binary64 (.finite s₁ m₁ e₁ h₁) (.finite s₂ m₂ e₂ h₂) =
      .finite (s₁ / s₂) M E hM.pos :=
  roundWithAccuracy_eq hM hq (divCore_represents h₂ m₁ e₁ e₂) (divCore_fine h₁ h₂ e₁ e₂) _

end Rounding

end Hantec.Number
