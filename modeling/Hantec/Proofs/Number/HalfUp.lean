import Hantec.Proofs.Number.RoundTrip
import Hantec.Proofs.Policy.Machine

/-!
# Rounding half up

A number is rounded to a whole number by adding a half and taking the floor. The sum is rounded to
the nearest number, so the result can be too large by one. That happens for the greatest number
below a half and for the odd numbers between `2 ^ 52` and `2 ^ 53`, and for no other numbers.
-/

namespace Hantec

open Float.Model Float.Model.UnpackedFloat Number

/-- The rational with these parts. -/
def Dyadic.value (d : Dyadic) : ℚ := d.signed * 2 ^ d.exp

@[simp] theorem Dyadic.value_true (m : ℕ) (e : ℤ) : value ⟨true, m, e⟩ = -(m * 2 ^ e) := by
  simp [value, signed]

@[simp] theorem Dyadic.value_false (m : ℕ) (e : ℤ) : value ⟨false, m, e⟩ = m * 2 ^ e := by
  simp [value, signed]

namespace Number

variable {x : Float} {d : Dyadic} {m M a : ℕ} {e E b : ℤ} {q : ℚ}

/-- The rational is rounded to the number with these parts. -/
inductive RoundsTo : ℚ → Dyadic → Prop where
  | zero : RoundsTo 0 ⟨false, 0, -1074⟩
  | pos {q : ℚ} {M : ℕ} {E : ℤ} : IsCanonical M E → E ≤ 971 → ReadsAs q M E →
      RoundsTo q ⟨false, M, E⟩
  | neg {q : ℚ} {M : ℕ} {E : ℤ} : IsCanonical M E → E ≤ 971 → ReadsAs (-q) M E →
      RoundsTo q ⟨true, M, E⟩

/-! ## Sums -/

theorem ofFloat?_normalize {s : ℤ} (h : RoundsTo (s * 2 ^ e) d) :
    Dyadic.ofFloat? (.ofModel (.pack (UnpackedFloat.normalize Format.binary64 s e .positive))) =
      some d := by
  have hunit : (0 : ℚ) < 2 ^ e := by positivity
  generalize hq : (s * 2 ^ e : ℚ) = q at h
  rw [UnpackedFloat.normalize]
  cases h with
  | zero =>
    obtain rfl : s = 0 := by simpa [hunit.ne'] using hq
    show Dyadic.ofFloat? (.ofModel (.pack (.zero .positive))) = _
    decide +kernel
  | pos hM hE hreads =>
    rw [← hq] at hreads
    have hs : 0 < s := by exact_mod_cast pos_of_mul_pos_left (hreads.pos hM) hunit.le
    have habs : (s : ℚ) = s.toNat := by exact_mod_cast (Int.toNat_of_nonneg hs.le).symm
    rw [habs] at hreads
    rw [Int.compare_eq_gt.2 hs]
    dsimp only
    rw [round_eq hM hreads]
    exact ofFloat?_pack hM hE false
  | neg hM hE hreads =>
    rw [← hq, ← neg_mul] at hreads
    have hs : 0 < -(s : ℚ) := pos_of_mul_pos_left (hreads.pos hM) hunit.le
    have hs : s < 0 := by exact_mod_cast neg_pos.1 hs
    have habs : -(s : ℚ) = (-s).toNat := by
      exact_mod_cast (Int.toNat_of_nonneg (neg_nonneg.2 hs.le)).symm
    rw [habs] at hreads
    rw [Int.compare_eq_lt.2 hs]
    dsimp only
    rw [round_eq hM hreads]
    exact ofFloat?_pack hM hE true

theorem two_zpow_add (k : ℕ) (e : ℤ) : (2 : ℚ) ^ (k + e) = 2 ^ k * 2 ^ e := by
  rw [zpow_add₀ two_ne_zero, zpow_natCast]

theorem cast_decreaseExponent {t : ℤ} (m : ℕ) (ht : t ≤ e) :
    ((decreaseExponent m e t).1 : ℚ) * 2 ^ t = m * 2 ^ e := by
  have hsum : e = (e - t).toNat + t := by omega
  conv_rhs => rw [hsum, two_zpow_add, ← mul_assoc]
  rw [decreaseExponent, Nat.shiftLeft_eq]
  push_cast
  rfl

/-- Half of one is added and the sum is rounded. -/
theorem ofFloat?_add_half (h : Dyadic.ofFloat? x = some d) (hm : 0 < d.mant) {d' : Dyadic}
    (hd' : RoundsTo (d.value + 1 / 2) d') : Dyadic.ofFloat? (x + 0.5) = some d' := by
  have hhalf : (0.5 : Float).toModel.unpack = .finite .positive (2 ^ 52) (-53) (by decide) := rfl
  have hleft := cast_decreaseExponent d.mant (min_le_left d.exp (-53))
  have hright := cast_decreaseExponent (2 ^ 52) (min_le_right d.exp (-53))
  show Dyadic.ofFloat? (.ofModel (.pack (UnpackedFloat.add Format.binary64 x.toModel.unpack
    (0.5 : Float).toModel.unpack))) = some d'
  rw [unpack_of_mant_pos h hm, hhalf, UnpackedFloat.add]
  dsimp only
  generalize decreaseExponent d.mant d.exp (min d.exp (-53)) = k at *
  generalize decreaseExponent (2 ^ 52) (-53) (min d.exp (-53)) = l at *
  refine ofFloat?_normalize ?_
  have hsum : (((signOf d.neg).apply k.1 + Sign.positive.apply l.1 : ℤ) : ℚ) * 2 ^ min d.exp (-53) =
      d.value + 1 / 2 := by
    obtain ⟨neg, m, e⟩ := d
    norm_num at hright
    cases neg <;> simp [signOf, Sign.apply, add_mul, hleft, hright]
  exact hsum ▸ hd'

theorem ofFloat?_ofNat {n : ℕ} (hM : IsCanonical M E) (hE : E ≤ 971) (hn : ReadsAs n M E) :
    Dyadic.ofFloat? (Float.ofNat n) = some ⟨false, M, E⟩ := by
  have hread := ofScientific_eq (e := 0) hM hE (by simpa using hn)
  exact (congrArg Dyadic.ofFloat? hread).trans (ofFloat?_pack hM hE false)

theorem ofFloat?_ofInt {n : ℤ} (h : RoundsTo n d) : Dyadic.ofFloat? (Float.ofInt n) = some d := by
  generalize hq : (n : ℚ) = q at h
  cases h with
  | zero =>
    obtain rfl : n = 0 := by exact_mod_cast hq
    decide +kernel
  | pos hM hE hreads =>
    obtain ⟨k, rfl⟩ : ∃ k : ℕ, n = k := by
      have hn : (0 : ℚ) < n := hq ▸ hreads.pos hM
      exact Int.eq_ofNat_of_zero_le (by exact_mod_cast hn.le)
    exact ofFloat?_ofNat hM hE (by simpa [← hq] using hreads)
  | neg hM hE hreads =>
    have hpos := hreads.pos hM
    cases n with
    | ofNat k =>
      have hk : (0 : ℚ) ≤ k := by positivity
      rw [Int.ofNat_eq_natCast, Int.cast_natCast] at hq
      linarith
    | negSucc k =>
      rw [← hq, Int.cast_negSucc, neg_neg] at hreads
      exact ofFloat?_neg (ofFloat?_ofNat hM hE hreads) hM.pos

/-! ## Whole parts -/

theorem value_of_exp_nonneg (h : 0 ≤ d.exp) :
    d.value = (d.signed * Int.pow 2 d.exp.toNat : ℤ) := by
  rw [Dyadic.value]
  conv_lhs => rw [← Int.toNat_of_nonneg h, zpow_natCast]
  exact_mod_cast rfl

theorem floor_eq (d : Dyadic) : d.floor = ⌊d.value⌋ := by
  rw [Dyadic.floor]
  split
  case isTrue hexp => rw [value_of_exp_nonneg hexp, Int.floor_intCast]
  case isFalse hexp =>
    have hpow : Int.pow 2 (-d.exp).toNat = ((2 ^ (-d.exp).toNat : ℕ) : ℤ) := by
      push_cast
      rfl
    have hvalue : d.value = d.signed / (2 ^ (-d.exp).toNat : ℕ) := by
      have hneg : d.exp = -((-d.exp).toNat : ℤ) := by omega
      rw [Dyadic.value]
      conv_lhs => rw [hneg, zpow_neg, zpow_natCast, ← div_eq_mul_inv]
      push_cast
      rfl
    rw [hvalue, Rat.floor_intCast_div_natCast, hpow,
      Int.fdiv_eq_ediv_of_nonneg _ (Int.natCast_nonneg _)]

theorem abs_value (d : Dyadic) : |d.value| = d.mant * 2 ^ d.exp := by
  have hnonneg : (0 : ℚ) ≤ d.mant * 2 ^ d.exp := by positivity
  obtain ⟨neg, m, e⟩ := d
  cases neg
  · rw [Dyadic.value_false, abs_of_nonneg hnonneg]
  · rw [Dyadic.value_true, abs_neg, abs_of_nonneg hnonneg]

theorem abs_value_lt (hm : d.mant < 2 ^ 53) : |d.value| < 2 ^ (53 + d.exp) := by
  have hm : (d.mant : ℚ) < 2 ^ 53 := by exact_mod_cast hm
  calc |d.value| = d.mant * 2 ^ d.exp := abs_value d
    _ < 2 ^ 53 * 2 ^ d.exp := by gcongr
    _ = 2 ^ (53 + d.exp) := (two_zpow_add 53 d.exp).symm

theorem abs_value_lt_of_exp_neg (hm : d.mant < 2 ^ 53) (he : d.exp < 0) : |d.value| < 2 ^ 52 :=
  (abs_value_lt hm).trans_le <| by
    simpa using zpow_le_zpow_right₀ (one_le_two : (1 : ℚ) ≤ 2) (by omega : 53 + d.exp ≤ 52)

/-- The rational is rounded to a number that it is read as, up to the sign. -/
theorem exists_roundsTo {r : ℚ} (hM : IsCanonical M E) (hE : E ≤ 971) (hq : ReadsAs |q| M E)
    (hr : |r| = M * 2 ^ E) (hsign : r < 0 ↔ q < 0) : ∃ d, RoundsTo q d ∧ d.value = r := by
  by_cases hneg : q < 0
  · rw [abs_of_neg hneg] at hq
    rw [abs_of_neg (hsign.2 hneg)] at hr
    exact ⟨_, .neg hM hE hq, by rw [Dyadic.value_true, ← hr, neg_neg]⟩
  · rw [abs_of_nonneg (not_lt.1 hneg)] at hq
    rw [abs_of_nonneg (not_lt.1 (mt hsign.1 hneg))] at hr
    exact ⟨_, .pos hM hE hq, by rw [Dyadic.value_false, hr]⟩

theorem exists_roundsTo_self (hM : IsCanonical M E) (hE : E ≤ 971) (hq : |q| = M * 2 ^ E) :
    ∃ d, RoundsTo q d ∧ d.value = q :=
  exists_roundsTo hM hE (hq ▸ readsAs_self M E) hq Iff.rfl

/-- The floor of a number is a number. -/
theorem exists_ofFloat?_floor (h : Dyadic.ofFloat? x = some d) :
    ∃ d', Dyadic.ofFloat? (floor x) = some d' ∧ d'.value = ⌊d.value⌋ := by
  suffices hwhole : ∃ d', RoundsTo (⌊d.value⌋ : ℚ) d' ∧ d'.value = ⌊d.value⌋ by
    obtain ⟨d', hd', hvalue⟩ := hwhole
    refine ⟨d', ?_, hvalue⟩
    rw [floor, roundBy, h]
    dsimp only
    rw [floor_eq]
    exact ofFloat?_ofInt hd'
  obtain hzero | hne := eq_or_ne ⌊d.value⌋ 0
  · rw [hzero]
    exact ⟨_, by exact_mod_cast RoundsTo.zero, by simp⟩
  have hm : 0 < d.mant := by
    refine Nat.pos_of_ne_zero fun hm => hne ?_
    have hvalue : d.value = 0 := by rw [← abs_eq_zero, abs_value, hm, Nat.cast_zero, zero_mul]
    rw [hvalue, Int.floor_zero]
  obtain ⟨hd, hexp⟩ := isCanonical_of_ofFloat? h hm
  by_cases hsize : 0 ≤ d.exp
  · refine exists_roundsTo_self hd hexp ?_
    rw [← abs_value, value_of_exp_nonneg hsize, Int.floor_intCast]
  · have hlt := abs_lt.1 (abs_value_lt_of_exp_neg hd.lt (not_le.1 hsize))
    have hlow : -2 ^ 52 ≤ ⌊d.value⌋ := Int.le_floor.2 (by push_cast; exact hlt.1.le)
    have hhigh : ⌊d.value⌋ < 2 ^ 52 := Int.floor_lt.2 (by push_cast; exact hlt.2)
    obtain ⟨M, E, hM, hE, -, hvalue⟩ :=
      exists_isCanonical_whole (Int.natAbs_pos.2 hne) (show ⌊d.value⌋.natAbs < 2 ^ 53 by omega)
    refine exists_roundsTo_self hM (by omega) ?_
    rw [hvalue, Nat.cast_natAbs, Int.cast_abs]

/-! ## Nearest numbers -/

/-- A rational lies before another number if the number that it is read as does, and after it
likewise. -/
theorem ReadsAs.order_cases (hM : IsCanonical M E) (ha : IsCanonical a b) (hq : ReadsAs q M E) :
    q < a * 2 ^ b ∧ (M * 2 ^ E : ℚ) < a * 2 ^ b ∨ M = a ∧ E = b ∨
      (a + 1 / 2) * 2 ^ b ≤ q ∧ (a * 2 ^ b : ℚ) < M * 2 ^ E := by
  have hunit (k : ℤ) : (0 : ℚ) < 2 ^ k := by positivity
  have hgap (m : ℕ) (k : ℤ) : (m - gap m k) * 2 ^ k < m * 2 ^ k :=
    mul_lt_mul_of_pos_right (by linarith [gap_pos m k]) (hunit k)
  have hhalf (m : ℕ) (k : ℤ) : (m * 2 ^ k : ℚ) < (m + 1 / 2) * 2 ^ k :=
    mul_lt_mul_of_pos_right (by linarith) (hunit k)
  have hbefore (h : E < b ∨ E = b ∧ M < a) : q < a * 2 ^ b ∧ (M * 2 ^ E : ℚ) < a * 2 ^ b := by
    have hle := high_le_low hM ha h
    constructor <;> linarith [hq.high, hgap a b, hhalf M E]
  have hafter (h : b < E ∨ b = E ∧ a < M) :
      (a + 1 / 2) * 2 ^ b ≤ q ∧ (a * 2 ^ b : ℚ) < M * 2 ^ E := by
    have hle := high_le_low ha hM h
    constructor <;> linarith [hq.low, hgap M E, hhalf a b]
  rcases lt_trichotomy E b with hE | hE | hE
  · exact .inl (hbefore (.inl hE))
  · rcases lt_trichotomy M a with hM | hM | hM
    · exact .inl (hbefore (.inr ⟨hE, hM⟩))
    · exact .inr (.inl ⟨hM, hE⟩)
    · exact .inr (.inr (hafter (.inr ⟨hE.symm, hM⟩)))
  · exact .inr (.inr (hafter (.inl hE)))

theorem exists_nearest_even (hq : 1 ≤ q) : ∃ n : ℕ, 0 < n ∧ (n : ℚ) - 1 / 2 ≤ q ∧ q ≤ n + 1 / 2 ∧
    (n % 2 = 1 → (n : ℚ) - 1 / 2 < q ∧ q < n + 1 / 2) := by
  obtain ⟨n, hn⟩ : ∃ n : ℕ, ⌊q + 1 / 2⌋ = n :=
    Int.eq_ofNat_of_zero_le (Int.floor_nonneg.2 (by linarith))
  obtain ⟨hlow, hhigh⟩ := Int.floor_eq_iff.1 hn
  push_cast at hlow hhigh
  have hpos : 0 < n := by
    have : (0 : ℚ) < n := by linarith
    exact_mod_cast this
  by_cases htie : q = n - 1 / 2 ∧ n % 2 = 1
  · -- Half way below an odd number is half way above an even one.
    obtain ⟨hq', hodd⟩ := htie
    have hcast : ((n - 1 : ℕ) : ℚ) = n - 1 := by push_cast [Nat.cast_sub hpos]; rfl
    have hne : n ≠ 1 := by
      rintro rfl
      norm_num at hq'
      linarith
    refine ⟨n - 1, by omega, ?_, ?_, fun h => by omega⟩ <;> rw [hcast] <;> linarith
  · refine ⟨n, hpos, by linarith, by linarith, fun hodd => ⟨?_, by linarith⟩⟩
    exact lt_of_le_of_ne (by linarith) fun h => htie ⟨h.symm, hodd⟩

/-- What is nearest to a count of units is what the count of units is read as. -/
theorem readsAs_of_nearest {n : ℕ} {r : ℚ} (hnormal : E ≠ -1074 → 2 ^ 52 ≤ r)
    (hlow : n - 1 / 2 ≤ r) (hhigh : r ≤ n + 1 / 2)
    (hodd : n % 2 = 1 → (n : ℚ) - 1 / 2 < r ∧ r < n + 1 / 2) : ReadsAs (r * 2 ^ E) n E := by
  have hunit : (0 : ℚ) < 2 ^ E := by positivity
  have hgap : n - gap n E ≤ r ∧ (n % 2 = 1 → n - gap n E < r) := by
    unfold gap
    split
    case isTrue h =>
      have hr := hnormal h.2
      rw [h.1]
      exact ⟨by push_cast; linarith, fun hodd => by norm_num at hodd⟩
    case isFalse => exact ⟨hlow, fun h => (hodd h).1⟩
  refine ⟨?_, ?_, fun h => ⟨?_, ?_⟩⟩
  · exact mul_le_mul_of_nonneg_right hgap.1 hunit.le
  · exact mul_le_mul_of_nonneg_right hhigh hunit.le
  · exact mul_lt_mul_of_pos_right (hgap.2 h) hunit
  · exact mul_lt_mul_of_pos_right (hodd h).2 hunit

/-- The next power of two has another exponent. -/
theorem readsAs_next_power {r : ℚ} (hE : -1074 ≤ E) (hlow : 2 ^ 53 - 1 / 2 ≤ r)
    (hhigh : r ≤ 2 ^ 53 + 1 / 2) : ReadsAs (r * 2 ^ E) (2 ^ 52) (E + 1) := by
  have hunit : (0 : ℚ) < 2 ^ E := by positivity
  refine ⟨?_, ?_, fun hodd => by norm_num at hodd⟩
  · rw [gap, if_pos ⟨rfl, by omega⟩, zpow_add_one₀ two_ne_zero]
    push_cast
    nlinarith
  · rw [zpow_add_one₀ two_ne_zero]
    push_cast
    nlinarith

/-- A rational counts the units of an exponent: fewer than `2 ^ 53`, and at least `2 ^ 52` if the
exponent is not the least. -/
theorem exists_units (hlow : 2 ^ (-1074 : ℤ) ≤ q) (hhigh : q < 2 ^ (100 : ℤ)) :
    ∃ (r : ℚ) (E : ℤ), q = r * 2 ^ E ∧ -1074 ≤ E ∧ E < 100 ∧ 1 ≤ r ∧ r < 2 ^ 53 ∧
      (E ≠ -1074 → 2 ^ 52 ≤ r) := by
  have hpos : 0 < q := (by positivity : (0 : ℚ) < 2 ^ (-1074 : ℤ)).trans_le hlow
  obtain ⟨l, hl, hl'⟩ := exists_mem_Ico_zpow hpos one_lt_two
  have hl100 : l < 100 := (zpow_lt_zpow_iff_right₀ one_lt_two).1 (hl.trans_lt hhigh)
  obtain ⟨E, hE⟩ : ∃ E, E = max (l - 52) (-1074) := ⟨_, rfl⟩
  have hunit : (0 : ℚ) < 2 ^ E := by positivity
  refine ⟨q / 2 ^ E, E, (div_mul_cancel₀ q hunit.ne').symm, by omega, by omega, ?_, ?_,
    fun hne => ?_⟩
  · rw [one_le_div hunit]
    rcases max_cases (l - 52) (-1074) with ⟨h, -⟩ | ⟨h, -⟩
    · exact (zpow_le_zpow_right₀ one_le_two (by omega)).trans hl
    · rwa [hE, h]
  · rw [div_lt_iff₀ hunit, ← two_zpow_add]
    exact hl'.trans_le (zpow_le_zpow_right₀ one_le_two (by push_cast; omega))
  · rw [le_div_iff₀ hunit, ← two_zpow_add]
    exact (zpow_le_zpow_right₀ one_le_two (by push_cast; omega)).trans hl

/-- Every rational that is not too small or too large is read as a number. -/
theorem exists_readsAs (hlow : 2 ^ (-1074 : ℤ) ≤ q) (hhigh : q < 2 ^ (100 : ℤ)) :
    ∃ M E, IsCanonical M E ∧ E ≤ 971 ∧ ReadsAs q M E := by
  obtain ⟨r, E, rfl, hmin, hmax, hone, hlt, hnormal⟩ := exists_units hlow hhigh
  obtain ⟨n, hn, hnlow, hnhigh, hnodd⟩ := exists_nearest_even hone
  have hn53 : n ≤ 2 ^ 53 := by
    have : (n : ℚ) < 2 ^ 53 + 1 := by linarith
    have : n < 2 ^ 53 + 1 := by exact_mod_cast this
    omega
  have hn52 : E ≠ -1074 → 2 ^ 52 ≤ n := by
    intro hne
    have : (2 ^ 52 : ℚ) < n + 1 := by linarith [hnormal hne]
    have : 2 ^ 52 < n + 1 := by exact_mod_cast this
    omega
  rcases hn53.lt_or_eq with hn53 | rfl
  · exact ⟨n, E, ⟨hn, hn53, hmin, hn52⟩, by omega, readsAs_of_nearest hnormal hnlow hnhigh hnodd⟩
  · push_cast at hnlow hnhigh
    exact ⟨2 ^ 52, E + 1, ⟨by positivity, by norm_num, by omega, fun _ => le_rfl⟩, by omega,
      readsAs_next_power hmin hnlow hnhigh⟩

/-! ## Numbers that are not whole -/

theorem exists_multiple (he : e < 0) (n : ℤ) : ∃ j : ℤ, (n / 2 : ℚ) = j * 2 ^ e := by
  have hexp : ((-e - 1).toNat : ℤ) + e = -1 := by omega
  refine ⟨n * 2 ^ (-e - 1).toNat, ?_⟩
  push_cast
  rw [mul_assoc, ← two_zpow_add, hexp]
  norm_num
  ring

theorem exists_multiple_add_half (he : d.exp < 0) :
    ∃ j : ℤ, d.value + 1 / 2 = j * 2 ^ d.exp := by
  obtain ⟨k, hk⟩ := exists_multiple he 1
  refine ⟨d.signed + k, ?_⟩
  push_cast at hk ⊢
  rw [hk, Dyadic.value]
  ring

/-- Below half way between whole numbers, there is at least the unit of the number left. -/
theorem two_zpow_le_rest (he : d.exp < 0) {n : ℕ} (hlt : d.value + 1 / 2 < n) :
    (2 : ℚ) ^ d.exp ≤ n - (d.value + 1 / 2) := by
  obtain ⟨i, hi⟩ := exists_multiple_add_half he
  obtain ⟨j, hj⟩ := exists_multiple he (2 * n)
  have hmul : n - (d.value + 1 / 2) = (j - i) * 2 ^ d.exp := by
    push_cast at hj
    linarith
  have hpos : 0 < (j - i : ℚ) := pos_of_mul_pos_left (hmul ▸ sub_pos.2 hlt) (by positivity)
  have hone : (1 : ℚ) ≤ j - i := by exact_mod_cast hpos
  rw [hmul]
  exact le_mul_of_one_le_left (by positivity) hone

theorem lt_of_two_zpow_le {k : ℤ} (hm : d.mant < 2 ^ 53) (h : 2 ^ k ≤ d.value) :
    k < 53 + d.exp :=
  (zpow_lt_zpow_iff_right₀ one_lt_two).1 <|
    (h.trans (le_abs_self _)).trans_lt (abs_value_lt hm)

section NotWhole

variable {n : ℕ} (hm : d.mant < 2 ^ 53) (he : d.exp < 0)
include hm he

/-- Between powers of two there is more left than half of the distance of two numbers. -/
theorem half_lt_rest (hb : b ≤ 0) (hb52 : -52 ≤ b) (hn : (2 : ℚ) ^ (52 + b) < n)
    (hlt : d.value + 1 / 2 < n) : 2 ^ b / 2 < n - (d.value + 1 / 2) := by
  have hunit := two_zpow_le_rest he hlt
  have hb1 : (2 : ℚ) ^ b ≤ 1 := zpow_le_one_of_nonpos₀ one_le_two hb
  have hnext : (2 : ℚ) ^ (52 + b) + 1 ≤ n := by
    obtain ⟨k, hk⟩ : ∃ k : ℕ, 52 + b = k := Int.eq_ofNat_of_zero_le (by omega)
    rw [hk, zpow_natCast] at hn ⊢
    exact_mod_cast hn
  by_contra hrest
  have hfine : d.exp ≤ b - 1 := (zpow_le_zpow_iff_right₀ (one_lt_two : (1 : ℚ) < 2)).1 <| by
    rw [zpow_sub_one₀ two_ne_zero]
    linarith
  have := lt_of_two_zpow_le hm (k := 52 + b) (by linarith)
  omega

/-- Below a power of two the numbers stand twice as close, and for only one number there is not more
than half of that left. -/
theorem value_eq_of_rest_le (hb : b ≤ 0) (hb52 : -52 ≤ b) (hn : (n : ℚ) = 2 ^ (52 + b))
    (hlt : d.value + 1 / 2 < n) (hrest : n - (d.value + 1 / 2) ≤ 2 ^ b / 4) :
    d.value = 1 / 2 - 2 ^ (-54 : ℤ) := by
  have hunit := two_zpow_le_rest he hlt
  have hfine : d.exp ≤ b - 2 := (zpow_le_zpow_iff_right₀ (one_lt_two : (1 : ℚ) < 2)).1 <| by
    rw [zpow_sub₀ two_ne_zero]
    linarith
  by_cases hone : b = -52
  · subst hone
    norm_num at hn hrest
    rw [hn, Nat.cast_one] at hunit hrest
    have := lt_of_two_zpow_le hm (k := -2) (by norm_num; linarith)
    obtain hexp : d.exp = -54 := by omega
    rw [hexp] at hunit
    norm_num at hunit ⊢
    linarith
  · have hb1 : (2 : ℚ) ^ b ≤ 1 := zpow_le_one_of_nonpos₀ one_le_two hb
    have hhalf : (1 : ℚ) ≤ 2 ^ (51 + b) := one_le_zpow₀ one_le_two (by omega)
    have hdouble : (2 : ℚ) ^ (52 + b) = 2 * 2 ^ (51 + b) := by
      rw [← zpow_one_add₀ two_ne_zero]
      congr 1
      ring
    have := lt_of_two_zpow_le hm (k := 51 + b) (by linarith)
    omega

/-- Of the numbers that are not whole, only one is rounded up to a whole number when a half is
added. -/
theorem value_eq_of_low_le (ha : a < 2 ^ 53) (hpow : 2 ^ 52 ≤ a) (hb : b ≤ 0)
    (hn : (a * 2 ^ b : ℚ) = n) (hlt : d.value + 1 / 2 < n)
    (hlow : (a - gap a b) * 2 ^ b ≤ d.value + 1 / 2) : d.value = 1 / 2 - 2 ^ (-54 : ℤ) := by
  have hunit : (0 : ℚ) < 2 ^ b := by positivity
  have hrest : n - (d.value + 1 / 2) ≤ gap a b * 2 ^ b := by linarith
  have hb52 : -52 ≤ b := by
    have hpos : (1 : ℚ) ≤ n := by
      have : (0 : ℚ) < n := hn ▸ by positivity
      exact_mod_cast this
    have ha : (a : ℚ) < 2 ^ 53 := by exact_mod_cast ha
    have hsize : (2 : ℚ) ^ (0 : ℤ) < 2 ^ ((53 : ℕ) + b) := by
      rw [two_zpow_add, zpow_zero]
      exact (hn ▸ hpos).trans_lt (mul_lt_mul_of_pos_right ha hunit)
    have := (zpow_lt_zpow_iff_right₀ one_lt_two).1 hsize
    omega
  rcases hpow.eq_or_lt with rfl | hgt
  · rw [gap, if_pos ⟨rfl, by omega⟩] at hrest
    refine value_eq_of_rest_le hm he hb hb52 ?_ hlt (by linarith)
    exact hn.symm.trans (by push_cast; exact (two_zpow_add 52 b).symm)
  · rw [gap, if_neg fun h => hgt.ne' h.1] at hrest
    have hgt : (2 ^ 52 : ℚ) < a := by exact_mod_cast hgt
    have := half_lt_rest hm he hb hb52
      (hn ▸ (two_zpow_add 52 b).trans_lt (mul_lt_mul_of_pos_right hgt hunit)) hlt
    linarith

/-- A sum below zero is a number itself, since it is nearer to zero. -/
theorem exists_roundsTo_of_neg (hneg : d.value + 1 / 2 < 0) :
    ∃ d', RoundsTo (d.value + 1 / 2) d' ∧ d'.value = d.value + 1 / 2 := by
  have hunit : (0 : ℚ) < 2 ^ d.exp := by positivity
  obtain ⟨j, hj⟩ := exists_multiple_add_half he
  have hjq : (j : ℚ) < 0 := neg_of_mul_neg_left (hj ▸ hneg) hunit.le
  have habs : d.mant * 2 ^ d.exp = -d.value := by rw [← abs_value, abs_of_neg (by linarith)]
  have hlt : j.natAbs < 2 ^ 53 := by
    have : (j.natAbs : ℚ) < d.mant := by
      rw [Nat.cast_natAbs, Int.cast_abs, abs_of_neg hjq]
      nlinarith
    have : j.natAbs < d.mant := by exact_mod_cast this
    omega
  have hexp : -1022 ≤ d.exp := by
    have hsize : (2 : ℚ) ^ (-1 : ℤ) < 2 ^ (53 + d.exp) := by
      refine lt_of_le_of_lt ?_ (abs_value_lt hm)
      rw [abs_of_neg (by linarith)]
      norm_num
      linarith
    have := (zpow_lt_zpow_iff_right₀ one_lt_two).1 hsize
    omega
  have hne : j ≠ 0 := by
    rintro rfl
    norm_num at hjq
  obtain ⟨M, E, hM, hE, -, hvalue⟩ := exists_isCanonical (Int.natAbs_pos.2 hne) hlt hexp
  refine exists_roundsTo_self hM (by omega) ?_
  rw [hvalue, hj, abs_mul, abs_of_pos hunit, Nat.cast_natAbs, Int.cast_abs]

/-- A sum above zero is rounded to a number with the same floor, but for one number. -/
theorem floor_eq_of_readsAs (hne : d.value ≠ 1 / 2 - 2 ^ (-54 : ℤ)) (hM : IsCanonical M E)
    (hreads : ReadsAs (d.value + 1 / 2) M E) : ⌊(M * 2 ^ E : ℚ)⌋ = ⌊d.value + 1 / 2⌋ := by
  obtain ⟨n, hn⟩ : ∃ n : ℕ, ⌊d.value + 1 / 2⌋ = n :=
    Int.eq_ofNat_of_zero_le (Int.floor_nonneg.2 (hreads.pos hM).le)
  obtain ⟨hlow, hhigh⟩ := Int.floor_eq_iff.1 hn
  rw [hn, Int.floor_eq_iff]
  push_cast at hlow hhigh ⊢
  have hn53 : n + 1 < 2 ^ 53 := by
    have hsize := (abs_lt.1 (abs_value_lt_of_exp_neg hm he)).2
    have : (n : ℚ) < 2 ^ 52 + 1 := by linarith
    have : n < 2 ^ 52 + 1 := by exact_mod_cast this
    omega
  constructor
  · rcases n.eq_zero_or_pos with rfl | hn0
    · positivity
    obtain ⟨a, b, ha, -, -, hvalue⟩ := exists_isCanonical_whole hn0 (by omega)
    rcases hreads.order_cases hM ha with ⟨hlt, -⟩ | ⟨rfl, rfl⟩ | ⟨-, hlt⟩
    · linarith
    · exact hvalue.ge
    · exact hvalue ▸ hlt.le
  · obtain ⟨a, b, ha, hb, hpow, hvalue⟩ := exists_isCanonical_whole n.succ_pos hn53
    rw [← Nat.cast_succ] at hhigh ⊢
    rcases hreads.order_cases hM ha with ⟨-, hlt⟩ | ⟨rfl, rfl⟩ | ⟨hle, -⟩
    · exact hvalue ▸ hlt
    · exact absurd (value_eq_of_low_le hm he ha.lt hpow hb hvalue hhigh hreads.low) hne
    · have : (0 : ℚ) < 2 ^ b := by positivity
      linarith

/-- The sum of a half and a number that is not whole has the floor that it should, but for one
number. -/
theorem exists_roundsTo_of_exp_neg (hmin : -1074 ≤ d.exp)
    (hne : d.value ≠ 1 / 2 - 2 ^ (-54 : ℤ)) :
    ∃ d', RoundsTo (d.value + 1 / 2) d' ∧ ⌊d'.value⌋ = ⌊d.value + 1 / 2⌋ := by
  rcases lt_trichotomy (d.value + 1 / 2) 0 with hneg | hzero | hpos
  · obtain ⟨d', hd', hvalue⟩ := exists_roundsTo_of_neg hm he hneg
    exact ⟨d', hd', by rw [hvalue]⟩
  · rw [hzero]
    exact ⟨_, .zero, by simp⟩
  · have hleast : (2 : ℚ) ^ (-1074 : ℤ) ≤ d.value + 1 / 2 := by
      obtain ⟨j, hj⟩ := exists_multiple_add_half he
      have hunit : (0 : ℚ) < 2 ^ d.exp := by positivity
      have hjq : (0 : ℚ) < j := pos_of_mul_pos_left (hj ▸ hpos) hunit.le
      have hjq : (1 : ℚ) ≤ j := by exact_mod_cast hjq
      rw [hj]
      exact (zpow_le_zpow_right₀ one_le_two hmin).trans (le_mul_of_one_le_left hunit.le hjq)
    obtain ⟨M, E, hM, hE, hreads⟩ := exists_readsAs hleast <| by
      have hsize := (abs_lt.1 (abs_value_lt_of_exp_neg hm he)).2
      have : (2 ^ 52 + 1 / 2 : ℚ) < 2 ^ (100 : ℤ) := by norm_num
      linarith
    refine ⟨_, .pos hM hE hreads, ?_⟩
    rw [Dyadic.value_false]
    exact floor_eq_of_readsAs hm he hne hM hreads

end NotWhole

/-! ## Whole numbers -/

/-- The numbers for which the sum with a half is rounded up to the next whole number. -/
def Slips (q : ℚ) : Prop :=
  q = 1 / 2 - 2 ^ (-54 : ℤ) ∨ ∃ n : ℤ, q = n ∧ Odd n ∧ 2 ^ 52 < n.natAbs ∧ n.natAbs < 2 ^ 53

theorem slips_intCast_iff {n : ℤ} : Slips n ↔ Odd n ∧ 2 ^ 52 < n.natAbs ∧ n.natAbs < 2 ^ 53 := by
  constructor
  · rintro (hn | ⟨k, hk, h⟩)
    · have hpos : (0 : ℚ) < n := by rw [hn]; norm_num
      have hlt : (n : ℚ) < 1 := by rw [hn]; norm_num
      have hpos : 0 < n := by exact_mod_cast hpos
      have hlt : n < 1 := by exact_mod_cast hlt
      omega
    · exact Int.cast_inj.1 hk ▸ h
  · exact fun h => .inr ⟨n, rfl, h⟩

/-- Between large numbers, a half makes no difference. -/
theorem readsAs_of_abs_le (he : 1 ≤ e) (hq : |q - m * 2 ^ e| ≤ 1 / 2) : ReadsAs q m e := by
  obtain ⟨hlow, hhigh⟩ := abs_le.1 hq
  have hpow : (2 : ℚ) ≤ 2 ^ e := by simpa using zpow_le_zpow_right₀ (one_le_two : (1 : ℚ) ≤ 2) he
  have hgap : 1 / 4 ≤ gap m e ∧ (m % 2 = 1 → gap m e = 1 / 2) := by
    unfold gap
    split
    case isTrue h => exact ⟨le_rfl, fun hodd => by rw [h.1] at hodd; norm_num at hodd⟩
    case isFalse => exact ⟨by norm_num, fun _ => rfl⟩
  refine ⟨by nlinarith, by nlinarith, fun hodd => ⟨?_, by nlinarith⟩⟩
  rw [hgap.2 hodd]
  nlinarith

/-- Half way between two whole numbers, the even one is taken. -/
theorem readsAs_even (heven : m % 2 = 0) (hq : q = m + 1 / 2 ∨ q = m - 1 / 2 ∧ m ≠ 2 ^ 52) :
    ReadsAs q m 0 := by
  refine ⟨?_, ?_, fun hodd => by omega⟩ <;> rw [zpow_zero, mul_one]
  · rcases hq with rfl | ⟨rfl, hne⟩
    · linarith [gap_pos m 0]
    · rw [gap, if_neg fun h => hne h.1]
  · rcases hq with rfl | ⟨rfl, -⟩ <;> linarith

theorem add_half_neg_iff {n : ℤ} : (n + 1 / 2 : ℚ) < 0 ↔ n < 0 := by
  refine ⟨fun h => ?_, fun h => ?_⟩
  · have hn : (n : ℚ) < 0 := by linarith
    exact_mod_cast hn
  · have hn : (n : ℚ) ≤ -1 := by exact_mod_cast Int.le_sub_one_of_lt h
    linarith

/-- The sum of a half and a whole number with 53 bits is rounded to the next even number. -/
theorem exists_roundsTo_of_natAbs {n : ℤ} (hpow : 2 ^ 52 ≤ n.natAbs) (hlt : n.natAbs < 2 ^ 53) :
    ∃ d', RoundsTo (n + 1 / 2) d' ∧ ⌊d'.value⌋ = n + n % 2 := by
  by_cases hfirst : n = -2 ^ 52
  · -- Here the sum is a number itself.
    obtain ⟨d', hd', hvalue⟩ := exists_roundsTo_self (q := (n + 1 / 2 : ℚ)) (M := 2 ^ 53 - 1)
      (E := -1) ⟨by norm_num, by norm_num, by norm_num, by norm_num⟩ (by norm_num)
      (by rw [hfirst]; norm_num)
    exact ⟨d', hd', by rw [hvalue, hfirst]; norm_num⟩
  have hsign : ((n + n % 2 : ℤ) : ℚ) < 0 ↔ (n + 1 / 2 : ℚ) < 0 := by
    rw [add_half_neg_iff, Int.cast_lt_zero]
    omega
  have habs : |(n + 1 / 2 : ℚ)| = (2 * n + 1).natAbs / 2 := by
    rw [show (n + 1 / 2 : ℚ) = (2 * n + 1 : ℤ) / 2 by push_cast; ring, abs_div, Nat.cast_natAbs]
    norm_num
  suffices h : ∃ d', RoundsTo (n + 1 / 2) d' ∧ d'.value = (n + n % 2 : ℤ) by
    obtain ⟨d', hd', hvalue⟩ := h
    exact ⟨d', hd', by rw [hvalue, Int.floor_intCast]⟩
  by_cases hlast : n = 2 ^ 53 - 1
  · refine exists_roundsTo (M := 2 ^ 52) (E := 1)
      ⟨by norm_num, by norm_num, by norm_num, fun _ => le_rfl⟩ (by norm_num)
      (readsAs_of_abs_le le_rfl ?_) ?_ hsign <;> rw [hlast] <;> norm_num
  · obtain ⟨k, hk⟩ : ∃ k, k = (n + n % 2).natAbs := ⟨_, rfl⟩
    refine exists_roundsTo (M := k) (E := 0) ⟨by omega, by omega, by norm_num, fun _ => by omega⟩
      (by norm_num) (readsAs_even (by omega) ?_) ?_ hsign
    · have hnext :
          (2 * n + 1).natAbs = 2 * k + 1 ∨ 2 * k = (2 * n + 1).natAbs + 1 ∧ k ≠ 2 ^ 52 := by
        omega
      refine hnext.imp (fun h => ?_) fun h => ⟨?_, h.2⟩
      · rw [habs, h]
        push_cast
        ring
      · have h : (2 * k : ℚ) = (2 * n + 1).natAbs + 1 := by exact_mod_cast h.1
        linarith
    · rw [hk, Nat.cast_natAbs, Int.cast_abs, zpow_zero, mul_one]

/-- A half is lost in the sum with a whole number of more bits. -/
theorem exists_roundsTo_of_exp_pos {n : ℤ} (hd : IsCanonical d.mant d.exp) (hexp : d.exp ≤ 971)
    (hpos : 0 < d.exp) (habs : (n.natAbs : ℚ) = d.mant * 2 ^ d.exp) :
    2 ^ 53 ≤ n.natAbs ∧ ∃ d', RoundsTo (n + 1 / 2) d' ∧ ⌊d'.value⌋ = n := by
  have hcast : (n.natAbs : ℚ) = |(n : ℚ)| := by rw [Nat.cast_natAbs, Int.cast_abs]
  constructor
  · have hlarge : (2 ^ 53 : ℚ) ≤ n.natAbs := by
      have hpow : (2 ^ 52 : ℚ) ≤ d.mant := by exact_mod_cast hd.normal (by omega)
      calc (2 ^ 53 : ℚ) = 2 ^ 52 * 2 ^ (1 : ℤ) := by norm_num
        _ ≤ d.mant * 2 ^ d.exp := by
          gcongr
          · exact one_le_two
          · exact hpos
        _ = n.natAbs := habs.symm
    exact_mod_cast hlarge
  · have hreads : ReadsAs |(n + 1 / 2 : ℚ)| d.mant d.exp := by
      refine readsAs_of_abs_le hpos ?_
      rw [← habs, hcast]
      exact (abs_abs_sub_abs_le _ _).trans (by norm_num)
    obtain ⟨d', hd', hvalue⟩ := exists_roundsTo (r := n) hd hexp hreads (by rw [← habs, hcast])
      (by rw [add_half_neg_iff, Int.cast_lt_zero])
    exact ⟨d', hd', by rw [hvalue, Int.floor_intCast]⟩

/-- The number has the floor of the sum with a half, unless that slips. -/
def FloorsSum (q : ℚ) (d : Dyadic) : Prop :=
  ⌊d.value⌋ = ⌊q + 1 / 2⌋ ∧ ¬ Slips q ∨ ⌊d.value⌋ = ⌊q + 1 / 2⌋ + 1 ∧ Slips q

theorem exists_floorsSum_of_nonneg (hd : IsCanonical d.mant d.exp) (hexp : d.exp ≤ 971)
    (hwhole : 0 ≤ d.exp) : ∃ d', RoundsTo (d.value + 1 / 2) d' ∧ FloorsSum d.value d' := by
  obtain ⟨n, hn⟩ : ∃ n : ℤ, d.value = n := ⟨_, value_of_exp_nonneg hwhole⟩
  have hfloor : ⌊(n : ℚ) + 1 / 2⌋ = n := by
    rw [Int.floor_intCast_add]
    norm_num
  have habs : (n.natAbs : ℚ) = d.mant * 2 ^ d.exp := by
    rw [Nat.cast_natAbs, Int.cast_abs, ← hn, abs_value]
  simp only [hn, FloorsSum, hfloor, slips_intCast_iff]
  rcases hwhole.eq_or_lt with hzero | hpos
  · rw [← hzero, zpow_zero, mul_one, Nat.cast_inj] at habs
    have hpow := hd.normal (by omega)
    have hlt := hd.lt
    obtain ⟨d', hd', hvalue⟩ := exists_roundsTo_of_natAbs (n := n) (by omega) (by omega)
    refine ⟨d', hd', ?_⟩
    rw [hvalue, Int.odd_iff]
    omega
  · obtain ⟨hlarge, d', hd', hvalue⟩ := exists_roundsTo_of_exp_pos hd hexp hpos habs
    exact ⟨d', hd', .inl ⟨hvalue, fun h => by omega⟩⟩

theorem exists_floorsSum_of_neg (hd : IsCanonical d.mant d.exp) (he : d.exp < 0) :
    ∃ d', RoundsTo (d.value + 1 / 2) d' ∧ FloorsSum d.value d' := by
  by_cases hslip : d.value = 1 / 2 - 2 ^ (-54 : ℤ)
  · obtain ⟨d', hd', hvalue⟩ := exists_roundsTo (q := d.value + 1 / 2) (r := 1) (M := 2 ^ 52)
      (E := -52) ⟨by norm_num, by norm_num, by norm_num, fun _ => le_rfl⟩ (by norm_num)
      (by rw [hslip]; constructor <;> norm_num [gap, abs_of_pos]) (by norm_num)
      (by rw [hslip]; norm_num)
    refine ⟨d', hd', .inr ⟨?_, .inl hslip⟩⟩
    rw [hvalue, hslip]
    norm_num
  · obtain ⟨d', hd', hvalue⟩ := exists_roundsTo_of_exp_neg hd.lt he hd.min_le hslip
    refine ⟨d', hd', .inl ⟨hvalue, ?_⟩⟩
    rintro (h | ⟨n, hn, -, hlt, -⟩)
    · exact hslip h
    · have hsmall : (n.natAbs : ℚ) < 2 ^ 52 := by
        rw [Nat.cast_natAbs, Int.cast_abs, ← hn]
        exact abs_value_lt_of_exp_neg hd.lt he
      have hsmall : n.natAbs < 2 ^ 52 := by exact_mod_cast hsmall
      omega

theorem exists_ofFloat?_add_half (h : Dyadic.ofFloat? x = some d) :
    ∃ d', Dyadic.ofFloat? (x + 0.5) = some d' ∧ FloorsSum d.value d' := by
  rcases Nat.eq_zero_or_pos d.mant with hm | hm
  · have hvalue : d.value = (0 : ℤ) := by
      rw [Int.cast_zero, ← abs_eq_zero, abs_value, hm, Nat.cast_zero, zero_mul]
    refine ⟨⟨false, 2 ^ 52, -53⟩, ?_, .inl ⟨?_, ?_⟩⟩
    · show Dyadic.ofFloat? (.ofModel (.pack (UnpackedFloat.add Format.binary64 x.toModel.unpack
        (0.5 : Float).toModel.unpack))) = _
      rw [unpack_of_mant_eq_zero h hm]
      cases d.neg <;> decide +kernel
    · rw [hvalue]
      norm_num
    · rw [hvalue, slips_intCast_iff]
      rintro ⟨-, hlt, -⟩
      norm_num at hlt
  · obtain ⟨hd, hexp⟩ := isCanonical_of_ofFloat? h hm
    obtain ⟨d', hd', hfloor⟩ := (lt_or_ge d.exp 0).elim (exists_floorsSum_of_neg hd)
      (exists_floorsSum_of_nonneg hd hexp)
    exact ⟨d', ofFloat?_add_half h hm hd', hfloor⟩

end Number

/-- Rounding a finite number gives the greatest whole number that is not above its sum with a half,
except for the greatest number below a half and the odd numbers between `2 ^ 52` and `2 ^ 53` on
both sides of zero: for those it gives the next whole number. All other whole numbers are rounded to
themselves. -/
theorem round_half_up_unless_slips (s : State) {x : Float} (hx : x.isFinite = true) :
    ∃ d d' y, Dyadic.ofFloat? x = some d ∧ Dyadic.ofFloat? y = some d' ∧
      (Builtin.math .round).run [.num x] s = .ret (.num y) s ∧
      (¬ Slips d.value → d'.value = ⌊d.value + 1 / 2⌋) ∧
      (Slips d.value → d'.value = ⌊d.value + 1 / 2⌋ + 1) ∧
      ∀ n : ℤ, d.value = n → ¬ (Odd n ∧ 2 ^ 52 < n.natAbs ∧ n.natAbs < 2 ^ 53) → d'.value = n := by
  obtain ⟨d, hd⟩ := exists_ofFloat?_of_isFinite hx
  obtain ⟨d₁, hd₁, hfloor⟩ := exists_ofFloat?_add_half hd
  obtain ⟨d', hd', hvalue⟩ := exists_ofFloat?_floor hd₁
  have hround : Number.round x = Number.floor (x + 0.5) := if_pos hx
  have hexact : ¬ Slips d.value → d'.value = ⌊d.value + 1 / 2⌋ := fun hslip => by
    obtain ⟨hfloor, -⟩ | ⟨-, h⟩ := hfloor
    · rw [hvalue, hfloor]
    · exact absurd h hslip
  refine ⟨d, d', Number.round x, hd, hround ▸ hd', rfl, hexact, fun hslip => ?_, fun n hn h => ?_⟩
  · obtain ⟨-, h⟩ | ⟨hfloor, -⟩ := hfloor
    · exact absurd hslip h
    · rw [hvalue, hfloor]
      push_cast
      rfl
  · rw [hexact (hn ▸ mt slips_intCast_iff.1 h), hn, Int.floor_intCast_add]
    norm_num

theorem round_half_up_unless_slips_below_half :
    (0.49999999999999994 : Float).isFinite = true ∧ ∃ d d' y,
      Dyadic.ofFloat? 0.49999999999999994 = some d ∧ Dyadic.ofFloat? y = some d' ∧
      (Builtin.math .round).run [.num 0.49999999999999994] State.bare = .ret (.num y) State.bare ∧
      ⌊d.value + 1 / 2⌋ = 0 ∧ d'.value = 1 := by
  have hx : (0.49999999999999994 : Float).isFinite = true := by decide +kernel
  have hparts : Dyadic.ofFloat? 0.49999999999999994 = some ⟨false, 9007199254740991, -54⟩ := by
    decide +kernel
  obtain ⟨d, d', y, hd, hd', hrun, -, hslip, -⟩ := round_half_up_unless_slips State.bare hx
  obtain rfl := Option.some.inj (hparts.symm.trans hd)
  have hfloor : ⌊Dyadic.value ⟨false, 9007199254740991, -54⟩ + 1 / 2⌋ = 0 := by norm_num
  refine ⟨hx, _, d', y, hd, hd', hrun, hfloor, ?_⟩
  rw [hslip (.inl (by norm_num)), hfloor]
  norm_num

end Hantec
