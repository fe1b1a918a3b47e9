import Hantec.Proofs.Number.Reading

/-!
# Shortest decimals

The decimal that is written for a number lies in the interval of the number, so it is read as the
number. It has at most 17 digits, of which the last one is not a zero. On a grid of 17 digits the
points stand closer than the ends of the interval, so the search finds one of them.
-/

namespace Hantec

open Number

def Decimal.value (d : Decimal) : ℚ := d.coef * 10 ^ d.exp

/-! ## Grids -/

section Grid

variable {k : ℤ} {a den n : ℕ}

theorem ten_zpow_eq (k : ℤ) : (10 : ℚ) ^ k = 10 ^ k.toNat / 10 ^ (-k).toNat := by
  rw [← zpow_natCast, ← zpow_natCast, ← zpow_sub₀ (by norm_num)]
  congr 1
  omega

/-- A fraction is compared with a point of the grid of `10 ^ k` in whole numbers. -/
theorem scaled_le_iff (hden : 0 < den) :
    a * 10 ^ (-k).toNat ≤ n * (den * 10 ^ k.toNat) ↔ (a / den : ℚ) ≤ n * 10 ^ k := by
  have hden : (0 : ℚ) < den := by exact_mod_cast hden
  have hpow : (0 : ℚ) < 10 ^ (-k).toNat := by positivity
  rw [ten_zpow_eq, mul_div_assoc', div_le_div_iff₀ hden hpow, ← @Nat.cast_le ℚ]
  push_cast
  constructor <;> intro h <;> linarith

theorem le_scaled_iff (hden : 0 < den) :
    n * (den * 10 ^ k.toNat) ≤ a * 10 ^ (-k).toNat ↔ (n * 10 ^ k : ℚ) ≤ a / den := by
  have hden : (0 : ℚ) < den := by exact_mod_cast hden
  have hpow : (0 : ℚ) < 10 ^ (-k).toNat := by positivity
  rw [ten_zpow_eq, mul_div_assoc', div_le_div_iff₀ hpow hden, ← @Nat.cast_le ℚ]
  push_cast
  constructor <;> intro h <;> linarith

end Grid

namespace Rounding

/-- The fractions are the interval of `m * 2 ^ e`. -/
structure Covers (r : Rounding) (m : ℕ) (e : ℤ) : Prop where
  den_pos : 0 < r.den
  lo : (r.lo / r.den : ℚ) = (m - gap m e) * 2 ^ e
  mid : (r.mid / r.den : ℚ) = m * 2 ^ e
  hi : (r.hi / r.den : ℚ) = (m + 1 / 2) * 2 ^ e
  closed : r.closed = true ↔ m % 2 = 0

theorem covers_ofDyadic {d : Dyadic} (hm : 0 < d.mant) : (ofDyadic d).Covers d.mant d.exp := by
  have hscale : (2 : ℚ) ^ (d.exp - 2).toNat / 2 ^ (2 - d.exp).toNat = 2 ^ d.exp / 4 := by
    have hexp : ((d.exp - 2).toNat : ℤ) - (2 - d.exp).toNat = d.exp - 2 := by omega
    rw [← zpow_natCast, ← zpow_natCast, ← zpow_sub₀ two_ne_zero, hexp, zpow_sub₀ two_ne_zero]
    norm_num
  have hfrac (n : ℕ) :
      ((n * 2 ^ (d.exp - 2).toNat : ℕ) : ℚ) / (2 ^ (2 - d.exp).toNat : ℕ) = n / 4 * 2 ^ d.exp := by
    push_cast
    rw [mul_div_assoc, hscale]
    ring
  refine ⟨Nat.pow_pos two_pos, (hfrac _).trans ?_, (hfrac _).trans ?_, (hfrac _).trans ?_, ?_⟩
  · rw [gap]
    have hpow : d.mant = Nat.pow 2 52 ↔ d.mant = 2 ^ 52 := Iff.rfl
    simp only [hpow]
    split
    · rw [Nat.cast_sub (by omega)]
      push_cast
      ring
    · rw [Nat.cast_sub (by omega)]
      push_cast
      ring
  · push_cast
    ring
  · push_cast
    ring
  · simp [ofDyadic]

variable {r : Rounding} {m : ℕ} {e k : ℤ} {n : ℕ}

theorem holds_scale_iff (h : r.Covers m e) :
    (r.scale (-k)).holds n = true ↔ ReadsAs (n * 10 ^ k) m e := by
  have hle (a : ℕ) : a * Nat.pow 10 (-k).toNat ≤ n * (r.den * Nat.pow 10 (- -k).toNat) ↔
      (a / r.den : ℚ) ≤ n * 10 ^ k := by
    rw [neg_neg]
    exact scaled_le_iff h.den_pos
  have hge (a : ℕ) : n * (r.den * Nat.pow 10 (- -k).toNat) ≤ a * Nat.pow 10 (-k).toNat ↔
      (n * 10 ^ k : ℚ) ≤ a / r.den := by
    rw [neg_neg]
    exact le_scaled_iff h.den_pos
  unfold holds scale
  dsimp only
  by_cases hclosed : r.closed = true
  · have heven := h.closed.1 hclosed
    rw [if_pos hclosed]
    simp only [Bool.and_eq_true, decide_eq_true_eq, hle, hge, h.lo, h.hi]
    exact ⟨fun hq => ⟨hq.1, hq.2, fun hodd => by omega⟩, fun hq => ⟨hq.low, hq.high⟩⟩
  · have hodd : m % 2 = 1 := Nat.mod_two_ne_zero.1 (h.closed.not.1 hclosed)
    rw [if_neg hclosed]
    simp only [Bool.and_eq_true, decide_eq_true_eq, ← not_le, hle, hge, h.lo, h.hi]
    simp only [not_le]
    exact ⟨fun hq => ⟨hq.1.le, hq.2.le, fun _ => hq⟩, fun hq => hq.odd hodd⟩

/-- The point of a grid that is next below the number. -/
theorem below_le (h : r.Covers m e) :
    (((r.scale (-k)).mid / (r.scale (-k)).den : ℕ) * 10 ^ k : ℚ) ≤ m * 2 ^ e := by
  rw [← h.mid, ← le_scaled_iff h.den_pos]
  have hdiv := Nat.div_mul_le_self (r.scale (-k)).mid (r.scale (-k)).den
  simpa only [scale, neg_neg, Nat.pow_eq] using hdiv

theorem lt_above (h : r.Covers m e) :
    (m * 2 ^ e : ℚ) < ((r.scale (-k)).mid / (r.scale (-k)).den + 1 : ℕ) * 10 ^ k := by
  have hden : 0 < (r.scale (-k)).den := Nat.mul_pos h.den_pos (Nat.pow_pos (by decide))
  rw [← h.mid, ← not_le, ← le_scaled_iff h.den_pos, not_le]
  have hdiv := Nat.lt_mul_div_succ (r.scale (-k)).mid hden
  rw [mul_comm] at hdiv
  simpa only [scale, neg_neg, Nat.pow_eq] using hdiv

theorem nearest?_eq_some {r : Rounding} {n : ℕ} (h : r.nearest? = some n) :
    r.holds n = true ∧ (n = r.mid / r.den ∨ n = r.mid / r.den + 1) := by
  unfold nearest? at h
  grind

theorem nearest?_eq_none {r : Rounding} (h : r.nearest? = none) :
    r.holds (r.mid / r.den) = false ∧ r.holds (r.mid / r.den + 1) = false := by
  unfold nearest? at h
  grind

theorem readsAs_of_lt {q : ℚ} (hlow : (m - gap m e) * 2 ^ e < q) (hhigh : q < (m + 1 / 2) * 2 ^ e) :
    ReadsAs q m e :=
  ⟨hlow.le, hhigh.le, fun _ => ⟨hlow, hhigh⟩⟩

/-- A grid that is finer than the interval has a point in it. -/
theorem nearest?_ne_none (h : r.Covers m e) (hk : (10 : ℚ) ^ k < (1 / 2 + gap m e) * 2 ^ e) :
    (r.scale (-k)).nearest? ≠ none := by
  intro hnone
  obtain ⟨hbelow, habove⟩ := nearest?_eq_none hnone
  have hpos : (0 : ℚ) < 2 ^ e := by positivity
  have hself := readsAs_self m e
  have hlow : (m - gap m e) * 2 ^ e < m * 2 ^ e :=
    mul_lt_mul_of_pos_right (by linarith [gap_pos m e]) hpos
  have hhigh : (m : ℚ) * 2 ^ e < (m + 1 / 2) * 2 ^ e :=
    mul_lt_mul_of_pos_right (by linarith) hpos
  -- The points next to the number lie on both sides of the interval.
  have hb := below_le (k := k) h
  have ha := lt_above (k := k) h
  rw [← Bool.not_eq_true, holds_scale_iff h] at hbelow habove
  generalize (r.scale (-k)).mid / (r.scale (-k)).den = b at *
  have hleft : (b * 10 ^ k : ℚ) ≤ (m - gap m e) * 2 ^ e := by
    by_contra hlt
    exact hbelow (readsAs_of_lt (not_le.1 hlt) (hb.trans_lt hhigh))
  have hright : (m + 1 / 2) * 2 ^ e ≤ ((b + 1 : ℕ) * 10 ^ k : ℚ) := by
    by_contra hlt
    exact habove (readsAs_of_lt (hlow.trans ha) (not_le.1 hlt))
  push_cast at hright
  linarith

/-! ## The first digit -/

theorem leadBelow_spec (r : Rounding) (fuel j : ℕ)
    (h : ∃ i < fuel, r.den ≤ r.mid * 10 ^ (j + i)) :
    r.den ≤ r.mid * 10 ^ r.leadBelow fuel j ∧ j ≤ r.leadBelow fuel j ∧
      ∀ i, j ≤ i → i < r.leadBelow fuel j → r.mid * 10 ^ i < r.den := by
  induction fuel generalizing j with
  | zero =>
    obtain ⟨i, hi, -⟩ := h
    omega
  | succ fuel ih =>
    rw [leadBelow, Nat.pow_eq]
    split
    case isTrue hle => exact ⟨hle, le_rfl, fun i h₁ h₂ => by omega⟩
    case isFalse hlt =>
      obtain ⟨i, hi, hle⟩ := h
      obtain ⟨i, rfl⟩ : ∃ i', i = i' + 1 := by
        cases i with
        | zero => exact absurd hle hlt
        | succ i => exact ⟨i, rfl⟩
      obtain ⟨hlead, hj, hbefore⟩ := ih (j + 1) ⟨i, by omega, by rwa [add_assoc, add_comm 1]⟩
      refine ⟨hlead, by omega, fun i h₁ h₂ => ?_⟩
      obtain rfl | h₁ := eq_or_lt_of_le h₁
      · exact not_le.1 hlt
      · exact hbefore i h₁ h₂

theorem lead_spec_of_le (hle : r.den ≤ r.mid) (hden : 0 < r.den) :
    (10 : ℚ) ^ r.lead ≤ r.mid / r.den ∧ (r.mid / r.den : ℚ) < 10 ^ (r.lead + 1) := by
  have hlead : r.lead = ((Nat.toDigits 10 (r.mid / r.den)).length : ℤ) - 1 := by
    have := Nat.length_toDigits_pos (b := 10) (n := r.mid / r.den)
    rw [lead, if_pos hle]
    omega
  have hwhole : 0 < r.mid / r.den := Nat.div_pos hle hden
  rw [hlead, sub_add_cancel]
  refine ⟨(ten_pow_length_le hwhole).trans Nat.cast_div_le, ?_⟩
  have hlt : r.mid / r.den + 1 ≤ 10 ^ (Nat.toDigits 10 (r.mid / r.den)).length := by
    have := lt_ten_pow_length (r.mid / r.den)
    rw [zpow_natCast] at this
    exact_mod_cast this
  have hcast : (r.mid : ℚ) < r.den * (r.mid / r.den + 1 : ℕ) := by
    exact_mod_cast Nat.lt_mul_div_succ r.mid hden
  rw [zpow_natCast, div_lt_iff₀ (by exact_mod_cast hden)]
  refine hcast.trans_le ?_
  rw [mul_comm]
  exact mul_le_mul_of_nonneg_right (by exact_mod_cast hlt) (Nat.cast_nonneg _)

theorem lead_spec_of_lt (hlt : r.mid < r.den) (hsize : r.den ≤ r.mid * 10 ^ 399) :
    (10 : ℚ) ^ r.lead ≤ r.mid / r.den ∧ (r.mid / r.den : ℚ) < 10 ^ (r.lead + 1) := by
  have hden : (0 : ℚ) < r.den := by exact_mod_cast Nat.zero_lt_of_lt hlt
  have hlead : r.lead = -(r.leadBelow 400 0 : ℤ) := by rw [lead, if_neg (not_le.2 hlt)]
  obtain ⟨hle, -, hbefore⟩ := r.leadBelow_spec 400 0 ⟨399, by norm_num, by rwa [zero_add]⟩
  obtain ⟨t, ht⟩ : ∃ t, r.leadBelow 400 0 = t + 1 := by
    refine ⟨r.leadBelow 400 0 - 1, ?_⟩
    have : r.leadBelow 400 0 ≠ 0 := by
      intro hzero
      rw [hzero, pow_zero, mul_one] at hle
      omega
    omega
  have hbefore := hbefore t (Nat.zero_le _) (by omega)
  rw [ht] at hle hlead
  rw [hlead]
  constructor
  · rw [zpow_neg, zpow_natCast, inv_le_iff_one_le_mul₀ (by positivity), div_mul_eq_mul_div,
      le_div_iff₀ hden, one_mul]
    exact_mod_cast hle
  · have hexp : -((t + 1 : ℕ) : ℤ) + 1 = -(t : ℤ) := by omega
    rw [hexp, zpow_neg, zpow_natCast, ← one_div, div_lt_div_iff₀ hden (by positivity), one_mul]
    exact_mod_cast hbefore

/-- The first digit of a number stands at its lead. -/
theorem lead_spec (h : r.Covers m e) (hm : IsCanonical m e) :
    (10 : ℚ) ^ r.lead ≤ m * 2 ^ e ∧ (m * 2 ^ e : ℚ) < 10 ^ (r.lead + 1) := by
  have hden : (0 : ℚ) < r.den := by exact_mod_cast h.den_pos
  rw [← h.mid]
  by_cases hle : r.den ≤ r.mid
  · exact lead_spec_of_le hle h.den_pos
  · refine lead_spec_of_lt (not_le.1 hle) ?_
    have hsize : (10 : ℚ) ^ (-399 : ℤ) ≤ r.mid / r.den := by
      rw [h.mid]
      calc
        (10 : ℚ) ^ (-399 : ℤ) ≤ 2 ^ (-(3 * 399) : ℤ) := by
          rw [zpow_neg, zpow_neg]
          exact inv_anti₀ (by positivity) (two_zpow_le_ten_zpow 399 (by norm_num))
        _ ≤ 2 ^ (-1075 : ℤ) := zpow_le_zpow_right₀ one_le_two (by norm_num)
        _ ≤ m * 2 ^ e := (readsAs_self m e).two_zpow_le hm
    rw [zpow_neg, inv_le_iff_one_le_mul₀ (by positivity), div_mul_eq_mul_div, le_div_iff₀ hden,
      one_mul] at hsize
    exact_mod_cast hsize

/-! ## The search -/

/-- The search stops at the first grid that has a point in the interval. -/
theorem search_spec (r : Rounding) (fuel : ℕ) (k : ℤ)
    (h : ∃ i < fuel, (r.scale (-(k - i))).nearest? ≠ none) :
    ∃ i n, i < fuel ∧ (r.scale (-(k - i))).nearest? = some n ∧ r.search fuel k = ⟨n, k - i⟩ ∧
      ∀ j < i, (r.scale (-(k - j))).nearest? = none := by
  induction fuel generalizing k with
  | zero =>
    obtain ⟨i, hi, -⟩ := h
    omega
  | succ fuel ih =>
    cases hnear : (r.scale (-k)).nearest? with
    | some n =>
      refine ⟨0, n, Nat.succ_pos _, ?_, ?_, fun j hj => by omega⟩
      · simpa using hnear
      · rw [search, hnear]
        simp
    | none =>
      obtain ⟨i, hi, hne⟩ := h
      obtain ⟨i, rfl⟩ : ∃ i', i = i' + 1 := by
        cases i with
        | zero => exact absurd (by simpa using hnear) hne
        | succ i => exact ⟨i, rfl⟩
      have hshift (i : ℕ) : k - ((i + 1 : ℕ) : ℤ) = k - 1 - i := by push_cast; ring
      obtain ⟨i, n, hi, hn, hsearch, hbefore⟩ := ih (k - 1) ⟨i, by omega, by rwa [← hshift]⟩
      refine ⟨i + 1, n, by omega, by rwa [hshift], ?_, fun j hj => ?_⟩
      · rw [search, hnear, hshift]
        exact hsearch
      · cases j with
        | zero => simpa using hnear
        | succ j =>
          rw [hshift]
          exact hbefore j (by omega)

/-- On the grid with 17 digits there is a point in the interval. -/
theorem exists_nearest (h : r.Covers m e) (hm : IsCanonical m e) :
    ∃ i : ℕ, i < 17 ∧ (r.scale (-(r.lead - i))).nearest? ≠ none := by
  obtain ⟨hlead, -⟩ := lead_spec h hm
  refine ⟨16, by norm_num, nearest?_ne_none h ?_⟩
  have hpos : (0 : ℚ) < 2 ^ e := by positivity
  have hmant : (m : ℚ) / 10 ^ 16 < 1 / 2 + gap m e := by
    have hlt : (m : ℚ) < 2 ^ 53 := by exact_mod_cast hm.lt
    rw [gap, div_lt_iff₀ (by positivity)]
    split
    case isTrue hpow =>
      rw [hpow.1]
      norm_num
    case isFalse =>
      norm_num at hlt ⊢
      linarith
  calc
    (10 : ℚ) ^ (r.lead - (16 : ℕ)) = 10 ^ r.lead / 10 ^ 16 := by
      rw [zpow_sub₀ (by norm_num), zpow_natCast]
    _ ≤ m * 2 ^ e / 10 ^ 16 := by gcongr
    _ = m / 10 ^ 16 * 2 ^ e := by ring
    _ < (1 / 2 + gap m e) * 2 ^ e := mul_lt_mul_of_pos_right hmant hpos

/-- The point that the search finds. -/
theorem exists_search_eq (h : r.Covers m e) (hm : IsCanonical m e) :
    ∃ i n : ℕ, i < 17 ∧ r.search 17 r.lead = ⟨n, r.lead - i⟩ ∧ n ≤ 10 ^ 17 ∧
      ReadsAs (n * 10 ^ (r.lead - i)) m e ∧
      ∀ j < i, (r.scale (-(r.lead - j))).nearest? = none := by
  obtain ⟨-, hlead⟩ := lead_spec h hm
  obtain ⟨i, n, hi, hn, hsearch, hbefore⟩ := search_spec _ _ _ (exists_nearest h hm)
  obtain ⟨hholds, hnext⟩ := nearest?_eq_some hn
  refine ⟨i, n, hi, hsearch, ?_, (holds_scale_iff h).1 hholds, hbefore⟩
  have hbelow := below_le (k := r.lead - i) h
  generalize (r.scale _).mid / (r.scale _).den = b at *
  generalize r.lead = lead at *
  have hlt : (b : ℚ) < 10 ^ (i + 1) := by
    have hpos : (0 : ℚ) < 10 ^ (lead - i) := by positivity
    refine lt_of_mul_lt_mul_right ((hbelow.trans_lt hlead).trans_eq ?_) hpos.le
    rw [← zpow_natCast, ← zpow_add₀ (by norm_num)]
    congr 1
    push_cast
    ring
  have hlt : b < 10 ^ (i + 1) := by exact_mod_cast hlt
  have hle : 10 ^ (i + 1) ≤ 10 ^ 17 := Nat.pow_le_pow_right (by norm_num) hi
  omega

/-! ## Whole numbers -/

section Whole

variable {w : ℕ}

/-- A whole number has a point on the grid of whole numbers. -/
theorem nearest?_whole (h : r.Covers m e) (hw : (m * 2 ^ e : ℚ) = w) :
    (r.scale (-0)).nearest? ≠ none := by
  intro hnone
  have hbelow := (nearest?_eq_none hnone).1
  have hle := below_le (k := 0) h
  have hlt := lt_above (k := 0) h
  rw [← Bool.not_eq_true, holds_scale_iff h] at hbelow
  generalize (r.scale _).mid / (r.scale _).den = b at *
  rw [zpow_zero, mul_one] at hle hlt hbelow
  rw [hw] at hle hlt
  have hbw : b = w := by
    have hle : b ≤ w := by exact_mod_cast hle
    have hlt : w < b + 1 := by exact_mod_cast hlt
    omega
  rw [hbw, ← hw] at hbelow
  exact hbelow (readsAs_self _ _)

theorem lead_nonneg_of_whole (h : r.Covers m e) (hm : IsCanonical m e)
    (hw : (m * 2 ^ e : ℚ) = w) : 0 ≤ r.lead := by
  obtain ⟨-, hlead⟩ := lead_spec h hm
  have hone : (1 : ℚ) ≤ m * 2 ^ e := by
    have hpos : (0 : ℚ) < m * 2 ^ e := by
      have := hm.pos
      positivity
    rw [hw] at hpos ⊢
    exact_mod_cast hpos
  have hlt : (10 : ℚ) ^ (0 : ℤ) < 10 ^ (r.lead + 1) := by
    rw [zpow_zero]
    exact hone.trans_lt hlead
  have := (zpow_lt_zpow_iff_right₀ (by norm_num : (1 : ℚ) < 10)).1 hlt
  omega

end Whole

end Rounding

namespace Decimal

theorem strip_spec (fuel : ℕ) (d : Decimal) (hpos : 0 < d.coef) (hlt : d.coef < 10 ^ fuel) :
    0 < (d.strip fuel).coef ∧ (d.strip fuel).coef % 10 ≠ 0 ∧ (d.strip fuel).coef ≤ d.coef ∧
      (d.strip fuel).value = d.value ∧ d.exp ≤ (d.strip fuel).exp := by
  induction fuel generalizing d with
  | zero => simp at hlt; omega
  | succ fuel ih =>
    rw [strip]
    split
    case isTrue hzero =>
      have hcoef : d.coef = 10 * (d.coef / 10) := by omega
      obtain ⟨h₁, h₂, h₃, h₄, h₅⟩ := ih ⟨d.coef / 10, d.exp + 1⟩
        (by show 0 < d.coef / 10; omega)
        (by show d.coef / 10 < 10 ^ fuel; rw [pow_succ] at hlt; omega)
      simp only at h₃ h₅
      refine ⟨h₁, h₂, by omega, h₄.trans ?_, by omega⟩
      have hcast : (d.coef : ℚ) = 10 * (d.coef / 10 : ℕ) := by exact_mod_cast hcoef
      simp only [value]
      rw [hcast, zpow_add_one₀ (by norm_num)]
      ring
    case isFalse hlast =>
      exact ⟨hpos, fun hmod => hlast ⟨hpos.ne', hmod⟩, le_rfl, rfl, le_rfl⟩

end Decimal

/-! ## The decimal of a number -/

section Shortest

variable {d : Dyadic}

theorem exists_shortest_eq (hd : IsCanonical d.mant d.exp) :
    ∃ (r : Rounding) (i n : ℕ), r.Covers d.mant d.exp ∧
      d.shortest = Decimal.strip 20 ⟨n, r.lead - i⟩ ∧ 0 < n ∧ n ≤ 10 ^ 17 ∧
      ReadsAs (n * 10 ^ (r.lead - i)) d.mant d.exp ∧
      ∀ j < i, (r.scale (-(r.lead - j))).nearest? = none := by
  have hcovers := Rounding.covers_ofDyadic hd.pos
  obtain ⟨i, n, -, hsearch, hle, hreads, hbefore⟩ := Rounding.exists_search_eq hcovers hd
  refine ⟨.ofDyadic d, i, n, hcovers, ?_, hreads.coef_pos hd, hle, hreads, hbefore⟩
  rw [Dyadic.shortest, if_neg hd.pos.ne']
  exact congrArg (Decimal.strip 20) hsearch

/-- The decimal of a number is read as the number, and has at most 17 digits, of which the last one
is not a zero. -/
theorem shortest_spec (hd : IsCanonical d.mant d.exp) :
    0 < d.shortest.coef ∧ d.shortest.coef % 10 ≠ 0 ∧ d.shortest.coef < 10 ^ 17 ∧
      ReadsAs d.shortest.value d.mant d.exp := by
  obtain ⟨r, i, n, -, hshortest, hn, hle, hreads, -⟩ := exists_shortest_eq hd
  obtain ⟨hpos, hlast, hcoef, hvalue, -⟩ :=
    Decimal.strip_spec 20 ⟨n, r.lead - i⟩ hn (hle.trans_lt (by norm_num))
  rw [← hshortest] at hpos hlast hcoef hvalue
  refine ⟨hpos, hlast, ?_, hvalue ▸ hreads⟩
  have hne : d.shortest.coef ≠ 10 ^ 17 := by
    intro heq
    rw [heq] at hlast
    norm_num at hlast
  exact lt_of_le_of_ne (hcoef.trans hle) hne

variable {w : ℕ}

/-- The decimal of a whole number has no digits after the point. -/
theorem exp_nonneg_of_whole (hd : IsCanonical d.mant d.exp) (hw : (d.mant * 2 ^ d.exp : ℚ) = w) :
    0 ≤ d.shortest.exp := by
  obtain ⟨r, i, n, hcovers, hshortest, hn, hle, -, hbefore⟩ := exists_shortest_eq hd
  have hlead := Rounding.lead_nonneg_of_whole hcovers hd hw
  obtain ⟨-, -, -, -, hexp⟩ :=
    Decimal.strip_spec 20 ⟨n, r.lead - i⟩ hn (hle.trans_lt (by norm_num))
  rw [hshortest]
  refine le_trans ?_ hexp
  by_contra hneg
  -- The grid of whole numbers would have come first.
  have hnone := hbefore r.lead.toNat (by simp only at hneg; omega)
  rw [show r.lead - (r.lead.toNat : ℤ) = 0 by omega] at hnone
  exact Rounding.nearest?_whole hcovers hw hnone

theorem Decimal.value_of_exp_nonneg {q : Decimal} (h : 0 ≤ q.exp) :
    q.value = (q.coef * 10 ^ q.exp.toNat : ℕ) := by
  rw [Decimal.value]
  push_cast
  rw [← zpow_natCast, Int.toNat_of_nonneg h]

/-- Only whole numbers have decimals without digits after the point. -/
theorem exists_whole_of_exp_nonneg (hd : IsCanonical d.mant d.exp) (h : 0 ≤ d.shortest.exp) :
    ∃ w : ℕ, (d.mant * 2 ^ d.exp : ℚ) = w := by
  obtain ⟨-, -, -, hreads⟩ := shortest_spec hd
  have hvalue := Decimal.value_of_exp_nonneg h
  generalize d.shortest.coef * 10 ^ d.shortest.exp.toNat = N at hvalue
  by_cases he : 0 ≤ d.exp
  · refine ⟨d.mant * 2 ^ d.exp.toNat, ?_⟩
    push_cast
    rw [← zpow_natCast, Int.toNat_of_nonneg he]
  -- In units of the last place the decimal is less than one away from the number.
  · refine ⟨N, ?_⟩
    obtain ⟨k, hk⟩ : ∃ k : ℕ, d.exp = -k := ⟨(-d.exp).toNat, by omega⟩
    have hlow := hreads.low
    have hhigh := hreads.high
    have hgap := gap_le d.mant (-k)
    rw [hvalue, hk, zpow_neg, zpow_natCast, ← div_eq_mul_inv] at hlow hhigh
    rw [div_le_iff₀ (by positivity)] at hlow
    rw [le_div_iff₀ (by positivity)] at hhigh
    have hunits : d.mant = N * 2 ^ k := by
      have h₁ : (d.mant : ℚ) < (N * 2 ^ k : ℕ) + 1 := by push_cast; linarith
      have h₂ : ((N * 2 ^ k : ℕ) : ℚ) < d.mant + 1 := by push_cast; linarith
      have h₁ : d.mant < N * 2 ^ k + 1 := by exact_mod_cast h₁
      have h₂ : N * 2 ^ k < d.mant + 1 := by exact_mod_cast h₂
      omega
    rw [hunits, hk, zpow_neg, zpow_natCast]
    push_cast
    rw [mul_assoc, mul_inv_cancel₀ (by positivity), mul_one]

/-- The decimal of a whole number with at most 53 bits is the number itself. -/
theorem value_of_whole (hd : IsCanonical d.mant d.exp) (hw : (d.mant * 2 ^ d.exp : ℚ) = w)
    (hlt : w < 2 ^ 53) : d.shortest.value = w := by
  obtain ⟨-, -, -, hreads⟩ := shortest_spec hd
  have hexp := exp_nonneg_of_whole hd hw
  obtain ⟨N, hN⟩ : ∃ N : ℕ, d.shortest.value = N := ⟨_, Decimal.value_of_exp_nonneg hexp⟩
  have hulp : (2 : ℚ) ^ d.exp ≤ 1 := by
    have he : d.exp ≤ 0 := by
      by_contra hpos
      have hbig : (2 : ℚ) ^ 53 ≤ w := by
        rw [← hw]
        calc
          (2 : ℚ) ^ 53 = (2 ^ 52 : ℚ) * 2 ^ (1 : ℤ) := by norm_num
          _ ≤ (d.mant : ℚ) * 2 ^ d.exp := by
            have := hd.normal (by omega)
            gcongr
            · exact_mod_cast this
            · norm_num
            · omega
      have : 2 ^ 53 ≤ w := by exact_mod_cast hbig
      omega
    exact zpow_le_one_of_nonpos₀ one_le_two he
  have hlow := hreads.low
  have hhigh := hreads.high
  have hgap := gap_le d.mant d.exp
  have hgap' := gap_pos d.mant d.exp
  have hpos : (0 : ℚ) < 2 ^ d.exp := by positivity
  rw [hN, sub_mul, hw] at hlow
  rw [hN, add_mul, hw] at hhigh
  have h₁ : (w : ℚ) < N + 1 := by nlinarith
  have h₂ : (N : ℚ) < w + 1 := by nlinarith
  have h₁ : w < N + 1 := by exact_mod_cast h₁
  have h₂ : N < w + 1 := by exact_mod_cast h₂
  rw [hN]
  exact_mod_cast (by omega : N = w)

end Shortest

end Hantec
