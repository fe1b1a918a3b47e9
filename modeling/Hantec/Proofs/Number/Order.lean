import Hantec.Proofs.Number.Written

/-!
# The order of numbers

Numbers are ordered by their exponents and then by their mantissas, and so are the rationals that
are read as them. Hence the decimal of a number is on the same side of a limit as the number, and
whether it is written with an exponent is told by the size of the number.
-/

namespace Hantec.Number

open Float.Model Float.Model.UnpackedFloat

section Intervals

variable {m₁ m₂ : ℕ} {e₁ e₂ : ℤ}

/-- The rationals that are read as a number come before those of any larger number. -/
theorem high_le_low (h₁ : IsCanonical m₁ e₁) (h₂ : IsCanonical m₂ e₂)
    (h : e₁ < e₂ ∨ e₁ = e₂ ∧ m₁ < m₂) :
    (m₁ + 1 / 2 : ℚ) * 2 ^ e₁ ≤ (m₂ - gap m₂ e₂) * 2 ^ e₂ := by
  rcases h with he | ⟨rfl, hm⟩
  · have hnormal : 2 ^ 52 ≤ m₂ := h₂.normal (by have := h₁.min_le; omega)
    have hlow : (2 ^ 52 - 1 / 4 : ℚ) ≤ m₂ - gap m₂ e₂ := by
      rcases Nat.lt_or_eq_of_le hnormal with hlt | rfl
      · have hsucc : (2 ^ 52 + 1 : ℚ) ≤ m₂ := by exact_mod_cast hlt
        linarith [gap_le m₂ e₂]
      · have hne : e₂ ≠ -1074 := by have := h₁.min_le; omega
        rw [gap, if_pos ⟨rfl, hne⟩]
        norm_num
    have hhigh : (m₁ + 1 : ℚ) ≤ 2 ^ 53 := by exact_mod_cast h₁.lt
    have hpow : (2 : ℚ) * 2 ^ e₁ ≤ 2 ^ e₂ := by
      rw [← zpow_one_add₀ two_ne_zero]
      exact zpow_le_zpow_right₀ (by norm_num) (by omega)
    calc (m₁ + 1 / 2 : ℚ) * 2 ^ e₁ ≤ (2 ^ 52 - 1 / 4) * (2 * 2 ^ e₁) := by
          rw [← mul_assoc]
          gcongr
          linarith
      _ ≤ (m₂ - gap m₂ e₂) * 2 ^ e₂ := by gcongr
  · have hsucc : (m₁ + 1 : ℚ) ≤ m₂ := by exact_mod_cast hm
    gcongr
    linarith [gap_le m₂ e₁]

theorem lt_iff_order (h₁ : IsCanonical m₁ e₁) (h₂ : IsCanonical m₂ e₂) :
    (m₁ * 2 ^ e₁ : ℚ) < m₂ * 2 ^ e₂ ↔ e₁ < e₂ ∨ e₁ = e₂ ∧ m₁ < m₂ := by
  have hlt {m m' : ℕ} {e e' : ℤ} (h : IsCanonical m e) (h' : IsCanonical m' e')
      (horder : e < e' ∨ e = e' ∧ m < m') : (m * 2 ^ e : ℚ) < m' * 2 ^ e' := by
    calc (m * 2 ^ e : ℚ) < (m + 1 / 2) * 2 ^ e := by gcongr; norm_num
      _ ≤ (m' - gap m' e') * 2 ^ e' := high_le_low h h' horder
      _ < m' * 2 ^ e' := by gcongr; linarith [gap_pos m' e']
  refine ⟨fun h => ?_, hlt h₁ h₂⟩
  by_contra hnot
  by_cases heq : e₁ = e₂ ∧ m₁ = m₂
  · rw [heq.1, heq.2] at h
    exact lt_irrefl _ h
  · exact lt_asymm h (hlt h₂ h₁ (by omega))

end Intervals

/-! ## Comparing numbers -/

section Compare

variable {x y : Float} {m₁ m₂ : ℕ} {e₁ e₂ : ℤ} {h₁ : 0 < m₁} {h₂ : 0 < m₂}

theorem lt_iff_of_unpack (hx : x.toModel.unpack = .finite .positive m₁ e₁ h₁)
    (hy : y.toModel.unpack = .finite .positive m₂ e₂ h₂) :
    x < y ↔ e₁ < e₂ ∨ e₁ = e₂ ∧ m₁ < m₂ := by
  show decide (UnpackedFloat.lt x.toModel.unpack y.toModel.unpack = true) = true ↔ _
  rw [hx, hy]
  simp only [UnpackedFloat.lt, UnpackedFloat.compare, decide_eq_true_eq, beq_iff_eq,
    Option.some.injEq, Ordering.then_eq_lt, compare_lt_iff_lt, compare_eq_iff_eq]

theorem le_iff_of_unpack (hx : x.toModel.unpack = .finite .positive m₁ e₁ h₁)
    (hy : y.toModel.unpack = .finite .positive m₂ e₂ h₂) :
    x ≤ y ↔ e₁ < e₂ ∨ e₁ = e₂ ∧ m₁ ≤ m₂ := by
  show decide (UnpackedFloat.le x.toModel.unpack y.toModel.unpack = true) = true ↔ _
  rw [hx, hy]
  simp only [UnpackedFloat.le, UnpackedFloat.compare, decide_eq_true_eq, Option.any_some,
    Ordering.isLE_then_iff_or, compare_lt_iff_lt, compare_eq_iff_eq, Nat.isLE_compare]

theorem unpack_abs {d : Dyadic} (h : Dyadic.ofFloat? x = some d) (hm : 0 < d.mant) :
    x.abs.toModel.unpack = .finite .positive d.mant d.exp hm := by
  obtain ⟨hcanon, hexp⟩ := isCanonical_of_ofFloat? h hm
  show (Float.Model.pack (UnpackedFloat.abs x.toModel.unpack)).unpack = _
  rw [unpack_of_mant_pos h hm]
  exact unpack_pack hcanon hexp false

end Compare

/-! ## Numbers without an exponent -/

section Plain

variable {q : Decimal} {d : Dyadic} {x : Float}

theorem ten_zpow_lead_le (h : 0 < q.coef) : (10 : ℚ) ^ q.lead ≤ q.value := by
  have hlead : q.lead = (q.digits.length - 1 : ℤ) + q.exp := by rw [lead_eq]; ring
  rw [hlead, zpow_add₀ (by norm_num), Decimal.value]
  gcongr
  exact ten_pow_length_le h

theorem value_lt_ten_zpow (q : Decimal) : q.value < (10 : ℚ) ^ (q.lead + 1) := by
  have hlead : q.lead + 1 = (q.digits.length : ℤ) + q.exp := by rw [lead_eq]; ring
  rw [hlead, zpow_add₀ (by norm_num), Decimal.value]
  gcongr
  exact lt_ten_pow_length q.coef

theorem ofFloat?_upper : Dyadic.ofFloat? 1e21 = some ⟨false, 7629394531250000, 17⟩ := by
  decide +kernel

theorem ofFloat?_lower : Dyadic.ofFloat? 1e-6 = some ⟨false, 4722366482869645, -72⟩ := by
  decide +kernel

/-- The upper limit is a number itself, so the decimals of smaller numbers are below it. -/
theorem lead_lt_of_order (hd : IsCanonical d.mant d.exp)
    (horder : d.exp < 17 ∨ d.exp = 17 ∧ d.mant < 7629394531250000) : d.shortest.lead < 21 := by
  obtain ⟨hlimit, -⟩ := isCanonical_of_ofFloat? ofFloat?_upper (by norm_num)
  obtain ⟨hpos, -, -, hreads⟩ := shortest_spec hd
  have hvalue : d.shortest.value < 10 ^ (21 : ℤ) := by
    calc d.shortest.value ≤ (d.mant + 1 / 2) * 2 ^ d.exp := hreads.high
      _ ≤ _ := high_le_low hd hlimit horder
      _ < 10 ^ (21 : ℤ) := by norm_num [gap]
  exact (zpow_lt_zpow_iff_right₀ (by norm_num)).1 ((ten_zpow_lead_le hpos).trans_lt hvalue)

theorem lead_lt_of_abs_lt (h : Dyadic.ofFloat? x = some d) (hm : 0 < d.mant) (hlt : x.abs < 1e21) :
    d.shortest.lead < 21 :=
  lead_lt_of_order (isCanonical_of_ofFloat? h hm).1 ((lt_iff_of_unpack (unpack_abs h hm)
    (unpack_of_mant_pos ofFloat?_upper (by norm_num))).1 hlt)

/-- A limit is read as a number, and the decimals of larger numbers are above it. -/
theorem le_lead_of_order {k : ℤ} {y : Float} {l : Dyadic} (hl : Dyadic.ofFloat? y = some l)
    (hpos : 0 < l.mant) (hself : ∀ neg, k ≤ (Dyadic.mk neg l.mant l.exp).shortest.lead)
    (hk : (10 : ℚ) ^ k ≤ (l.mant + 1 / 2) * 2 ^ l.exp) (hd : IsCanonical d.mant d.exp)
    (horder : l.exp < d.exp ∨ l.exp = d.exp ∧ l.mant ≤ d.mant) : k ≤ d.shortest.lead := by
  by_cases heq : l.exp = d.exp ∧ l.mant = d.mant
  · obtain ⟨neg, mant, exp⟩ := d
    rw [heq.1, heq.2] at hself
    exact hself neg
  · have hlimit := (isCanonical_of_ofFloat? hl hpos).1
    have hvalue : (10 : ℚ) ^ k ≤ d.shortest.value :=
      calc (10 : ℚ) ^ k ≤ (l.mant + 1 / 2) * 2 ^ l.exp := hk
        _ ≤ (d.mant - gap d.mant d.exp) * 2 ^ d.exp := high_le_low hlimit hd (by omega)
        _ ≤ d.shortest.value := (shortest_spec hd).2.2.2.low
    have hlead := (zpow_lt_zpow_iff_right₀ (by norm_num)).1
      (hvalue.trans_lt (value_lt_ten_zpow d.shortest))
    omega

theorem le_lead_of_le_abs (h : Dyadic.ofFloat? x = some d) (hm : 0 < d.mant) (hle : 1e-6 ≤ x.abs) :
    -6 ≤ d.shortest.lead := by
  have horder := (le_iff_of_unpack (unpack_of_mant_pos ofFloat?_lower (by norm_num))
    (unpack_abs h hm)).1 hle
  refine le_lead_of_order ofFloat?_lower (by norm_num) (fun neg => ?_) (by norm_num)
    (isCanonical_of_ofFloat? h hm).1 horder
  cases neg <;> decide +kernel

/-- A number in the limits is written without an exponent, and a whole number needs no lower one. -/
theorem isPlain_shortest (h : Dyadic.ofFloat? x = some d) (hlt : x.abs < 1e21)
    (hsize : (∃ w : ℕ, (d.mant * 2 ^ d.exp : ℚ) = w) ∨ 1e-6 ≤ x.abs) :
    isPlain d.shortest = true := by
  rcases Nat.eq_zero_or_pos d.mant with hm | hm
  · rw [Dyadic.shortest, if_pos hm]
    rfl
  · have hlead := lead_lt_of_abs_lt h hm hlt
    rw [isPlain]
    split
    case isTrue => exact decide_eq_true hlead
    case isFalse hexp =>
      rcases hsize with ⟨w, hw⟩ | hle
      · exact absurd (exp_nonneg_of_whole (isCanonical_of_ofFloat? h hm).1 hw) hexp
      · exact decide_eq_true (le_lead_of_le_abs h hm hle)

end Plain

end Hantec.Number
