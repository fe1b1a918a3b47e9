import Hantec.Proofs.Number.Numerals

/-!
# Written numbers

The two ways of writing a decimal denote it, and the one that scripts see has no superfluous
characters: no point with nothing but a zero after it, and an exponent only where it is due, with
its sign and without leading zeros.
-/

namespace Hantec.Number

/-- Whole numbers below `10 ^ 21` and numbers from `10 ^ -6` on have no exponent. -/
def isPlain (d : Decimal) : Bool :=
  if 0 ≤ d.exp then d.lead < 21 else -6 ≤ d.lead

/-- What scripts see of a number, written from its shortest decimal. -/
def written (d : Decimal) : List Char :=
  if isPlain d then positional d
  else mantissa d ++ 'e' :: exponent 1 d.lead

/-! ## The decimal that is written -/

theorem digits_zeros (n : ℕ) : Digits (zeros n) (List.replicate n 0) := by
  rw [Digits, zeros, List.map_replicate, List.map_replicate]
  rfl

theorem mem_zeros {c : Char} {n : ℕ} (h : c ∈ zeros n) : c = '0' := List.eq_of_mem_replicate h

theorem ofDigits_zeros_append (n : ℕ) (cs : List Char) :
    ofDigits (values (zeros n ++ cs)) = ofDigits (values cs) := by
  have hvalues : values (zeros n ++ cs) = List.replicate n 0 ++ values cs := by
    simp [values, zeros]
  rw [hvalues, ofDigits_append, ofDigits_replicate_zero, zero_mul, zero_add]

theorem exists_exponent_eq (width : ℕ) (e : ℤ) : ∃ sign ds, exponent width e = sign :: ds ∧
    SignText (e < 0) [sign] ∧ (∀ c ∈ ds, c.isDigit = true) ∧ ds ≠ [] ∧
    ofDigits (values ds) = e.natAbs := by
  refine ⟨_, _, rfl, ?_, fun c hc => ?_, by simp, ?_⟩
  · by_cases he : e < 0
    · simp only [he, decide_true, if_true]
      exact .minus
    · simp only [he, decide_false, if_false]
      exact .plus
  · rcases List.mem_append.1 hc with hc | hc
    · exact mem_zeros hc ▸ rfl
    · exact Nat.isDigit_of_mem_toDigits (by decide) (by decide) hc
  · exact (ofDigits_zeros_append _ _).trans (ofDigits_toDigits _)

theorem signed_natAbs (e : ℤ) : signed (e < 0) e.natAbs = e := by
  rw [signed]
  simp only [decide_eq_true_eq]
  split <;> omega

theorem exponentText_exponent (width : ℕ) (e : ℤ) : ExponentText e ('e' :: exponent width e) := by
  obtain ⟨sign, ds, heq, hsign, hds, hne, hvalue⟩ := exists_exponent_eq width e
  have hexp := ExponentText.some (.inl rfl) hsign (digits_of_isDigit hds) (by simpa [values])
  rwa [hvalue, signed_natAbs, List.singleton_append, ← heq] at hexp

variable (d : Decimal)

theorem lead_eq : d.lead = d.exp + d.digits.length - 1 := by
  have hlen : 0 < d.digits.length := Nat.length_toDigits_pos
  rw [Decimal.lead]
  omega

theorem isDigit_of_mem_digits {c : Char} (h : c ∈ d.digits) : c.isDigit = true :=
  Nat.isDigit_of_mem_toDigits (by decide) (by decide) h

theorem values_digits_ne_nil : values d.digits ≠ [] := by
  rw [values, Decimal.digits]
  simp

theorem writes_positional : Writes (positional d) d.value := by
  have hdigits : Digits d.digits (values d.digits) := digits_toDigits d.coef
  have hvalue : ofDigits (values d.digits) = d.coef := ofDigits_toDigits d.coef
  have hlength : (values d.digits).length = d.digits.length := length_values _
  have hne := values_digits_ne_nil d
  have hlead := lead_eq d
  unfold positional
  dsimp only
  split
  case isTrue hexp =>
    have hwrites := writes_whole (q := d.value) (hdigits.append (digits_zeros d.exp.toNat))
      (by simp [hne]) .none
    rw [List.append_nil] at hwrites
    refine hwrites ?_
    rw [ofDigits_append, ofDigits_replicate_zero, hvalue, List.length_replicate, Decimal.value]
    push_cast
    rw [← zpow_natCast, Int.toNat_of_nonneg hexp]
    simp
  case isFalse hexp =>
    split
    case isTrue hle =>
      -- The digits after the point are as many as the exponent says.
      have hparts : values (d.digits.take (d.lead + 1).toNat) ++
          values (d.digits.drop (d.lead + 1).toNat) = values d.digits := by
        rw [values, values, ← List.map_append, List.take_append_drop, values]
      have htake : Digits (d.digits.take (d.lead + 1).toNat) _ :=
        digits_of_isDigit fun c hc => isDigit_of_mem_digits d (List.mem_of_mem_take hc)
      have hdrop : Digits (d.digits.drop (d.lead + 1).toNat) _ :=
        digits_of_isDigit fun c hc => isDigit_of_mem_digits d (List.mem_of_mem_drop hc)
      have hwrites := writes_point (q := d.value) htake hdrop (by rw [hparts]; exact hne) .none
      rw [List.append_nil] at hwrites
      refine hwrites ?_
      rw [hparts, hvalue, length_values, List.length_drop, Decimal.value]
      congr 2
      omega
    case isFalse hlt =>
      have hwrites := writes_point (q := d.value) (digits_zeros 1)
        ((digits_zeros (-d.lead - 1).toNat).append hdigits) (by simp) .none
      rw [List.append_nil] at hwrites
      refine hwrites ?_
      rw [ofDigits_append, ofDigits_append, ofDigits_replicate_zero, ofDigits_replicate_zero,
        hvalue, List.length_append, List.length_replicate, hlength, Decimal.value]
      simp only [zero_mul, zero_add]
      congr 2
      omega

theorem writes_scientific (width : ℕ) :
    Writes (mantissa d ++ 'e' :: exponent width d.lead) d.value := by
  have hdigits : Digits d.digits (values d.digits) := digits_toDigits d.coef
  have hvalue : ofDigits (values d.digits) = d.coef := ofDigits_toDigits d.coef
  have hlead := lead_eq d
  have hexp := exponentText_exponent width d.lead
  unfold mantissa
  obtain ⟨c, cs, hcs⟩ := List.exists_cons_of_ne_nil (l := d.digits) Nat.toDigits_ne_nil
  rw [hcs] at hdigits hvalue hlead ⊢
  cases cs with
  | nil =>
    refine writes_whole hdigits (by simp [values]) hexp ?_
    rw [hvalue, hlead, Decimal.value]
    simp
  | cons c' cs =>
    have hfirst : Digits [c] (values [c]) := by
      refine digits_of_isDigit fun x hx => isDigit_of_mem_digits d ?_
      rw [hcs]
      exact List.mem_cons.2 (.inl (List.mem_singleton.1 hx))
    have hrest : Digits (c' :: cs) (values (c' :: cs)) := by
      refine digits_of_isDigit fun x hx => isDigit_of_mem_digits d ?_
      rw [hcs]
      exact List.mem_cons_of_mem _ hx
    have hparts : values [c] ++ values (c' :: cs) = values (c :: c' :: cs) := rfl
    refine writes_point hfirst hrest (by simp [values]) hexp ?_
    rw [hparts, hvalue, length_values, hlead, Decimal.value]
    congr 2
    simp only [List.length_cons]
    push_cast
    ring

/-- The text of a number in scripts denotes its decimal. -/
theorem writes_written : Writes (written d) d.value := by
  unfold written
  split
  · exact writes_positional d
  · exact writes_scientific d 1

/-- The text of a number in syntax files denotes its decimal as well. -/
theorem writes_writtenInFile : Writes (writtenInFile d) d.value := by
  unfold writtenInFile
  split
  · split
    case isTrue hexp =>
      have hdigits : Digits d.digits (values d.digits) := digits_toDigits d.coef
      have hvalue : ofDigits (values d.digits) = d.coef := ofDigits_toDigits d.coef
      have hwrites := writes_point (q := d.value) (hdigits.append (digits_zeros d.exp.toNat))
        (digits_zeros 1) (by simp) .none
      unfold positional
      rw [if_pos hexp]
      refine hwrites ?_
      rw [ofDigits_append, ofDigits_append, ofDigits_replicate_zero, ofDigits_replicate_zero,
        hvalue, Decimal.value]
      simp only [List.length_replicate, add_zero]
      push_cast
      rw [← zpow_natCast, Int.toNat_of_nonneg hexp]
      norm_num
      ring
    case isFalse => exact writes_positional d
  · exact writes_scientific d 2

/-! ## The shape of a text -/

section Shape

variable {d} {c : Char}

theorem mem_positional (h : c ∈ positional d) : c.isDigit = true ∨ c = '.' ∧ d.exp < 0 := by
  unfold positional at h
  dsimp only at h
  have hdigit (h : c ∈ d.digits) : c.isDigit = true := isDigit_of_mem_digits d h
  have hzero {n : ℕ} (h : c ∈ zeros n) : c.isDigit = true := mem_zeros h ▸ rfl
  split at h
  case isTrue =>
    rcases List.mem_append.1 h with h | h
    · exact .inl (hdigit h)
    · exact .inl (hzero h)
  case isFalse hexp =>
    split at h
    case isTrue =>
      rcases List.mem_append.1 h with h | h
      · exact .inl (hdigit (List.mem_of_mem_take h))
      · rcases List.mem_cons.1 h with rfl | h
        · exact .inr ⟨rfl, not_le.1 hexp⟩
        · exact .inl (hdigit (List.mem_of_mem_drop h))
    case isFalse =>
      simp only [List.cons_append, List.mem_cons, List.mem_append] at h
      rcases h with rfl | rfl | h | h
      · exact .inl rfl
      · exact .inr ⟨rfl, not_le.1 hexp⟩
      · exact .inl (hzero h)
      · exact .inl (hdigit h)

theorem mem_mantissa (h : c ∈ mantissa d) : c.isDigit = true ∨ c = '.' := by
  have hdigit (h : c ∈ d.digits) : c.isDigit = true := isDigit_of_mem_digits d h
  obtain ⟨c', cs, hcs⟩ := List.exists_cons_of_ne_nil (l := d.digits) Nat.toDigits_ne_nil
  unfold mantissa at h
  rw [hcs] at h hdigit
  cases cs with
  | nil => exact .inl (hdigit h)
  | cons c'' cs =>
    rcases List.mem_cons.1 h with rfl | h
    · exact .inl (hdigit (List.mem_cons_self ..))
    · rcases List.mem_cons.1 h with rfl | h
      · exact .inr rfl
      · exact .inl (hdigit (List.mem_cons_of_mem _ h))

/-- The last digit of a number that is not divided by ten is not a zero. -/
theorem getLast?_digits (h : d.coef % 10 ≠ 0) : d.digits.getLast? ≠ some '0' := by
  have hchar : ∀ m < 10, Nat.digitChar m = '0' → m = 0 := by decide
  rw [Decimal.digits, Nat.toDigits_eq_if (by decide)]
  split
  case isTrue hlt =>
    intro hlast
    exact h (by rw [hchar d.coef hlt (by simpa using hlast)])
  case isFalse =>
    intro hlast
    exact h (hchar _ (Nat.mod_lt _ (by decide)) (by simpa using hlast))

theorem getLast?_positional (hexp : d.exp < 0) (hlast : d.coef % 10 ≠ 0) :
    (positional d).getLast? ≠ some '0' := by
  have hne : d.digits ≠ [] := Nat.toDigits_ne_nil
  have hdigits := getLast?_digits hlast
  have hlead := lead_eq d
  unfold positional
  dsimp only
  rw [if_neg (not_le.2 hexp)]
  split
  case isTrue hle =>
    have hlen : ¬ d.digits.length ≤ (d.lead + 1).toNat := by omega
    have hdrop : d.digits.drop (d.lead + 1).toNat ≠ [] := by rwa [Ne, List.drop_eq_nil_iff]
    rw [List.getLast?_append_of_ne_nil _ (List.cons_ne_nil _ _), List.getLast?_cons_of_ne_nil hdrop,
      List.getLast?_drop, if_neg hlen]
    exact hdigits
  case isFalse =>
    rw [List.getLast?_append_of_ne_nil _ hne]
    exact hdigits

theorem exponent_eq (e : ℤ) :
    exponent 1 e = (if e < 0 then '-' else '+') :: Nat.toDigits 10 e.natAbs := by
  have hlen : 0 < (Nat.toDigits 10 e.natAbs).length := Nat.length_toDigits_pos
  rw [exponent, show 1 - (Nat.toDigits 10 e.natAbs).length = 0 by omega]
  rfl

theorem mem_exponent {width : ℕ} {e : ℤ} (h : c ∈ exponent width e) :
    c.isDigit = true ∨ c = '-' ∨ c = '+' := by
  obtain ⟨sign, ds, heq, hsign, hds, -⟩ := exists_exponent_eq width e
  rw [heq] at h
  generalize decide (e < 0) = neg at hsign
  rcases List.mem_cons.1 h with rfl | h
  · cases hsign with
    | minus => exact .inr (.inl rfl)
    | plus => exact .inr (.inr rfl)
  · exact .inl (hds c h)

theorem mem_written (h : c ∈ written d) :
    c.isDigit = true ∨ c = '.' ∨ c = '-' ∨ c = '+' ∨ c = 'e' ∧ isPlain d = false := by
  unfold written at h
  split at h
  case isTrue =>
    rcases mem_positional h with h | ⟨h, -⟩
    · exact .inl h
    · exact .inr (.inl h)
  case isFalse hplain =>
    rcases List.mem_append.1 h with h | h
    · rcases mem_mantissa h with h | h
      · exact .inl h
      · exact .inr (.inl h)
    · rcases List.mem_cons.1 h with rfl | h
      · exact .inr (.inr (.inr (.inr ⟨rfl, by simpa using hplain⟩)))
      · rcases mem_exponent h with h | h | h
        · exact .inl h
        · exact .inr (.inr (.inl h))
        · exact .inr (.inr (.inr (.inl h)))

/-- No text ends in a point and a zero. -/
theorem not_pointZero_suffix_written (hlast : d.exp < 0 → d.coef % 10 ≠ 0) :
    ¬ ['.', '0'] <:+ written d := by
  intro hsuffix
  unfold written at hsuffix
  split at hsuffix
  case isTrue =>
    have hpoint : '.' ∈ positional d := hsuffix.subset (by simp)
    rcases mem_positional hpoint with h | ⟨-, hexp⟩
    · cases h
    · obtain ⟨start, hstart⟩ := hsuffix
      apply getLast?_positional hexp (hlast hexp)
      rw [← hstart]
      simp
  case isFalse =>
    -- The exponent has its sign and a digit, so that the point would be in it.
    have hlen : 2 ≤ (exponent 1 d.lead).length := by
      rw [exponent_eq, List.length_cons]
      exact Nat.succ_le_succ Nat.length_toDigits_pos
    have hexponent : exponent 1 d.lead <:+ mantissa d ++ 'e' :: exponent 1 d.lead :=
      ⟨mantissa d ++ ['e'], by simp⟩
    have hpoint : '.' ∈ exponent 1 d.lead :=
      (List.suffix_of_suffix_length_le hsuffix hexponent hlen).subset (by simp)
    rcases mem_exponent hpoint with h | h | h <;> cases h

/-- What follows the mark of an exponent is a sign and a whole number other than zero. -/
theorem exponent_of_written_eq {start tail : List Char} (h : written d = start ++ 'e' :: tail) :
    ∃ sign n, (sign = '+' ∨ sign = '-') ∧ 0 < n ∧ tail = sign :: Nat.toDigits 10 n := by
  have hplain : isPlain d = false := by
    have hmem : 'e' ∈ written d := h ▸ List.mem_append_right _ (List.mem_cons_self ..)
    rcases mem_written hmem with h | h | h | h | ⟨-, h⟩
    · cases h
    · cases h
    · cases h
    · cases h
    · exact h
  have hlead : d.lead ≠ 0 := by
    rw [isPlain] at hplain
    split at hplain <;> simp only [decide_eq_false_iff_not] at hplain <;> omega
  rw [written, hplain, if_neg Bool.false_ne_true] at h
  have htail : exponent 1 d.lead = tail := by
    have hmantissa : 'e' ∉ mantissa d := fun hmem => by
      rcases mem_mantissa hmem with h | h <;> cases h
    have hexponent : 'e' ∉ exponent 1 d.lead := fun hmem => by
      rcases mem_exponent hmem with h | h | h <;> cases h
    exact ((List.append_cons_inj_of_notMem hmantissa hexponent).1 h).2.2
  rw [exponent_eq] at htail
  refine ⟨_, d.lead.natAbs, ?_, Int.natAbs_pos.2 hlead, htail.symm⟩
  split
  · exact .inr rfl
  · exact .inl rfl

end Shape

end Hantec.Number
