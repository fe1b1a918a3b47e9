import Hantec.Proofs.Number.Order

/-!
# Texts in scripts

The text of a number in scripts is made from the one in syntax files: a point with a zero is
dropped, zeros take the place of an exponent, or the exponent is written anew. What comes out is
what can be written directly from the shortest decimal of the number.
-/

namespace Hantec.Number

/-! ## Taking a text apart -/

section Parts

variable (q : Decimal) (neg : Bool)

/-- The sign before a text. -/
def minus : List Char := if neg then ['-'] else []

variable {neg} in
theorem mem_minus {c : Char} (h : c ∈ minus neg) : c = '-' := by
  cases neg with
  | false => cases h
  | true => exact List.mem_singleton.1 h

theorem minus_append (cs : List Char) : minus neg ++ cs = if neg then '-' :: cs else cs := by
  cases neg <;> rfl

theorem dropWhile_minus_append {cs : List Char} (h : '-' ∉ cs) :
    (minus neg ++ cs).dropWhile (· == '-') = cs := by
  have hcs : cs.dropWhile (· == '-') = cs := by
    rw [List.dropWhile_eq_self_iff]
    intro hlen
    rw [beq_iff_eq]
    exact fun heq => h (heq ▸ List.getElem_mem hlen)
  rw [List.dropWhile_append_of_pos fun c hc => beq_iff_eq.2 (mem_minus hc), hcs]

theorem contains_minus_append {cs : List Char} (h : 'e' ∉ cs) :
    (minus neg ++ cs).contains 'e' = false := by
  rw [← Bool.not_eq_true, List.contains_iff_mem, List.mem_append]
  rintro (hmem | hmem)
  · cases mem_minus hmem
  · exact h hmem

theorem notMem_positional : 'e' ∉ positional q := fun hmem => by
  rcases mem_positional hmem with h | ⟨h, -⟩ <;> cases h

theorem filter_mantissa : (mantissa q).filter (· != '.') = q.digits := by
  have hdigits : ∀ c ∈ q.digits, (c != '.') = true := fun c hc => by
    have hdigit := isDigit_of_mem_digits q hc
    rw [bne_iff_ne]
    rintro rfl
    cases hdigit
  unfold mantissa
  split
  case h_1 h => rw [h]; rfl
  case h_2 h => rw [h] at hdigits ⊢; exact List.filter_eq_self.2 hdigits
  case h_3 c cs _ h =>
    rw [h] at hdigits ⊢
    obtain ⟨hc, hcs⟩ := List.forall_mem_cons.1 hdigits
    simp only [List.filter_cons, hc, List.filter_eq_self.2 hcs, bne_self_eq_false, if_true,
      Bool.false_eq_true, if_false]

/-- The text of a number with an exponent. -/
def scientific : List Char := minus neg ++ (mantissa q ++ 'e' :: exponent 2 q.lead)

theorem span_scientific : mantissaOf (scientific q neg) = minus neg ++ mantissa q ∧
    (scientific q neg).dropWhile (· != 'e') = 'e' :: exponent 2 q.lead := by
  have hmantissa : ∀ c ∈ minus neg ++ mantissa q, (c != 'e') = true := by
    intro c hc
    rw [bne_iff_ne]
    rintro rfl
    rcases List.mem_append.1 hc with hc | hc
    · cases mem_minus hc
    · rcases mem_mantissa hc with h | h <;> cases h
  rw [mantissaOf, scientific, ← List.append_assoc]
  constructor
  · rw [List.takeWhile_append_of_pos hmantissa]
    simp
  · rw [List.dropWhile_append_of_pos hmantissa]
    simp

theorem contains_scientific : (scientific q neg).contains 'e' = true := by
  simp [scientific]

theorem exponentOf_scientific : exponentOf (scientific q neg) = q.lead := by
  rw [exponentOf, (span_scientific q neg).2, exponent?_of (exponentText_exponent 2 q.lead)]
  rfl

theorem notMem_mantissa : '-' ∉ mantissa q := fun hmem => by
  rcases mem_mantissa hmem with h | h <;> cases h

theorem minusOf_scientific : minusOf (scientific q neg) = minus neg := by
  cases neg with
  | true => rfl
  | false =>
    have hhead : (scientific q false).head? ≠ some '-' := by
      show (mantissa q ++ 'e' :: exponent 2 q.lead).head? ≠ some '-'
      rw [List.head?_append]
      cases hfirst : (mantissa q).head? with
      | none => rintro ⟨⟩
      | some c =>
        rintro ⟨⟩
        exact notMem_mantissa q (List.mem_of_mem_head? hfirst)
    rw [minusOf, if_neg (by rwa [beq_iff_eq])]
    rfl

theorem figuresOf_scientific : figuresOf (scientific q neg) = q.digits := by
  rw [figuresOf, (span_scientific q neg).1, dropWhile_minus_append neg (notMem_mantissa q),
    filter_mantissa]

end Parts

/-! ## The texts that are made -/

section Made

variable {q : Decimal} (neg : Bool)

theorem positional_of_exp_nonneg (h : 0 ≤ q.exp) : positional q = q.digits ++ zeros q.exp.toNat :=
  if_pos h

theorem writtenInFile_of_lead (h : ¬ (-4 ≤ q.lead ∧ q.lead < 16)) :
    minus neg ++ writtenInFile q = scientific q neg := by
  rw [writtenInFile, if_neg (by simpa using h), scientific]

/-- A whole number loses its point or its exponent. -/
theorem plainText_writtenInFile (h : 0 ≤ q.exp) :
    plainText (minus neg ++ writtenInFile q) = minus neg ++ positional q := by
  by_cases hlead : -4 ≤ q.lead ∧ q.lead < 16
  · have htext : minus neg ++ writtenInFile q = (minus neg ++ positional q) ++ ['.', '0'] := by
      rw [writtenInFile, if_pos (by simpa using hlead), if_pos h, List.append_assoc]
    have hmark : (minus neg ++ writtenInFile q).contains 'e' = false := by
      rw [writtenInFile, if_pos (by simpa using hlead), if_pos h]
      refine contains_minus_append neg ?_
      rw [List.mem_append, not_or]
      exact ⟨notMem_positional q, by decide⟩
    rw [plainText, hmark, if_neg Bool.false_ne_true, htext,
      if_pos (List.isSuffixOf_iff_suffix.2 (List.suffix_append ..)), List.length_append]
    exact List.take_left' (Nat.add_sub_cancel _ 2).symm
  · rw [writtenInFile_of_lead neg hlead, plainText, contains_scientific, if_pos rfl,
      minusOf_scientific, figuresOf_scientific, exponentOf_scientific, positional_of_exp_nonneg h,
      List.append_assoc]
    have hexp : q.lead - q.digits.length + 1 = q.exp := by rw [lead_eq]; ring
    rw [hexp]

/-- Any other number is written with the exponent that scripts see, or without one. -/
theorem scaledText_writtenInFile (h : q.exp < 0 ∧ q.lead < 16 ∨ 0 ≤ q.exp ∧ 21 ≤ q.lead) :
    scaledText (minus neg ++ writtenInFile q) = minus neg ++ written q := by
  have hplain : isPlain q = true ↔ q.exp < 0 ∧ -6 ≤ q.lead := by
    rw [isPlain]
    split <;> simp only [decide_eq_true_eq] <;> omega
  by_cases hlead : -4 ≤ q.lead ∧ q.lead < 16
  · have hexp : ¬ 0 ≤ q.exp := by omega
    rw [writtenInFile, if_pos (by simpa using hlead), if_neg hexp, scaledText,
      contains_minus_append neg (notMem_positional q), written, if_pos (hplain.2 (by omega))]
    rfl
  · rw [writtenInFile_of_lead neg hlead, scaledText, contains_scientific, exponentOf_scientific,
      minusOf_scientific, figuresOf_scientific, (span_scientific q neg).1, written]
    by_cases hsmall : -7 < q.lead ∧ q.lead < 0
    · have hpositional : positional q = '0' :: '.' :: zeros (-q.lead - 1).toNat ++ q.digits := by
        rw [positional, if_neg (by omega), if_neg (by omega)]
      simp [hsmall, hplain.2 (by omega : q.exp < 0 ∧ -6 ≤ q.lead), hpositional]
    · have hsign : (if 0 < q.lead then '+' else '-') = if q.lead < 0 then '-' else '+' := by
        split <;> split <;> first | rfl | omega
      rw [if_neg (mt hplain.1 (by omega)), exponent_eq, hsign]
      simp [hsmall]

end Made

/-! ## Whole numbers -/

section Whole

variable {d : Dyadic} {n : ℕ}

theorem whole?_eq_some_iff : d.whole? = some n ↔ (d.mant * 2 ^ d.exp : ℚ) = n := by
  have hpow : (2 : ℚ) ^ d.exp = 2 ^ d.exp.toNat / 2 ^ (-d.exp).toNat := by
    rw [← zpow_natCast, ← zpow_natCast, ← zpow_sub₀ two_ne_zero]
    congr 1
    omega
  have hdown : 0 < Nat.pow 2 (-d.exp).toNat := Nat.pow_pos two_pos
  have hcast : (d.mant * 2 ^ d.exp : ℚ) = n ↔
      d.mant * Nat.pow 2 d.exp.toNat = n * Nat.pow 2 (-d.exp).toNat := by
    rw [hpow, ← mul_div_assoc, div_eq_iff (by positivity)]
    exact_mod_cast Iff.rfl
  rw [hcast, Dyadic.whole?]
  split
  case isTrue h =>
    rw [Option.some.injEq, Nat.div_eq_iff_eq_mul_left hdown (Nat.dvd_of_mod_eq_zero h)]
  case isFalse h =>
    refine iff_of_false (by simp) fun heq => h ?_
    rw [heq, Nat.mul_mod_left]

theorem toDigits_mul_pow {c : ℕ} (hc : 0 < c) (k : ℕ) :
    Nat.toDigits 10 (c * 10 ^ k) = Nat.toDigits 10 c ++ zeros k := by
  induction k with
  | zero => simp [zeros]
  | succ k ih =>
    have hpos : 0 < c * 10 ^ k := by positivity
    rw [pow_succ, ← mul_assoc, Nat.toDigits_eq_if (by decide), if_neg (by omega),
      Nat.mul_div_cancel _ (by decide), Nat.mul_mod_left, ih, List.append_assoc, zeros, zeros,
      List.replicate_succ']
    rfl

theorem toList_toString_signed (neg : Bool) (hn : n ≠ 0) :
    (toString (if neg then -n else n : ℤ)).toList = minus neg ++ Nat.toDigits 10 n := by
  cases neg with
  | false => exact String.toList_ofList
  | true =>
    obtain ⟨m, rfl⟩ := Nat.exists_eq_succ_of_ne_zero hn
    show ("-" ++ Nat.repr (m + 1)).toList = _
    rw [String.toList_append]
    exact congrArg (_ ++ ·) String.toList_ofList

variable {x : Float}

theorem toList_toFileText (h : Dyadic.ofFloat? x = some d) :
    (toFileText x).toList = minus d.neg ++ writtenInFile d.shortest := by
  rw [toFileText, h, minus_append]
  exact String.toList_ofList

-- The number `10 ^ 21` is `7629394531250000 * 2 ^ 17`.
theorem lt_limit_iff_order (hd : IsCanonical d.mant d.exp) (hn : (d.mant * 2 ^ d.exp : ℚ) = n) :
    n < 10 ^ 21 ↔ d.exp < 17 ∨ d.exp = 17 ∧ d.mant < 7629394531250000 := by
  obtain ⟨hlimit, -⟩ := isCanonical_of_ofFloat? ofFloat?_upper (by norm_num)
  rw [← lt_iff_order hd hlimit, hn]
  norm_num

/-- A whole number below the limit is written with all its digits. -/
theorem written_of_whole (hd : IsCanonical d.mant d.exp) (hn : (d.mant * 2 ^ d.exp : ℚ) = n)
    (hlt : n < 10 ^ 21) : written d.shortest = positional d.shortest := by
  have hlead := lead_lt_of_order hd ((lt_limit_iff_order hd hn).1 hlt)
  rw [written, isPlain, if_pos (exp_nonneg_of_whole hd hn), if_pos (decide_eq_true hlead)]

/-- From the limit on a whole number has an exponent. -/
theorem le_lead_of_whole (hd : IsCanonical d.mant d.exp) (hn : (d.mant * 2 ^ d.exp : ℚ) = n)
    (hle : 10 ^ 21 ≤ n) : 21 ≤ d.shortest.lead := by
  have horder := mt (lt_limit_iff_order hd hn).2 (not_lt.2 hle)
  refine le_lead_of_order ofFloat?_upper (by norm_num) (fun neg => ?_) (by norm_num) hd
    (by dsimp only; omega)
  cases neg <;> decide +kernel

theorem positional_of_whole (hd : IsCanonical d.mant d.exp) (hn : (d.mant * 2 ^ d.exp : ℚ) = n)
    (hlt : n < 2 ^ 53) : positional d.shortest = Nat.toDigits 10 n := by
  have hexp := exp_nonneg_of_whole hd hn
  have hvalue : d.shortest.coef * 10 ^ d.shortest.exp.toNat = n := by
    have := (Decimal.value_of_exp_nonneg hexp).symm.trans (value_of_whole hd hn hlt)
    exact_mod_cast this
  rw [positional_of_exp_nonneg hexp, ← hvalue, toDigits_mul_pow (shortest_spec hd).1]
  rfl

/-- A decimal with digits after the point has at most 16 before it. -/
theorem lead_lt_of_exp_neg (hd : IsCanonical d.mant d.exp) (h : d.shortest.exp < 0) :
    d.shortest.lead < 16 := by
  obtain ⟨hpos, -, hlt, -⟩ := shortest_spec hd
  have hlength : (10 : ℚ) ^ (d.shortest.digits.length - 1 : ℤ) < 10 ^ (17 : ℤ) :=
    (ten_pow_length_le hpos).trans_lt (by exact_mod_cast hlt)
  have := (zpow_lt_zpow_iff_right₀ (by norm_num)).1 hlength
  rw [lead_eq]
  omega

end Whole

/-- The text of a number in scripts, written from the shortest decimal of the number. Zero has no
sign. -/
theorem toList_toText {x : Float} {d : Dyadic} (h : Dyadic.ofFloat? x = some d) :
    (toText x).toList = minus (d.neg && d.mant != 0) ++ written d.shortest := by
  rw [toText, h]
  dsimp only
  rcases Nat.eq_zero_or_pos d.mant with hm | hm
  · have hwhole : d.whole? = some 0 := by rw [whole?_eq_some_iff, hm]; simp
    rw [hwhole, hm, Dyadic.shortest, if_pos hm]
    dsimp only
    rw [if_pos (by decide)]
    cases d.neg <;> rfl
  · obtain ⟨hd, -⟩ := isCanonical_of_ofFloat? h hm
    have hsign : (d.neg && d.mant != 0) = d.neg := by simp [hm.ne']
    rw [toList_toFileText h, hsign]
    cases hwhole : d.whole? with
    | none =>
      have hexp : d.shortest.exp < 0 := by
        by_contra hexp
        obtain ⟨w, hw⟩ := exists_whole_of_exp_nonneg hd (not_lt.1 hexp)
        rw [whole?_eq_some_iff.2 hw] at hwhole
        cases hwhole
      rw [← scaledText_writtenInFile _ (.inl ⟨hexp, lead_lt_of_exp_neg hd hexp⟩)]
      exact String.toList_ofList
    | some n =>
      rw [whole?_eq_some_iff] at hwhole
      have hexp := exp_nonneg_of_whole hd hwhole
      dsimp only
      split
      case isTrue hlt =>
        have hpos : 0 < n := by
          have : (0 : ℚ) < n := by rw [← hwhole]; positivity
          exact_mod_cast this
        rw [written_of_whole hd hwhole (hlt.trans (by decide)), positional_of_whole hd hwhole hlt]
        exact toList_toString_signed d.neg hpos.ne'
      case isFalse =>
        rw [String.toList_ofList]
        split
        case isTrue hlt =>
          rw [written_of_whole hd hwhole hlt, plainText_writtenInFile _ hexp]
        case isFalse hle =>
          have hlead := le_lead_of_whole hd hwhole (not_lt.1 hle)
          exact scaledText_writtenInFile _ (.inr ⟨hexp, hlead⟩)

end Hantec.Number
