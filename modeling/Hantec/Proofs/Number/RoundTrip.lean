import Hantec.Proofs.Number.Rewriting
import Hantec.Value.Coerce

/-!
# Texts of numbers

The text of a number denotes the same decimal as the one of syntax files, has an exponent only for
numbers that are very large or very small, and is read as the number again.
-/

namespace Hantec

open Float.Model Float.Model.UnpackedFloat
open Number

namespace Number

variable {x : Float} {d : Dyadic} {cs : List Char}

/-! ## What is denoted -/

/-- Up to the sign, the rational has at most 17 digits, is read as the number, and is the number if
that is whole and less than `2 ^ 53`. -/
structure Approximates (q : ℚ) (d : Dyadic) : Prop where
  digits : ∃ coef : ℕ, ∃ exp : ℤ, coef < 10 ^ 17 ∧ |q| = coef * 10 ^ exp
  reads : ReadsAs |q| d.mant d.exp
  exact : ∀ w : ℕ, (d.mant * 2 ^ d.exp : ℚ) = w → w < 2 ^ 53 → |q| = w

def signedDecimal (d : Dyadic) : ℚ := if d.neg then -d.shortest.value else d.shortest.value

theorem value_shortest_of_mant_eq_zero (hm : d.mant = 0) : d.shortest.value = 0 := by
  rw [Dyadic.shortest, if_pos hm, Decimal.value]
  simp

theorem approximates_signedDecimal (h : Dyadic.ofFloat? x = some d) :
    Approximates (signedDecimal d) d := by
  have habs : |signedDecimal d| = d.shortest.value := by
    have hnonneg : 0 ≤ d.shortest.value := by rw [Decimal.value]; positivity
    unfold signedDecimal
    split
    · rw [abs_neg, abs_of_nonneg hnonneg]
    · rw [abs_of_nonneg hnonneg]
  rcases Nat.eq_zero_or_pos d.mant with hm | hm
  · rw [value_shortest_of_mant_eq_zero hm] at habs
    have hpos : (0 : ℚ) < 2 ^ d.exp := by positivity
    refine ⟨⟨0, 0, by norm_num, by simp [habs]⟩, ?_, fun w hw _ => ?_⟩
    · rw [habs, hm]
      have hgap := gap_pos 0 d.exp
      refine ⟨?_, by positivity, fun hodd => by cases hodd⟩
      have hlow := mul_pos hgap hpos
      push_cast
      linarith
    · rw [habs, ← hw, hm]
      simp
  · obtain ⟨hd, -⟩ := isCanonical_of_ofFloat? h hm
    obtain ⟨-, -, hdigits, hreads⟩ := shortest_spec hd
    refine ⟨⟨d.shortest.coef, d.shortest.exp, hdigits, habs⟩, habs ▸ hreads, fun w hw hlt => ?_⟩
    rw [habs, value_of_whole hd hw hlt]

theorem denotes_toText (h : Dyadic.ofFloat? x = some d) :
    Denotes (toText x).toList (signedDecimal d) := by
  have hdenotes := (writes_written d.shortest).denotes (d.neg && d.mant != 0)
  rw [← minus_append, ← toList_toText h] at hdenotes
  by_cases hm : d.mant = 0
  · simpa [signedDecimal, hm, value_shortest_of_mant_eq_zero hm] using hdenotes
  · simpa [signedDecimal, hm] using hdenotes

theorem denotes_toFileText (h : Dyadic.ofFloat? x = some d) :
    Denotes (toFileText x).toList (signedDecimal d) := by
  rw [toList_toFileText h, minus_append]
  exact (writes_writtenInFile d.shortest).denotes d.neg

/-! ## The shape of the text -/

theorem coef_shortest_mod_ten (h : Dyadic.ofFloat? x = some d) (hexp : d.shortest.exp < 0) :
    d.shortest.coef % 10 ≠ 0 := by
  rcases Nat.eq_zero_or_pos d.mant with hm | hm
  · rw [Dyadic.shortest, if_pos hm] at hexp
    cases hexp
  · exact (shortest_spec (isCanonical_of_ofFloat? h hm).1).2.1

/-- The decimal of zero has no zeros after it. -/
theorem exp_shortest_of_coef_eq_zero (h : Dyadic.ofFloat? x = some d) :
    d.shortest.coef = 0 → d.shortest.exp = 0 := by
  rcases Nat.eq_zero_or_pos d.mant with hm | hm
  · rw [Dyadic.shortest, if_pos hm]
    exact fun _ => rfl
  · intro hcoef
    exact absurd (by rw [hcoef]) (shortest_spec (isCanonical_of_ofFloat? h hm).1).2.1

theorem mem_toText_iff (h : Dyadic.ofFloat? x = some d) {c : Char} (hc : c ≠ '-') :
    c ∈ (toText x).toList ↔ c ∈ written d.shortest := by
  rw [toList_toText h, minus_append]
  split
  · simp [hc]
  · rfl

theorem notMem_toText (h : Dyadic.ofFloat? x = some d) : 'E' ∉ (toText x).toList := by
  rw [mem_toText_iff h (by decide)]
  intro hmem
  rcases mem_written hmem with h | h | h | h | ⟨h, -⟩ <;> cases h

theorem notMem_toText_of_isPlain (h : Dyadic.ofFloat? x = some d)
    (hplain : isPlain d.shortest = true) : 'e' ∉ (toText x).toList := by
  rw [mem_toText_iff h (by decide)]
  intro hmem
  rcases mem_written hmem with h | h | h | h | ⟨-, h⟩
  · cases h
  · cases h
  · cases h
  · cases h
  · rw [hplain] at h
    cases h

theorem not_pointZero_suffix_toText (h : Dyadic.ofFloat? x = some d) :
    ¬ ['.', '0'] <:+ (toText x).toList := by
  have hwritten := not_pointZero_suffix_written (coef_shortest_mod_ten h)
  rw [toList_toText h, minus_append]
  split
  · rw [List.suffix_cons_iff]
    rintro (hcons | hsuffix)
    · cases hcons
    · exact hwritten hsuffix
  · exact hwritten

theorem exponent_of_toText_eq (h : Dyadic.ofFloat? x = some d) {start tail : List Char}
    {mark : Char} (hmark : mark = 'e' ∨ mark = 'E')
    (heq : (toText x).toList = start ++ mark :: tail) :
    ∃ sign n, (sign = '+' ∨ sign = '-') ∧ 0 < n ∧ tail = sign :: Nat.toDigits 10 n := by
  obtain rfl : mark = 'e' := by
    refine hmark.resolve_right fun hE => notMem_toText h ?_
    rw [heq, hE]
    exact List.mem_append_right _ (List.mem_cons_self ..)
  rw [toList_toText h, minus_append] at heq
  split at heq
  · cases start with
    | nil => cases heq
    | cons c start =>
      rw [List.cons_append, List.cons.injEq] at heq
      exact exponent_of_written_eq heq.2
  · exact exponent_of_written_eq heq

/-! ## Reading a text again -/

theorem isBlank_of_isDigit {c : Char} (h : c.isDigit = true) : Text.isBlank c = false := by
  have hbounds : 48 ≤ c.toNat ∧ c.toNat ≤ 57 := by
    simpa [Char.isDigit, UInt32.le_iff_toNat_le] using h
  simp only [Text.isBlank, Bool.or_eq_false_iff, Bool.and_eq_false_iff, beq_eq_false_iff_ne,
    decide_eq_false_iff_not]
  omega

theorem isBlank_of_mem_written {q : Decimal} {c : Char} (h : c ∈ written q) :
    Text.isBlank c = false := by
  rcases mem_written h with h | rfl | rfl | rfl | ⟨rfl, -⟩
  · exact isBlank_of_isDigit h
  all_goals rfl

theorem trimChars_eq_self (h : ∀ c ∈ cs, Text.isBlank c = false) : Text.trimChars cs = cs := by
  have hdrop (l : List Char) (hl : ∀ c ∈ l, Text.isBlank c = false) :
      l.dropWhile Text.isBlank = l := by
    rw [List.dropWhile_eq_self_iff]
    intro hlen
    simp [hl _ (List.getElem_mem hlen)]
  rw [Text.trimChars, hdrop cs h, hdrop cs.reverse (fun c hc => h c (List.mem_reverse.1 hc)),
    List.reverse_reverse]

theorem ofText?_of_decimal? {s : String} {y : Float}
    (hsolid : ∀ c ∈ s.toList, Text.isBlank c = false) (h : decimal? s.toList = some y) :
    ofText? s = some y := by
  unfold ofText?
  rw [trimChars_eq_self hsolid]
  dsimp only
  split
  case h_1 hnil =>
    rw [hnil] at h
    cases h
  case h_2 => rw [h]

theorem ofFloat?_neg (h : Dyadic.ofFloat? x = some d) (hm : 0 < d.mant) :
    Dyadic.ofFloat? (-x) = some ⟨!d.neg, d.mant, d.exp⟩ := by
  obtain ⟨hcanon, hexp⟩ := isCanonical_of_ofFloat? h hm
  have hneg : -x = .ofModel (.pack (UnpackedFloat.neg x.toModel.unpack)) := rfl
  have hsign : -signOf d.neg = signOf !d.neg := by cases d.neg <;> rfl
  rw [hneg, unpack_of_mant_pos h hm, UnpackedFloat.neg, hsign]
  exact ofFloat?_pack hcanon hexp _

theorem beq_self (h : Dyadic.ofFloat? x = some d) : (x == x) = true := by
  show UnpackedFloat.beq x.toModel.unpack x.toModel.unpack = true
  obtain ⟨-, hunpack⟩ | ⟨_, -, -, hunpack⟩ := unpack_of_ofFloat? h
  · rw [hunpack]
    rfl
  · rw [hunpack, UnpackedFloat.beq]
    cases d.neg <;> simp [signOf, UnpackedFloat.compare]

theorem zero_beq (h : Dyadic.ofFloat? x = some d) (hm : d.mant = 0) :
    ((0 : Float) == x) = true := by
  show UnpackedFloat.beq (Float.toModel 0).unpack x.toModel.unpack = true
  have hzero : (Float.toModel 0).unpack = .zero .positive := by rfl
  rw [unpack_of_mant_eq_zero h hm, hzero]
  rfl

theorem coef_eq_zero {coef : ℕ} {exp : ℤ} (hm : d.mant = 0)
    (hvalue : coef * 10 ^ exp = d.shortest.value) : coef = 0 := by
  rw [value_shortest_of_mant_eq_zero hm] at hvalue
  simpa [zpow_ne_zero] using hvalue

/-- A decimal that is worth the shortest one of a number is read as the number. -/
theorem ofDecimal_eq (h : Dyadic.ofFloat? x = some d) {coef : ℕ} {exp : ℤ}
    (hvalue : coef * 10 ^ exp = d.shortest.value) :
    (if d.neg then -ofDecimal coef exp else ofDecimal coef exp) = x := by
  rcases Nat.eq_zero_or_pos d.mant with hm | hm
  · have hzero : ofDecimal coef exp = 0 := by simp [ofDecimal, coef_eq_zero hm hvalue]
    refine eq_of_toNat_toBits ?_
    rw [toNat_toBits_of_ofFloat? h, hzero, hm, if_pos (show 0 < 2 ^ 52 by decide)]
    cases d.neg <;> decide
  · obtain ⟨hd, hexp⟩ := isCanonical_of_ofFloat? h hm
    have hparts := ofFloat?_ofDecimal hd hexp (hvalue ▸ (shortest_spec hd).2.2.2)
    refine eq_of_ofFloat? ?_ h
    obtain ⟨neg, mant, exp⟩ := d
    cases neg with
    | false => exact hparts
    | true => exact ofFloat?_neg hparts hm

/-- The text of a finite number is read as the number. -/
theorem ofText?_toText (h : Dyadic.ofFloat? x = some d) :
    ∃ y, ofText? (toText x) = some y ∧ (y == x) = true := by
  have hsolid : ∀ c ∈ (toText x).toList, Text.isBlank c = false := by
    intro c hc
    by_cases hminus : c = '-'
    · rw [hminus]
      rfl
    · exact isBlank_of_mem_written ((mem_toText_iff h hminus).1 hc)
  obtain ⟨coef, exp, hvalue, hread⟩ :=
    (writes_written d.shortest).decimal?_eq (d.neg && d.mant != 0)
  rw [← minus_append, ← toList_toText h] at hread
  refine ⟨_, ofText?_of_decimal? hsolid hread, ?_⟩
  rcases Nat.eq_zero_or_pos d.mant with hm | hm
  · have hzero : ofDecimal coef exp = 0 := by simp [ofDecimal, coef_eq_zero hm hvalue]
    rw [hm, hzero, bne_self_eq_false, Bool.and_false, if_neg Bool.false_ne_true]
    exact zero_beq h hm
  · have hsign : (d.neg && d.mant != 0) = d.neg := by simp [hm.ne']
    rw [hsign, ofDecimal_eq h hvalue]
    exact beq_self h

theorem isNaN_eq_false (h : Dyadic.ofFloat? x = some d) : x.isNaN = false := by
  show UnpackedFloat.isNaN x.toModel.unpack = false
  obtain ⟨-, hunpack⟩ | ⟨_, -, -, hunpack⟩ := unpack_of_ofFloat? h <;> rw [hunpack] <;> rfl

theorem exists_ofFloat?_of_isFinite (h : x.isFinite = true) : ∃ d, Dyadic.ofFloat? x = some d := by
  rw [← Option.ne_none_iff_exists']
  intro hnone
  obtain rfl | rfl | rfl := eq_of_ofFloat?_eq_none hnone
  all_goals revert h; decide

/-- The text of any number is read as the number. -/
theorem numberOfText_toText (x : Float) :
    ∃ y, Heap.numberOfText (toText x) = .ok y ∧ (x.isNaN = false → (y == x) = true) ∧
      (x.isNaN = true → y.isNaN = true) := by
  cases hx : Dyadic.ofFloat? x with
  | some d =>
    obtain ⟨y, hread, hbeq⟩ := ofText?_toText hx
    refine ⟨y, by rw [Heap.numberOfText, hread], fun _ => hbeq, fun hnan => ?_⟩
    rw [isNaN_eq_false hx] at hnan
    cases hnan
  | none =>
    have hwords : ofText? (toText nan) = some nan ∧ ofText? (toText infinity) = some infinity ∧
        ofText? (toText (-infinity)) = some (-infinity) := by decide +kernel
    obtain ⟨hnan, hinfinity, hminus⟩ := hwords
    obtain rfl | rfl | rfl := eq_of_ofFloat?_eq_none hx
    · exact ⟨nan, by rw [Heap.numberOfText, hnan], by decide, fun h => h⟩
    · exact ⟨infinity, by rw [Heap.numberOfText, hinfinity], fun _ => by decide, fun h => h⟩
    · exact ⟨-infinity, by rw [Heap.numberOfText, hminus], fun _ => by decide, fun h => h⟩

end Number

/-- The text of a finite number denotes the decimal that syntax files hold for it as well, one that
is read as the number. It does not end in a point and a zero, and has an exponent only if the number
is too large, or too small and not whole: then with its sign and without leading zeros. And whatever
the number, reading its text gives it back. -/
theorem number_text_keeps_value (h : Heap) (x : Float) :
    (x.isFinite = true → ∃ d, Dyadic.ofFloat? x = some d ∧
      (∃ q, Approximates q d ∧ Denotes (toText x).toList q ∧ Denotes (toFileText x).toList q ∧
        ∀ q', Denotes (toText x).toList q' ∨ Denotes (toFileText x).toList q' → q' = q) ∧
      (x.abs < 1e21 → (∃ w : ℕ, (d.mant * 2 ^ d.exp : ℚ) = w) ∨ 1e-6 ≤ x.abs →
        'e' ∉ (toText x).toList ∧ 'E' ∉ (toText x).toList) ∧
      ¬ ['.', '0'] <:+ (toText x).toList ∧
      ∀ start mark tail, mark = 'e' ∨ mark = 'E' → (toText x).toList = start ++ mark :: tail →
        ∃ sign n, (sign = '+' ∨ sign = '-') ∧ 0 < n ∧ tail = sign :: Nat.toDigits 10 n) ∧
    ∃ text y, h.toText (.num x) = .ok text ∧ h.toNumber (.str text) = .ok y ∧
      (x.isNaN = false → (y == x) = true) ∧ (x.isNaN = true → y.isNaN = true) := by
  refine ⟨fun hfinite => ?_, toText x, ?_⟩
  · obtain ⟨d, hd⟩ := exists_ofFloat?_of_isFinite hfinite
    refine ⟨d, hd, ⟨signedDecimal d, approximates_signedDecimal hd, denotes_toText hd,
      denotes_toFileText hd, ?_⟩, fun hlt hsize => ?_, not_pointZero_suffix_toText hd,
      fun start mark tail => exponent_of_toText_eq hd⟩
    · rintro q (hq | hq)
      · exact hq.unique (denotes_toText hd)
      · exact hq.unique (denotes_toFileText hd)
    · exact ⟨notMem_toText_of_isPlain hd (isPlain_shortest hd hlt hsize), notMem_toText hd⟩
  · obtain ⟨y, hread, hy⟩ := numberOfText_toText x
    exact ⟨y, rfl, hread, hy⟩

theorem number_text_keeps_value_limits :
    ((1e-6 : Float).isFinite = true ∧ Float.abs 1e-6 < 1e21 ∧ 1e-6 ≤ Float.abs 1e-6 ∧
      'e' ∉ (toText 1e-6).toList) ∧
    ((1e21 : Float).isFinite = true ∧ (toText 1e21).toList = ['1'] ++ 'e' :: ['+', '2', '1'] ∧
      ∃ sign n, (sign = '+' ∨ sign = '-') ∧ 0 < n ∧ ['+', '2', '1'] = sign :: Nat.toDigits 10 n) ∧
    nan.isNaN = true ∧ ∃ text y, Heap.empty.toText (.num nan) = .ok text ∧
      Heap.empty.toNumber (.str text) = .ok y ∧ y.isNaN = true := by
  have hlower : (1e-6 : Float).isFinite = true ∧ Float.abs 1e-6 < 1e21 ∧ 1e-6 ≤ Float.abs 1e-6 := by
    decide +kernel
  have hupper : (1e21 : Float).isFinite = true ∧
      (toText 1e21).toList = ['1'] ++ 'e' :: ['+', '2', '1'] := by
    decide +kernel
  have hnan : nan.isNaN = true := by decide
  obtain ⟨_, -, -, hplain, -⟩ := (number_text_keeps_value .empty 1e-6).1 hlower.1
  obtain ⟨_, -, -, -, -, hexponent⟩ := (number_text_keeps_value .empty 1e21).1 hupper.1
  obtain ⟨-, text, y, htext, hread, -, hy⟩ := number_text_keeps_value .empty nan
  exact ⟨⟨hlower.1, hlower.2.1, hlower.2.2, (hplain hlower.2.1 (.inr hlower.2.2)).1⟩,
    ⟨hupper.1, hupper.2, hexponent _ _ _ (.inl rfl) hupper.2⟩,
    hnan, text, y, htext, hread, hy hnan⟩

end Hantec
