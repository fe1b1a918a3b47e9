import Hantec.Json.Reader
import Hantec.Json.Writer
import Hantec.Proofs.Number.RoundTrip

/-!
# Numbers in JSON texts

Every number is read back from its text wherever a comma, the end of the line or nothing follows:
whole numbers from their digits, and the others from digits with a point or an exponent, which
denote the shortest decimal of the number.
-/

namespace Hantec.Json

/-- What follows a value in a written text: a comma, the end of the line or nothing. -/
def Stops (rest : List Char) : Prop := ∀ c ∈ rest.head?, c = ',' ∨ c = '\n'

variable {cs rest : List Char} {c : Char} {neg : Bool}

theorem stops_nil : Stops [] := by simp [Stops]

theorem stops_comma (cs : List Char) : Stops (',' :: cs) := by simp [Stops]

theorem stops_line (cs : List Char) : Stops ('\n' :: cs) := by simp [Stops]

theorem Stops.cases (hr : Stops rest) : rest = [] ∨ ∃ cs, rest = ',' :: cs ∨ rest = '\n' :: cs := by
  cases rest with
  | nil => exact .inl rfl
  | cons c cs => exact .inr ⟨cs, by simpa using hr c rfl⟩

theorem Stops.isDigit (hr : Stops rest) : ∀ c ∈ rest.head?, c.isDigit = false := by
  intro c hc
  obtain rfl | rfl := hr c hc <;> rfl

theorem Stops.ne_point (hr : Stops rest) : ∀ c ∈ rest.head?, c ≠ '.' := by
  intro c hc
  obtain rfl | rfl := hr c hc <;> decide

/-! ## The parts of a number -/

theorem isDigit_of_mem_toDigits {n : Nat} (h : c ∈ Nat.toDigits 10 n) : c.isDigit = true :=
  Nat.isDigit_of_mem_toDigits (by decide) (by decide) h

theorem exists_toDigits_eq_cons (n : Nat) :
    ∃ c ds, Nat.toDigits 10 n = c :: ds ∧ c.isDigit = true := by
  obtain ⟨c, ds, hds⟩ := List.exists_cons_of_ne_nil (l := Nat.toDigits 10 n) Nat.toDigits_ne_nil
  exact ⟨c, ds, hds, isDigit_of_mem_toDigits (n := n) (by simp [hds])⟩

theorem ne_of_isDigit {d : Char} (hc : c.isDigit = true) (hd : d.isDigit = false) : c ≠ d := by
  rintro rfl
  rw [hc] at hd
  cases hd

/-- Only zero itself starts with a zero. -/
theorem eq_zero_of_head_toDigits {n : Nat} (h : (Nat.toDigits 10 n).head? = some '0') : n = 0 := by
  induction n using Nat.strongRecOn with
  | ind n ih =>
    rw [Nat.toDigits_eq_if (by decide)] at h
    split at h
    case isTrue hlt =>
      have hdigit : ∀ m < 10, Nat.digitChar m = '0' → m = 0 := by decide
      exact hdigit n hlt (by simpa using h)
    case isFalse hge =>
      have hhead : (Nat.toDigits 10 (n / 10)).head? = some '0' := by
        cases hdigits : Nat.toDigits 10 (n / 10) with
        | nil => exact absurd hdigits Nat.toDigits_ne_nil
        | cons c cs => simpa [hdigits] using h
      have := ih (n / 10) (by omega) hhead
      omega

/-- The digits before a point: a zero, or digits of which the first is not a zero. -/
structure Whole (cs : List Char) : Prop where
  digits : ∀ c ∈ cs, c.isDigit = true
  ne_nil : cs ≠ []
  zero : cs.head? = some '0' → cs = ['0']

/-- The characters are a point and digits, or nothing. -/
inductive Fraction : Option (List Char) → List Char → Prop where
  | none : Fraction none []
  | some {ds : List Char} : (∀ c ∈ ds, c.isDigit = true) → ds ≠ [] → Fraction (some ds) ('.' :: ds)

inductive Exponent : Option Int → List Char → Prop where
  | none : Exponent none []
  | some (width : Nat) (e : Int) : Exponent (some e) ('e' :: Number.exponent width e)

section Parts

variable {frac : Option (List Char)} {exp : Option Int} {whole point tail : List Char}

theorem spanDigits_append (hcs : ∀ c ∈ cs, c.isDigit = true)
    (hr : ∀ c ∈ rest.head?, c.isDigit = false) :
    (cs ++ rest).takeWhile Char.isDigit = cs ∧ (cs ++ rest).dropWhile Char.isDigit = rest := by
  rw [List.takeWhile_append_of_pos hcs, List.dropWhile_append_of_pos hcs]
  cases rest with
  | nil => simp
  | cons c rest => simp [hr c rfl]

theorem Whole.span (h : Whole cs) (hr : ∀ c ∈ rest.head?, c.isDigit = false) :
    (if (cs ++ rest).head? == some '0' then ['0'] else (cs ++ rest).takeWhile Char.isDigit) =
      cs := by
  rw [List.head?_append_of_ne_nil _ h.ne_nil, (spanDigits_append h.digits hr).1]
  split
  case isTrue hzero => exact (h.zero (by simpa using hzero)).symm
  case isFalse => rfl

theorem Fraction.span (h : Fraction frac cs)
    (hr : ∀ c ∈ rest.head?, c.isDigit = false ∧ c ≠ '.') :
    spanFraction (cs ++ rest) = (frac, rest) := by
  cases h with
  | none =>
    cases rest with
    | nil => rfl
    | cons c rest => simp [spanFraction, (hr c rfl).2]
  | some hds hne =>
    obtain ⟨htake, hdrop⟩ := spanDigits_append hds fun c hc => (hr c hc).1
    simp [spanFraction, htake, hdrop, hne]

theorem Exponent.span (h : Exponent exp cs) (hr : Stops rest) :
    spanExponent (cs ++ rest) = (exp, rest) := by
  cases h with
  | none => obtain rfl | ⟨cs, rfl | rfl⟩ := hr.cases <;> simp [spanExponent]
  | some width e =>
    obtain ⟨sign, ds, heq, hsign, hds, hne, hvalue⟩ := Number.exists_exponent_eq width e
    obtain ⟨htake, hdrop⟩ := spanDigits_append hds hr.isDigit
    have hspan : Number.spanSign (sign :: (ds ++ rest)) = (decide (e < 0), ds ++ rest) := by
      refine Number.spanSign_append hsign fun c hc => ?_
      have hhead : (ds ++ rest).head? = ds.head? := List.head?_append_of_ne_nil _ hne
      exact (Number.digits_of_isDigit hds).head? c (hhead ▸ hc)
    have hsigned : (if decide (e < 0) = true then -(digitsValue ds : Int) else digitsValue ds) =
        e := by
      have hds : digitsValue ds = e.natAbs := hvalue
      rw [hds]
      exact Number.signed_natAbs e
    have hempty : ds.isEmpty = false := by simp [hne]
    rw [heq]
    simp only [List.cons_append, spanExponent, hspan, htake, hdrop, hempty, hsigned]
    rfl

theorem readUnsigned_parts (hw : Whole whole) (hf : Fraction frac point) (he : Exponent exp tail)
    (hr : Stops rest) (neg : Bool) :
    readUnsigned neg (whole ++ (point ++ (tail ++ rest))) =
      if frac.isNone && exp.isNone then
        if digitLimit < whole.length then .error (.tooManyDigits whole.length)
        else .ok (.int (if neg then -(digitsValue whole : Int) else digitsValue whole), rest)
      else
        let x := Number.ofDecimal (digitsValue (whole ++ frac.getD []))
          (exp.getD 0 - (frac.getD []).length)
        .ok (.num (if neg then -x else x), rest) := by
  have htail : ∀ c ∈ (tail ++ rest).head?, c.isDigit = false ∧ c ≠ '.' := by
    cases he with
    | none => exact fun c hc => ⟨hr.isDigit c hc, hr.ne_point c hc⟩
    | some => rintro c ⟨⟩; decide
  have hpoint : ∀ c ∈ (point ++ (tail ++ rest)).head?, c.isDigit = false := by
    cases hf with
    | none => exact fun c hc => (htail c hc).1
    | some => rintro c ⟨⟩; rfl
  have hempty : whole.isEmpty = false := by simp [hw.ne_nil]
  unfold readUnsigned
  simp only [hw.span hpoint, hempty, List.drop_left, hf.span htail, he.span hr]
  rfl

end Parts

/-- A whole number is read back from its digits. -/
theorem readUnsigned_toDigits {n : Nat} (hn : (Nat.toDigits 10 n).length ≤ digitLimit)
    (hr : Stops rest) (neg : Bool) :
    readUnsigned neg (Nat.toDigits 10 n ++ rest) = .ok (.int (if neg then -n else n), rest) := by
  have hwhole : Whole (Nat.toDigits 10 n) := by
    refine ⟨fun c => isDigit_of_mem_toDigits, Nat.toDigits_ne_nil, fun hzero => ?_⟩
    rw [eq_zero_of_head_toDigits hzero]
    rfl
  have hvalue : digitsValue (Nat.toDigits 10 n) = n := Number.ofDigits_toDigits n
  simpa [hvalue, Nat.not_lt.2 hn] using readUnsigned_parts hwhole .none .none hr neg

/-! ## Other numbers -/

/-- The characters write `coef * 10 ^ exp` with a point or an exponent. -/
inductive Numeral : Nat → Int → List Char → Prop where
  | mk {whole point tail : List Char} {frac : Option (List Char)} {exp : Option Int} :
      Whole whole → Fraction frac point → Exponent exp tail → (frac.isNone && exp.isNone) = false →
      Numeral (digitsValue (whole ++ frac.getD [])) (exp.getD 0 - (frac.getD []).length)
        (whole ++ (point ++ tail))

section Numerals

variable {coef : Nat} {exp : Int}

/-- What is written denotes the decimal. -/
theorem Numeral.unsigned (h : Numeral coef exp cs) : Number.Unsigned coef exp cs := by
  obtain @⟨whole, point, tail, frac, exp, hw, hf, he, -⟩ := h
  have hwhole := Number.digits_of_isDigit hw.digits
  have hne : Number.values whole ≠ [] := by simpa [Number.values] using hw.ne_nil
  have htail : Number.ExponentText (exp.getD 0) tail := by
    cases he with
    | none => exact .none
    | some width e => exact Number.exponentText_exponent width e
  have hvalue (ds : List Char) : digitsValue (whole ++ ds) =
      Number.ofDigits (Number.values whole ++ Number.values ds) :=
    congrArg Number.ofDigits List.map_append
  rw [hvalue]
  cases hf with
  | none =>
    have hunsigned := Number.Unsigned.mk hwhole Number.digits_nil (.inr ⟨rfl, rfl⟩)
      (by simpa using hne) htail
    simpa [Number.values] using hunsigned
  | @some ds hds _ =>
    have hunsigned := Number.Unsigned.mk hwhole (Number.digits_of_isDigit hds) (.inl rfl)
      (by simp [hne]) htail
    simpa [Number.length_values] using hunsigned

theorem Numeral.readUnsigned (h : Numeral coef exp cs) (hr : Stops rest) (neg : Bool) :
    readUnsigned neg (cs ++ rest) = .ok (.num (if neg then -Number.ofDecimal coef exp
      else Number.ofDecimal coef exp), rest) := by
  obtain ⟨hw, hf, he, hsome⟩ := h
  rw [List.append_assoc, List.append_assoc, readUnsigned_parts hw hf he hr, hsome]
  rfl

theorem Numeral.exists_eq_cons (h : Numeral coef exp cs) :
    ∃ c ds, cs = c :: ds ∧ c.isDigit = true := by
  obtain ⟨⟨hdigits, hne, -⟩⟩ := h
  obtain ⟨c, ds, rfl⟩ := List.exists_cons_of_ne_nil hne
  exact ⟨c, _, rfl, hdigits c List.mem_cons_self⟩

theorem isBlank_of_isDigit (h : c.isDigit = true) : isBlank c = false := by
  rw [Bool.eq_false_iff]
  intro hblank
  simp only [isBlank, Bool.or_eq_true, beq_iff_eq] at hblank
  obtain ((rfl | rfl) | rfl) | rfl := hblank <;> cases h

theorem Numeral.isBlank (h : Numeral coef exp cs) : ∀ c ∈ cs, isBlank c = false := by
  obtain ⟨hw, hf, he, -⟩ := h
  intro c hc
  rcases List.mem_append.1 hc with hc | hc
  · exact isBlank_of_isDigit (hw.digits c hc)
  rcases List.mem_append.1 hc with hc | hc
  · cases hf with
    | none => cases hc
    | some hds =>
      rcases List.mem_cons.1 hc with rfl | hc
      · rfl
      · exact isBlank_of_isDigit (hds c hc)
  · cases he with
    | none => cases hc
    | some width e =>
      rcases List.mem_cons.1 hc with rfl | hc
      · rfl
      · rcases Number.mem_exponent hc with hc | rfl | rfl
        · exact isBlank_of_isDigit hc
        · rfl
        · rfl

end Numerals

section Written

variable (d : Decimal)

theorem digits_eq_of_head? (h : d.digits.head? = some '0') : d.coef = 0 ∧ d.digits = ['0'] := by
  have hzero : d.coef = 0 := eq_zero_of_head_toDigits h
  rw [Decimal.digits, hzero]
  exact ⟨rfl, rfl⟩

/-- The digits of a decimal and zeros after them, but zero itself has none after it. -/
theorem whole_digits_append {n : Nat} (hn : d.coef = 0 → n = 0) :
    Whole (d.digits ++ Number.zeros n) := by
  refine ⟨fun c hc => ?_, by simp [Decimal.digits], fun hzero => ?_⟩
  · rcases List.mem_append.1 hc with hc | hc
    · exact Number.isDigit_of_mem_digits d hc
    · exact Number.mem_zeros hc ▸ rfl
  · rw [List.head?_append_of_ne_nil d.digits Nat.toDigits_ne_nil] at hzero
    obtain ⟨hcoef, hdigits⟩ := digits_eq_of_head? d hzero
    rw [hn hcoef, hdigits]
    rfl

theorem whole_singleton (hc : c.isDigit = true) : Whole [c] :=
  ⟨by simp [hc], by simp, fun hzero => by simpa using hzero⟩

theorem exists_numeral_scientific (width : Nat) :
    ∃ coef exp, Numeral coef exp (Number.mantissa d ++ 'e' :: Number.exponent width d.lead) := by
  have hdigits {c : Char} (hc : c ∈ d.digits) := Number.isDigit_of_mem_digits d hc
  obtain ⟨c, cs, hcs⟩ := List.exists_cons_of_ne_nil (l := d.digits) Nat.toDigits_ne_nil
  unfold Number.mantissa
  rw [hcs] at hdigits ⊢
  cases cs with
  | nil => exact ⟨_, _, .mk (whole_singleton (hdigits (by simp))) .none (.some width d.lead) rfl⟩
  | cons c' cs =>
    have hfraction : Fraction (some (c' :: cs)) ('.' :: c' :: cs) :=
      .some (fun x hx => hdigits (List.mem_cons_of_mem _ hx)) (by simp)
    exact ⟨_, _, .mk (whole_singleton (hdigits (by simp))) hfraction (.some width d.lead) rfl⟩

theorem exists_numeral_positional (hexp : d.exp < 0) (hd : d.coef = 0 → d.exp = 0) :
    ∃ coef exp, Numeral coef exp (Number.positional d) := by
  have hlead := Number.lead_eq d
  have hdigits {c : Char} (hc : c ∈ d.digits) := Number.isDigit_of_mem_digits d hc
  have hpos : d.digits.head? ≠ some '0' := fun hzero => by
    have := hd (digits_eq_of_head? d hzero).1
    omega
  unfold Number.positional
  dsimp only
  rw [if_neg (by omega)]
  split
  case isTrue hle =>
    have hwhole : Whole (d.digits.take (d.lead + 1).toNat) := by
      refine ⟨fun c hc => hdigits (List.mem_of_mem_take hc), ?_, fun hzero => ?_⟩
      · rw [Ne, List.take_eq_nil_iff, not_or]
        exact ⟨by omega, Nat.toDigits_ne_nil⟩
      · rw [List.head?_take, if_neg (by omega)] at hzero
        exact absurd hzero hpos
    have hfraction : Fraction (some (d.digits.drop (d.lead + 1).toNat))
        ('.' :: d.digits.drop (d.lead + 1).toNat) := by
      refine .some (fun c hc => hdigits (List.mem_of_mem_drop hc)) ?_
      rw [Ne, List.drop_eq_nil_iff]
      omega
    have hnumeral := Numeral.mk hwhole hfraction .none rfl
    rw [List.append_nil] at hnumeral
    exact ⟨_, _, hnumeral⟩
  case isFalse =>
    have hfraction : Fraction (some (Number.zeros (-d.lead - 1).toNat ++ d.digits))
        ('.' :: (Number.zeros (-d.lead - 1).toNat ++ d.digits)) := by
      refine .some (fun c hc => ?_) (by simp [Decimal.digits])
      rcases List.mem_append.1 hc with hc | hc
      · exact Number.mem_zeros hc ▸ rfl
      · exact hdigits hc
    have hnumeral := Numeral.mk (whole_singleton (c := '0') rfl) hfraction .none rfl
    rw [List.append_nil] at hnumeral
    exact ⟨_, _, hnumeral⟩

/-- In a file a decimal has a point or an exponent. -/
theorem exists_numeral_writtenInFile (hd : d.coef = 0 → d.exp = 0) :
    ∃ coef exp, Numeral coef exp (Number.writtenInFile d) := by
  unfold Number.writtenInFile
  split
  · split
    case isTrue hexp =>
      have hwhole := whole_digits_append d (n := d.exp.toNat) fun hcoef => by simp [hd hcoef]
      have hpoint : Fraction (some ['0']) ['.', '0'] := .some (by simp) (by simp)
      have hnumeral := Numeral.mk hwhole hpoint .none rfl
      unfold Number.positional
      rw [if_pos hexp]
      exact ⟨_, _, hnumeral⟩
    case isFalse hexp => exact exists_numeral_positional d (by omega) hd
  · exact exists_numeral_scientific d 2

end Written

/-- A number is written as one of three words, or as a numeral that denotes it with perhaps a sign
before it. -/
theorem toFileText_cases (x : Float) :
    (∃ s, (s, x) ∈ [("NaN", Number.nan), ("Infinity", Number.infinity),
      ("-Infinity", -Number.infinity)] ∧ Number.toFileText x = s) ∨
    ∃ coef exp cs, Numeral coef exp cs ∧
      ((Number.toFileText x).toList = cs ∧ x = Number.ofDecimal coef exp ∨
        (Number.toFileText x).toList = '-' :: cs ∧ x = -Number.ofDecimal coef exp) := by
  cases hx : Dyadic.ofFloat? x with
  | none =>
    have hwords : Number.toFileText Number.nan = "NaN" ∧
        Number.toFileText Number.infinity = "Infinity" ∧
        Number.toFileText (-Number.infinity) = "-Infinity" := by decide +kernel
    obtain ⟨hnan, hinfinity, hminus⟩ := hwords
    obtain rfl | rfl | rfl := Number.eq_of_ofFloat?_eq_none hx
    · exact .inl ⟨"NaN", by simp, hnan⟩
    · exact .inl ⟨"Infinity", by simp, hinfinity⟩
    · exact .inl ⟨"-Infinity", by simp, hminus⟩
  | some d =>
    obtain ⟨coef, exp, hnumeral⟩ :=
      exists_numeral_writtenInFile d.shortest (Number.exp_shortest_of_coef_eq_zero hx)
    obtain ⟨coef', exp', hunsigned, hvalue⟩ := Number.writes_writtenInFile d.shortest
    obtain ⟨rfl, rfl⟩ := hnumeral.unsigned.unique hunsigned
    have hread := Number.ofDecimal_eq hx hvalue
    have htext := Number.toList_toFileText hx
    refine .inr ⟨coef, exp, _, hnumeral, ?_⟩
    cases hneg : d.neg with
    | false =>
      rw [hneg] at hread htext
      exact .inl ⟨htext, hread.symm⟩
    | true =>
      rw [hneg] at hread htext
      exact .inr ⟨htext, hread.symm⟩

/-! ## Reading a number where a value is due -/

theorem readWord?_eq_none
    (h : ∀ w ∈ ["null", "true", "false", "NaN", "Infinity", "-Infinity"],
      w.toList.isPrefixOf cs = false) : readWord? cs = none := by
  have hwords : words.map Prod.fst = ["null", "true", "false", "NaN", "Infinity", "-Infinity"] :=
    rfl
  rw [readWord?, List.findSome?_eq_none_iff]
  intro e he
  have hword := h e.1 (hwords ▸ List.mem_map_of_mem he)
  simp [hword]

theorem readWord?_of_isDigit (hc : c.isDigit = true) (cs : List Char) :
    readWord? (c :: cs) = none ∧ readWord? ('-' :: c :: cs) = none := by
  have hne {d : Char} (hd : d.isDigit = false) : (d == c) = false :=
    beq_eq_false_iff_ne.2 (ne_of_isDigit hc hd).symm
  have hn : ('n' == c) = false := hne rfl
  have ht : ('t' == c) = false := hne rfl
  have hf : ('f' == c) = false := hne rfl
  have hN : ('N' == c) = false := hne rfl
  have hI : ('I' == c) = false := hne rfl
  have hminus : ('-' == c) = false := hne rfl
  constructor <;> refine readWord?_eq_none ?_ <;>
    simp [List.isPrefixOf, hn, ht, hf, hN, hI, hminus]

theorem readValue_digit (hc : c.isDigit = true) (n : Nat) (cs : List Char) :
    readValue (n + 1) (c :: cs) = readUnsigned false (c :: cs) := by
  have hne {d : Char} (hd : d.isDigit = false) : c ≠ d := ne_of_isDigit hc hd
  simp [readValue, readWord?_of_isDigit hc, hne (d := '"') rfl, hne (d := '[') rfl,
    hne (d := '\x7b') rfl, hne (d := '-') rfl]

theorem readValue_minus (hc : c.isDigit = true) (n : Nat) (cs : List Char) :
    readValue (n + 1) ('-' :: c :: cs) = readUnsigned true (c :: cs) := by
  simp [readValue, readWord?_of_isDigit hc]

/-- A whole number with few enough digits is read back. -/
theorem readValue_toString {i : Int} (hi : (Nat.toDigits 10 i.natAbs).length ≤ digitLimit)
    (hr : Stops rest) (n : Nat) :
    readValue (n + 1) ((toString i).toList ++ rest) = .ok (.int i, rest) := by
  obtain ⟨c, ds, hds, hc⟩ := exists_toDigits_eq_cons i.natAbs
  have hread := readUnsigned_toDigits hi hr
  simp only [hds, List.cons_append] at hread
  rw [Int.toString_eq_repr, Int.repr_eq_if]
  split
  case isTrue hpos =>
    have habs : i.toNat = i.natAbs := by omega
    rw [habs, Nat.toList_repr, hds, List.cons_append, readValue_digit hc, hread,
      if_neg Bool.false_ne_true, Int.natAbs_of_nonneg hpos]
  case isFalse hneg =>
    have habs : (-i).toNat = i.natAbs := by omega
    have htext : ("-" ++ Nat.repr i.natAbs).toList = '-' :: Nat.toDigits 10 i.natAbs := by
      simp [Nat.toList_repr]
    rw [habs, htext, hds, List.cons_append, List.cons_append, readValue_minus hc, hread,
      if_pos rfl, Int.ofNat_natAbs_of_nonpos (by omega), Int.neg_neg]

/-- Every number is read back from its text. -/
theorem readValue_toFileText (x : Float) (hr : Stops rest) (n : Nat) :
    readValue (n + 1) ((Number.toFileText x).toList ++ rest) = .ok (.num x, rest) := by
  obtain ⟨s, hs, htext⟩ | ⟨coef, exp, cs, hnumeral, htext⟩ := toFileText_cases x
  · rw [htext]
    simp only [List.mem_cons, Prod.mk.injEq, List.not_mem_nil, or_false] at hs
    obtain ⟨rfl, rfl⟩ | ⟨rfl, rfl⟩ | ⟨rfl, rfl⟩ := hs <;> rfl
  · obtain ⟨c, ds, rfl, hc⟩ := hnumeral.exists_eq_cons
    obtain ⟨htext, hx⟩ | ⟨htext, hx⟩ := htext
    · have hread := hnumeral.readUnsigned hr false
      rw [htext, List.cons_append, readValue_digit hc, ← List.cons_append, hread, hx]
      rfl
    · have hread := hnumeral.readUnsigned hr true
      rw [htext, List.cons_append, List.cons_append, readValue_minus hc, ← List.cons_append, hread,
        hx]
      rfl

end Hantec.Json
