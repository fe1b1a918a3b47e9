import Hantec.Proofs.Number.Shortest

/-!
# Numerals

The texts that denote a rational: perhaps a sign, digits with perhaps a point among them, and
perhaps an exponent. What is denoted is what is read, and the two ways of writing a number denote
the same rational.
-/

namespace Hantec.Number

/-! ## What a text denotes -/

def Digits (cs : List Char) (ds : List ℕ) : Prop := cs.map Text.digitValue? = ds.map some

/-- The characters are a sign, which may be absent; `true` stands for minus. -/
inductive SignText : Bool → List Char → Prop where
  | none : SignText false []
  | plus : SignText false ['+']
  | minus : SignText true ['-']

/-- A whole number with a sign. -/
def signed (neg : Bool) (n : ℕ) : ℤ := if neg then -n else n

inductive ExponentText : ℤ → List Char → Prop where
  | none : ExponentText 0 []
  | some {mark : Char} {neg : Bool} {sign cs : List Char} {ds : List ℕ} :
      mark = 'e' ∨ mark = 'E' → SignText neg sign → Digits cs ds → ds ≠ [] →
      ExponentText (signed neg (ofDigits ds)) (mark :: (sign ++ cs))

/-- The characters write `coef * 10 ^ exp` without a sign: digits, a point and digits, of which one
group may be absent and the point too if nothing follows it, and an exponent. -/
inductive Unsigned : ℕ → ℤ → List Char → Prop where
  | mk {whole point frac tail : List Char} {w f : List ℕ} {e : ℤ} :
      Digits whole w → Digits frac f → (point = ['.'] ∨ point = [] ∧ f = []) → w ++ f ≠ [] →
      ExponentText e tail →
      Unsigned (ofDigits (w ++ f)) (e - f.length) (whole ++ (point ++ (frac ++ tail)))

/-- The text is a decimal and denotes a rational. -/
def Denotes (cs : List Char) (q : ℚ) : Prop :=
  ∃ neg sign coef exp body, SignText neg sign ∧ Unsigned coef exp body ∧ cs = sign ++ body ∧
    q = (if neg then -1 else 1) * (coef * 10 ^ exp)

/-! ## Reading what is denoted -/

section Reading

variable {cs rest : List Char} {ds : List ℕ} {neg : Bool} {e : ℤ}

theorem Digits.length_eq (h : Digits cs ds) : cs.length = ds.length := by
  simpa using congrArg List.length h

theorem Digits.eq_nil_iff (h : Digits cs ds) : cs = [] ↔ ds = [] := by
  rw [← List.length_eq_zero_iff, h.length_eq, List.length_eq_zero_iff]

theorem spanDigits_append (h : Digits cs ds)
    (hrest : ∀ c ∈ rest.head?, Text.digitValue? c = none) :
    spanDigits (cs ++ rest) = (ds, rest) := by
  induction cs generalizing ds with
  | nil =>
    obtain rfl := h.eq_nil_iff.1 rfl
    cases rest with
    | nil => rfl
    | cons c rest => simp [spanDigits, hrest c rfl]
  | cons c cs ih =>
    cases ds with
    | nil => cases h.eq_nil_iff.2 rfl
    | cons d ds =>
      simp only [Digits, List.map_cons, List.cons.injEq] at h
      simp [spanDigits, h.1, ih h.2]

theorem ExponentText.head? (h : ExponentText e cs) (c : Char) (hc : c ∈ cs.head?) :
    c = 'e' ∨ c = 'E' := by
  cases h with
  | none => cases hc
  | some hmark =>
    obtain rfl : _ = c := by simpa using hc
    exact hmark

theorem spanSign_append (h : SignText neg cs)
    (hrest : ∀ c ∈ rest.head?, c ≠ '+' ∧ c ≠ '-') : spanSign (cs ++ rest) = (neg, rest) := by
  cases h with
  | none =>
    cases rest with
    | nil => rfl
    | cons c rest =>
      obtain ⟨hplus, hminus⟩ := hrest c rfl
      simp [spanSign, hplus, hminus]
  | plus => rfl
  | minus => rfl

/-- A digit is no sign. -/
theorem Digits.head? (h : Digits cs ds) (c : Char) (hc : c ∈ cs.head?) : c ≠ '+' ∧ c ≠ '-' := by
  cases cs with
  | nil => cases hc
  | cons d cs =>
    obtain rfl : d = c := by simpa using hc
    cases ds with
    | nil => cases h.eq_nil_iff.2 rfl
    | cons n ds =>
      simp only [Digits, List.map_cons, List.cons.injEq] at h
      constructor <;> rintro rfl <;> cases h.1

theorem exponent?_of (h : ExponentText e cs) : exponent? cs = some e := by
  cases h with
  | none => rfl
  | @some mark neg sign cs ds hmark hsign hdigits hne =>
    have hspan : spanDigits (cs ++ []) = (ds, []) := spanDigits_append hdigits (by simp)
    rw [List.append_nil] at hspan
    have hmark : (mark == 'e' || mark == 'E') = true := by
      rcases hmark with rfl | rfl <;> rfl
    rw [exponent?, if_pos hmark, spanSign_append hsign hdigits.head?]
    obtain ⟨d, ds, rfl⟩ := List.exists_cons_of_ne_nil hne
    simp only [hspan]
    cases neg <;> simp [signed]

variable {coef coef' : ℕ} {exp exp' : ℤ}

/-- How the digits, the point and the exponent are told apart. -/
theorem Unsigned.spans (h : Unsigned coef exp cs) :
    ∃ w f rest tail e, spanDigits cs = (w, rest) ∧
      (rest.head? = some '.' ∧ spanDigits rest.tail = (f, tail) ∨
        rest.head? ≠ some '.' ∧ f = [] ∧ tail = rest) ∧
      w ++ f ≠ [] ∧ exponent? tail = some e ∧ coef = ofDigits (w ++ f) ∧ exp = e - f.length := by
  obtain @⟨whole, point, frac, tail, w, f, e, hw, hf, hpoint, hne, htail⟩ := h
  have htail' (c : Char) (hc : c ∈ tail.head?) : Text.digitValue? c = none := by
    rcases htail.head? c hc with rfl | rfl <;> rfl
  rcases hpoint with rfl | ⟨rfl, rfl⟩
  · refine ⟨w, f, '.' :: (frac ++ tail), tail, e, ?_, .inl ⟨rfl, ?_⟩, hne, exponent?_of htail, rfl,
      rfl⟩
    · exact spanDigits_append hw (by rintro c ⟨⟩; rfl)
    · exact spanDigits_append hf htail'
  · obtain rfl := hf.eq_nil_iff.2 rfl
    refine ⟨w, [], tail, tail, e, spanDigits_append hw htail', .inr ⟨fun hhead => ?_, rfl, rfl⟩,
      hne, exponent?_of htail, rfl, rfl⟩
    rcases htail.head? '.' hhead with h | h <;> cases h

/-- A text without a sign denotes no more than one decimal. -/
theorem Unsigned.unique (h : Unsigned coef exp cs) (h' : Unsigned coef' exp' cs) :
    coef = coef' ∧ exp = exp' := by
  obtain ⟨w, f, rest, tail, e, hspan, hpoint, -, he, rfl, rfl⟩ := h.spans
  obtain ⟨w', f', rest', tail', e', hspan', hpoint', -, he', rfl, rfl⟩ := h'.spans
  rw [hspan] at hspan'
  cases hspan'
  have hparts : f = f' ∧ tail = tail' := by
    rcases hpoint with ⟨hhead, hfrac⟩ | ⟨hhead, rfl, rfl⟩ <;>
      rcases hpoint' with ⟨hhead', hfrac'⟩ | ⟨hhead', rfl, rfl⟩
    · rw [hfrac] at hfrac'
      cases hfrac'
      exact ⟨rfl, rfl⟩
    · exact absurd hhead hhead'
    · exact absurd hhead' hhead
    · exact ⟨rfl, rfl⟩
  obtain ⟨rfl, rfl⟩ := hparts
  rw [he] at he'
  cases he'
  exact ⟨rfl, rfl⟩

theorem Unsigned.unsigned?_eq (h : Unsigned coef exp cs) :
    unsigned? cs = some (ofDecimal coef exp) := by
  obtain ⟨w, f, rest, tail, e, hspan, hpoint, hne, he, rfl, rfl⟩ := h.spans
  have hsome : (w.isEmpty && f.isEmpty) = false := by
    rw [Bool.eq_false_iff]
    simpa using hne
  unfold unsigned?
  rw [hspan]
  rcases hpoint with ⟨hhead, hfrac⟩ | ⟨hhead, rfl, rfl⟩
  · obtain ⟨rest, rfl⟩ : ∃ tail, rest = '.' :: tail := by
      cases rest with
      | nil => cases hhead
      | cons c rest => exact ⟨rest, by simpa using hhead⟩
    rw [List.tail_cons] at hfrac
    simp [hfrac, hsome, he]
  · dsimp only
    split
    case h_1 => exact absurd rfl hhead
    case h_2 => simp only [hsome, Bool.false_eq_true, if_false, he, Option.map_some]

theorem Unsigned.head? (h : Unsigned coef exp cs) (c : Char) (hc : c ∈ cs.head?) :
    c ≠ '+' ∧ c ≠ '-' := by
  obtain @⟨whole, point, frac, tail, w, f, e, hw, hf, hpoint, hne, htail⟩ := h
  cases whole with
  | cons d whole => exact hw.head? c hc
  | nil =>
    obtain rfl := hw.eq_nil_iff.1 rfl
    rcases hpoint with rfl | ⟨rfl, rfl⟩
    · obtain rfl : '.' = c := by simpa using hc
      decide
    · exact absurd rfl hne

/-- A text denotes no more than one rational. -/
theorem Denotes.unique {q q' : ℚ} (h : Denotes cs q) (h' : Denotes cs q') : q = q' := by
  obtain ⟨neg, sign, coef, exp, body, hsign, hbody, rfl, rfl⟩ := h
  obtain ⟨neg', sign', coef', exp', body', hsign', hbody', heq, rfl⟩ := h'
  have hspan := spanSign_append hsign hbody.head?
  rw [heq, spanSign_append hsign' hbody'.head?] at hspan
  cases hspan
  obtain ⟨rfl, rfl⟩ := hbody.unique hbody'
  rfl

end Reading

/-! ## Digits that are written -/

section Writing

variable {cs : List Char}

theorem ofDigits_concat (ds : List ℕ) (d : ℕ) : ofDigits (ds ++ [d]) = 10 * ofDigits ds + d := by
  simp [ofDigits]

theorem ofDigits_append (as bs : List ℕ) :
    ofDigits (as ++ bs) = ofDigits as * 10 ^ bs.length + ofDigits bs := by
  induction bs using List.reverseRecOn with
  | nil => simp [ofDigits]
  | append_singleton bs b ih =>
    rw [← List.append_assoc, ofDigits_concat, ofDigits_concat, ih, List.length_append,
      List.length_singleton, pow_succ]
    ring

theorem ofDigits_replicate_zero (n : ℕ) : ofDigits (List.replicate n 0) = 0 := by
  induction n with
  | zero => rfl
  | succ n ih => rw [List.replicate_succ', ofDigits_append, ih]; rfl

def values (cs : List Char) : List ℕ := cs.map fun c => c.toNat - '0'.toNat

theorem digits_of_isDigit (h : ∀ c ∈ cs, c.isDigit = true) : Digits cs (values cs) := by
  rw [Digits, values, List.map_map]
  refine List.map_congr_left fun c hc => ?_
  rw [Text.digitValue?, if_pos (h c hc)]
  rfl

theorem digits_toDigits (n : ℕ) : Digits (Nat.toDigits 10 n) (values (Nat.toDigits 10 n)) :=
  digits_of_isDigit fun _ hc => Nat.isDigit_of_mem_toDigits (by decide) (by decide) hc

theorem ofDigits_toDigits (n : ℕ) : ofDigits (values (Nat.toDigits 10 n)) = n := by
  have hvalue : ofDigits (values (Nat.toDigits 10 n)) =
      Nat.ofDigitChars 10 (Nat.toDigits 10 n) 0 := by
    rw [ofDigits, values, List.foldl_map]
    rfl
  rw [hvalue, Nat.ofDigitChars_ten_toDigits]

theorem Digits.append {cs cs' : List Char} {ds ds' : List ℕ} (h : Digits cs ds)
    (h' : Digits cs' ds') : Digits (cs ++ cs') (ds ++ ds') := by
  rw [Digits, List.map_append, List.map_append, h, h']

theorem digits_nil : Digits [] [] := rfl

theorem length_values (cs : List Char) : (values cs).length = cs.length := List.length_map ..

/-- The text writes a rational without a sign. -/
def Writes (cs : List Char) (q : ℚ) : Prop := ∃ coef exp, Unsigned coef exp cs ∧ coef * 10 ^ exp = q

section Shapes

variable {whole frac tail : List Char} {w f : List ℕ} {e : ℤ} {q : ℚ}

theorem writes_point (hw : Digits whole w) (hf : Digits frac f) (hne : w ++ f ≠ [])
    (he : ExponentText e tail) (hq : ofDigits (w ++ f) * 10 ^ (e - f.length) = q) :
    Writes (whole ++ '.' :: (frac ++ tail)) q :=
  ⟨_, _, .mk hw hf (.inl rfl) hne he, hq⟩

theorem writes_whole (hw : Digits whole w) (hne : w ≠ []) (he : ExponentText e tail)
    (hq : ofDigits w * 10 ^ e = q) : Writes (whole ++ tail) q := by
  have hunsigned := Unsigned.mk hw digits_nil (.inr ⟨rfl, rfl⟩) (by simpa using hne) he
  refine ⟨ofDigits w, e, ?_, hq⟩
  simpa using hunsigned

end Shapes

theorem Writes.denotes {q : ℚ} (h : Writes cs q) (neg : Bool) :
    Denotes (if neg then '-' :: cs else cs) (if neg then -q else q) := by
  obtain ⟨coef, exp, hcs, rfl⟩ := h
  cases neg with
  | false => exact ⟨false, [], coef, exp, cs, .none, hcs, rfl, by simp⟩
  | true => exact ⟨true, ['-'], coef, exp, cs, .minus, hcs, rfl, by simp⟩

/-- A text that writes a rational is read as the number next to it. -/
theorem Writes.decimal?_eq {q : ℚ} (h : Writes cs q) (neg : Bool) :
    ∃ coef : ℕ, ∃ exp : ℤ, coef * 10 ^ exp = q ∧
      decimal? (if neg then '-' :: cs else cs) =
        some (if neg then -ofDecimal coef exp else ofDecimal coef exp) := by
  obtain ⟨coef, exp, hcs, hq⟩ := h
  refine ⟨coef, exp, hq, ?_⟩
  cases neg with
  | false =>
    have hspan : spanSign ([] ++ cs) = (false, cs) := spanSign_append .none hcs.head?
    rw [List.nil_append] at hspan
    simp [decimal?, hspan, hcs.unsigned?_eq]
  | true =>
    have hspan : spanSign (['-'] ++ cs) = (true, cs) := spanSign_append .minus hcs.head?
    rw [List.singleton_append] at hspan
    simp [decimal?, hspan, hcs.unsigned?_eq]

end Writing

end Hantec.Number
