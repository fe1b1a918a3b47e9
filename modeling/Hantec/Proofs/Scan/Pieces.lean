import Hantec.Proofs.Print

/-!
# The pieces of a source

What a piece of a source is made of, and what may follow it. A piece that is a token is a word with
one spelling, a name, a number or a text in quotes. A piece that is none is a blank or a comment.
The scanner finds these pieces and no others, and where none starts it has an error. It goes from
piece to piece, so a source that is scanned is a sequence of them.
-/

namespace Hantec

variable {c : Char} {cs rest text : List Char} {k : TokenKind} {lit : TokenLiteral}

/-! ## Comments -/

def HasCommentEnd (cs : List Char) : Prop := ['*', '/'] <:+: cs

theorem not_hasCommentEnd_nil : ¬HasCommentEnd [] := by simp [HasCommentEnd]

theorem hasCommentEnd_cons : HasCommentEnd (c :: cs) ↔
    (c = '*' ∧ cs.head? = some '/') ∨ HasCommentEnd cs := by
  unfold HasCommentEnd
  rw [List.infix_cons_iff]
  refine or_congr_left ?_
  cases cs <;> simp [List.cons_prefix_cons, eq_comm]

theorem HasCommentEnd.append (h : HasCommentEnd cs) (rest : List Char) :
    HasCommentEnd (cs ++ rest) :=
  h.trans (List.prefix_append _ _).isInfix

theorem HasCommentEnd.exists_first (h : HasCommentEnd cs) :
    ∃ text rest, cs = text ++ '*' :: '/' :: rest ∧ ¬HasCommentEnd (text ++ ['*']) := by
  induction cs with
  | nil => exact absurd h not_hasCommentEnd_nil
  | cons c cs ih =>
    by_cases hfirst : c = '*' ∧ cs.head? = some '/'
    · obtain ⟨rfl, hhead⟩ := hfirst
      obtain ⟨rest, rfl⟩ := List.head?_eq_some_iff.mp hhead
      exact ⟨[], rest, rfl, by simp [hasCommentEnd_cons, not_hasCommentEnd_nil]⟩
    · obtain ⟨text, rest, rfl, hnone⟩ := ih ((hasCommentEnd_cons.1 h).resolve_left hfirst)
      refine ⟨c :: text, rest, rfl, ?_⟩
      rw [List.cons_append, hasCommentEnd_cons]
      rintro (⟨rfl, hhead⟩ | hend)
      · cases text with
        | nil => simp at hhead
        | cons d text => exact hfirst ⟨rfl, by simpa using hhead⟩
      · exact hnone hend

/-- A comment goes on behind characters without its end. -/
theorem commentLength_append (htext : ¬HasCommentEnd text) (hrest : rest.head? ≠ some '/') :
    commentLength (text ++ rest) = text.length + commentLength rest := by
  induction text with
  | nil => simp
  | cons c text ih =>
    rw [hasCommentEnd_cons, not_or] at htext
    have hne : ∀ ds, c = '*' → text ++ rest = '/' :: ds → False := by
      rintro ds rfl heq
      cases text with
      | nil => exact hrest (by rw [← List.nil_append rest, heq]; rfl)
      | cons d text => exact htext.1 ⟨rfl, congrArg some (List.cons.inj heq).1⟩
    rw [List.cons_append, commentLength.eq_2 _ _ hne, ih htext.2, List.length_cons]
    omega

/-! ## Gaps and tokens -/

/-- A piece that is no token, and what follows it. -/
inductive GapPiece : List Char → List Char → Prop where
  | blank {c : Char} {rest : List Char} : isGap c = true → GapPiece [c] rest
  | line {text rest : List Char} :
      '\n' ∉ text → (∀ c ∈ rest.head?, c = '\n') → GapPiece ('/' :: '/' :: text) rest
  | block {text rest : List Char} :
      ¬HasCommentEnd (text ++ ['*']) → GapPiece ('/' :: '*' :: (text ++ ['*', '/'])) rest
  | openBlock {text : List Char} : ¬HasCommentEnd text → GapPiece ('/' :: '*' :: text) []

/-- The characters go on with a point and a digit. -/
def StartsFraction (cs : List Char) : Prop := ∃ d ds, cs = '.' :: d :: ds ∧ d.isDigit = true

/-- The number with these digits before and after the point. -/
def numeralValue (whole frac : List Char) : Float :=
  Number.ofDecimal (Number.ofDigits ((whole ++ frac).map (·.toNat - '0'.toNat)))
    (-(frac.length : Int))

/-- A piece that is a token, and what follows it. -/
inductive TokenPiece : TokenKind → TokenLiteral → List Char → List Char → Prop where
  | mark {c : Char} {k : TokenKind} {rest : List Char} :
      mark? c = some k → TokenPiece k .none [c] rest
  | double {c d : Char} {k : TokenKind} {rest : List Char} :
      twoCharOperator? c d = some k → TokenPiece k .none [c, d] rest
  | single {c : Char} {k : TokenKind} {rest : List Char} : operator? c = some k →
      (∀ d ∈ rest.head?, twoCharOperator? c d = none ∧ (c = '/' → d ≠ '/' ∧ d ≠ '*')) →
      TokenPiece k .none [c] rest
  | quoted {text rest : List Char} : '"' ∉ text →
      TokenPiece .string (.text (String.ofList text)) ('"' :: (text ++ ['"'])) rest
  | numeral {c : Char} {whole frac rest : List Char} :
      c.isDigit = true → whole.all Char.isDigit = true → frac.all Char.isDigit = true →
      (∀ d ∈ rest.head?, d.isDigit = false) → (frac = [] → ¬StartsFraction rest) →
      TokenPiece .number (.number (numeralValue (c :: whole) frac))
        (c :: (whole ++ if frac = [] then [] else '.' :: frac)) rest
  | keyword {c : Char} {cs rest : List Char} {k : TokenKind} :
      isIdentStart c = true → cs.all isIdentPart = true →
      (∀ d ∈ rest.head?, isIdentPart d = false) → keyword? (String.ofList (c :: cs)) = some k →
      TokenPiece k .none (c :: cs) rest
  | name {c : Char} {cs rest : List Char} :
      isIdentStart c = true → cs.all isIdentPart = true →
      (∀ d ∈ rest.head?, isIdentPart d = false) → keyword? (String.ofList (c :: cs)) = none →
      TokenPiece .identifier (.text (String.ofList (c :: cs))) (c :: cs) rest

/-- What a piece is found in. -/
inductive Piece.Spans : Piece → List Char → List Char → Prop where
  | gap {cs rest : List Char} : GapPiece cs rest → Spans (.gap cs.length) cs rest
  | token {k : TokenKind} {lit : TokenLiteral} {cs rest : List Char} :
      TokenPiece k lit cs rest → Spans (.token k lit cs.length) cs rest

/-- The characters that are gaps, marks or parts of operators. -/
def special : List Char :=
  [' ', '\t', '\r', '\n', '(', ')', '\x7b', '\x7d', '[', ']', '.', ',', '+', '-', '*', '/', '%',
   '!', '=', '<', '>', '&', '|', '?']

/-- Why no piece starts with a character, before others. -/
inductive LexCause.Arises : LexCause → Char → List Char → Prop where
  | unexpected {c : Char} {rest : List Char} : c ∉ special → c ≠ '"' → c.isDigit = false →
      isIdentStart c = false → Arises (.unexpected c) c rest
  | lone {c : Char} {rest : List Char} :
      isDoubledOnly c = true → rest.head? ≠ some c → Arises (.lone c) c rest
  | unterminated {rest : List Char} : '"' ∉ rest → Arises .unterminated '"' rest

/-! ## The scanner finds the pieces -/

theorem takeWhile_append_stop {p : Char → Bool} (hcs : cs.all p = true)
    (hrest : ∀ d ∈ rest.head?, p d = false) : (cs ++ rest).takeWhile p = cs := by
  rw [List.takeWhile_append_of_pos (List.all_eq_true.1 hcs)]
  cases rest with
  | nil => simp
  | cons d rest => simp [hrest d rfl]

theorem dropWhile_append_stop {p : Char → Bool} (hcs : cs.all p = true)
    (hrest : ∀ d ∈ rest.head?, p d = false) : (cs ++ rest).dropWhile p = rest := by
  rw [List.dropWhile_append_of_pos (List.all_eq_true.1 hcs)]
  cases rest with
  | nil => rfl
  | cons d rest => simp [hrest d rfl]

/-- Any other character starts a text, a number or a word. -/
theorem scanPiece_of_not_special (hc : c ∉ special) (cs : List Char) :
    scanPiece c cs =
      if c == '"' then scanText cs
      else if c.isDigit then .ok (scanNumber (c :: cs))
      else if isIdentStart c then .ok (scanWord (c :: cs))
      else .error (.unexpected c) := by
  have hgap : isGap c = false := by
    simp only [special, List.mem_cons, not_or] at hc
    simp [isGap, hc]
  have hmark : mark? c = none := by
    unfold mark?
    split <;> first | rfl | exact absurd (by decide) hc
  have htwo : ∀ d, twoCharOperator? c d = none := by
    intro d
    unfold twoCharOperator?
    split <;> first | rfl | exact absurd (by decide) hc
  have hone : operator? c = none := by
    unfold operator?
    split <;> first | rfl | exact absurd (by decide) hc
  have hoperator : scanOperator c cs = none := by
    cases cs <;> simp [scanOperator, htwo, hone]
  have hdoubled : isDoubledOnly c = false := by
    simp only [special, List.mem_cons, not_or] at hc
    simp [isDoubledOnly, hc]
  have hslash : (c == '/') = false := by
    simp only [special, List.mem_cons, not_or] at hc
    simp [hc]
  simp [scanPiece, hgap, hmark, hoperator, hdoubled, hslash]

theorem isIdentPart_of_isIdentStart (h : isIdentStart c = true) : isIdentPart c = true := by
  unfold isIdentStart at h
  unfold isIdentPart
  split <;> grind [Char.isAlphanum]

theorem isIdentStart_of_isDigit (h : c.isDigit = true) : isIdentStart c = false := by
  simp only [Char.isDigit, Bool.and_eq_true, decide_eq_true_eq, UInt32.le_iff_toNat_le,
    Char.reduceVal, UInt32.reduceToNat] at h
  have hne : c ≠ '_' := by
    rintro rfl
    simp at h
  have hval : c.toNat = c.val.toNat := rfl
  have hlt : c.toNat < 0x80 := by omega
  have halpha : c.isAlpha = false := by
    delta Char.isAlpha Char.isUpper Char.isLower
    simp [UInt32.le_iff_toNat_le]
    omega
  simp [isIdentStart, hlt, hne, halpha]

/-- No special character has a property that none of them has. -/
theorem not_mem_special {p : Char → Bool} (hc : p c = true)
    (hp : (special.all (!p ·)) = true) : c ∉ special := by
  intro hmem
  have hnot := List.all_eq_true.1 hp c hmem
  rw [hc] at hnot
  cases hnot

theorem scanPiece_of_isIdentStart (h : isIdentStart c = true) (cs : List Char) :
    scanPiece c cs = .ok (scanWord (c :: cs)) := by
  have hquote : c ≠ '"' := ne_of_apply_ne isIdentStart (by simp [h]; decide)
  have hdigit : c.isDigit = false := by
    refine Bool.eq_false_iff.2 fun hd => ?_
    rw [isIdentStart_of_isDigit hd] at h
    cases h
  simp [scanPiece_of_not_special (not_mem_special h (by decide)), hquote, hdigit, h]

theorem scanPiece_of_isDigit (h : c.isDigit = true) (cs : List Char) :
    scanPiece c cs = .ok (scanNumber (c :: cs)) := by
  have hquote : c ≠ '"' := ne_of_apply_ne Char.isDigit (by simp [h])
  simp [scanPiece_of_not_special (not_mem_special h (by decide)), hquote, h]

theorem scanWord_eq (hc : isIdentStart c = true) (hcs : cs.all isIdentPart = true)
    (hrest : ∀ d ∈ rest.head?, isIdentPart d = false) :
    scanPiece c (cs ++ rest) = .ok ((keyword? (String.ofList (c :: cs))).elim
      (.token .identifier (.text (String.ofList (c :: cs))) (cs.length + 1))
      (.token · .none (cs.length + 1))) := by
  have hall : (c :: cs).all isIdentPart = true := by simp [isIdentPart_of_isIdentStart hc, hcs]
  have hword : (c :: (cs ++ rest)).takeWhile isIdentPart = c :: cs :=
    takeWhile_append_stop hall hrest
  rw [scanPiece_of_isIdentStart hc, scanWord, hword]
  cases keyword? (String.ofList (c :: cs)) <;> rfl

theorem scanNumber_eq {whole frac : List Char} (hwhole : whole.all Char.isDigit = true)
    (hfrac : frac.all Char.isDigit = true) (hrest : ∀ d ∈ rest.head?, d.isDigit = false)
    (hend : frac = [] → ¬StartsFraction rest) :
    scanNumber (whole ++ (if frac = [] then [] else '.' :: frac) ++ rest) =
      .token .number (.number (numeralValue whole frac))
        (whole ++ if frac = [] then [] else '.' :: frac).length := by
  cases frac with
  | nil =>
    rw [if_pos rfl, List.append_nil, scanNumber, takeWhile_append_stop hwhole hrest,
      dropWhile_append_stop hwhole hrest]
    cases rest with
    | nil => simp [numeralValue]
    | cons d ds =>
      by_cases hd : d = '.'
      · subst hd
        have hnone : ds.takeWhile Char.isDigit = [] := by
          cases ds with
          | nil => rfl
          | cons e ds => exact List.takeWhile_cons_of_neg fun he => hend rfl ⟨e, ds, rfl, he⟩
        simp [numeralValue, hnone]
      · simp [numeralValue, hd]
  | cons d frac =>
    have hpoint : ∀ e ∈ ('.' :: (d :: frac ++ rest)).head?, e.isDigit = false := by
      rintro e ⟨⟩
      decide
    have hcs : whole ++ (if d :: frac = [] then [] else '.' :: d :: frac) ++ rest =
        whole ++ '.' :: (d :: frac ++ rest) := by simp
    simp only [hcs, scanNumber, takeWhile_append_stop hwhole hpoint,
      dropWhile_append_stop hwhole hpoint, takeWhile_append_stop hfrac hrest]
    simp [numeralValue]

theorem scanPiece_single (hk : operator? c = some k) (hrest : ∀ d ∈ rest.head?,
    twoCharOperator? c d = none ∧ (c = '/' → d ≠ '/' ∧ d ≠ '*')) :
    scanPiece c rest = .ok (.token k .none 1) := by
  have hop : scanOperator c rest = some (.token k .none 1) := by
    cases rest with
    | nil => simp [scanOperator, hk]
    | cons d rest => simp [scanOperator, hk, (hrest d rfl).1]
  have hslash (e : Char) (he : e = '/' ∨ e = '*') :
      (c == '/' && rest.head? == some e) = false := by
    rw [Bool.eq_false_iff]
    intro h
    simp only [Bool.and_eq_true, beq_iff_eq] at h
    obtain ⟨hslash, hstar⟩ := (hrest e h.2).2 h.1
    exact he.elim hslash hstar
  have hgap : isGap c = false ∧ mark? c = none := by
    unfold operator? at hk
    split at hk <;> cases hk <;> exact ⟨rfl, rfl⟩
  simp [scanPiece, hgap, hslash, hop]

theorem TokenPiece.scanPiece_eq (h : TokenPiece k lit (c :: cs) rest) :
    scanPiece c (cs ++ rest) = .ok (.token k lit (cs.length + 1)) := by
  cases h with
  | mark hk =>
    unfold mark? at hk
    split at hk <;> cases hk <;> rfl
  | double hk =>
    unfold twoCharOperator? at hk
    split at hk <;> cases hk <;> rfl
  | single hk hrest => exact scanPiece_single hk hrest
  | @quoted text _ htext =>
    have hbody : (text ++ '"' :: rest).takeWhile (· != '"') = text := by
      refine takeWhile_append_stop ?_ (by simp)
      simpa [List.all_eq_true] using fun d hd => ne_of_mem_of_not_mem hd htext
    have hscan : scanPiece '"' (text ++ ['"'] ++ rest) = scanText (text ++ '"' :: rest) := by
      rw [scanPiece_of_not_special (by decide)]
      simp
    rw [hscan, scanText, hbody]
    simp
  | @numeral _ whole _ _ hc hwhole hfrac hrest hend =>
    have hall : (c :: whole).all Char.isDigit = true := by simp [hc, hwhole]
    have hscan := scanNumber_eq hall hfrac hrest hend
    rw [List.cons_append, List.cons_append] at hscan
    rw [scanPiece_of_isDigit hc, hscan]
    rfl
  | keyword hc hcs hrest hk => rw [scanWord_eq hc hcs hrest, hk]; rfl
  | name hc hcs hrest hk => rw [scanWord_eq hc hcs hrest, hk]; rfl

theorem GapPiece.scanPiece_eq (h : GapPiece (c :: cs) rest) :
    scanPiece c (cs ++ rest) = .ok (.gap (cs.length + 1)) := by
  have hblock (cs : List Char) :
      scanPiece '/' ('*' :: cs) = .ok (.gap (2 + commentLength cs)) := rfl
  cases h with
  | blank hc => simp [scanPiece, hc]
  | @line text _ htext hrest =>
    have hline : (text ++ rest).takeWhile (· != '\n') = text := by
      refine takeWhile_append_stop ?_ (fun d hd => by simp [hrest d hd])
      simpa [List.all_eq_true] using fun d hd => ne_of_mem_of_not_mem hd htext
    have hscan : scanPiece '/' ('/' :: (text ++ rest)) =
      .ok (.gap (1 + (('/' :: (text ++ rest)).takeWhile (· != '\n')).length)) := rfl
    rw [List.cons_append, hscan, List.takeWhile_cons_of_pos (by decide), hline, Nat.add_comm]
  | @block text _ htext =>
    have hnone : ¬HasCommentEnd text := fun h => htext (h.append _)
    rw [List.cons_append, List.append_assoc, hblock, commentLength_append hnone (by simp)]
    simp [commentLength]
    omega
  | openBlock htext =>
    rw [List.cons_append, hblock, commentLength_append htext (by simp)]
    simp [commentLength]
    omega

theorem Piece.Spans.scanPiece_eq {piece : Piece} (h : piece.Spans (c :: cs) rest) :
    scanPiece c (cs ++ rest) = .ok piece := by
  cases h with
  | gap h => exact h.scanPiece_eq
  | token h => exact h.scanPiece_eq

theorem LexCause.Arises.scanPiece_eq {cause : LexCause} (h : cause.Arises c cs) :
    scanPiece c cs = .error cause := by
  cases h with
  | unexpected hspecial hquote hdigit hident =>
    simp [scanPiece_of_not_special hspecial, hquote, hdigit, hident]
  | lone hc hhead =>
    have hother : isGap c = false ∧ mark? c = none ∧ operator? c = none ∧ c ≠ '/' := by
      simp only [isDoubledOnly, Bool.or_eq_true, beq_iff_eq] at hc
      obtain (rfl | rfl) | rfl := hc <;> decide
    have htwo : cs.head?.bind (twoCharOperator? c) = none := by
      rw [Option.bind_eq_none_iff]
      intro d hd
      unfold twoCharOperator?
      split <;> simp_all [isDoubledOnly]
    simp [scanPiece, scanOperator, hother, htwo, hc]
  | unterminated hcs =>
    have hbody : (cs ++ []).takeWhile (· != '"') = cs := by
      refine takeWhile_append_stop ?_ (by simp)
      simpa using fun d hd => ne_of_mem_of_not_mem hd hcs
    rw [List.append_nil] at hbody
    rw [scanPiece_of_not_special (by decide)]
    simp [scanText, hbody]

/-! ## Nothing else is found -/

/-- The characters that come first and have a property. -/
theorem exists_run (p : Char → Bool) (cs : List Char) :
    ∃ run rest, cs = run ++ rest ∧ run.all p = true ∧ ∀ d ∈ rest.head?, p d = false := by
  refine ⟨cs.takeWhile p, cs.dropWhile p, List.takeWhile_append_dropWhile.symm,
    List.all_takeWhile, fun d hd => ?_⟩
  have hstop := List.head?_dropWhile_not p cs
  rw [Option.mem_def.1 hd] at hstop
  simpa using hstop

def PieceStarts (c : Char) (cs : List Char) : Prop :=
  ∃ (piece : Piece) (body rest : List Char), cs = body ++ rest ∧ piece.Spans (c :: body) rest

theorem pieceStarts_digit (hc : c.isDigit = true) (cs : List Char) : PieceStarts c cs := by
  obtain ⟨whole, rest, rfl, hwhole, hrest⟩ := exists_run Char.isDigit cs
  by_cases hpoint : StartsFraction rest
  · obtain ⟨d, ds, rfl, hd⟩ := hpoint
    obtain ⟨frac, tail, hds, hfrac, htail⟩ := exists_run Char.isDigit ds
    have hall : (d :: frac).all Char.isDigit = true := by simp [hd, hfrac]
    exact ⟨_, whole ++ '.' :: d :: frac, tail, by simp [hds],
      .token (.numeral hc hwhole hall htail (by simp))⟩
  · have hnil : ([] : List Char).all Char.isDigit = true := rfl
    exact ⟨_, whole ++ [], rest, by simp,
      .token (.numeral hc hwhole hnil hrest fun _ => hpoint)⟩

theorem pieceStarts_ident (hc : isIdentStart c = true) (cs : List Char) : PieceStarts c cs := by
  obtain ⟨body, rest, rfl, hbody, hrest⟩ := exists_run isIdentPart cs
  cases hk : keyword? (String.ofList (c :: body)) with
  | some k => exact ⟨_, body, rest, rfl, .token (.keyword hc hbody hrest hk)⟩
  | none => exact ⟨_, body, rest, rfl, .token (.name hc hbody hrest hk)⟩

theorem pieceStarts_comment (cs : List Char) : PieceStarts '/' ('*' :: cs) := by
  by_cases hend : HasCommentEnd cs
  · obtain ⟨text, rest, rfl, htext⟩ := hend.exists_first
    exact ⟨_, '*' :: (text ++ ['*', '/']), rest, by simp, .gap (.block htext)⟩
  · exact ⟨_, '*' :: cs, [], by simp, .gap (.openBlock hend)⟩

theorem pieceStarts_line (cs : List Char) : PieceStarts '/' ('/' :: cs) := by
  obtain ⟨text, rest, rfl, htext, hrest⟩ := exists_run (· != '\n') cs
  refine ⟨_, '/' :: text, rest, rfl, .gap (.line (fun hmem => ?_) fun d hd => ?_)⟩
  · simpa using List.all_eq_true.1 htext _ hmem
  · simpa using hrest d hd

theorem pieceStarts_operator (hk : operator? c = some k) (cs : List Char) : PieceStarts c cs := by
  cases cs with
  | nil => exact ⟨_, [], [], rfl, .token (.single hk (by simp))⟩
  | cons d cs =>
    cases htwo : twoCharOperator? c d with
    | some j => exact ⟨_, [d], cs, rfl, .token (.double htwo)⟩
    | none =>
      by_cases hline : c = '/' ∧ d = '/'
      · obtain ⟨rfl, rfl⟩ := hline
        exact pieceStarts_line cs
      by_cases hblock : c = '/' ∧ d = '*'
      · obtain ⟨rfl, rfl⟩ := hblock
        exact pieceStarts_comment cs
      refine ⟨_, [], d :: cs, rfl, .token (.single hk ?_)⟩
      rintro _ ⟨⟩
      exact ⟨htwo, fun hc => ⟨fun hd => hline ⟨hc, hd⟩, fun hd => hblock ⟨hc, hd⟩⟩⟩

/-- Everywhere a piece starts, or else there is a reason why none does. -/
theorem pieceStarts_or_arises (c : Char) (cs : List Char) :
    PieceStarts c cs ∨ ∃ cause : LexCause, cause.Arises c cs := by
  by_cases hgap : isGap c = true
  · exact .inl ⟨_, [], cs, rfl, .gap (.blank hgap)⟩
  cases hmark : mark? c with
  | some k => exact .inl ⟨_, [], cs, rfl, .token (.mark hmark)⟩
  | none =>
    cases hop : operator? c with
    | some k => exact .inl (pieceStarts_operator hop cs)
    | none =>
      by_cases hdoubled : isDoubledOnly c = true
      · by_cases hhead : cs.head? = some c
        · obtain ⟨cs, rfl⟩ := List.head?_eq_some_iff.mp hhead
          obtain ⟨k, hk⟩ : ∃ k, twoCharOperator? c c = some k := by
            simp only [isDoubledOnly, Bool.or_eq_true, beq_iff_eq] at hdoubled
            obtain (rfl | rfl) | rfl := hdoubled <;> exact ⟨_, rfl⟩
          exact .inl ⟨_, [c], cs, rfl, .token (.double hk)⟩
        · exact .inr ⟨_, .lone hdoubled hhead⟩
      by_cases hquote : c = '"'
      · subst hquote
        by_cases hcs : '"' ∈ cs
        · obtain ⟨text, rest, rfl, htext⟩ := List.eq_append_cons_of_mem hcs
          exact .inl ⟨_, text ++ ['"'], rest, by simp, .token (.quoted htext)⟩
        · exact .inr ⟨_, .unterminated hcs⟩
      by_cases hdigit : c.isDigit = true
      · exact .inl (pieceStarts_digit hdigit cs)
      by_cases hident : isIdentStart c = true
      · exact .inl (pieceStarts_ident hident cs)
      have hspecial : special.all (fun d => isGap d || (mark? d).isSome || (operator? d).isSome ||
          isDoubledOnly d) = true := by decide
      refine .inr ⟨_, .unexpected (fun hmem => ?_) hquote (by simpa using hdigit)
        (by simpa using hident)⟩
      simpa [hgap, hmark, hop, hdoubled] using List.all_eq_true.1 hspecial c hmem

theorem exists_spans {piece : Piece} (h : scanPiece c cs = .ok piece) :
    ∃ body rest, cs = body ++ rest ∧ piece.Spans (c :: body) rest := by
  obtain ⟨piece', body, rest, rfl, hspans⟩ | ⟨cause, harises⟩ := pieceStarts_or_arises c cs
  · rw [hspans.scanPiece_eq] at h
    cases h
    exact ⟨body, rest, rfl, hspans⟩
  · rw [harises.scanPiece_eq] at h
    cases h

theorem scanPiece_gap (h : scanPiece c (cs ++ rest) = .ok (.gap (cs.length + 1))) :
    GapPiece (c :: cs) rest := by
  obtain ⟨body, rest', heq, hspans⟩ := exists_spans h
  generalize hpiece : Piece.gap (cs.length + 1) = piece at hspans
  cases hspans with
  | gap hgap =>
    obtain ⟨rfl, rfl⟩ := List.append_inj heq (Nat.succ.inj (Piece.gap.inj hpiece))
    exact hgap
  | token => cases hpiece

theorem scanPiece_token (h : scanPiece c (cs ++ rest) = .ok (.token k lit (cs.length + 1))) :
    TokenPiece k lit (c :: cs) rest := by
  obtain ⟨body, rest', heq, hspans⟩ := exists_spans h
  generalize hpiece : Piece.token k lit (cs.length + 1) = piece at hspans
  cases hspans with
  | gap => cases hpiece
  | token htoken =>
    obtain ⟨rfl, rfl, hlen⟩ := Piece.token.inj hpiece
    obtain ⟨rfl, rfl⟩ := List.append_inj heq (Nat.succ.inj hlen)
    exact htoken

/-! ## What follows a piece -/

section Following

variable {rest' : List Char}

theorem forall_head_of_line {P : Char → Prop} (hline : P '\n') (h : ∀ d ∈ rest.head?, P d)
    (hhead : ∀ d ∈ rest'.head?, d = '\n' ∨ d ∈ rest.head?) : ∀ d ∈ rest'.head?, P d := by
  intro d hd
  obtain rfl | hd := hhead d hd
  · exact hline
  · exact h d hd

/-- A token stays one if it is followed by a line end or by what starts in the same way. -/
theorem TokenPiece.congr (h : TokenPiece k lit cs rest)
    (hhead : ∀ d ∈ rest'.head?, d = '\n' ∨ d ∈ rest.head?)
    (hpoint : StartsFraction rest' → StartsFraction rest) : TokenPiece k lit cs rest' := by
  cases h with
  | mark hk => exact .mark hk
  | double hk => exact .double hk
  | @single c _ _ hk hrest =>
    have hline : twoCharOperator? c '\n' = none := by
      unfold twoCharOperator?
      split <;> first | rfl | simp_all
    exact .single hk (forall_head_of_line ⟨hline, fun _ => by decide⟩ hrest hhead)
  | quoted htext => exact .quoted htext
  | numeral hc hwhole hfrac hrest hend =>
    exact .numeral hc hwhole hfrac (forall_head_of_line (by decide) hrest hhead)
      fun hnil h => hend hnil (hpoint h)
  | keyword hc hcs hrest hk =>
    exact .keyword hc hcs (forall_head_of_line (by decide) hrest hhead) hk
  | name hc hcs hrest hk => exact .name hc hcs (forall_head_of_line (by decide) hrest hhead) hk

/-- A gap stays one as well, unless it is a comment without an end, which takes in what follows. -/
theorem GapPiece.congr (h : GapPiece cs rest) :
    (∀ rest', (∀ d ∈ rest'.head?, d = '\n' ∨ d ∈ rest.head?) → GapPiece cs rest') ∨
    rest = [] ∧ ∃ text, cs = '/' :: '*' :: text ∧ ¬HasCommentEnd text := by
  cases h with
  | blank hc => exact .inl fun _ _ => .blank hc
  | line htext hrest =>
    exact .inl fun _ hhead => .line htext (forall_head_of_line rfl hrest hhead)
  | block htext => exact .inl fun _ _ => .block htext
  | openBlock htext => exact .inr ⟨rfl, _, rfl, htext⟩

end Following

/-! ## Words -/

/-- The words that a source can have. -/
inductive Word.Regular : Word → Prop where
  | fixed {k : TokenKind} : k.isFixed = true → Regular (.fixed k)
  | name {s : String} : IsName s → Regular (.name s)
  | numeral {s : String} {x : Float} : IsNumeral s x → Regular (.numeral s x)
  | quoted {s : String} : '"' ∉ s.toList → Regular (.quoted s)

theorem Word.Regular.of_fixed (hk : k.isFixed = true) (hspelling : k.spelling = String.ofList cs) :
    Word.Regular ⟨k, String.ofList cs, .none⟩ :=
  hspelling ▸ .fixed hk

theorem Word.Regular.kind_ne_eof {w : Word} (h : w.Regular) : w.kind ≠ .eof := by
  cases h with
  | @fixed k hk =>
    rintro rfl
    cases hk
  | name | numeral | quoted => exact nofun

/-- What is known of the words that have more than one spelling. -/
theorem Word.Regular.of_kind {w : Word} (h : w.Regular) :
    (w.kind = .identifier → IsName w.lexeme) ∧
    (w.kind = .number → ∃ x, w.literal = .number x ∧ IsNumeral w.lexeme x) ∧
    (w.kind = .string →
      ∃ s, w.literal = .text s ∧ w.lexeme = "\"" ++ s ++ "\"" ∧ '"' ∉ s.toList) := by
  cases h with
  | fixed hk => refine ⟨?_, ?_, ?_⟩ <;> rintro rfl <;> cases hk
  | name hs => exact ⟨fun _ => hs, nofun, nofun⟩
  | numeral hx => exact ⟨nofun, fun _ => ⟨_, rfl, hx⟩, nofun⟩
  | quoted hs => exact ⟨nofun, nofun, fun _ => ⟨_, rfl, rfl, hs⟩⟩

theorem keyword?_fixed {s : String} (h : keyword? s = some k) :
    k.isFixed = true ∧ k.spelling = s := by
  obtain ⟨front, back, hwords, -⟩ := List.lookup_eq_some_iff.1 h
  have hmem : (s, k) ∈ keywords := by simp [hwords]
  have hall : ∀ w ∈ keywords, w.2.isFixed = true ∧ w.2.spelling = w.1 := by decide
  exact hall _ hmem

theorem TokenPiece.regular (h : TokenPiece k lit cs rest) :
    Word.Regular ⟨k, String.ofList cs, lit⟩ := by
  cases h with
  | mark hk =>
    unfold mark? at hk
    split at hk <;> cases hk <;> exact .of_fixed rfl rfl
  | double hk =>
    unfold twoCharOperator? at hk
    split at hk <;> cases hk <;> exact .of_fixed rfl rfl
  | single hk =>
    unfold operator? at hk
    split at hk <;> cases hk <;> exact .of_fixed rfl rfl
  | @quoted text _ htext =>
    have hlexeme : String.ofList ('"' :: (text ++ ['"'])) = "\"" ++ String.ofList text ++ "\"" :=
      String.toList_inj.mp (by simp)
    rw [hlexeme]
    exact .quoted (by rwa [String.toList_ofList])
  | @numeral c whole frac _ hc hwhole hfrac =>
    have hall : (c :: whole).all Char.isDigit = true := by simp [hc, hwhole]
    exact .numeral ⟨c :: whole, frac, List.cons_ne_nil _ _, hall, hfrac, String.toList_ofList, rfl⟩
  | keyword _ _ _ hk =>
    obtain ⟨hfixed, hspelling⟩ := keyword?_fixed hk
    exact .of_fixed hfixed hspelling
  | name hc hcs _ hk => exact .name ⟨by simp [isWord, hc, hcs], hk⟩

/-! ## Scanning piece by piece -/

/-- The source from a place on is a sequence of pieces, of which the tokens are given. -/
inductive Scans : Pos → List Char → List Token → Prop where
  | done (p : Pos) : Scans p [] [⟨.eof, "", .none, p.line, p.column⟩]
  | gap {p : Pos} {c : Char} {cs rest : List Char} {ts : List Token} :
      scanPiece c (cs ++ rest) = .ok (.gap (cs.length + 1)) →
      Scans ((c :: cs).foldl Pos.next p) rest ts → Scans p (c :: cs ++ rest) ts
  | token {p : Pos} {c : Char} {cs rest : List Char} {k : TokenKind} {lit : TokenLiteral}
      {ts : List Token} :
      scanPiece c (cs ++ rest) = .ok (.token k lit (cs.length + 1)) →
      Scans ((c :: cs).foldl Pos.next p) rest ts →
      Scans p (c :: cs ++ rest) (⟨k, String.ofList (c :: cs), lit, p.line, p.column⟩ :: ts)

variable {p : Pos} {ts : List Token}

/-- What comes after the first characters of a piece is skipped. -/
theorem scanFrom_skip (cs rest : List Char) (n : Nat) (p : Pos) :
    scanFrom (cs.length + n) p (cs ++ rest) = scanFrom n (cs.foldl Pos.next p) rest := by
  induction cs generalizing p with
  | nil => simp
  | cons c cs ih =>
    rw [List.length_cons, Nat.add_right_comm, List.cons_append, scanFrom, ih]
    rfl

theorem scanFrom_gap (h : scanPiece c (cs ++ rest) = .ok (.gap (cs.length + 1))) :
    scanFrom 0 p (c :: cs ++ rest) = scanFrom 0 ((c :: cs).foldl Pos.next p) rest := by
  rw [List.cons_append, scanFrom, h]
  exact scanFrom_skip cs rest 0 (p.next c)

theorem scanFrom_token (h : scanPiece c (cs ++ rest) = .ok (.token k lit (cs.length + 1))) :
    scanFrom 0 p (c :: cs ++ rest) = (scanFrom 0 ((c :: cs).foldl Pos.next p) rest).map
      (⟨k, String.ofList (c :: cs), lit, p.line, p.column⟩ :: ·) := by
  have hlexeme : (c :: (cs ++ rest)).take (cs.length + 1) = c :: cs := by simp
  have hskip := scanFrom_skip cs rest 0 (p.next c)
  rw [Nat.add_zero] at hskip
  rw [List.cons_append, scanFrom, h]
  simp only [Nat.add_sub_cancel, hlexeme, hskip, List.foldl_cons]

theorem Scans.scanFrom_eq (h : Scans p cs ts) : scanFrom 0 p cs = .ok ts := by
  induction h with
  | done => rfl
  | gap hpiece _ ih => rw [scanFrom_gap hpiece, ih]
  | token hpiece _ ih =>
    rw [scanFrom_token hpiece, ih]
    rfl

/-- Scanning characters from a place on, the scanner comes behind the first of them, with the tokens
that it has found there, before the rest. -/
inductive ScansTo : Pos → List Char → List Char → List Token → List Char → Prop where
  | here (p : Pos) (cs : List Char) : ScansTo p cs [] [] cs
  | gap {p : Pos} {c : Char} {cs before rest tail : List Char} {us : List Token} :
      scanPiece c (cs ++ tail) = .ok (.gap (cs.length + 1)) →
      ScansTo ((c :: cs).foldl Pos.next p) tail before us rest →
      ScansTo p (c :: cs ++ tail) (c :: cs ++ before) us rest
  | token {p : Pos} {c : Char} {cs before rest tail : List Char} {us : List Token}
      {k : TokenKind} {lit : TokenLiteral} :
      scanPiece c (cs ++ tail) = .ok (.token k lit (cs.length + 1)) →
      ScansTo ((c :: cs).foldl Pos.next p) tail before us rest →
      ScansTo p (c :: cs ++ tail) (c :: cs ++ before)
        (⟨k, String.ofList (c :: cs), lit, p.line, p.column⟩ :: us) rest

variable {before : List Char} {us : List Token} {cause : LexCause}

/-- The scanner comes to the end, or to a character with which no piece starts. -/
theorem exists_scansTo (p : Pos) (cs : List Char) :
    ∃ before us rest, ScansTo p cs before us rest ∧
      ∀ c rest', rest = c :: rest' → ∃ cause : LexCause, cause.Arises c rest' := by
  induction hn : cs.length using Nat.strongRecOn generalizing cs p with
  | ind n ih =>
    cases cs with
    | nil => exact ⟨[], [], [], .here p [], nofun⟩
    | cons c cs =>
      obtain ⟨piece, body, tail, rfl, hspans⟩ | hcause := pieceStarts_or_arises c cs
      · have hless : tail.length < n := by
          simp only [List.length_cons, List.length_append] at hn
          omega
        obtain ⟨before, us, rest, hscans, hrest⟩ :=
          ih _ hless ((c :: body).foldl Pos.next p) tail rfl
        cases hspans with
        | gap hgap => exact ⟨_, us, rest, .gap hgap.scanPiece_eq hscans, hrest⟩
        | token htoken => exact ⟨_, _, rest, .token htoken.scanPiece_eq hscans, hrest⟩
      · refine ⟨[], [], c :: cs, .here p _, ?_⟩
        rintro _ _ ⟨⟩
        exact hcause

/-- At the end of the source, all of its tokens are found. -/
theorem ScansTo.scans (h : ScansTo p cs before us []) :
    Scans p cs (us ++ [⟨.eof, "", .none, (before.foldl Pos.next p).line,
      (before.foldl Pos.next p).column⟩]) := by
  generalize hnil : [] = rest at h
  induction h with
  | here p =>
    subst hnil
    exact .done p
  | gap hpiece _ ih =>
    rw [List.foldl_append]
    exact .gap hpiece (ih hnil)
  | token hpiece _ ih =>
    rw [List.foldl_append]
    exact .token hpiece (ih hnil)

/-- Where no piece starts, there is an error. -/
theorem ScansTo.scanFrom_error (h : ScansTo p cs before us (c :: rest))
    (hcause : cause.Arises c rest) :
    scanFrom 0 p cs = .error ⟨cause, before.foldl Pos.next p⟩ := by
  generalize hall : c :: rest = all at h
  induction h with
  | here p =>
    subst hall
    rw [scanFrom, hcause.scanPiece_eq]
    rfl
  | gap hpiece _ ih => rw [scanFrom_gap hpiece, ih hall, List.foldl_append]
  | token hpiece _ ih =>
    rw [scanFrom_token hpiece, ih hall, List.foldl_append]
    rfl

theorem scans_of_scanFrom (h : scanFrom 0 p cs = .ok ts) : Scans p cs ts := by
  obtain ⟨before, us, rest, hscans, hrest⟩ := exists_scansTo p cs
  cases rest with
  | nil =>
    rw [hscans.scans.scanFrom_eq] at h
    cases h
    exact hscans.scans
  | cons c rest =>
    obtain ⟨cause, hcause⟩ := hrest c rest rfl
    rw [hscans.scanFrom_error hcause] at h
    cases h

/-- Lines are counted from one on. -/
theorem line_foldl_next_pos (hp : 0 < p.line) (cs : List Char) :
    0 < (cs.foldl Pos.next p).line := by
  induction cs generalizing p with
  | nil => exact hp
  | cons c cs ih =>
    refine ih ?_
    unfold Pos.next
    split
    · exact Nat.succ_pos _
    · exact hp

theorem Scans.exists_regular (h : Scans p cs ts) (hp : 0 < p.line) :
    ∃ us z, ts = us ++ [z] ∧ z.word = ⟨.eof, "", .none⟩ ∧
      ∀ u ∈ us, u.word.Regular ∧ 0 < u.line := by
  induction h with
  | done p => exact ⟨[], _, rfl, rfl, by simp⟩
  | gap _ _ ih => exact ih (line_foldl_next_pos hp _)
  | token hpiece _ ih =>
    obtain ⟨us, z, rfl, hz, hus⟩ := ih (line_foldl_next_pos hp _)
    exact ⟨_ :: us, z, rfl, hz,
      List.forall_mem_cons.2 ⟨⟨(scanPiece_token hpiece).regular, hp⟩, hus⟩⟩

/-- The tokens of a source are regular words in lines, and the end. -/
theorem tokenize_regular {source : String} (h : tokenize source = .ok ts) :
    ∃ us z, ts = us ++ [z] ∧ z.word = ⟨.eof, "", .none⟩ ∧
      ∀ u ∈ us, u.word.Regular ∧ 0 < u.line :=
  (scans_of_scanFrom h).exists_regular (by decide)

/-- The end of the source is the last token and the only one of its kind. -/
theorem tokenize_ends {source : String} (h : tokenize source = .ok ts) :
    ∃ us t, ts = us ++ [t] ∧ t.kind = .eof ∧ ∀ u ∈ us, u.kind ≠ .eof := by
  obtain ⟨us, z, hts, hz, hus⟩ := tokenize_regular h
  exact ⟨us, z, hts, congrArg Word.kind hz, fun u hu => (hus u hu).1.kind_ne_eof⟩

end Hantec
