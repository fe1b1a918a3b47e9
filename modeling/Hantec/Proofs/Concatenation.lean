import Mathlib
import Hantec.Proofs.Grammar.Exactness
import Hantec.Proofs.Scan.Tiling

/-!
# Programs one after the other

A source that is followed by another one in the next line is the program of the first followed by
that of the second, moved down. Only a block comment that is still open would take the second in.
Whether one is open can be told from the characters alone, without the scanner.
-/

namespace Hantec

open Grammar

/-! ## Open comments -/

/-- What the characters read so far are inside of. A slash may start a comment, and a star in a
block comment may end it. -/
inductive Inside where
  | code | slash | text | line | block | star
  deriving DecidableEq

namespace Inside

def next : Inside → Char → Inside
  | .code, c => if c = '/' then .slash else if c = '"' then .text else .code
  | .slash, c =>
    if c = '/' then .line else if c = '*' then .block else if c = '"' then .text else .code
  | .text, c => if c = '"' then .code else .text
  | .line, c => if c = '\n' then .code else .line
  | .block, c => if c = '*' then .star else .block
  | .star, c => if c = '/' then .code else if c = '*' then .star else .block

def isBlock : Inside → Bool
  | .block | .star => true
  | _ => false

end Inside

def endsInComment (source : String) : Bool := (source.toList.foldl Inside.next .code).isBlock

variable {c : Char} {cs rest text : List Char} {k : TokenKind} {lit : TokenLiteral} {p : Pos}
  {ts : List Token}

/-- Characters that are neither slashes nor quotes stay in the code. -/
theorem foldl_next_code (h : ∀ c ∈ cs, c ≠ '/' ∧ c ≠ '"') :
    cs.foldl Inside.next .code = .code := by
  induction cs with
  | nil => rfl
  | cons c cs ih =>
    obtain ⟨hslash, hquote⟩ := h c (by simp)
    simpa [Inside.next, hslash, hquote] using ih fun d hd => h d (by simp [hd])

theorem foldl_next_text (h : '"' ∉ cs) : cs.foldl Inside.next .text = .text := by
  induction cs with
  | nil => rfl
  | cons c cs ih =>
    obtain ⟨hc, hcs⟩ := List.ne_and_not_mem_of_not_mem_cons h
    simpa [Inside.next, Ne.symm hc] using ih hcs

theorem foldl_next_line (h : '\n' ∉ cs) : cs.foldl Inside.next .line = .line := by
  induction cs with
  | nil => rfl
  | cons c cs ih =>
    obtain ⟨hc, hcs⟩ := List.ne_and_not_mem_of_not_mem_cons h
    simpa [Inside.next, Ne.symm hc] using ih hcs

/-- Without its end, a block comment goes on. After a star, the next character must not end it. -/
theorem foldl_next_block (h : ¬HasCommentEnd cs) :
    (cs.foldl Inside.next .block).isBlock = true ∧
    (cs.head? ≠ some '/' → (cs.foldl Inside.next .star).isBlock = true) := by
  induction cs with
  | nil => exact ⟨rfl, fun _ => rfl⟩
  | cons c cs ih =>
    rw [hasCommentEnd_cons, not_or] at h
    obtain ⟨hblock, hstar⟩ := ih h.2
    by_cases hc : c = '*'
    · have hhead : cs.head? ≠ some '/' := fun hhead => h.1 ⟨hc, hhead⟩
      simp [Inside.next, hc, hstar hhead]
    · refine ⟨by simpa [Inside.next, hc] using hblock, fun hhead => ?_⟩
      have hslash : c ≠ '/' := by simpa using hhead
      simpa [Inside.next, hc, hslash] using hblock

/-- With its end, a block comment is left. -/
theorem foldl_next_closed (h : ¬HasCommentEnd (text ++ ['*'])) :
    (text ++ ['*', '/']).foldl Inside.next .block = .code := by
  have htext : ¬HasCommentEnd text := fun hend => h (hend.trans (List.prefix_append _ _).isInfix)
  have hblock := (foldl_next_block htext).1
  rw [List.foldl_append]
  cases hmode : text.foldl Inside.next .block with
  | block | star => rfl
  | code | slash | text | line => simp [hmode, Inside.isBlock] at hblock

theorem isIdentPart_of_mem_word {s : String} (h : isWord s = true) (hc : c ∈ s.toList) :
    isIdentPart c = true := by
  unfold isWord at h
  split at h
  case h_1 => cases h
  case h_2 d ds hs =>
    rw [Bool.and_eq_true, List.all_eq_true] at h
    rw [hs] at hc
    rcases List.mem_cons.mp hc with rfl | hc
    · exact isIdentPart_of_isIdentStart h.1
    · exact h.2 c hc

/-- A word leaves the code only if it is a slash. -/
theorem Word.Regular.foldl_next {w : Word} (h : w.Regular) :
    w.lexeme.toList = ['/'] ∨ w.lexeme.toList.foldl Inside.next .code = .code := by
  cases h with
  | @fixed k hk =>
    cases k
    case identifier | number | string | eof => cases hk
    case slash => exact .inl rfl
    all_goals exact .inr rfl
  | @name s hs =>
    refine .inr (foldl_next_code fun c hc => ?_)
    have hpart := isIdentPart_of_mem_word hs.1 hc
    exact ⟨ne_of_apply_ne isIdentPart (by simp [hpart]; decide),
      ne_of_apply_ne isIdentPart (by simp [hpart]; decide)⟩
  | @numeral s x hx =>
    obtain ⟨whole, frac, -, hwhole, hfrac, hs, -⟩ := hx
    refine .inr (foldl_next_code fun c hc => ?_)
    have hdigit : c.isDigit = true ∨ c = '.' := by
      have hmem : c ∈ whole ++ if frac = [] then [] else '.' :: frac := hs ▸ hc
      rw [List.all_eq_true] at hwhole hfrac
      rcases List.mem_append.mp hmem with hmem | hmem
      · exact .inl (hwhole c hmem)
      · split at hmem
        · cases hmem
        · exact (List.mem_cons.mp hmem).symm.imp_left (hfrac c)
    obtain hdigit | rfl := hdigit
    · exact ⟨ne_of_apply_ne Char.isDigit (by simp [hdigit]),
        ne_of_apply_ne Char.isDigit (by simp [hdigit])⟩
    · decide
  | @quoted s hs =>
    right
    have hlexeme : (Word.quoted s).lexeme.toList = '"' :: (s.toList ++ ['"']) := by
      simp [Word.quoted]
    rw [hlexeme, List.foldl_cons, List.foldl_append]
    show ['"'].foldl Inside.next (s.toList.foldl Inside.next .text) = .code
    rw [foldl_next_text hs]
    rfl

/-- Behind a token, the code goes on. -/
theorem isBlock_token (h : TokenPiece k lit cs rest) :
    ((cs ++ rest).foldl Inside.next .code).isBlock = (rest.foldl Inside.next .code).isBlock := by
  have hword := h.regular.foldl_next
  rw [String.toList_ofList] at hword
  rw [List.foldl_append]
  obtain rfl | hcode := hword
  · cases rest with
    | nil => rfl
    | cons d rest =>
      -- Otherwise the slash would not be a token.
      have hnone : d ≠ '/' ∧ d ≠ '*' := by
        constructor <;> rintro rfl <;> cases h.scanPiece_eq
      simp [Inside.next, hnone]
  · rw [hcode]

/-- Behind a gap, the code goes on, unless the gap is an open comment. -/
theorem isBlock_gap (h : GapPiece cs rest)
    (hopen : (rest.foldl Inside.next .code).isBlock = true) :
    ((cs ++ rest).foldl Inside.next .code).isBlock = true := by
  rw [List.foldl_append]
  cases h with
  | @blank c _ hc =>
    have hcode : [c].foldl Inside.next .code = .code :=
      foldl_next_code fun d hd => by
        obtain rfl := List.mem_singleton.mp hd
        exact ⟨ne_of_apply_ne isGap (by simp [hc]; decide),
          ne_of_apply_ne isGap (by simp [hc]; decide)⟩
    rwa [hcode]
  | @line text _ htext hnext =>
    cases rest with
    | nil => cases hopen
    | cons d rest =>
      obtain rfl : d = '\n' := hnext d rfl
      have hline : ('/' :: '/' :: text).foldl Inside.next .code = .line := foldl_next_line htext
      rw [hline]
      exact hopen
  | @block text _ htext =>
    have hcode : ('/' :: '*' :: (text ++ ['*', '/'])).foldl Inside.next .code = .code :=
      foldl_next_closed htext
    rwa [hcode]
  | openBlock => cases hopen

/-! ## Tokens one after the other -/

theorem startsFraction_append_line {more : List Char} (h : StartsFraction (rest ++ '\n' :: more)) :
    StartsFraction rest := by
  obtain ⟨d, ds, heq, hd⟩ := h
  rcases rest with _ | ⟨e, _ | ⟨e', rest⟩⟩
  · cases heq
  · cases heq
    cases hd
  · cases heq
    exact ⟨d, rest, rfl, hd⟩

/-- The tokens of a source come first if the source goes on in the next line. Then what follows is
scanned on its own, but for its part in a comment that is still open. -/
theorem Scans.append_line (h : Scans p cs ts) :
    ∃ us z, ts = us ++ [z] ∧ ∃ isOpen : Bool,
      (isOpen = true → (cs.foldl Inside.next .code).isBlock = true) ∧
      ∀ more, scanFrom 0 p (cs ++ '\n' :: more) =
        (scanFrom (if isOpen then commentLength more else 0) ((cs ++ ['\n']).foldl Pos.next p)
          more).map (us ++ ·) := by
  have hplace (p : Pos) (front back : List Char) : (front ++ back ++ ['\n']).foldl Pos.next p =
      (back ++ ['\n']).foldl Pos.next (front.foldl Pos.next p) := by
    rw [List.append_assoc, List.foldl_append]
  have hhead (rest more : List Char) :
      ∀ d ∈ (rest ++ '\n' :: more).head?, d = '\n' ∨ d ∈ rest.head? := by
    cases rest <;> simp
  have hnil (r : Except LexError (List Token)) : r.map ([] ++ ·) = r := by cases r <;> rfl
  induction h with
  | done p =>
    refine ⟨[], _, rfl, false, nofun, fun more => ?_⟩
    rw [hnil]
    rfl
  | @gap p c cs rest ts hpiece hscans ih =>
    have hgap := scanPiece_gap hpiece
    obtain hsame | ⟨rfl, text, hcs, htext⟩ := hgap.congr
    · obtain ⟨us, z, hts, isOpen, hblock, hmore⟩ := ih
      refine ⟨us, z, hts, isOpen, fun h => isBlock_gap hgap (hblock h), fun more => ?_⟩
      rw [List.append_assoc, scanFrom_gap (hsame _ (hhead rest more)).scanPiece_eq, hmore, hplace]
    · cases hscans
      obtain ⟨rfl, rfl⟩ := List.cons.inj hcs
      refine ⟨[], _, rfl, true, fun _ => ?_, fun more => ?_⟩
      · rw [List.append_nil]
        exact (foldl_next_block htext).1
      · have hlength : 2 + commentLength (text ++ '\n' :: more) - 1 =
            ('*' :: text ++ ['\n']).length + commentLength more := by
          rw [commentLength_append htext (by simp)]
          simp [commentLength]
          omega
        have hskip := scanFrom_skip ('*' :: text ++ ['\n']) more (commentLength more) (p.next '/')
        rw [← hlength, List.append_assoc] at hskip
        rw [hnil, List.append_nil]
        exact hskip
  | @token p c cs rest k lit ts hpiece _ ih =>
    have htoken := scanPiece_token hpiece
    obtain ⟨us, z, rfl, isOpen, hblock, hmore⟩ := ih
    refine ⟨_ :: us, z, rfl, isOpen, fun h => isBlock_token htoken ▸ hblock h, fun more => ?_⟩
    have hnext : TokenPiece k lit (c :: cs) (rest ++ '\n' :: more) :=
      htoken.congr (hhead rest more) startsFraction_append_line
    rw [List.append_assoc, scanFrom_token hnext.scanPiece_eq, hmore, hplace]
    cases scanFrom _ _ more <;> rfl

/-! ## Lines further down -/

def Pos.down (k : Nat) (p : Pos) : Pos := ⟨p.line + k, p.column⟩

def Token.down (k : Nat) (t : Token) : Token := { t with line := t.line + k }

theorem foldl_next_down (k : Nat) (p : Pos) (cs : List Char) :
    cs.foldl Pos.next (p.down k) = (cs.foldl Pos.next p).down k := by
  induction cs generalizing p with
  | nil => rfl
  | cons c cs ih =>
    have hnext : (p.down k).next c = (p.next c).down k := by
      unfold Pos.next Pos.down
      split
      · simp only [Nat.add_right_comm]
      · rfl
    rw [List.foldl_cons, hnext, ih, List.foldl_cons]

/-- From a place further down, the same tokens are found further down. -/
theorem Scans.down (h : Scans p cs ts) (k : Nat) :
    Scans (p.down k) cs (ts.map (Token.down k)) := by
  induction h with
  | done p => exact .done (p.down k)
  | gap hpiece _ ih => exact .gap hpiece (foldl_next_down k _ _ ▸ ih)
  | token hpiece _ ih => exact .token hpiece (foldl_next_down k _ _ ▸ ih)

theorem relines_down (k : Nat) : Relines (Token.down k) (· + k) := ⟨fun _ => rfl, fun _ => rfl⟩

theorem EndsOnce.down (h : EndsOnce ts) (k : Nat) : EndsOnce (ts.map (Token.down k)) := by
  obtain ⟨us, z, rfl, hz, hus⟩ := h
  refine ⟨us.map (Token.down k), z.down k, by simp, hz, fun u hu => ?_⟩
  obtain ⟨v, hv, rfl⟩ := List.mem_map.mp hu
  exact hus v hv

theorem program_down {b : String} {q : List Stmt} (hts : tokenize b = .ok ts) (h : Program ts q)
    (k : Nat) : Program (ts.map (Token.down k)) (relinedBody (· + k) q) := by
  have hends := EndsOnce.down (tokenize_ends hts) k
  obtain ⟨us, z, rfl, hz, hus⟩ := tokenize_ends hts
  obtain ⟨p, hp, hdown⟩ | ⟨e, -, he, -⟩ := parseTokens_relined (relines_down k) hz hus
  · cases hp.symm.trans (parseTokens_complete h)
    exact program_of_parseTokens hdown hends
  · cases he.symm.trans (parseTokens_complete h)

/-! ## Programs one after the other -/

theorem Grammar.Phrase.append_declarations {us vs : List Token} {p q : List Stmt}
    (hp : Phrase .declarations us p) (hq : Phrase .declarations vs q) :
    Phrase .declarations (us ++ vs) (p ++ q) := by
  induction p generalizing us with
  | nil =>
    cases hp
    exact hq
  | cons s p ih =>
    cases hp with
    | nextDeclaration hs hp =>
      rw [List.append_assoc]
      exact .nextDeclaration hs (ih hp)

/-- The tokens of two sources, one after the other. -/
theorem tokenize_append {a b : String} {us vs : List Token} {z : Token}
    (ha : tokenize a = .ok (us ++ [z])) (hb : tokenize b = .ok vs)
    (hclosed : endsInComment a = false) :
    tokenize (a ++ "\n" ++ b) = .ok (us ++ vs.map (Token.down (1 + a.toList.count '\n'))) := by
  obtain ⟨us', z', heq, isOpen, hopen, hmore⟩ := (scans_of_scanFrom ha).append_line
  obtain ⟨rfl, -⟩ := List.append_inj' heq rfl
  obtain rfl : isOpen = false := by
    refine Bool.eq_false_iff.2 fun h => ?_
    cases (hopen h).symm.trans hclosed
  have hchars : (a ++ "\n" ++ b).toList = a.toList ++ '\n' :: b.toList := by simp
  have hplace : (a.toList ++ ['\n']).foldl Pos.next .start =
      Pos.start.down (1 + a.toList.count '\n') := by
    rw [foldl_next_start]
    simp [Pos.down, Pos.start, Nat.add_comm]
  have hnext := ((scans_of_scanFrom hb).down (1 + a.toList.count '\n')).scanFrom_eq
  rw [tokenize, hchars, hmore, hplace, if_neg Bool.false_ne_true, hnext]
  rfl

/-- A program and another one in the next line are the two programs one after the other, the second
with its lines further down, unless the first ends inside a comment. -/
theorem parseProgram_append {a b : String} {p q : List Stmt} (ha : parseProgram a = .ok p)
    (hb : parseProgram b = .ok q) (hclosed : endsInComment a = false) :
    parseProgram (a ++ "\n" ++ b) =
      .ok (p ++ relinedBody (· + ((1 + a.toList.count '\n' : Nat) : Int)) q) := by
  obtain ⟨ts, hts, us, z, rfl, -, hp⟩ := program_of_parseProgram ha
  obtain ⟨vs, hvs, hq⟩ := program_of_parseProgram hb
  obtain ⟨ws, z', hws, hz', hq'⟩ :=
    program_down hvs hq (1 + a.toList.count '\n')
  have htokens := tokenize_append hts hvs hclosed
  have hprogram : Program (us ++ vs.map (Token.down (1 + a.toList.count '\n')))
      (p ++ relinedBody (· + ((1 + a.toList.count '\n' : Nat) : Int)) q) :=
    ⟨us ++ ws, z', by rw [hws, List.append_assoc], hz', hp.append_declarations hq'⟩
  simp only [parseProgram, htokens, parseTokens_complete hprogram]

-- The first source ends in a comment up to the end of the line, after a condition without a second
-- branch, and the second starts where an expression could go on.
set_option maxRecDepth 10000 in
theorem parseProgram_append_line_comment :
    endsInComment "esli (a)\n b piča // /*" = false ∧
      parseProgram ("esli (a)\n b piča // /*" ++ "\n" ++ "-c piča") =
        .ok [.mk 1 (.cond (.variable "a") (.mk 2 (.expr (.variable "b"))) none),
          .mk 3 (.expr (.unary .neg (.variable "c")))] := by
  have hclosed : endsInComment "esli (a)\n b piča // /*" = false := by rfl
  have ha : parseProgram "esli (a)\n b piča // /*" =
      .ok [.mk 1 (.cond (.variable "a") (.mk 2 (.expr (.variable "b"))) none)] := by
    cbv
  have hb : parseProgram "-c piča" = .ok [.mk 1 (.expr (.unary .neg (.variable "c")))] := by cbv
  exact ⟨hclosed, parseProgram_append ha hb hclosed⟩

end Hantec
