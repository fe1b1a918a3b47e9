import Hantec.Proofs.Grammar.Reading

/-!
# What is in the grammar is parsed

A phrase is read off the front of any tokens, as long as the token after it does not extend it. The
statements leave the bound open: they say what a routine comes to from some bound on, and that the
parser starts with enough is known from what it reads.

The levels with left-associative operators and the suffixes are loops in the parser, while the
grammar has recursion on the left. So the statement about such a phrase says that the loop arrives
at its tree, whatever the loop does then.
-/

namespace Hantec.Grammar

open List (append_assoc cons_append nil_append)
open Hantec.Parser (moves_advance moves_take)

variable {k : TokenKind} {l : Nat} {op : BinaryOp}

/-! ## Tokens that extend a phrase -/

/-- Whether a token can go on with a primary expression. -/
def extendsPostfixed : TokenKind → Bool
  | .leftParen | .dot | .plusPlus | .minusMinus => true
  | _ => false

/-- The level that an operator belongs to. -/
def opLevel? (k : TokenKind) : Option Nat := leftLevels.findIdx? fun row => row.any (·.1 == k)

/-- Whether a token can go on with an operand of a level. -/
def extendsLevel (l : Nat) (k : TokenKind) : Bool :=
  extendsPostfixed k || k == .starStar || (opLevel? k).any (l ≤ ·)

def extendsExpr (k : TokenKind) : Bool := extendsLevel 0 k || (assignOp? k).isSome

theorem opLevel?_of_binaryOp? (h : binaryOp? l k = some op) : opLevel? k = some l := by
  unfold binaryOp? at h
  split at h <;> cases h <;> rfl

theorem binaryOp?_eq_none (h : extendsLevel l k = false) :
    binaryOp? l k = none := by
  cases ho : binaryOp? l k with
  | none => rfl
  | some op => simp [extendsLevel, opLevel?_of_binaryOp? ho] at h

theorem extendsLevel_succ (h : extendsLevel l k = false) :
    extendsLevel (l + 1) k = false := by
  simp only [extendsLevel, Bool.or_eq_false_iff] at h ⊢
  refine ⟨h.1, ?_⟩
  cases hk : opLevel? k with
  | none => rfl
  | some m =>
    have := h.2
    simp only [hk, Option.any_some, decide_eq_false_iff_not] at this ⊢
    omega

/-- An operator ends the operands of the next level. -/
theorem extendsLevel_of_binaryOp? (h : binaryOp? l k = some op) :
    extendsLevel (l + 1) k = false := by
  unfold binaryOp? at h
  split at h <;> cases h <;> rfl

theorem extendsLevel_of_assignOp? {op : Option BinaryOp}
    (h : assignOp? k = some op) : extendsLevel 0 k = false := by
  unfold assignOp? at h
  split at h <;> cases h <;> rfl

/-! ## Bounds that are large enough -/

/-- From some bound on, the routine takes the tokens off the front of what is left, for `a`. -/
def Takes {α : Type} (p : Nat → Parser α) (ts rest : List Token) (a : α) : Prop :=
  ∃ m, ∀ n, m ≤ n → ∀ c : Cursor, c.rest = ts ++ rest → p n c = .ok (a, c.skip ts.length)

namespace Takes

variable {α β : Type} {p q : Nat → Parser α} {f : Nat → α → Parser β} {ts us vs rest : List Token}
  {t : Token} {a a' : α} {b : β}

theorem pure : Takes (fun _ => Pure.pure a) [] rest a := ⟨0, fun _ _ _ _ => rfl⟩

theorem succ (h : Takes (fun n => p (n + 1)) ts rest a) : Takes p ts rest a := by
  obtain ⟨m, h⟩ := h
  refine ⟨m + 1, fun n hn => ?_⟩
  obtain ⟨k, rfl⟩ := Nat.exists_eq_add_of_le' hn
  exact h (k + m) (Nat.le_add_left m k)

theorem unique (h : Takes p ts rest a) (h' : Takes p us vs a') (heq : ts ++ rest = us ++ vs) :
    ts = us ∧ a = a' := by
  obtain ⟨m, h⟩ := h
  obtain ⟨n, h'⟩ := h'
  have hr := h (max m n) (Nat.le_max_left m n) ⟨(ts ++ rest).toArray, 0⟩ rfl
  rw [h' (max m n) (Nat.le_max_right m n) ⟨(ts ++ rest).toArray, 0⟩ heq] at hr
  simp only [Except.ok.injEq, Prod.mk.injEq, Cursor.skip, Cursor.mk.injEq, true_and] at hr
  exact ⟨(List.append_inj heq (by omega)).1, hr.1.symm⟩

theorem bind (hp : Takes p ts (us ++ rest) a) (hf : Takes (f · a) us rest b) :
    Takes (fun n => p n >>= f n) (ts ++ us) rest b := by
  obtain ⟨m, hp⟩ := hp
  obtain ⟨k, hf⟩ := hf
  refine ⟨max m k, fun n hn c hc => ?_⟩
  rw [append_assoc] at hc
  refine (Parser.bind_of_ok (hp n (by omega) c hc)).trans ?_
  simpa using hf n (by omega) (c.skip ts.length) (by simp [hc])

theorem bind_nil (hp : Takes p ts rest a) (hf : Takes (f · a) [] rest b) :
    Takes (fun n => p n >>= f n) ts rest b := by
  rw [← List.append_nil ts]
  exact hp.bind hf

theorem map {g : α → β} (hp : Takes p ts rest a) :
    Takes (fun n => p n >>= fun a => Pure.pure (g a)) ts rest (g a) :=
  hp.bind_nil pure

/-! The next token is the first one of the tokens or of what is left. -/

theorem peek {f : Nat → Token → Parser β} (hnext : ts ++ rest = t :: vs)
    (hf : Takes (f · t) ts rest b) : Takes (fun n => Parser.peek >>= f n) ts rest b := by
  obtain ⟨m, hf⟩ := hf
  refine ⟨m, fun n hn c hc => ?_⟩
  exact (Parser.bind_of_ok (Parser.peek_eq (hc.trans hnext))).trans (hf n hn c hc)

theorem step {r : Parser Token} {f : Nat → Token → Parser β} (hr : r.Moves) (ht : t.kind ≠ .eof)
    (hf : Takes (f · t) us rest b) : Takes (fun n => r >>= f n) (t :: us) rest b := by
  obtain ⟨m, hf⟩ := hf
  refine ⟨m, fun n hn c hc => ?_⟩
  refine (Parser.bind_of_ok (hr c t _ hc ht)).trans ?_
  simpa [Nat.add_comm] using hf n hn (c.skip 1) (by simp [hc])

theorem expect {what : String} {f : Nat → Token → Parser β} (hk : fills k = true) (ht : t.kind = k)
    (hf : Takes (f · t) us rest b) :
    Takes (fun n => Parser.expect k what >>= f n) (t :: us) rest b := by
  simp only [Parser.expect_bind]
  refine .peek rfl ?_
  simp only [ht, if_true]
  exact .step moves_advance (ht ▸ ne_eof_of_fills hk) hf

theorem accept (hk : fills k = true) (ht : t.kind = k) (hp : Takes p us rest a) :
    Takes (fun n => Parser.accept k >>= fun b => if b = true then p n else q n) (t :: us) rest
      a := by
  simp only [Parser.accept_bind]
  refine .peek rfl ?_
  simp only [ht, if_true]
  exact .step moves_advance (ht ▸ ne_eof_of_fills hk) hp

theorem refuse (hnext : ts ++ rest = t :: vs) (ht : t.kind ≠ k) (hq : Takes q ts rest a) :
    Takes (fun n => Parser.accept k >>= fun b => if b = true then p n else q n) ts rest a := by
  simp only [Parser.accept_bind]
  refine .peek hnext ?_
  simpa only [ht, if_false] using hq

theorem accept? {φ : TokenKind → Option α} {f : Nat → Option (Token × α) → Parser β}
    (hend : φ .eof = none) (hφ : φ t.kind = some a) (hf : Takes (f · (some (t, a))) us rest b) :
    Takes (fun n => Parser.accept? φ >>= f n) (t :: us) rest b := by
  simp only [Parser.accept?_bind]
  refine .peek rfl ?_
  simp only [hφ]
  refine .step moves_take (fun hk => ?_) hf
  simp [hk, hend] at hφ

theorem refuse? {φ : TokenKind → Option α} {f : Nat → Option (Token × α) → Parser β}
    (hnext : ts ++ rest = t :: vs) (hφ : φ t.kind = none) (hf : Takes (f · none) ts rest b) :
    Takes (fun n => Parser.accept? φ >>= f n) ts rest b := by
  simp only [Parser.accept?_bind]
  refine .peek hnext ?_
  simpa only [hφ] using hf

end Takes

/-! ## What it means that a phrase is parsed -/

/-- The routine for a level arrives at the tree. -/
def LevelParsed (l : Nat) (ts : List Token) (e : Expr) : Prop :=
  ∀ us rest r vs e', us ++ rest = r :: vs → extendsLevel (l + 1) r.kind = false →
    Takes (parseOperands · l e) us rest e' → Takes (parseLevel · l) (ts ++ us) rest e'

/-- The loop for suffixes arrives at the tree. -/
def PostfixedParsed (ts : List Token) (e : Expr) : Prop :=
  ∀ us rest e', Takes (parseSuffixes · e) us rest e' →
    Takes (fun n => parsePrimary n >>= parseSuffixes n) (ts ++ us) rest e'

/-- Whether a statement is complete before a token: no part that handles errors follows, and a
second branch only if the statement cannot take it. -/
def EndsBefore (s : Stmt) (k : TokenKind) : Prop :=
  k ≠ .chyt ∧ k ≠ .potom ∧ (k = .inak → s.endsOpen = false)

/-- The parser reads the phrase off the front of any tokens that do not extend it. -/
def Parsed : (x : Symbol) → List Token → x.Tree → Prop
  | .expr, ts, e => ∀ r rest, extendsExpr r.kind = false → Takes parseExpr ts (r :: rest) e
  | .level l, ts, e => LevelParsed l ts e
  | .power, ts, e => ∀ r rest, extendsPostfixed r.kind = false → r.kind ≠ .starStar →
    Takes parsePower ts (r :: rest) e
  | .unary, ts, e => ∀ r rest, extendsPostfixed r.kind = false → Takes parseUnary ts (r :: rest) e
  | .postfixed, ts, e => PostfixedParsed ts e
  | .primary, ts, e => ∀ rest, Takes parsePrimary ts rest e
  | .items, ts, es => ∀ k what c rest, c.kind = k → k = .rightParen ∨ k = .rightBracket →
    Takes (parseItems · k what) (ts ++ [c]) rest es
  | .someItems, ts, es => ∀ k what c rest, c.kind = k → k = .rightParen ∨ k = .rightBracket →
    Takes (parseMoreItems · k what) (ts ++ [c]) rest es
  | .names, ts, names => ∀ r rest, r.kind ≠ .comma → Takes parseNames ts (r :: rest) names
  | .params, ts, names => ∀ rest, Takes parseParams ts rest names
  | .condition, ts, e => ∃ o us c, ts = o :: (us ++ [c]) ∧ o.kind = .leftParen ∧
    c.kind = .rightParen ∧ ∀ rest, Takes parseExpr us (c :: rest) e
  | .optional, ts, e => ∀ k r rest, r.kind = k → k = .pica ∨ k = .rightParen →
    Takes (parseUnless · k) ts (r :: rest) e
  | .declarations, ts, ss =>
    (∀ c rest, c.kind = .rightBrace → Takes parseBody (ts ++ [c]) rest ss) ∧
    ∀ r rest, r.kind = .eof → Takes parseDeclarations ts (r :: rest) ss
  | .braced, ts, ss => ∃ o us, ts = o :: us ∧ o.kind = .leftBrace ∧
    ∀ rest, Takes parseBody us rest ss
  | .declaration, ts, s => ∀ r rest, EndsBefore s r.kind →
    Takes parseDeclaration ts (r :: rest) s
  | .letDecl, ts, s => ∃ t us, ts = t :: us ∧ t.kind = .nech ∧
    ∀ rest, Takes (parseLet · t.line) us rest s
  | .init, ts, s => ∀ rest, Takes parseInit ts rest s
  | .handler, ts, h => ∀ r rest, r.kind ≠ .chyt → Takes parseHandler ts (r :: rest) h
  | .finalizer, ts, f => ∀ r rest, r.kind ≠ .potom → Takes parseFinalizer ts (r :: rest) f
  | .statement, ts, s => ∀ r rest, EndsBefore s r.kind → Takes parseStatement ts (r :: rest) s

/-! ## Expressions -/

section Expressions

variable {ts us : List Token} {t : Token} {e a b : Expr}

/-- The loop for a level stops where no operator of it follows. -/
theorem LevelParsed.yields (h : LevelParsed l ts e) {r : Token} (rest : List Token)
    (hr : extendsLevel l r.kind = false) : Takes (parseLevel · l) ts (r :: rest) e := by
  have hloop : Takes (parseOperands · l e) [] (r :: rest) e := by
    refine .succ ?_
    simp only [parseOperands]
    exact .refuse? rfl (binaryOp?_eq_none hr) .pure
  simpa using h [] (r :: rest) r rest e rfl (extendsLevel_succ hr) hloop

theorem parsed_loosest (h : LevelParsed 0 ts e) : Parsed .expr ts e := by
  intro r rest hr
  simp only [extendsExpr, Bool.or_eq_false_iff, Option.isSome_eq_false_iff,
    Option.isNone_iff_eq_none] at hr
  refine .succ ?_
  simp only [parseExpr]
  exact (h.yields rest hr.1).bind_nil (.refuse? rfl hr.2 .pure)

theorem parsed_assign {name : String} {op : Option BinaryOp} (h : LevelParsed 0 ts (.variable name))
    (ht : (t.kind, op) ∈ assignments) (he : Parsed .expr us e) :
    Parsed .expr (ts ++ t :: us) (Expr.assign name (assigned name op e)) := by
  intro r rest hr
  have ho := mem_assignments_iff.1 ht
  refine .succ ?_
  simp only [parseExpr]
  refine (h.yields _ (extendsLevel_of_assignOp? ho)).bind (.accept? rfl ho ?_)
  exact (he r rest hr).map

theorem parsed_tighter (hl : l < levelCount) (h : LevelParsed (l + 1) ts e) :
    LevelParsed l ts e := by
  intro us rest r vs e' hnext hr hloop
  refine .succ ?_
  simp only [parseLevel, if_pos hl]
  exact .bind (hnext ▸ h.yields vs hr) hloop

theorem parsed_binary (ha : LevelParsed l ts a)
    (ht : LevelOp l t.kind op) (hb : LevelParsed (l + 1) us b) :
    LevelParsed l (ts ++ t :: us) (.binary op a b) := by
  intro vs rest r xs e' hnext hr hloop
  have ho := levelOp_iff.1 ht
  rw [append_assoc, cons_append]
  refine ha _ rest t (us ++ vs ++ rest) e' rfl (extendsLevel_of_binaryOp? ho) (.succ ?_)
  simp only [parseOperands]
  exact .accept? binaryOp?_eof ho (.bind (hnext ▸ hb.yields xs hr) hloop)

theorem parsed_tightest (h : Parsed .power ts e) : LevelParsed levelCount ts e := by
  intro us rest r vs e' hnext hr hloop
  simp only [extendsLevel, Bool.or_eq_false_iff, beq_eq_false_iff_ne] at hr
  -- No operator belongs to this level, so the loop is at its end.
  have hstop : Takes (parseOperands · levelCount e) [] (r :: vs) e := by
    refine .succ ?_
    simp only [parseOperands]
    exact .refuse? rfl rfl .pure
  obtain ⟨rfl, rfl⟩ := hloop.unique hstop hnext
  obtain rfl : rest = r :: vs := hnext
  refine .succ ?_
  simp only [parseLevel, if_neg (Nat.lt_irrefl levelCount), List.append_nil]
  exact h r vs hr.1.1 hr.1.2

/-- A token that starts a primary expression is no unary operator. -/
theorem unaryOp?_eq_none (h : Symbol.postfixed.starts k = true) :
    unaryOp? k = none := by
  unfold unaryOp?
  split
  · cases h
  · cases h
  · rfl

/-- The loop for suffixes stops where none follows. -/
theorem parseSuffixes_stop {r : Token} (rest : List Token) (h : extendsPostfixed r.kind = false) :
    Takes (parseSuffixes · e) [] (r :: rest) e := by
  have hne : ∀ k, extendsPostfixed k = true → r.kind ≠ k := by
    rintro k hk rfl
    simp [hk] at h
  have hs : stepOp? r.kind = none := by
    unfold stepOp?
    split
    case h_1 hk => exact absurd hk (hne _ rfl)
    case h_2 hk => exact absurd hk (hne _ rfl)
    case h_3 => rfl
  refine .succ ?_
  simp only [parseSuffixes]
  exact .refuse rfl (hne _ rfl) (.refuse rfl (hne _ rfl) (.refuse? rfl hs .pure))

theorem parsed_operand (hp : Phrase .postfixed ts e) (h : PostfixedParsed ts e) :
    Parsed .unary ts e := by
  intro r rest hr
  obtain ⟨t, vs, rfl, ht⟩ := hp.exists_first rfl
  refine .succ ?_
  simp only [parseUnary]
  refine .refuse? rfl (unaryOp?_eq_none ht) ?_
  simpa using h [] _ e (parseSuffixes_stop rest hr)

/-! ## Lists -/

/-- No expression starts with a token that closes a list or ends a clause. -/
theorem kind_ne_of_startsExpr {k j : TokenKind} (hk : startsExpr k = true)
    (hj : startsExpr j = false) : k ≠ j := by
  rintro rfl
  simp [hk] at hj

theorem parsed_params {o c : Token} {names : List String} (hp : Phrase .names ts names)
    (ho : o.kind = .leftParen) (h : Parsed .names ts names) (hc : c.kind = .rightParen) :
    Parsed .params (o :: (ts ++ [c])) names := by
  intro rest
  obtain ⟨t, us, rfl, ht⟩ := hp.exists_first rfl
  have hk : t.kind = .identifier := by simpa [Symbol.starts] using ht
  unfold parseParams
  refine .expect rfl ho (.refuse rfl (by simp [hk]) ?_)
  exact .bind (h c rest (by simp [hc])) (.expect rfl hc .pure)

end Expressions

/-! ## Declarations -/

section Statements

-- Makes the equations of the largest routine once, for all the lemmas that follow.
attribute [local grind =] parseStatement

variable {ts us vs ws : List Token} {t o c p : Token} {e : Expr} {s : Stmt} {ss body : List Stmt}

/-- A declaration ends before the declarations that follow it and before what closes them. -/
theorem endsBefore_next (hp : Phrase .declarations us ss)
    (hk : c.kind = .rightBrace ∨ c.kind = .eof) (rest : List Token) :
    ∃ r vs, us ++ c :: rest = r :: vs ∧ EndsBefore s r.kind := by
  obtain ⟨-, rfl⟩ | ⟨t, vs, rfl, ht⟩ := hp.startsAs
  · refine ⟨c, rest, rfl, ?_⟩
    rcases hk with hk | hk <;> rw [hk] <;> exact ⟨by decide, by decide, by simp⟩
  · refine ⟨t, vs ++ c :: rest, rfl, ?_, ?_, ?_⟩ <;> intro hk <;> rw [hk] at ht <;> cases ht

theorem parsed_nextDeclaration (hd : Phrase .declaration ts s) (hp : Phrase .declarations us ss)
    (h : Parsed .declaration ts s) (hs : Parsed .declarations us ss) :
    Parsed .declarations (ts ++ us) (s :: ss) := by
  obtain ⟨t, vs, rfl, ht⟩ := hd.exists_first rfl
  have hb : t.kind ≠ .rightBrace := by
    rintro hk
    simp [hk, Symbol.starts, startsStatement, startsExpr] at ht
  have he : t.kind ≠ .eof := hd.kind_ne_eof t (by simp)
  refine ⟨fun c rest hc => .succ ?_, fun z rest hz => .succ ?_⟩
  · obtain ⟨r, ws, hnext, hr⟩ := endsBefore_next (s := s) hp (.inl hc) rest
    simp only [parseBody, append_assoc]
    refine .peek rfl ?_
    simp only [hb, he, or_self, if_false]
    refine .bind ?_ (hs.1 c rest hc).map
    rw [append_assoc, List.singleton_append, hnext]
    exact h r ws hr
  · obtain ⟨r, ws, hnext, hr⟩ := endsBefore_next (s := s) hp (.inr hz) rest
    simp only [parseDeclarations]
    refine .peek rfl ?_
    simp only [he, if_false]
    exact .bind (hnext ▸ h r ws hr) (hs.2 z rest hz).map

theorem parsed_statement (hp : Phrase .statement (t :: ts) s) (h : Parsed .statement (t :: ts) s)
    (ht : t.kind ≠ .rob) : Parsed .declaration (t :: ts) s := by
  intro r rest hr
  have hnech : t.kind ≠ .nech := by
    intro hk
    obtain ⟨t', vs, heq, hs⟩ := hp.exists_first rfl
    cases heq
    simp [hk, Symbol.starts, startsStatement, startsExpr] at hs
  refine .succ ?_
  simp only [parseDeclaration]
  refine .peek rfl ?_
  split
  case h_1 hk => exact absurd hk hnech
  case h_2 hk => exact absurd hk ht
  case h_3 => exact h r rest hr

/-! ## Parts of statements -/

theorem extendsExpr_of_pica (hp : p.kind = .pica) : extendsExpr p.kind = false := by
  rw [hp]
  rfl

/-- An expression and the word that ends it. -/
theorem Parsed.line {α : Type} {f : Expr → α} (h : Parsed .expr ts e) (hp : p.kind = .pica)
    (what : String) (rest : List Token) :
    Takes (fun n => parseExpr n >>= fun e => Parser.terminator what >>= fun _ => pure (f e))
      (ts ++ [p]) rest (f e) :=
  (h p rest (extendsExpr_of_pica hp)).bind (.expect rfl hp .pure)

theorem parsed_exprInit (he : Phrase .expr ts e) (h : Parsed .expr ts e) (hp : p.kind = .pica) :
    Parsed .init (ts ++ [p]) (some (Stmt.mk (firstLine ts) (.expr e))) := by
  intro rest
  have hline := h.line (f := fun e => some (Stmt.mk (firstLine ts) (.expr e))) hp
    "loop initializer" rest
  obtain ⟨t, us, rfl, ht⟩ := he.exists_first rfl
  refine .succ ?_
  simp only [parseInit]
  refine .peek rfl ?_
  split
  case h_1 hk => exact absurd hk (kind_ne_of_startsExpr ht rfl)
  case h_2 hk => exact absurd hk (kind_ne_of_startsExpr ht rfl)
  case h_3 => exact hline

theorem parsed_handler {name : Option String} {ns : List Token}
    (hname : ns = [] ∧ name = none ∨
      ∃ n : Token, ns = [n] ∧ n.kind = .identifier ∧ name = some n.lexeme)
    (ht : t.kind = .chyt) (ho : o.kind = .leftParen) (hc : c.kind = .rightParen)
    (hb : Parsed .braced ts body) :
    Parsed .handler (t :: o :: (ns ++ c :: ts)) (name, some body) := by
  intro r rest _
  obtain ⟨b, us, rfl, hbk, hb⟩ := hb
  refine .succ ?_
  simp only [parseHandler]
  refine .accept rfl ht (.expect rfl ho ?_)
  obtain ⟨rfl, rfl⟩ | ⟨n, rfl, hn, rfl⟩ := hname
  · exact .refuse? rfl (by simp [hc]) (.expect rfl hc (.expect rfl hbk (hb _).map))
  · exact .accept? (a := ()) rfl (by simp [hn]) (.expect rfl hc (.expect rfl hbk (hb _).map))

/-! ## Statements -/

/-- A condition in parentheses is read after the keyword of its statement. -/
theorem Parsed.parseCondition (h : Parsed .condition ts e) (word : String) (rest : List Token) :
    Takes (parseCondition · word) ts rest e := by
  obtain ⟨o, us, c, rfl, ho, hc, h⟩ := h
  refine .succ ?_
  simp only [Hantec.parseCondition]
  exact .expect rfl ho ((h rest).bind (.expect rfl hc .pure))

theorem parsed_attempt {name : Option String} {handler finalizer : Option (List Stmt)}
    (hp : Phrase .finalizer vs finalizer) (ht : t.kind = .zkus) (hb : Parsed .braced ts body)
    (hh : Parsed .handler us (name, handler)) (hf : Parsed .finalizer vs finalizer) :
    Parsed .statement (t :: (ts ++ (us ++ vs)))
      (Stmt.mk t.line (.attempt body name handler finalizer)) := by
  intro r rest hr
  obtain ⟨o, xs, rfl, ho, hb⟩ := hb
  have hhandler : Takes parseHandler us (vs ++ r :: rest) (name, handler) := by
    obtain ⟨-, rfl⟩ | ⟨q, ys, rfl, hq⟩ := hp.startsAs
    · exact hh r rest hr.1
    · refine hh q (ys ++ r :: rest) fun hk => ?_
      simp [hk, Symbol.starts] at hq
  refine .succ ?_
  simp only [parseStatement]
  refine .peek rfl ?_
  simp only [ht]
  exact .step moves_advance (by simp [ht])
    (.expect rfl ho ((hb _).bind (hhandler.bind (hf r rest hr.2.1).map)))

theorem parsed_exprStmt (he : Phrase .expr ts e) (h : Parsed .expr ts e) (hp : p.kind = .pica) :
    Parsed .statement (ts ++ [p]) (Stmt.mk (firstLine ts) (.expr e)) := by
  intro r rest _
  have hline := h.line (f := fun e => Stmt.mk (firstLine ts) (.expr e)) hp "expression" (r :: rest)
  obtain ⟨t, us, rfl, ht⟩ := he.exists_first rfl
  refine .succ ?_
  simp only [parseStatement]
  refine .peek rfl ?_
  -- An expression starts with none of the words that start other statements.
  split <;> first | exact absurd ‹_› (kind_ne_of_startsExpr ht rfl) | exact hline

end Statements

theorem Phrase.parsed {x : Symbol} {ts : List Token} {tree : x.Tree} (h : Phrase x ts tree) :
    Parsed x ts tree := by
  induction h with
  | loosest _ ih => exact parsed_loosest ih
  | assign _ ht _ ih ih' => exact parsed_assign ih ht ih'
  | tighter hl _ ih => exact parsed_tighter hl ih
  | binary _ ht _ ih ih' => exact parsed_binary ih ht ih'
  | tightest _ ih => exact parsed_tightest ih
  | base _ ih =>
    refine fun r rest hr hs => .succ ?_
    simp only [parsePower]
    exact (ih r rest hr).bind_nil (.refuse rfl hs .pure)
  | power _ ht _ ih ih' =>
    refine fun r rest hr hs => .succ ?_
    simp only [parsePower]
    exact (ih _ _ (by rw [ht]; rfl)).bind (.accept rfl ht (ih' r rest hr hs).map)
  | unary ht _ ih =>
    refine fun r rest hr => .succ ?_
    simp only [parseUnary]
    exact .accept? rfl (mem_unaryOps_iff.1 ht) (ih r rest hr).map
  | operand hp ih => exact parsed_operand hp ih
  | primary _ ih => exact fun us rest _ hs => (ih _).bind hs
  | call _ ho _ hc ih ih' =>
    intro us rest e' hs
    simp only [append_assoc, cons_append, nil_append]
    refine ih _ rest e' (.succ ?_)
    simp only [parseSuffixes]
    refine .accept rfl ho ?_
    rw [← List.singleton_append, ← append_assoc]
    exact (ih' .rightParen _ _ _ hc (.inl rfl)).bind hs
  | member _ hd ht ih =>
    intro us rest e' hs
    simp only [append_assoc, cons_append, nil_append]
    refine ih _ rest e' (.succ ?_)
    simp only [parseSuffixes]
    exact .refuse rfl (by simp [hd]) (.accept rfl hd (.expect rfl ht hs))
  | step _ ht ih =>
    intro us rest e' hs
    rw [append_assoc, cons_append, nil_append]
    refine ih _ rest e' (.succ ?_)
    have ho := mem_steps_iff.1 ht
    simp only [parseSuffixes]
    refine .refuse rfl (fun hk => ?_) (.refuse rfl (fun hk => ?_) (.accept? rfl ho hs)) <;>
      simp [hk, stepOp?] at ho
  | literal ht =>
    refine fun rest => .succ ?_
    simp only [parsePrimary]
    refine .peek rfl ?_
    rcases ht with ht | ht <;> simp only [ht] <;> exact .step moves_take (by simp [ht]) .pure
  | truth ht | falsity ht | null ht =>
    refine fun rest => .succ ?_
    simp only [parsePrimary]
    refine .peek rfl ?_
    simp only [ht]
    exact .step moves_advance (by simp [ht]) .pure
  | ident ht =>
    refine fun rest => .succ ?_
    simp only [parsePrimary]
    refine .peek rfl ?_
    simp only [ht]
    exact .step moves_take (by simp [ht]) .pure
  | paren _ ih =>
    obtain ⟨o, us, c, rfl, ho, hc, ih⟩ := ih
    refine fun rest => .succ ?_
    simp only [parsePrimary]
    refine .peek rfl ?_
    simp only [ho]
    exact .step moves_advance (by simp [ho]) ((ih rest).bind (.expect rfl hc .pure))
  | array ho _ hc ih =>
    refine fun rest => .succ ?_
    simp only [parsePrimary]
    refine .peek rfl ?_
    simp only [ho]
    exact .step moves_advance (by simp [ho]) (ih .rightBracket _ _ rest hc (.inr rfl)).map
  | function ht _ _ ih ih' =>
    obtain ⟨o, vs, rfl, ho, ih'⟩ := ih'
    refine fun rest => .succ ?_
    simp only [parsePrimary]
    refine .peek rfl ?_
    simp only [ht]
    exact .step moves_advance (by simp [ht]) ((ih _).bind (.expect rfl ho (ih' rest).map))
  -- Lists.
  | noItems =>
    intro k what c rest hc hk
    have hfill : fills k = true := by rcases hk with rfl | rfl <;> rfl
    refine .succ ?_
    simp only [parseItems]
    exact .accept hfill hc .pure
  | items hp ih =>
    intro k what c rest hc hk
    obtain ⟨t, us, rfl, ht⟩ := hp.exists_first rfl
    have hne : t.kind ≠ k := kind_ne_of_startsExpr ht (by rcases hk with rfl | rfl <;> rfl)
    refine .succ ?_
    simp only [parseItems]
    exact .refuse rfl hne (ih k what c rest hc hk)
  | lastItem _ ih =>
    intro k what c rest hc hk
    have hk' : extendsExpr k = false ∧ k ≠ .comma ∧ fills k = true := by
      rcases hk with rfl | rfl <;> decide
    refine .succ ?_
    simp only [parseMoreItems]
    exact (ih c rest (hc ▸ hk'.1)).bind (.refuse rfl (hc ▸ hk'.2.1) (.expect hk'.2.2 hc .pure))
  | nextItem _ ht _ ih ih' =>
    refine fun k what c rest hc hk => .succ ?_
    simp only [parseMoreItems, append_assoc]
    exact (ih _ _ (by rw [ht]; rfl)).bind (.accept rfl ht (ih' k what c rest hc hk).map)
  | lastName ht =>
    refine fun r rest hr => .succ ?_
    simp only [parseNames]
    exact .expect rfl ht (.refuse rfl hr .pure)
  | nextName ht hc _ ih =>
    refine fun r rest hr => .succ ?_
    simp only [parseNames]
    exact .expect rfl ht (.accept rfl hc (ih r rest hr).map)
  | noParams ho hc =>
    intro rest
    unfold parseParams
    exact .expect rfl ho (.accept rfl hc .pure)
  | params ho hp hc ih => exact parsed_params hp ho ih hc
  | condition ho _ hc ih =>
    exact ⟨_, _, _, rfl, ho, hc, fun rest => ih _ rest (by rw [hc]; rfl)⟩
  | absent =>
    refine fun k r rest hr hk => .succ ?_
    simp only [parseUnless]
    refine .peek rfl ?_
    simp only [hr, if_true]
    exact .pure
  | present hp ih =>
    intro k r rest hr hk
    have hfirst := ih r rest (by rw [hr]; rcases hk with rfl | rfl <;> rfl)
    obtain ⟨t, us, rfl, ht⟩ := hp.exists_first rfl
    have hne : t.kind ≠ k := kind_ne_of_startsExpr ht (by rcases hk with rfl | rfl <;> rfl)
    refine .succ ?_
    simp only [parseUnless]
    refine .peek rfl ?_
    simp only [hne, if_false]
    exact hfirst.map
  -- Declarations.
  | noDeclarations =>
    refine ⟨fun c rest hc => .succ ?_, fun r rest hr => .succ ?_⟩
    · simp only [parseBody]
      refine .peek rfl ?_
      simp only [hc, true_or, if_true]
      exact .expect rfl hc .pure
    · simp only [parseDeclarations]
      refine .peek rfl ?_
      simp only [hr, if_true]
      exact .pure
  | nextDeclaration hd hp ih ih' => exact parsed_nextDeclaration hd hp ih ih'
  | braced ho _ hc ih => exact ⟨_, _, rfl, ho, fun rest => ih.1 _ rest hc⟩
  | letDecl _ ih =>
    obtain ⟨t, us, rfl, ht, ih⟩ := ih
    refine fun r rest _ => .succ ?_
    simp only [parseDeclaration]
    refine .peek rfl ?_
    simp only [ht]
    exact .step moves_advance (by simp [ht]) (ih _)
  | define ht hn _ _ ih ih' =>
    obtain ⟨o, vs, rfl, ho, ih'⟩ := ih'
    refine fun r rest _ => .succ ?_
    simp only [parseDeclaration]
    refine .peek rfl ?_
    simp only [ht]
    exact .step moves_advance (by simp [ht])
      (.expect rfl hn ((ih _).bind (.expect rfl ho (ih' _).map)))
  | statement hp ht ih => exact parsed_statement hp ih ht
  | declareNull ht hn hp =>
    refine ⟨_, _, rfl, ht, fun rest => .succ ?_⟩
    simp only [parseLet]
    exact .expect rfl hn (.refuse rfl (by simp [hp]) (.expect rfl hp .pure))
  | declare ht hn hq _ hp ih =>
    refine ⟨_, _, rfl, ht, fun rest => .succ ?_⟩
    simp only [parseLet]
    exact .expect rfl hn (.accept rfl hq (Parsed.line ih hp _ rest))
  -- Parts of statements.
  | noInit hp =>
    refine fun rest => .succ ?_
    simp only [parseInit]
    refine .peek rfl ?_
    simp only [hp]
    exact .step moves_advance (by simp [hp]) .pure
  | letInit _ ih =>
    obtain ⟨t, us, rfl, ht, ih⟩ := ih
    refine fun rest => .succ ?_
    simp only [parseInit]
    refine .peek rfl ?_
    simp only [ht]
    exact .step moves_advance (by simp [ht]) (ih rest).map
  | exprInit he hp ih => exact parsed_exprInit he ih hp
  | noHandler =>
    refine fun r rest hr => .succ ?_
    simp only [parseHandler]
    exact .refuse rfl hr .pure
  | handler ht ho hc _ ih => exact parsed_handler (.inl ⟨rfl, rfl⟩) ht ho hc ih
  | namedHandler ht ho hn hc _ ih => exact parsed_handler (.inr ⟨_, rfl, hn, rfl⟩) ht ho hc ih
  | noFinalizer =>
    refine fun r rest hr => .succ ?_
    simp only [parseFinalizer]
    exact .refuse rfl hr .pure
  | finalizer ht _ ih =>
    obtain ⟨o, us, rfl, ho, ih⟩ := ih
    refine fun r rest _ => .succ ?_
    simp only [parseFinalizer]
    exact .accept rfl ht (.expect rfl ho (ih _).map)
  -- Statements.
  | block _ ih =>
    obtain ⟨o, us, rfl, ho, ih⟩ := ih
    refine fun r rest _ => .succ ?_
    simp only [parseStatement]
    refine .peek rfl ?_
    simp only [ho]
    exact .step moves_advance (by simp [ho]) (ih _).map
  | cond ht _ _ ih ih' =>
    intro r rest hr
    have hi : r.kind ≠ .inak := fun hk => by simpa [Stmt.endsOpen] using hr.2.2 hk
    refine .succ ?_
    simp only [parseStatement]
    refine .peek rfl ?_
    simp only [ht]
    refine .step moves_advance (by simp [ht]) ((Parsed.parseCondition ih _ _).bind ?_)
    exact (ih' r rest ⟨hr.1, hr.2.1, fun hk => absurd hk hi⟩).bind_nil (.refuse rfl hi .pure)
  | condElse ht _ _ hopen hi _ ih ih' ih'' =>
    refine fun r rest hr => .succ ?_
    simp only [parseStatement]
    refine .peek rfl ?_
    simp only [ht]
    refine .step moves_advance (by simp [ht]) ((Parsed.parseCondition ih _ _).bind ?_)
    refine .bind (ih' _ _ ?_) (.accept rfl hi (ih'' r rest hr).map)
    rw [hi]
    exact ⟨by decide, by decide, fun _ => hopen⟩
  | loop ht _ _ ih ih' =>
    refine fun r rest hr => .succ ?_
    simp only [parseStatement]
    refine .peek rfl ?_
    simp only [ht]
    exact .step moves_advance (by simp [ht])
      ((Parsed.parseCondition ih _ _).bind (ih' r rest hr).map)
  | circuit ht ho _ _ hp _ hc _ ih₁ ih₂ ih₃ ih₄ =>
    refine fun r rest hr => .succ ?_
    simp only [parseStatement]
    refine .peek rfl ?_
    simp only [ht]
    refine .step moves_advance (by simp [ht]) (.expect rfl ho ((ih₁ _).bind ?_))
    refine (ih₂ .pica _ _ hp (.inl rfl)).bind (.expect rfl hp ?_)
    exact (ih₃ .rightParen _ _ hc (.inr rfl)).bind (.expect rfl hc (ih₄ r rest hr).map)
  | ret ht _ hp ih =>
    refine fun r rest _ => .succ ?_
    simp only [parseStatement]
    refine .peek rfl ?_
    simp only [ht]
    exact .step moves_advance (by simp [ht])
      ((ih .pica _ _ hp (.inl rfl)).bind (.expect rfl hp .pure))
  | print ht _ hp ih =>
    obtain ⟨o, us, c, rfl, ho, hc, ih⟩ := ih
    refine fun r rest _ => .succ ?_
    simp only [parseStatement]
    refine .peek rfl ?_
    simp only [ht, cons_append, append_assoc, nil_append]
    exact .step moves_advance (by simp [ht])
      (.expect rfl ho ((ih _).bind (.expect rfl hc (.expect rfl hp .pure))))
  | load ht _ hp ih =>
    refine fun r rest _ => .succ ?_
    simp only [parseStatement]
    refine .peek rfl ?_
    simp only [ht]
    exact .step moves_advance (by simp [ht]) (Parsed.line ih hp _ _)
  | attempt ht _ _ hf ih ih' ih'' => exact parsed_attempt hf ht ih ih' ih''
  | leave ht hp | skip ht hp =>
    refine fun r rest _ => .succ ?_
    simp only [parseStatement]
    refine .peek rfl ?_
    simp only [ht]
    exact .step moves_advance (by simp [ht]) (.expect rfl hp .pure)
  | exprStmt he hp ih => exact parsed_exprStmt he ih hp

end Hantec.Grammar
