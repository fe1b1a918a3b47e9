import Hantec.Proofs.Grammar.Sources

/-!
# What the parser reads

Each routine of the parser takes a phrase off the front of its tokens or comes to a token that
cannot follow. On two sources that start with the same words it yields the same trees, up to the
lines of statements, or finds the same error at the same word. The routines call each other with a
smaller bound, so the statements about all of them are carried through one induction on the bound.
-/

namespace Hantec.Grammar

open Hantec.Parser (moves_advance moves_take)

namespace Sources

variable {w : Sources} {α β : Type} {g : α → α} {us : List Token} {l n : Nat} {κ : TokenKind}
  {what : String}

/-- The tokens that were taken are a phrase. -/
abbrev Yields (x : Symbol) (as : List Token) (tree : x.Tree) (_ : List Token) : Prop :=
  Phrase x as tree

/-- The tokens that were taken are a phrase and a token of the given kind. -/
def YieldsUpTo (x : Symbol) (κ : TokenKind) (as : List Token) (tree : x.Tree) (_ : List Token) :
    Prop :=
  ∃ us c, as = us ++ [c] ∧ c.kind = κ ∧ Phrase x us tree

theorem Reads.bindUpTo (x : Symbol) {g : x.Tree → x.Tree} {h : β → β}
    {R : List Token → β → List Token → Prop} {p p' : Parser x.Tree} {f f' : x.Tree → Parser β}
    (hp : w.Reads g us (YieldsUpTo x κ) p p')
    (hf : ∀ as tree c vs, Phrase x as tree → c.kind = κ →
      vs.length + 1 ≤ us.length ∨ vs.length = 0 →
      w.Reads h vs (fun bs b ws => R (as ++ c :: bs) b ws) (f tree) (f' (g tree))) :
    w.Reads h us R (p >>= f) (p' >>= f') := by
  refine hp.bind ?_
  rintro _ tree vs ⟨as, c, rfl, hc, hp⟩ hlen
  rw [List.length_append, List.length_singleton] at hlen
  exact (hf as tree c vs hp hc (by omega)).mono fun bs b ws h => by simpa using h

/-- A routine with the bound `n` on the tokens `us`. -/
abbrev Runs (w : Sources) (g : α → α) (n : Nat) (us : List Token)
    (Q : List Token → α → List Token → Prop) (p : Nat → Parser α) : Prop :=
  w.Reads g us Q (p n) (p (w.extra + n))

/-- What the routines do with the bound `n` on the tokens before the end. A routine needs sixteen
units for each token, and a few more for the routines that it passes through before it takes the
first one. -/
structure ReadsAt (w : Sources) (n : Nat) : Prop where
  expr : ∀ us, 16 * us.length + 11 < n →
    w.Runs (Expr.relined w.line) n us (Yields .expr) parseExpr
  level : ∀ us {l}, l ≤ levelCount → 16 * us.length + 10 < n + l →
    w.Runs (Expr.relined w.line) n us (Yields (.level l)) (parseLevel · l)
  operands : ∀ us {l pre e}, l < levelCount → Phrase (.level l) pre e → 16 * us.length < n →
    w.Reads (Expr.relined w.line) us (fun as e _ => Phrase (.level l) (pre ++ as) e)
      (parseOperands n l e) (parseOperands (w.extra + n) l (e.relined w.line))
  power : ∀ us, 16 * us.length + 2 < n →
    w.Runs (Expr.relined w.line) n us (Yields .power) parsePower
  unary : ∀ us, 16 * us.length + 1 < n →
    w.Runs (Expr.relined w.line) n us (Yields .unary) parseUnary
  suffixes : ∀ us {pre e}, Phrase .postfixed pre e → 16 * us.length < n →
    w.Reads (Expr.relined w.line) us (fun as e _ => Phrase .postfixed (pre ++ as) e)
      (parseSuffixes n e) (parseSuffixes (w.extra + n) (e.relined w.line))
  items : ∀ us {κ what}, fills κ = true → 16 * us.length + 13 < n →
    w.Runs (relinedItems w.line) n us (YieldsUpTo .items κ) (parseItems · κ what)
  moreItems : ∀ us {κ what}, fills κ = true → 16 * us.length + 12 < n →
    w.Runs (relinedItems w.line) n us (YieldsUpTo .someItems κ) (parseMoreItems · κ what)
  primary : ∀ us, 16 * us.length < n →
    w.Runs (Expr.relined w.line) n us (Yields .primary) parsePrimary
  names : ∀ us, 16 * us.length < n → w.Runs id n us (Yields .names) parseNames
  body : ∀ us, 16 * us.length + 14 < n →
    w.Runs (relinedBody w.line) n us (YieldsUpTo .declarations .rightBrace) parseBody
  declaration : ∀ us, 16 * us.length + 13 < n →
    w.Runs (Stmt.relined w.line) n us (Yields .declaration) parseDeclaration
  letDecl : ∀ us {t}, t.kind = .nech → 16 * us.length < n →
    w.Reads (Stmt.relined w.line) us (fun as s _ => Phrase .letDecl (t :: as) s)
      (parseLet n t.line) (parseLet (w.extra + n) (w.move t).line)
  condition : ∀ us {word}, 16 * us.length + 12 < n →
    w.Runs (Expr.relined w.line) n us (Yields .condition) (parseCondition · word)
  optional : ∀ us {κ}, 16 * us.length + 12 < n →
    w.Runs (relinedExpr? w.line) n us (Yields .optional) (parseUnless · κ)
  init : ∀ us, 16 * us.length + 12 < n →
    w.Runs (relinedStmt? w.line) n us (Yields .init) parseInit
  handler : ∀ us, 16 * us.length < n →
    w.Runs (relinedHandler w.line) n us (Yields .handler) parseHandler
  finalizer : ∀ us, 16 * us.length < n →
    w.Runs (relinedBody? w.line) n us (Yields .finalizer) parseFinalizer
  statement : ∀ us, 16 * us.length + 12 < n →
    w.Runs (Stmt.relined w.line) n us (fun as s vs => Phrase .statement as s ∧
      ((w.next vs).kind = .inak → s.endsOpen = false)) parseStatement
  declarations : ∀ us, 16 * us.length + 14 < n →
    w.Runs (relinedBody w.line) n us (fun as p vs => Phrase .declarations as p ∧
      (w.next vs).kind = .eof) parseDeclarations

section Step

variable (ih : w.ReadsAt n)

include ih

/-! ## Expressions -/

theorem parseLevel_reads (us : List Token) (hl : l ≤ levelCount)
    (hn : 16 * us.length + 10 < n + 1 + l) :
    w.Reads (Expr.relined w.line) us (Yields (.level l)) (parseLevel (n + 1) l)
      (parseLevel (w.extra + n + 1) l) := by
  rw [parseLevel, parseLevel]
  by_cases hlt : l < levelCount
  · rw [if_pos hlt, if_pos hlt]
    have hle : l ≤ 6 := Nat.le_of_lt_succ hlt
    refine (ih.level us hlt (by omega)).bind fun as left vs hp hvs => ?_
    exact ih.operands vs hlt (.tighter hlt hp) (by omega)
  · rw [if_neg hlt, if_neg hlt]
    obtain rfl : l = 7 := Nat.le_antisymm hl (Nat.le_of_not_lt hlt)
    exact (ih.power us (by omega)).mono fun _ _ _ => .tightest

theorem parseExpr_reads (us : List Token) (hn : 16 * us.length + 11 < n + 1) :
    w.Reads (Expr.relined w.line) us (Yields .expr) (parseExpr (n + 1))
      (parseExpr (w.extra + n + 1)) := by
  rw [parseExpr, parseExpr]
  refine (ih.level us (Nat.zero_le _) (by omega)).bind fun as target vs hp hvs => ?_
  refine .accept? rfl (fun _ => .pure target vs (by simpa using .loosest hp)) fun op ho hk => ?_
  cases target
  case «variable» name =>
    refine .step moves_take hk fun ws hws => (ih.expr ws (by omega)).bind fun bs value xs hq _ => ?_
    rw [← relined_assigned]
    refine .pure (Expr.assign name (assigned name op value)) xs ?_
    simpa using .assign hp (mem_assignments_iff.2 ho) hq
  all_goals exact .wrong _ hk

theorem parseOperands_reads (us : List Token) {pre : List Token} {e : Expr} (hl : l < levelCount)
    (he : Phrase (.level l) pre e) (hn : 16 * us.length < n + 1) :
    w.Reads (Expr.relined w.line) us (fun as e _ => Phrase (.level l) (pre ++ as) e)
      (parseOperands (n + 1) l e) (parseOperands (w.extra + n + 1) l (e.relined w.line)) := by
  rw [parseOperands, parseOperands]
  refine .accept? (binaryOp?_eof) (fun _ => .pure e us (by simpa using he)) fun op ho hk => ?_
  refine .step moves_take hk fun vs hvs => ?_
  refine (ih.level vs hl (by omega)).bind fun as right ws hp hws => ?_
  refine (ih.operands ws hl (.binary he (levelOp_iff.2 ho) hp) (by omega)).mono ?_
  exact fun bs e _ h => by simpa using h

theorem parsePower_reads (us : List Token) (hn : 16 * us.length + 2 < n + 1) :
    w.Reads (Expr.relined w.line) us (Yields .power) (parsePower (n + 1))
      (parsePower (w.extra + n + 1)) := by
  rw [parsePower, parsePower]
  refine (ih.unary us (by omega)).bind fun as base vs hp hvs => ?_
  refine .accept rfl (fun hk ws hws => ?_) fun _ => .pure base vs (by simpa using .base hp)
  refine (ih.power ws (by omega)).bind fun bs e xs hq _ => .pure _ xs ?_
  simpa using .power hp hk hq

theorem parseUnary_reads (us : List Token) (hn : 16 * us.length + 1 < n + 1) :
    w.Reads (Expr.relined w.line) us (Yields .unary) (parseUnary (n + 1))
      (parseUnary (w.extra + n + 1)) := by
  rw [parseUnary, parseUnary]
  refine .accept? rfl (fun _ => ?_) fun op ho hk => .step moves_take hk fun vs hvs => ?_
  · exact (ih.primary us (by omega)).bind fun as e vs hp hvs =>
      (ih.suffixes vs (.primary hp) (by omega)).mono fun _ _ _ => .operand
  · refine (ih.unary vs (by omega)).bind fun as e ws hp _ => .pure _ ws ?_
    simpa using .unary (mem_unaryOps_iff.2 ho) hp

theorem parseSuffixes_reads (us : List Token) {pre : List Token} {e : Expr}
    (he : Phrase .postfixed pre e) (hn : 16 * us.length < n + 1) :
    w.Reads (Expr.relined w.line) us (fun as e _ => Phrase .postfixed (pre ++ as) e)
      (parseSuffixes (n + 1) e) (parseSuffixes (w.extra + n + 1) (e.relined w.line)) := by
  rw [parseSuffixes, parseSuffixes]
  refine .accept rfl (fun hk vs hvs => ?_) fun _ =>
    .accept rfl (fun hk vs hvs => ?_) fun _ =>
      .accept? rfl (fun _ => .pure e us (by simpa using he)) fun op ho hk => ?_
  · refine (ih.items vs rfl (by omega)).bindUpTo .items fun as args c ws hp hc hws => ?_
    refine (ih.suffixes ws (.call he hk hp hc) (by omega)).mono fun bs e _ h => ?_
    simpa using h
  · refine .expect rfl fun name ws hname hws => ?_
    rw [lexeme_move]
    refine (ih.suffixes ws (.member he hk hname) (by omega)).mono fun bs e _ h => ?_
    simpa using h
  · cases e
    case «variable» name =>
      refine .step moves_take hk fun vs hvs => ?_
      refine (ih.suffixes vs (.step he (mem_steps_iff.2 ho)) (by omega)).mono ?_
      exact fun bs e _ h => by simpa using h
    all_goals exact .wrong _ hk

theorem parseItems_reads (us : List Token) (hκ : fills κ = true)
    (hn : 16 * us.length + 13 < n + 1) :
    w.Reads (relinedItems w.line) us (YieldsUpTo .items κ) (parseItems (n + 1) κ what)
      (parseItems (w.extra + n + 1) κ what) := by
  rw [parseItems, parseItems]
  refine .accept hκ (fun hk vs _ => .pure [] vs ⟨[], _, rfl, hk, .noItems⟩) fun _ => ?_
  refine (ih.moreItems us hκ (by omega)).mono ?_
  rintro _ es _ ⟨as, c, rfl, hc, hp⟩
  exact ⟨as, c, rfl, hc, .items hp⟩

theorem parseMoreItems_reads (us : List Token) (hκ : fills κ = true)
    (hn : 16 * us.length + 12 < n + 1) :
    w.Reads (relinedItems w.line) us (YieldsUpTo .someItems κ) (parseMoreItems (n + 1) κ what)
      (parseMoreItems (w.extra + n + 1) κ what) := by
  rw [parseMoreItems, parseMoreItems]
  refine (ih.expr us (by omega)).bind fun as e vs hp hvs =>
    .accept rfl (fun hk ws hws => ?_) fun _ => ?_
  · refine (ih.moreItems ws hκ (by omega)).bindUpTo .someItems fun bs es c xs hq hc _ => ?_
    exact .pure (e :: es) xs ⟨as ++ w.next vs :: bs, c, by simp, hc, .nextItem hp hk hq⟩
  · exact .expect hκ fun c ws hc _ => .pure [e] ws ⟨as, c, rfl, hc, .lastItem hp⟩

theorem parseNames_reads (us : List Token) (hn : 16 * us.length < n + 1) :
    w.Reads id us (Yields .names) (parseNames (n + 1)) (parseNames (w.extra + n + 1)) := by
  rw [parseNames, parseNames]
  refine .expect rfl fun name vs hname hvs => ?_
  rw [lexeme_move]
  refine .accept rfl (fun hk ws hws => ?_) fun _ => .pure _ vs (.lastName hname)
  refine (ih.names ws (by omega)).bind fun as names xs hnames _ => .pure (name.lexeme :: names) xs ?_
  simpa using .nextName hname hk hnames

theorem reads_params (us : List Token) (hn : 16 * us.length < n + 1) (hn' : 0 < n) :
    w.Runs id n us (Yields .params) parseParams := by
  unfold Runs parseParams
  refine .expect rfl fun o vs ho hvs => .accept rfl (fun hk ws _ => ?_) fun _ => ?_
  · exact .pure [] ws (.noParams ho hk)
  · refine (ih.names vs (by omega)).bind fun as names ws hnames _ => ?_
    exact .expect rfl fun c xs hc _ => .pure names xs (.params ho hnames hc)

/-- Statements in braces, and what comes after them. -/
theorem reads_braced {R : List Token → α → List Token → Prop} {F F' : List Stmt → Parser α}
    (us : List Token) (hn : 16 * us.length < n + 2) (hn' : 14 < n)
    (hF : ∀ as body vs, Phrase .braced as body → vs.length ≤ us.length →
      w.Reads g vs (fun bs b ws => R (as ++ bs) b ws) (F body) (F' (relinedBody w.line body))) :
    w.Reads g us R (Parser.expect .leftBrace what >>= fun _ => parseBody n >>= F)
      (Parser.expect .leftBrace what >>= fun _ => parseBody (w.extra + n) >>= F') := by
  refine .expect rfl fun o vs ho hvs => ?_
  refine (ih.body vs (by omega)).bindUpTo .declarations fun as body c ws hp hc hws => ?_
  exact (hF _ body ws (.braced ho hp hc) (by omega)).mono fun bs b _ h => by simpa using h

theorem parsePrimary_reads (us : List Token) (hn : 16 * us.length < n + 1) :
    w.Reads (Expr.relined w.line) us (Yields .primary) (parsePrimary (n + 1))
      (parsePrimary (w.extra + n + 1)) := by
  rw [parsePrimary, parsePrimary]
  refine .peek ?_
  rw [kind_move]
  split
  case h_10 => exact .throw _ (completable_phrase .primary rfl)
  case h_7 hk =>
    refine .step moves_advance (by simp [hk]) fun us hus => ?_
    refine (ih.expr us (by omega)).bind fun as e vs hp _ => .expect rfl fun c ws hc _ => ?_
    exact .pure e ws (.paren (.condition hk hp hc))
  case h_8 hk =>
    refine .step moves_advance (by simp [hk]) fun us hus => ?_
    refine (ih.items us rfl (by omega)).bindUpTo .items fun as items c vs hp hc _ => ?_
    exact .pure (Expr.call (.variable arrayMaker) items) vs (.array hk hp hc)
  case h_9 hk =>
    refine .step moves_advance (by simp [hk]) fun us hus => ?_
    refine (reads_params ih us (by omega) (by omega)).bind fun as params vs hp hvs => ?_
    refine reads_braced ih vs (by omega) (by omega) fun bs body ws hq _ => ?_
    exact .pure (Expr.function params body) ws (by simpa using .function hk hp hq)
  -- Single tokens.
  case h_1 hk | h_2 hk =>
    refine .step moves_take (by simp [hk]) fun us _ => ?_
    rw [literal_move]
    exact .pure _ us (.literal (by simp [hk]))
  case h_3 hk => exact .step moves_advance (by simp [hk]) fun us _ => .pure _ us (.truth hk)
  case h_4 hk => exact .step moves_advance (by simp [hk]) fun us _ => .pure _ us (.falsity hk)
  case h_5 hk => exact .step moves_advance (by simp [hk]) fun us _ => .pure _ us (.null hk)
  case h_6 hk =>
    refine .step moves_take (by simp [hk]) fun us _ => ?_
    rw [lexeme_move]
    exact .pure _ us (.ident hk)

/-! ## Statements -/

theorem parseBody_reads (us : List Token) (hn : 16 * us.length + 14 < n + 1) :
    w.Reads (relinedBody w.line) us (YieldsUpTo .declarations .rightBrace) (parseBody (n + 1))
      (parseBody (w.extra + n + 1)) := by
  rw [parseBody, parseBody]
  refine .peek ?_
  rw [kind_move]
  split
  case isTrue => exact .expect rfl fun c vs hc _ => .pure [] vs ⟨[], c, rfl, hc, .noDeclarations⟩
  case isFalse hk =>
    refine (ih.declaration us (by omega)).bind fun as s vs hp hvs => ?_
    obtain ⟨t, as, rfl, -⟩ := hp.exists_first rfl
    rw [List.length_cons] at hvs
    have hpos := List.length_pos_iff.2 (ne_nil_of_kind_next fun h => hk (.inr h))
    refine (ih.body vs (by omega)).bindUpTo .declarations fun bs ss c ws hq hc _ => ?_
    exact .pure (s :: ss) ws ⟨t :: as ++ bs, c, by simp, hc, .nextDeclaration hp hq⟩

/-- A routine that reads a statement is stuck where no token is left. -/
theorem reads_nil {Q : List Token → Stmt → List Token → Prop}
    (hn : 12 < n) (hc : Completable (fun ts => ∃ s, Q ts s []) []) :
    w.Runs (Stmt.relined w.line) n [] Q parseStatement := by
  unfold Runs
  rw [← bind_pure (parseStatement n), ← bind_pure (parseStatement (w.extra + n))]
  refine (ih.statement [] hn).bind_nil (fun s hs => ?_) hc
  obtain ⟨_, _, heq, -⟩ := hs.1.exists_first rfl
  cases heq

theorem parseDeclaration_reads (us : List Token) (hn : 16 * us.length + 13 < n + 1) :
    w.Reads (Stmt.relined w.line) us (Yields .declaration) (parseDeclaration (n + 1))
      (parseDeclaration (w.extra + n + 1)) := by
  rw [parseDeclaration, parseDeclaration]
  refine .peek ?_
  rw [kind_move]
  split
  case h_1 hk =>
    refine .step moves_advance (by simp [hk]) fun vs hvs => ?_
    exact (ih.letDecl vs hk (by omega)).mono fun _ _ _ => .letDecl
  case h_2 hk =>
    refine .step moves_advance (by simp [hk]) fun vs hvs => .expect rfl fun name ws hname hws => ?_
    refine (reads_params ih ws (by omega) (by omega)).bind fun as params xs hp hxs => ?_
    simp only [line_move, lexeme_move]
    refine reads_braced ih xs (by omega) (by omega) fun bs body ys hq _ => ?_
    refine .pure (Stmt.mk (w.next us).line (.define name.lexeme params body)) ys ?_
    simpa using .define hk hname hp hq
  case h_3 hk =>
    by_cases hus : us = []
    · subst hus
      exact reads_nil ih (by omega) (completable_phrase .declaration rfl)
    · refine ((ih.statement us (by omega)).starts hus).mono fun as s vs hs => ?_
      obtain ⟨t, as, rfl, -⟩ := hs.1.1.exists_first rfl
      obtain rfl := hs.2 t as rfl
      exact .statement hs.1.1 hk

theorem parseDeclarations_reads (us : List Token) (hn : 16 * us.length + 14 < n + 1) :
    w.Reads (relinedBody w.line) us
      (fun as p vs => Phrase .declarations as p ∧ (w.next vs).kind = .eof)
      (parseDeclarations (n + 1)) (parseDeclarations (w.extra + n + 1)) := by
  rw [parseDeclarations, parseDeclarations]
  refine .peek ?_
  rw [kind_move]
  split
  case isTrue hk => exact .pure [] us ⟨.noDeclarations, hk⟩
  case isFalse hk =>
    refine (ih.declaration us (by omega)).bind fun as s vs hp hvs => ?_
    obtain ⟨t, as, rfl, -⟩ := hp.exists_first rfl
    rw [List.length_cons] at hvs
    have hpos := List.length_pos_iff.2 (ne_nil_of_kind_next hk)
    refine (ih.declarations vs (by omega)).bind fun bs ss ws hq _ => .pure (s :: ss) ws ?_
    exact ⟨by simpa using .nextDeclaration hp hq.1, hq.2⟩

theorem parseLet_reads (us : List Token) {t : Token} (ht : t.kind = .nech)
    (hn : 16 * us.length < n + 1) :
    w.Reads (Stmt.relined w.line) us (fun as s _ => Phrase .letDecl (t :: as) s)
      (parseLet (n + 1) t.line) (parseLet (w.extra + n + 1) (w.move t).line) := by
  rw [parseLet, parseLet]
  refine .expect rfl fun name vs hname hvs => ?_
  simp only [lexeme_move, line_move]
  refine .accept rfl (fun hq ws hws => ?_) fun _ => .expect rfl fun p ws hp _ => ?_
  · refine (ih.expr ws (by omega)).bind fun as e xs he _ => .expect rfl fun p ys hp _ => ?_
    exact .pure (Stmt.mk t.line (.declare name.lexeme (some e))) ys (.declare ht hname hq he hp)
  · exact .pure (Stmt.mk t.line (.declare name.lexeme none)) ws (.declareNull ht hname hp)

theorem parseCondition_reads (us : List Token) {word : String} (hn : 16 * us.length + 12 < n + 1) :
    w.Reads (Expr.relined w.line) us (Yields .condition) (parseCondition (n + 1) word)
      (parseCondition (w.extra + n + 1) word) := by
  rw [parseCondition, parseCondition]
  refine .expect rfl fun o vs ho hvs => (ih.expr vs (by omega)).bind fun as e ws he _ => ?_
  exact .expect rfl fun c xs hc _ => .pure e xs (.condition ho he hc)

theorem parseUnless_reads (us : List Token) (hn : 16 * us.length + 12 < n + 1) :
    w.Reads (relinedExpr? w.line) us (Yields .optional) (parseUnless (n + 1) κ)
      (parseUnless (w.extra + n + 1) κ) := by
  rw [parseUnless, parseUnless]
  refine .peek ?_
  rw [kind_move]
  split
  case isTrue => exact .pure none us .absent
  case isFalse =>
    refine (ih.expr us (by omega)).bind fun as e vs he _ => .pure (some e) vs ?_
    simpa using .present he

/-- An expression at the line of the next token, and the word that ends a statement. -/
theorem reads_line (us : List Token) (what : String) {R : List Token → α → List Token → Prop}
    (f : Int → Expr → α) (hf : ∀ line e, f (w.line line) (e.relined w.line) = g (f line e))
    (hR : ∀ as e p vs, Phrase .expr as e → p.kind = .pica → R (as ++ [p]) (f (firstLine as) e) vs)
    (hn : 16 * us.length + 11 < n) :
    w.Reads g us R
      (parseExpr n >>= fun e => Parser.terminator what >>= fun _ =>
        pure (f (w.next us).line e))
      (parseExpr (w.extra + n) >>= fun e => Parser.terminator what >>= fun _ =>
        pure (f (w.move (w.next us)).line e)) := by
  by_cases hus : us = []
  · subst hus
    have hname : Phrase .primary [filler .identifier] _ := .ident rfl
    refine (ih.expr [] hn).bind_nil (fun e he => ?_)
      ⟨[.identifier, .pica], rfl, _, hR _ _ (filler .pica) [] hname.expr rfl⟩
    obtain ⟨_, _, heq, -⟩ := he.exists_first rfl
    cases heq
  · refine ((ih.expr us hn).starts hus).bind fun as e vs he _ => .expect rfl fun p ws hp _ => ?_
    obtain ⟨t, as, rfl, -⟩ := he.1.exists_first rfl
    obtain rfl := he.2 t as rfl
    rw [line_move, hf]
    exact .pure (f (w.next us).line e) ws (hR _ e p _ he.1 hp)

theorem parseInit_reads (us : List Token) (hn : 16 * us.length + 12 < n + 1) :
    w.Reads (relinedStmt? w.line) us (Yields .init) (parseInit (n + 1))
      (parseInit (w.extra + n + 1)) := by
  rw [parseInit, parseInit]
  refine .peek ?_
  rw [kind_move]
  split
  case h_1 hk =>
    refine .step moves_advance (by simp [hk]) fun vs hvs => ?_
    refine (ih.letDecl vs hk (by omega)).bind fun as s ws hs _ => .pure (some s) ws ?_
    simpa using .letInit hs
  case h_2 hk => exact .step moves_advance (by simp [hk]) fun vs _ => .pure none vs (.noInit hk)
  case h_3 =>
    exact reads_line ih us "loop initializer" (fun line e => some (Stmt.mk line (.expr e)))
      (fun _ _ => rfl) (fun _ _ _ _ => .exprInit) (Nat.le_of_succ_le_succ hn)

theorem parseHandler_reads (us : List Token) (hn : 16 * us.length < n + 1) :
    w.Reads (relinedHandler w.line) us (Yields .handler) (parseHandler (n + 1))
      (parseHandler (w.extra + n + 1)) := by
  rw [parseHandler, parseHandler]
  refine .accept rfl (fun ht vs hvs => ?_) fun _ => .pure (none, none) us .noHandler
  refine .expect rfl fun o ws ho hws => .accept? rfl (fun _ => ?_) fun _ hm hk => ?_
  · refine .expect rfl fun c ys hc hys => ?_
    refine reads_braced ih ys (by omega) (by omega) fun as body zs hq _ => ?_
    exact .pure (none, some body) zs (by simpa using .handler ht ho hc hq)
  · have hm : (w.next ws).kind = .identifier := by simpa using hm
    refine .step moves_take hk fun xs hxs => .expect rfl fun c ys hc hys => ?_
    refine reads_braced ih ys (by omega) (by omega) fun as body zs hq _ => ?_
    simp only [Option.map_some, lexeme_move]
    exact .pure (some (w.next ws).lexeme, some body) zs (by simpa using .namedHandler ht ho hm hc hq)

theorem parseFinalizer_reads (us : List Token) (hn : 16 * us.length < n + 1) :
    w.Reads (relinedBody? w.line) us (Yields .finalizer) (parseFinalizer (n + 1))
      (parseFinalizer (w.extra + n + 1)) := by
  rw [parseFinalizer, parseFinalizer]
  refine .accept rfl (fun ht vs hvs => ?_) fun _ => .pure none us .noFinalizer
  refine reads_braced ih vs (by omega) (by omega) fun as body ws hq _ => ?_
  exact .pure (some body) ws (by simpa using .finalizer ht hq)

theorem parseStatement_reads (us : List Token) (hn : 16 * us.length + 12 < n + 1) :
    w.Reads (Stmt.relined w.line) us (fun as s vs => Phrase .statement as s ∧
        ((w.next vs).kind = .inak → s.endsOpen = false)) (parseStatement (n + 1))
      (parseStatement (w.extra + n + 1)) := by
  rw [parseStatement, parseStatement]
  refine .peek ?_
  rw [kind_move]
  split
  case h_11 =>
    exact reads_line ih us "expression" (fun line e => Stmt.mk line (.expr e)) (fun _ _ => rfl)
      (fun _ _ _ _ he hp => ⟨.exprStmt he hp, fun _ => rfl⟩) (Nat.le_of_succ_le_succ hn)
  all_goals
    rename_i hk
    refine .step moves_advance (by simp [hk]) fun vs hvs => ?_
    simp only [line_move]
    generalize w.next us = t at hk ⊢
  case h_1 =>
    refine (ih.body vs (by omega)).bindUpTo .declarations fun as body c ws hp hc _ => ?_
    exact .pure (Stmt.mk t.line (.block body)) ws ⟨.block (.braced hk hp hc), fun _ => rfl⟩
  case h_2 =>
    refine (ih.condition vs (by omega)).bind fun as e ws he hws => ?_
    refine (ih.statement ws (by omega)).bind fun bs yes xs hyes hxs => ?_
    refine .accept rfl (fun hi ys hys => ?_) fun hnext =>
      .pure (Stmt.mk t.line (.cond e yes none)) xs
        ⟨by simpa using .cond hk he hyes.1, fun h => (hnext h).elim⟩
    refine (ih.statement ys (by omega)).bind fun cs no zs hno _ => ?_
    refine .pure (Stmt.mk t.line (.cond e yes (some no))) zs ⟨?_, hno.2⟩
    simpa using .condElse hk he hyes.1 (hyes.2 hi) hi hno.1
  case h_3 =>
    refine (ih.condition vs (by omega)).bind fun as e ws he hws => ?_
    refine (ih.statement ws (by omega)).bind fun bs body xs hb _ => ?_
    exact .pure (Stmt.mk t.line (.loop e body)) xs ⟨by simpa using .loop hk he hb.1, hb.2⟩
  case h_4 =>
    refine .expect rfl fun o ws ho hws => (ih.init ws (by omega)).bind fun as init ws hi hws => ?_
    refine (ih.optional ws (by omega)).bind fun bs test ws ht hws => ?_
    refine .expect rfl fun p ws hp hws => ?_
    refine (ih.optional ws (by omega)).bind fun cs step ws hs hws => ?_
    refine .expect rfl fun c ws hc hws => ?_
    refine (ih.statement ws (by omega)).bind fun ds body ws hb _ => ?_
    refine .pure (Stmt.mk t.line (.circuit init test step body)) ws ⟨?_, hb.2⟩
    simpa using .circuit hk ho hi ht hp hs hc hb.1
  case h_5 =>
    refine (ih.optional vs (by omega)).bind fun as e ws he _ => ?_
    refine .expect rfl fun p xs hp _ => .pure (Stmt.mk t.line (.ret e)) xs ?_
    exact ⟨.ret hk he hp, fun _ => rfl⟩
  case h_6 =>
    refine .expect rfl fun o ws ho hws => (ih.expr ws (by omega)).bind fun as e xs he _ => ?_
    refine .expect rfl fun c ys hc _ => .expect rfl fun p zs hp _ => ?_
    refine .pure (Stmt.mk t.line (.expr (.call (.variable printer) [e]))) zs ⟨?_, fun _ => rfl⟩
    simpa using Phrase.print hk (.condition ho he hc) hp
  case h_7 =>
    refine (ih.expr vs (by omega)).bind fun as e ws he _ => .expect rfl fun p xs hp _ => ?_
    exact .pure (Stmt.mk t.line (.load e)) xs ⟨.load hk he hp, fun _ => rfl⟩
  case h_8 =>
    refine reads_braced ih vs (by omega) (by omega) fun as body ws hp hws => ?_
    refine (ih.handler ws (by omega)).bind fun bs handler xs hq hxs => ?_
    refine (ih.finalizer xs (by omega)).bind fun cs finalizer ys hr _ => ?_
    refine .pure (Stmt.mk t.line (.attempt body handler.1 handler.2 finalizer)) ys ?_
    exact ⟨by simpa using .attempt hk hp hq hr, fun _ => rfl⟩
  case h_9 =>
    refine .expect rfl fun p ws hp _ => .pure (Stmt.mk t.line .leave) ws ?_
    exact ⟨.leave hk hp, fun _ => rfl⟩
  case h_10 =>
    refine .expect rfl fun p ws hp _ => .pure (Stmt.mk t.line .skip) ws ?_
    exact ⟨.skip hk hp, fun _ => rfl⟩

end Step

theorem readsAt (w : Sources) (n : Nat) : w.ReadsAt n := by
  induction n with
  | zero =>
    -- The bound is never enough.
    constructor
    case level =>
      intro us l hl hn
      simp only [levelCount] at hl
      omega
    all_goals
      intros
      omega
  | succ n ih =>
    exact
      { expr := parseExpr_reads ih
        level := fun us _ => parseLevel_reads ih us
        operands := fun us _ _ _ => parseOperands_reads ih us
        power := parsePower_reads ih
        unary := parseUnary_reads ih
        suffixes := fun us _ _ => parseSuffixes_reads ih us
        items := fun us _ _ => parseItems_reads ih us
        moreItems := fun us _ _ => parseMoreItems_reads ih us
        primary := parsePrimary_reads ih
        names := parseNames_reads ih
        body := parseBody_reads ih
        declaration := parseDeclaration_reads ih
        letDecl := fun us _ => parseLet_reads ih us
        condition := fun us _ => parseCondition_reads ih us
        optional := fun us _ => parseUnless_reads ih us
        init := parseInit_reads ih
        handler := parseHandler_reads ih
        finalizer := parseFinalizer_reads ih
        statement := parseStatement_reads ih
        declarations := parseDeclarations_reads ih }

/-! ## Bounds

A source is set beside itself, with a larger bound.
-/

section Beside

variable {z : Token} {p : Nat → Parser α} {c c' : Cursor}

/-- A source beside itself. The second one has a larger bound. -/
def beside (hz : z.kind = .eof) (extra : Nat) : Sources :=
  ⟨id, id, z, [z], extra, True, ⟨fun _ => rfl, fun _ => rfl⟩, hz, fun _ => rfl⟩

theorem Comes.twin {w : Sources} {Q : List Token → α → List Token → Prop}
    {r r' : Except Halt (α × Cursor)} (hr : w.Comes g us Q c c' r r') (hw : w.twins) :
    (∃ a as vs, us = as ++ vs ∧ Q as a vs ∧ r = .ok (a, c.skip as.length) ∧
      r' = .ok (g a, c'.skip as.length)) ∨
    ∃ cause, ∃ t ∈ w.first us, r = .error (.at cause t) ∧ r' = .error (.at cause (w.move t)) := by
  cases hr with
  | ended a _ ha h => exact .inl ⟨a, us, [], by simp, ha, rfl, h hw⟩
  | stuck cause _ _ h => exact .inr ⟨cause, w.last, by simp [first], rfl, h hw⟩
  | goes a v heq ha => exact .inl ⟨a, _, _, heq, ha, rfl, rfl⟩
  | wrong cause ht => exact .inr ⟨cause, _, by simp [first, ht], rfl, rfl⟩

/-- A larger bound makes no difference. -/
theorem runs_beside (hz : z.kind = .eof) (hg : ∀ a, g a = a)
    {Q : List Token → α → List Token → Prop}
    (hread : ∀ extra, (beside hz extra).Runs g n us Q p) (hc : c.rest = us ++ [z]) :
    (∃ a as vs, us = as ++ vs ∧ Q as a vs ∧ ∀ m, n ≤ m → p m c = .ok (a, c.skip as.length)) ∨
    ∃ cause, ∃ t ∈ us ++ [z], ∀ m, n ≤ m → p m c = .error (.at cause t) := by
  have hsecond : ∀ extra, c.rest = (beside hz extra).second us := fun _ => by
    simpa [second, beside] using hc
  obtain ⟨a, as, vs, heq, ha, hr, -⟩ | ⟨cause, t, ht, hr, -⟩ :=
    (hread 0 c c hc (hsecond 0)).twin trivial
  · refine .inl ⟨a, as, vs, heq, ha, fun m hm => ?_⟩
    obtain ⟨b, bs, ws, -, -, hb, hb'⟩ | ⟨_, _, -, he, -⟩ :=
      (hread (m - n) c c hc (hsecond _)).twin trivial
    · rw [hg, ← hb, hr] at hb'
      rwa [← Nat.sub_add_cancel hm]
    · cases hr.symm.trans he
  · refine .inr ⟨cause, t, ht, fun m hm => ?_⟩
    obtain ⟨_, _, _, -, -, hb, -⟩ | ⟨_, _, -, he, he'⟩ :=
      (hread (m - n) c c hc (hsecond _)).twin trivial
    · cases hr.symm.trans hb
    · rw [← Nat.sub_add_cancel hm]
      exact he'.trans (he.symm.trans hr)

end Beside

/-! ## Whole sources -/

/-- What the parser makes of the tokens `us` and the end: the program that they are, an error at the
end where more words complete a program, or an error at one of them. The second source is the same
program or has the same error, unless the first one ends too early. -/
inductive Concludes (w : Sources) (us : List Token) :
    Except Halt (List Stmt) → Except Halt (List Stmt) → Prop where
  | program (p : List Stmt) (r' : Except Halt (List Stmt)) : Phrase .declarations us p →
      (w.twins → r' = .ok (relinedBody w.line p)) → Concludes w us (.ok p) r'
  | stuck (cause : ParseCause) (r' : Except Halt (List Stmt)) :
      Completable (fun ts => ∃ p, Phrase .declarations ts p) us →
      (w.twins → r' = .error (.at cause (w.move w.last))) →
      Concludes w us (.error (.at cause w.last)) r'
  | wrong (cause : ParseCause) {t : Token} : t ∈ us →
      Concludes w us (.error (.at cause t)) (.error (.at cause (w.move t)))

theorem parseTokens_eq (ts : List Token) :
    parseTokens ts =
      (parseDeclarations (16 * ts.length + 16) ⟨ts.toArray, 0⟩).map Prod.fst := rfl

theorem parseTokens_concludes (w : Sources) (hextra : w.extra = 16 * (w.rest.length - 1)) (hrest : w.rest ≠ [])
    (hus : ∀ u ∈ us, u.kind ≠ .eof) :
    w.Concludes us (parseTokens (w.first us)) (parseTokens (w.second us)) := by
  have hpos : 0 < w.rest.length := List.length_pos_iff.2 hrest
  have hbound : 16 * (w.second us).length + 16 = w.extra + (16 * (w.first us).length + 16) := by
    simp only [first, second, List.length_append, List.length_map, List.length_singleton]
    omega
  have hread := (w.readsAt (16 * (w.first us).length + 16)).declarations us
    (by simp [first]; omega) ⟨(w.first us).toArray, 0⟩ ⟨(w.second us).toArray, 0⟩ rfl rfl
  rw [← hbound] at hread
  rw [parseTokens_eq, parseTokens_eq]
  generalize parseDeclarations _ ⟨(w.first us).toArray, 0⟩ = r,
    parseDeclarations _ ⟨(w.second us).toArray, 0⟩ = r' at hread ⊢
  cases hread with
  | ended p _ hp hw => exact .program p _ hp.1 fun h => by rw [hw h]; rfl
  | stuck cause _ hc hw =>
    obtain ⟨ks, hks, p, hp⟩ := hc
    exact .stuck cause _ ⟨ks, hks, p, hp.1⟩ fun h => by rw [hw h]; rfl
  | goes p v heq hp => exact absurd hp.2 (hus v (by simp [heq]))
  | wrong cause ht => exact .wrong cause ht

end Sources

structure IsEnd (z : Token) : Prop where
  kind : z.kind = .eof
  lexeme : z.lexeme = ""

variable {f : Token → Token} {φ : Int → Int} {z : Token} {us rest : List Token}

/-- The parser finds the program that the tokens are, an error at one of them, or an error at the
end where more words complete a program. -/
theorem parseTokens_cases (hz : z.kind = .eof) (hus : ∀ u ∈ us, u.kind ≠ .eof) :
    (∃ p, parseTokens (us ++ [z]) = .ok p ∧ Phrase .declarations us p) ∨
    (∃ cause, ∃ t ∈ us, parseTokens (us ++ [z]) = .error (.at cause t)) ∨
    ∃ cause, parseTokens (us ++ [z]) = .error (.at cause z) ∧
      Completable (fun ts => ∃ p, Phrase .declarations ts p) us := by
  have hread := (Sources.beside hz 0).parseTokens_concludes rfl (by simp [Sources.beside]) hus
  change Sources.Concludes _ us (parseTokens (us ++ [z])) _ at hread
  generalize parseTokens (us ++ [z]) = r, parseTokens ((Sources.beside hz 0).second us) = r'
    at hread
  cases hread with
  | program p _ hp => exact .inl ⟨p, rfl, hp⟩
  | wrong cause ht => exact .inr (.inl ⟨cause, _, ht, rfl⟩)
  | stuck cause _ hc => exact .inr (.inr ⟨cause, rfl, hc⟩)

/-- An error before the end stays whatever the source goes on with. -/
theorem parseTokens_error_append (hz : IsEnd z) (hus : ∀ u ∈ us, u.kind ≠ .eof) (hrest : rest ≠ [])
    {e : ParseError} (he : e.lexeme ≠ "") (h : parseTokens (us ++ [z]) = .error (.wrong e)) :
    parseTokens (us ++ rest) = .error (.wrong e) := by
  let w : Sources := ⟨id, id, z, rest, 16 * (rest.length - 1), False,
    ⟨fun _ => rfl, fun _ => rfl⟩, hz.kind, False.elim⟩
  have hsecond : w.second us = us ++ rest := congrArg (· ++ rest) (List.map_id us)
  have hread : w.Concludes us (parseTokens (us ++ [z])) (parseTokens (us ++ rest)) :=
    hsecond ▸ w.parseTokens_concludes rfl hrest hus
  rw [h] at hread
  generalize parseTokens (us ++ rest) = r' at hread ⊢
  cases hread with
  | stuck => exact absurd hz.lexeme he
  | wrong cause ht => rfl

/-- Where the tokens are moved, there is the same program up to the lines of statements, or the same
error at the same word. -/
theorem parseTokens_relined (hf : Relines f φ) (hz : z.kind = .eof)
    (hus : ∀ u ∈ us, u.kind ≠ .eof) :
    (∃ p, parseTokens (us ++ [z]) = .ok p ∧
      parseTokens ((us ++ [z]).map f) = .ok (relinedBody φ p)) ∨
    ∃ e e', parseTokens (us ++ [z]) = .error (.wrong e) ∧
      parseTokens ((us ++ [z]).map f) = .error (.wrong e') ∧
      e'.cause = e.cause ∧ e'.lexeme = e.lexeme := by
  let w : Sources := ⟨f, φ, z, [f z], 0, True, hf, hz, fun _ => rfl⟩
  have hsecond : w.second us = (us ++ [z]).map f := by simp [w, Sources.second]
  have hread : w.Concludes us (parseTokens (us ++ [z])) (parseTokens ((us ++ [z]).map f)) :=
    hsecond ▸ w.parseTokens_concludes rfl (by simp [w]) hus
  generalize parseTokens (us ++ [z]) = r, parseTokens ((us ++ [z]).map f) = r' at hread ⊢
  cases hread with
  | program p _ _ hp => exact .inl ⟨p, rfl, hp trivial⟩
  | stuck cause _ _ he => exact .inr ⟨_, _, rfl, he trivial, rfl, w.lexeme_move z⟩
  | wrong cause => exact .inr ⟨_, _, rfl, rfl, rfl, w.lexeme_move _⟩

/-- A token with the word that stands nowhere. -/
def unplaced (w : Word) : Token := ⟨w.kind, w.lexeme, w.literal, 0, 0⟩

theorem relines_unplaced : Relines (unplaced ∘ Token.word) fun _ => 0 :=
  ⟨fun _ => rfl, fun _ => rfl⟩

/-- The same words are the same program up to its lines, or have the same error. -/
theorem parseTokens_of_words {us' : List Token} {z' : Token} (hz : z.kind = .eof)
    (hz' : z'.kind = .eof) (hus : ∀ u ∈ us, u.kind ≠ .eof) (hus' : ∀ u ∈ us', u.kind ≠ .eof)
    (h : (us ++ [z]).map Token.word = (us' ++ [z']).map Token.word) :
    (∃ p p', parseTokens (us ++ [z]) = .ok p ∧ parseTokens (us' ++ [z']) = .ok p' ∧
      unlinedBody p = unlinedBody p') ∨
    ∃ e e', parseTokens (us ++ [z]) = .error (.wrong e) ∧
      parseTokens (us' ++ [z']) = .error (.wrong e') ∧
      e.cause = e'.cause ∧ e.lexeme = e'.lexeme := by
  have hunplaced : (us ++ [z]).map (unplaced ∘ Token.word) =
      (us' ++ [z']).map (unplaced ∘ Token.word) := by
    simpa using congrArg (List.map unplaced) h
  have hfirst := parseTokens_relined relines_unplaced hz hus
  have hsecond := parseTokens_relined relines_unplaced hz' hus'
  rw [hunplaced] at hfirst
  obtain ⟨p, hp, hq⟩ | ⟨e, e₀, he, he₀, hcause, hlexeme⟩ := hfirst <;>
  obtain ⟨p', hp', hq'⟩ | ⟨e', e₁, he', he₁, hcause', hlexeme'⟩ := hsecond
  · refine .inl ⟨p, p', hp, hp', ?_⟩
    rw [← relinedBody_zero, ← relinedBody_zero]
    exact Except.ok.inj (hq.symm.trans hq')
  · cases hq.symm.trans he₁
  · cases hq'.symm.trans he₀
  · cases he₀.symm.trans he₁
    exact .inr ⟨e, e', he, he', hcause.symm.trans hcause', hlexeme.symm.trans hlexeme'⟩

end Hantec.Grammar
