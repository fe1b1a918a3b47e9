import Hantec.Proofs.Grammar.Exactness
import Hantec.Proofs.Print.Words

/-!
# Written programs are read back

The text of a well-formed program has the tokens of its words, and the grammar has the program as
their tree, up to the lines. So parsing gives the program back.
-/

namespace Hantec

open Grammar Print

variable {numeral : Float → String} {e : Expr} {l : Int} {s : Stmt} {n : String} {body : List Stmt}

/-! ## Operators -/

theorem level_of_mem_all : ∀ op ∈ BinaryOp.all,
    op = .pow ∨ ∃ l ∈ List.range levelCount, (op.kind, op) ∈ leftLevels.getD l [] := by
  decide

/-- Operands in parentheses may stand on both sides of every operator. -/
theorem Grammar.Phrase.operator {ts us : List Token} {t : Token} {op : BinaryOp} {a b : Expr}
    (hop : op ∈ BinaryOp.all) (ht : t.kind = op.kind) (ha : Phrase .primary ts a)
    (hb : Phrase .primary us b) : Phrase .expr (ts ++ t :: us) (Expr.binary op a b) := by
  obtain rfl | ⟨l, hl, hlevel⟩ := level_of_mem_all op hop
  · have hpower : Phrase .power (ts ++ t :: us) (Expr.binary .pow a b) :=
      .power (.operand (.primary ha)) ht (.base (.operand (.primary hb)))
    exact .loosest (hpower.level_of_power (Nat.zero_le _))
  · rw [List.mem_range] at hl
    have hbinary : Phrase (.level l) (ts ++ t :: us) (Expr.binary op a b) :=
      .binary (ha.level (Nat.le_of_lt hl)) (ht ▸ hlevel) (hb.level hl)
    exact .loosest (.loosen ((Nat.zero_add l).symm ▸ hbinary) (by omega))

theorem Stmt.endsOpen_unlined (s : Stmt) : s.unlined.endsOpen = s.endsOpen := by
  fun_induction Stmt.endsOpen s with
  | case1 => rfl
  | case2 l e yes s ih => exact ih
  | case3 l e s ih => exact ih
  | case4 l init test step s ih => exact ih
  | case5 s h1 h2 h3 h4 =>
    obtain ⟨l, f⟩ := s
    cases f with
    | cond e yes no =>
      cases no with
      | none => exact (h1 l e yes rfl).elim
      | some s => exact (h2 l e yes s rfl).elim
    | loop e s => exact (h3 l e s rfl).elim
    | circuit init test step s => exact (h4 l init test step s rfl).elim
    | _ => rfl

/-! ## The words of a tree -/

variable (numeral) in
/-- The words of a part of a program. -/
def treeWords : (x : Symbol) → x.Tree → List Word
  | .expr, e => e.grouped (e.words numeral)
  | .items, es => commas (itemWords numeral es)
  | .optional, e => optionalWords numeral e
  | .declarations, ss => bodyWords numeral ss
  | .declaration, s | .letDecl, s | .statement, s => s.words numeral
  | .init, s => initWords numeral s
  | .handler, (n, body) => handlerWords numeral n body
  | .finalizer, body => finalizerWords numeral body
  | _, _ => []

theorem IsName.ne_printer (h : IsName n) : n ≠ printer := by
  rintro rfl
  exact absurd h.2 (by decide)

/-- The printer is called only in statements of its own. -/
theorem WellFormed.isPrint (h : WellFormed .expr e) : e.isPrint = false := by
  cases h with
  | call hf _ =>
    cases hf with
    | ident hn =>
      unfold Expr.isPrint
      split
      case h_1 heq =>
        cases heq
        simpa using hn.ne_printer
      case h_2 => rfl
    | _ => rfl
  | _ => rfl

theorem WellFormed.words_expr (h : WellFormed .expr e) :
    (Form.expr e).words numeral = e.grouped (e.words numeral) ++ [.fixed .pica] := by
  simp [Form.words, h.isPrint]

theorem words_print (e : Expr) :
    (Form.expr (.call (.variable printer) [e])).words numeral =
      .fixed .vyblij :: (parens (e.grouped (e.words numeral)) ++ [.fixed .pica]) := by
  simp [Form.words, Expr.words, Expr.isPrint, Expr.grouped, Expr.isAtom, itemWords, commas]

/-! ## Standing words -/

def Standing (ws : List Word) : Prop := ∀ w ∈ ws, w.Stands

@[simp] theorem standing_nil : Standing [] := by simp [Standing]

@[simp] theorem standing_cons {w : Word} {ws : List Word} :
    Standing (w :: ws) ↔ w.Stands ∧ Standing ws := by
  simp [Standing]

@[simp] theorem standing_append {ws vs : List Word} :
    Standing (ws ++ vs) ↔ Standing ws ∧ Standing vs := by
  simp [Standing, or_imp, forall_and]

@[simp] theorem standing_parens {ws : List Word} : Standing (parens ws) ↔ Standing ws := by
  simp [parens, TokenKind.isFixed]

@[simp] theorem standing_braces {ws : List Word} : Standing (braces ws) ↔ Standing ws := by
  simp [braces, TokenKind.isFixed]

@[simp] theorem standing_grouped {ws : List Word} :
    Standing (e.grouped ws) ↔ Standing ws := by
  unfold Expr.grouped
  split <;> simp

theorem standing_commas {wss : List (List Word)} :
    Standing (commas wss) ↔ ∀ ws ∈ wss, Standing ws := by
  fun_induction commas wss <;> simp_all [TokenKind.isFixed]

theorem standing_names {ns : List String} (h : ∀ n ∈ ns, IsName n) : Standing (names ns) := by
  simp only [names, standing_parens, standing_commas, List.mem_map]
  rintro _ ⟨n, hn, rfl⟩
  simpa using Word.stands_name (h n hn)

theorem BinaryOp.isFixed_kind : ∀ op ∈ BinaryOp.all, op.kind.isFixed = true := by decide

theorem UnaryOp.isFixed_kind : ∀ op ∈ [UnaryOp.not, .neg], op.kind.isFixed = true := by decide

theorem StepOp.isFixed_kind (op : StepOp) : op.kind.isFixed = true := by cases op <;> rfl

theorem WellFormed.standing (hnum : WritesNumbers numeral) {x : Symbol} {tree : x.Tree}
    (h : WellFormed x tree) : Standing (treeWords numeral x tree) := by
  induction h with
  | @bool b => cases b <;> simp [treeWords, Expr.words, Constant.words, TokenKind.isFixed]
  | num hx =>
    simpa [treeWords, Expr.words, Constant.words] using Word.stands_numeral (hnum _ ⟨_, hx⟩)
  | ident hn => simpa [treeWords, Expr.words, hn.ne_printer] using Word.stands_name hn
  | unary hop _ ih => simpa [treeWords, Expr.words, UnaryOp.isFixed_kind _ hop] using ih
  | binary hop _ _ iha ihb =>
    simp_all [treeWords, Expr.words, BinaryOp.isFixed_kind _ hop]
  | step hn => simp [treeWords, Expr.words, Word.stands_name hn, StepOp.isFixed_kind]
  | @declare l n e hn _ ih =>
    cases e <;> simp_all [treeWords, Stmt.words, Form.words, valueWords, optionalWords,
      Word.stands_name, TokenKind.isFixed]
  | expr he ih => simpa [treeWords, Stmt.words, he.words_expr, TokenKind.isFixed] using ih
  | print he ih => simpa [treeWords, Stmt.words, words_print, TokenKind.isFixed] using ih
  | exprInit he ih =>
    simpa [treeWords, initWords, Stmt.words, he.words_expr, TokenKind.isFixed] using ih
  | @handler n body hn _ ih =>
    cases n <;> simp_all [treeWords, handlerWords, Word.stands_name, TokenKind.isFixed]
  | _ =>
    simp_all [treeWords, Expr.words, Constant.words, itemWords, optionalWords, bodyWords,
      Stmt.words, Form.words, branchWords, initWords, handlerWords, finalizerWords,
      standing_commas, standing_names, Word.stands_name, Word.stands_quoted, TokenKind.isFixed]

/-! ## Phrases

The places of tokens do not matter, so the words are read with tokens that stand nowhere.
-/

variable {ws : List Word}

variable (numeral) in
/-- What is written reads as itself. -/
def Readable : (x : Symbol) → x.Tree → Prop
  | .expr, e => Phrase .primary ((e.grouped (e.words numeral)).map unplaced) e.unlined
  | .items, es => Phrase .items ((commas (itemWords numeral es)).map unplaced) (unlinedItems es)
  | .optional, e => Phrase .optional ((optionalWords numeral e).map unplaced) (unlinedExpr? e)
  | .declarations, ss =>
    Phrase .declarations ((bodyWords numeral ss).map unplaced) (unlinedBody ss)
  | .declaration, s => Phrase .declaration ((s.words numeral).map unplaced) s.unlined
  | .letDecl, s => Phrase .letDecl ((s.words numeral).map unplaced) s.unlined
  | .statement, s => Phrase .statement ((s.words numeral).map unplaced) s.unlined
  | .init, s => Phrase .init ((initWords numeral s).map unplaced) (unlinedStmt? s)
  | .handler, (n, body) =>
    Phrase .handler ((handlerWords numeral n body).map unplaced) (n, unlinedBody? body)
  | .finalizer, body =>
    Phrase .finalizer ((finalizerWords numeral body).map unplaced) (unlinedBody? body)
  | _, _ => True

theorem firstLine_map : firstLine (ws.map unplaced) = 0 := by cases ws <;> rfl

theorem map_parens : (parens ws).map unplaced =
    unplaced (.fixed .leftParen) :: (ws.map unplaced ++ [unplaced (.fixed .rightParen)]) := by
  simp [parens]

theorem phrase_condition (h : Phrase .expr (ws.map unplaced) e) :
    Phrase .condition ((parens ws).map unplaced) e := by
  rw [map_parens]
  exact .condition rfl h rfl

theorem phrase_braced (h : Phrase .declarations (ws.map unplaced) body) :
    Phrase .braced ((braces ws).map unplaced) body := by
  have hmap : (braces ws).map unplaced =
      unplaced (.fixed .leftBrace) :: (ws.map unplaced ++ [unplaced (.fixed .rightBrace)]) := by
    simp [braces]
  rw [hmap]
  exact .braced rfl h rfl

theorem phrase_params (ns : List String) : Phrase .params ((names ns).map unplaced) ns := by
  rw [names, map_parens]
  cases ns with
  | nil => exact .noParams rfl rfl
  | cons n ns =>
    refine .params rfl ?_ rfl
    induction ns generalizing n with
    | nil => exact .lastName rfl
    | cons m ns ih => exact .nextName rfl rfl (ih m)

theorem Grammar.Phrase.of_some {ts : List Token} (h : Phrase .optional ts (some e)) :
    Phrase .expr ts e := by
  cases h with
  | present h => exact h

theorem Grammar.Phrase.of_cons {ts : List Token} {es : List Expr}
    (h : Phrase .items ts (e :: es)) : Phrase .someItems ts (e :: es) := by
  cases h with
  | items h => exact h

theorem Grammar.Phrase.postfixedExpr {ts : List Token} (h : Phrase .postfixed ts e) :
    Phrase .expr ts e :=
  .loosest (.level_of_power (.base (.operand h)) (Nat.zero_le _))

variable (numeral) in
/-- No expression is written with `rob` in front, since functions stand in parentheses. -/
theorem WellFormed.exists_first_word (h : WellFormed .expr e) :
    ∃ w ws, e.grouped (e.words numeral) = w :: ws ∧ w.kind ≠ .rob := by
  cases h with
  | @bool b => cases b <;> exact ⟨_, _, rfl, by decide⟩
  | num => exact ⟨_, _, rfl, by simp [Word.numeral]⟩
  | str => exact ⟨_, _, rfl, by simp [Word.quoted]⟩
  | ident hn => exact ⟨_, _, rfl, by simp [Word.name, hn.ne_printer]⟩
  | _ => exact ⟨_, _, rfl, by decide⟩

variable (numeral) in
theorem WellFormed.statement_first_word (h : WellFormed .statement s) :
    ∃ w ws, s.words numeral = w :: ws ∧ w.kind ≠ .rob := by
  cases h with
  | expr he =>
    obtain ⟨w, ws, hw, hk⟩ := he.exists_first_word numeral
    exact ⟨w, ws ++ [.fixed .pica], by rw [Stmt.words, he.words_expr, hw]; rfl, hk⟩
  | _ => exact ⟨_, _, rfl, by decide⟩

/-- Every well-formed part of a program reads as itself. -/
theorem WellFormed.readable {x : Symbol} {tree : x.Tree} (h : WellFormed x tree) :
    Readable numeral x tree := by
  induction h with
  | null => exact .null rfl
  | @bool b =>
    cases b
    · exact .falsity rfl
    · exact .truth rfl
  | num => exact .literal (.inl rfl)
  | str => exact .literal (.inr rfl)
  | @ident n hn =>
    have hwords : (Expr.variable n).grouped ((Expr.variable n).words numeral) = [.name n] := by
      simp [Expr.grouped, Expr.isAtom, Expr.words, hn.ne_printer]
    rw [Readable, hwords]
    exact .ident rfl
  | @assign n e _ _ ih =>
    have hname : Phrase (.level 0) [unplaced (.name n)] (Expr.variable n) :=
      .level (.ident rfl) (Nat.zero_le _)
    have hmem : ((unplaced (.fixed .equal)).kind, none) ∈ assignments := by decide
    exact .paren (phrase_condition (.assign hname hmem ih.expr))
  | unary hop _ ih =>
    have hops : ∀ op ∈ [UnaryOp.not, .neg], (op.kind, op) ∈ unaryOps := by decide
    refine .paren (phrase_condition (.loosest (.level_of_power (.base ?_) (Nat.zero_le _))))
    exact .unary (hops _ hop) (.operand (.primary ih))
  | binary hop _ _ iha ihb =>
    refine .paren (phrase_condition ?_)
    rw [Expr.words, List.map_append]
    exact .operator hop rfl iha ihb
  | call _ _ ihf ihargs =>
    refine .paren (phrase_condition (.postfixedExpr ?_))
    rw [Expr.words, List.map_append, map_parens]
    exact .call (.primary ihf) rfl ihargs rfl
  | @step n op =>
    refine .paren (phrase_condition (.postfixedExpr ?_))
    exact .step (.primary (.ident rfl)) (by cases op <;> decide)
  | member _ _ ih =>
    refine .paren (phrase_condition (.postfixedExpr ?_))
    rw [Expr.words, List.map_append]
    exact .member (.primary ih) rfl rfl
  | function _ _ ih =>
    refine .paren (phrase_condition (.expr ?_))
    rw [Expr.words, List.map_cons, List.map_append]
    exact .function rfl (phrase_params _) (phrase_braced ih)
  | noItems => exact .noItems
  | @nextItem e es _ _ ih ihs =>
    cases es with
    | nil => exact .items (.lastItem ih.expr)
    | cons f es =>
      rw [Readable, itemWords, itemWords, commas, List.map_append]
      exact .items (.nextItem ih.expr rfl (.of_cons ihs))
  | absent => exact .absent
  | present _ ih => exact .present ih.expr
  | noDeclarations => exact .noDeclarations
  | nextDeclaration _ _ ih ihs =>
    rw [Readable, bodyWords, List.map_append]
    exact .nextDeclaration ih ihs
  | @declare l n e _ _ ih =>
    cases e with
    | none => exact .declareNull rfl rfl rfl
    | some e =>
      rw [Readable, Stmt.words, Form.words, valueWords]
      simp only [List.map_cons, List.map_append, List.cons_append]
      exact .declare rfl rfl rfl (.of_some ih) rfl
  | letDecl _ ih => exact .letDecl ih
  | define _ _ _ ih =>
    rw [Readable, Stmt.words, Form.words, List.map_cons, List.map_cons, List.map_append]
    exact .define rfl rfl (phrase_params _) (phrase_braced ih)
  | statement hs ih =>
    obtain ⟨w, ws, hw, hk⟩ := hs.statement_first_word numeral
    simp only [Readable, hw] at ih ⊢
    exact .statement ih hk
  | expr he ih =>
    have hline := Phrase.exprStmt (p := unplaced (.fixed .pica)) ih.expr rfl
    rw [firstLine_map] at hline
    rwa [Readable, Stmt.words, he.words_expr, List.map_append]
  | print _ ih =>
    rw [Readable, Stmt.words, words_print, List.map_cons, List.map_append]
    exact .print rfl (phrase_condition ih.expr) rfl
  | block _ ih => exact .block (phrase_braced ih)
  | cond _ _ ihe ihyes =>
    rw [Readable, Stmt.words, Form.words, branchWords, List.append_nil, List.map_cons,
      List.map_append]
    exact .cond rfl (phrase_condition ihe.expr) ihyes
  | condElse _ _ hopen _ ihe ihyes ihno =>
    rw [Readable, Stmt.words, Form.words, branchWords]
    simp only [List.map_cons, List.map_append]
    refine .condElse rfl (phrase_condition ihe.expr) ihyes ?_ rfl ihno
    exact (Stmt.endsOpen_unlined _).trans hopen
  | loop _ _ ihe ihs =>
    rw [Readable, Stmt.words, Form.words, List.map_cons, List.map_append]
    exact .loop rfl (phrase_condition ihe.expr) ihs
  | noInit => exact .noInit rfl
  | letInit _ ih => exact .letInit ih
  | exprInit he ih =>
    have hline := Phrase.exprInit (p := unplaced (.fixed .pica)) ih.expr rfl
    rw [firstLine_map] at hline
    rwa [Readable, initWords, Stmt.words, he.words_expr, List.map_append]
  | circuit _ _ _ _ ihi iht ihst ihs =>
    rw [Readable, Stmt.words, Form.words]
    simp only [List.map_cons, List.map_append]
    exact .circuit rfl rfl ihi iht rfl ihst rfl ihs
  | ret _ ih =>
    rw [Readable, Stmt.words, Form.words, List.map_cons, List.map_append]
    exact .ret rfl ih rfl
  | load _ ih =>
    rw [Readable, Stmt.words, Form.words, List.map_cons, List.map_append]
    exact .load rfl ih.expr rfl
  | noHandler => exact .noHandler
  | @handler n body _ _ ih =>
    rw [Readable, handlerWords, List.map_cons, List.map_append, map_parens]
    cases n with
    | none => exact .handler rfl rfl rfl (phrase_braced ih)
    | some n => exact .namedHandler rfl rfl rfl rfl (phrase_braced ih)
  | noFinalizer => exact .noFinalizer
  | finalizer _ ih => exact .finalizer rfl (phrase_braced ih)
  | attempt _ _ _ ihb ihh ihf =>
    rw [Readable, Stmt.words, Form.words]
    simp only [List.map_cons, List.map_append]
    exact .attempt rfl (phrase_braced ihb) ihh ihf
  | leave => exact .leave rfl rfl
  | skip => exact .skip rfl rfl

/-- The text of a well-formed program is read as that program. -/
theorem parseProgram_writtenText (hnum : WritesNumbers numeral) {p : List Stmt}
    (h : WellFormed .declarations p) :
    ∃ q, parseProgram (writtenText numeral p) = .ok q ∧ unlinedBody q = unlinedBody p := by
  obtain ⟨ts, t, htokens, ht, hwords⟩ := tokenize_textOf (h.standing hnum)
  have htokens : tokenize (writtenText numeral p) = .ok (ts ++ [t]) := htokens
  obtain ⟨us, z, heq, -, hus⟩ := tokenize_ends htokens
  obtain ⟨rfl, -⟩ := List.append_inj' heq rfl
  have hparse : parseTokens ((ts ++ [t]).map (unplaced ∘ Token.word)) = .ok (unlinedBody p) := by
    refine parseTokens_complete ⟨ts.map (unplaced ∘ Token.word), unplaced t.word, by simp, ht, ?_⟩
    rw [← List.map_map, hwords]
    exact h.readable
  obtain ⟨q, hq, hsame⟩ | ⟨_, _, -, he, -⟩ := parseTokens_relined relines_unplaced ht hus
  · refine ⟨q, ?_, ?_⟩
    · rw [parseProgram, htokens]
      simp only [hq]
    · rw [← relinedBody_zero]
      exact Except.ok.inj (hsame.symm.trans hparse)
  · cases he.symm.trans hparse

end Hantec
