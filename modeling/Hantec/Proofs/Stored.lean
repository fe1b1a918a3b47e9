import Hantec.Program.Tree
import Hantec.Proofs.Json.RoundTrip
import Hantec.Proofs.Print.Image
import Hantec.Proofs.Scan.Tiling
import Hantec.Proofs.Tree

/-!
# Stored programs

A program that is written to a syntax file is read back as it was: its tree, the JSON value of the
tree and the text of the value all determine it.
-/

namespace Hantec

/-! ## Trees -/

namespace Tree

/-- The trees that are read back: their whole numbers do not have too many digits, their nodes have
all their fields, and no literal is a whole number. -/
inductive Storable : Tree → Prop where
  | null : Storable .null
  | bool (b : Bool) : Storable (.bool b)
  | int {i : Int} : (Nat.toDigits 10 i.natAbs).length ≤ Json.digitLimit → Storable (.int i)
  | num (x : Float) : Storable (.num x)
  | str (s : String) : Storable (.str s)
  | list {ts : List Tree} : (∀ t ∈ ts, Storable t) → Storable (.list ts)
  | node {k : NodeKind} {ts : List Tree} :
      ts.length = k.fields.length → (∀ i, k = .literal → ts ≠ [.int i]) →
      (∀ t ∈ ts, Storable t) → Storable (.node k ts)

variable {t : Tree}

/-- The text of the JSON value of a storable tree reads back. -/
theorem Storable.readable (h : t.Storable) : t.toJson.Readable := by
  induction h with
  | null => exact .null
  | bool b => exact .bool b
  | int hi => exact .int hi
  | num x => exact .num x
  | str s => exact .str s
  | list _ ih =>
    rw [toJson, toItems_eq_map]
    refine .arr fun j hj => ?_
    obtain ⟨t, ht, rfl⟩ := List.mem_map.mp hj
    exact ih t ht
  | @node k ts hlen _ _ ih =>
    refine .obj (nodup_keys hlen) fun e he => ?_
    obtain rfl | he := List.mem_cons.mp he
    · exact .str _
    · rw [toItems_eq_map] at he
      obtain ⟨t, ht, heq⟩ := List.mem_map.mp (List.of_mem_zip he).2
      rw [← heq]
      exact ih t ht

theorem Storable.normal (h : t.Storable) : t.Normal := by
  induction h with
  | null => exact .null
  | bool b => exact .bool b
  | int => exact .int _
  | num => exact .num _
  | str s => exact .str s
  | list _ ih => exact .list ih
  | node hlen hliteral _ ih => exact .node hlen hliteral ih

/-- A storable tree is found again in its JSON value. -/
theorem Storable.ofJson_toJson (h : t.Storable) : ofJson t.toJson = .ok t :=
  h.normal.ofJson_toJson

end Tree

/-! ## Programs -/

open Grammar

attribute [local simp] Expr.toTree exprTrees Stmt.toTree Form.toTree optExprTree optStmtTree
  optBodyTree stmtTrees Tree.toExpr Tree.toExprs Tree.toStmt Tree.toStmts Tree.toBody

theorem UnaryOp.ofText_text : ∀ op ∈ [UnaryOp.not, .neg], UnaryOp.ofText op.text = op := by decide

theorem BinaryOp.ofText_text : ∀ op ∈ BinaryOp.all, BinaryOp.ofText op.text = op := by decide

theorem StepOp.ofText_text (op : StepOp) : StepOp.ofText op.text = op := by cases op <;> rfl

namespace Tree

theorem toConstant?_toTree (c : Constant) : c.toTree.toConstant? = some c := by cases c <;> rfl

theorem toNames_namesTree (names : List String) : (namesTree names).toNames = names := by
  simp [namesTree, toNames, Function.comp_def, toName]

theorem toOptName_nameTree (name : Option String) : (nameTree name).toOptName = name := by
  cases name <;> rfl

theorem whenPresent_of_ne_null {α : Type} {t : Tree} (h : t ≠ .null) (a : α) :
    t.whenPresent a = some a := by
  cases t with
  | null => exact absurd rfl h
  | bool | int | num | str | list | node => rfl

end Tree

/-- What is written in a program is found again in its tree, wherever the tree stands. -/
def Restored : (x : Symbol) → x.Tree → Prop
  | .expr, e => ∀ place, Tree.toExpr place e.toTree = e
  | .items, es => ∀ place i, Tree.toExprs place i (exprTrees es) = es
  | .optional, e => ∀ place, (optExprTree e).whenPresent (Tree.toExpr place (optExprTree e)) = e
  | .declarations, ss => ∀ place i, Tree.toStmts place i (stmtTrees ss) = ss
  | .declaration, s | .letDecl, s | .statement, s => ∀ place, Tree.toStmt place s.toTree = s
  | .init, s => ∀ place, (optStmtTree s).whenPresent (Tree.toStmt place (optStmtTree s)) = s
  | .handler, h =>
    ∀ place, (optBodyTree h.2).whenPresent (Tree.toBody place (optBodyTree h.2)) = h.2
  | .finalizer, body =>
    ∀ place, (optBodyTree body).whenPresent (Tree.toBody place (optBodyTree body)) = body
  | _, _ => True

theorem Restored.someBody {ss : List Stmt} (h : Restored .declarations ss) (place : List Nat) :
    (optBodyTree (some ss)).whenPresent (Tree.toBody place (optBodyTree (some ss))) = some ss := by
  rw [optBodyTree, Tree.toBody, h]
  rfl

theorem Restored.exprStmt {e : Expr} (h : Restored .expr e) (line : Int) :
    Restored .statement (Stmt.mk line (.expr e)) := by
  intro place
  rw [Stmt.toTree, Form.toTree, Tree.toStmt, h]
  rfl

theorem Restored.call {f : Expr} {args : List Expr} (hf : Restored .expr f)
    (hargs : Restored .items args) : Restored .expr (.call f args) := by
  intro place
  rw [Expr.toTree, Tree.toExpr, hf, hargs]

theorem Restored.item {e : Expr} {es : List Expr} (h : Restored .expr e)
    (hs : Restored .items es) : Restored .items (e :: es) := by
  intro place i
  rw [exprTrees, Tree.toExprs, h, hs]

theorem WellFormed.expr_toTree_ne_null {e : Expr} (h : WellFormed .expr e) : e.toTree ≠ .null := by
  cases h <;> simp

theorem WellFormed.letDecl_toTree_ne_null {s : Stmt} (h : WellFormed .letDecl s) :
    s.toTree ≠ .null := by
  cases h
  simp

theorem WellFormed.statement_toTree_ne_null {s : Stmt} (h : WellFormed .statement s) :
    s.toTree ≠ .null := by
  cases h <;> simp

/-- Every well-formed program is found again in its tree. -/
theorem WellFormed.restored {x : Symbol} {tree : x.Tree} (h : WellFormed x tree) :
    Restored x tree := by
  induction h with
  | null | bool | num | str =>
    intro place
    simp only [Expr.toTree, Tree.toExpr, Tree.toConstant?_toTree]
  | ident =>
    intro place
    simp only [Expr.toTree, Tree.toExpr, Tree.toName]
  | step =>
    intro place
    simp only [Expr.toTree, Tree.toExpr, Tree.toName, StepOp.ofText_text]
  | assign _ _ ih | member _ _ ih =>
    intro place
    rw [Expr.toTree, Tree.toExpr, ih]
    rfl
  | unary hop _ ih =>
    intro place
    rw [Expr.toTree, Tree.toExpr, Tree.toName, UnaryOp.ofText_text _ hop, ih]
  | binary hop _ _ iha ihb =>
    intro place
    rw [Expr.toTree, Tree.toExpr, Tree.toName, BinaryOp.ofText_text _ hop, iha, ihb]
  | call _ _ ihf ihargs => exact ihf.call ihargs
  | function _ _ ih =>
    intro place
    rw [Expr.toTree, Tree.toExpr, Tree.toNames_namesTree, Tree.toBody, ih]
  | noItems | noDeclarations => exact fun _ _ => rfl
  | absent | noInit | noHandler | noFinalizer => exact fun _ => rfl
  | nextItem _ _ ih ihs => exact ih.item ihs
  | nextDeclaration _ _ ih ihs =>
    intro place i
    rw [stmtTrees, Tree.toStmts, ih, ihs]
  | present he ih =>
    intro place
    rw [optExprTree, ih, Tree.whenPresent_of_ne_null he.expr_toTree_ne_null]
  | letDecl _ ih | statement _ ih => exact ih
  | letInit hs ih =>
    intro place
    rw [optStmtTree, ih, Tree.whenPresent_of_ne_null hs.letDecl_toTree_ne_null]
  | exprInit _ ih =>
    intro place
    rw [optStmtTree, ih.exprStmt]
    rfl
  | handler _ _ ih | finalizer _ ih => exact ih.someBody
  | declare _ _ ih | ret _ ih | load _ ih =>
    intro place
    rw [Stmt.toTree, Form.toTree, Tree.toStmt, ih]
    rfl
  | define _ _ _ ih =>
    intro place
    rw [Stmt.toTree, Form.toTree, Tree.toStmt, Tree.toNames_namesTree, Tree.toBody, ih]
    rfl
  | expr _ ih => exact ih.exprStmt _
  | print _ ih =>
    have hprinter : Restored .expr (.variable printer) := fun _ => rfl
    exact (hprinter.call (ih.item fun _ _ => rfl)).exprStmt _
  | block _ ih =>
    intro place
    rw [Stmt.toTree, Form.toTree, Tree.toStmt, Tree.toBody, ih]
    rfl
  | cond _ _ ihe ihyes =>
    intro place
    rw [Stmt.toTree, Form.toTree, Tree.toStmt, ihe, ihyes]
    rfl
  | condElse _ _ _ hno ihe ihyes ihno =>
    intro place
    rw [Stmt.toTree, Form.toTree, Tree.toStmt, ihe, ihyes, optStmtTree, ihno,
      Tree.whenPresent_of_ne_null hno.statement_toTree_ne_null]
    rfl
  | loop _ _ ihe ihs =>
    intro place
    rw [Stmt.toTree, Form.toTree, Tree.toStmt, ihe, ihs]
    rfl
  | circuit _ _ _ _ ihi iht ihst ihs =>
    intro place
    rw [Stmt.toTree, Form.toTree, Tree.toStmt, ihi, iht, ihst, ihs]
    rfl
  | attempt _ _ _ ihb ihh ihf =>
    intro place
    rw [Stmt.toTree, Form.toTree, Tree.toStmt, Tree.toBody, ihb, Tree.toOptName_nameTree, ihh, ihf]
    rfl
  | leave | skip => exact fun _ => rfl

/-! ## Programs of storable tokens -/

/-- The line of the token is read back. -/
def Token.Storable (t : Token) : Prop := (Nat.toDigits 10 t.line).length ≤ Json.digitLimit

/-- What a phrase stands for has storable trees. -/
def Stores : (x : Symbol) → x.Tree → Prop
  | .expr, e | .level _, e | .power, e | .unary, e | .postfixed, e | .primary, e | .condition, e =>
    e.toTree.Storable
  | .items, es | .someItems, es => ∀ t ∈ exprTrees es, t.Storable
  | .names, _ | .params, _ => True
  | .optional, e => (optExprTree e).Storable
  | .declarations, ss | .braced, ss => ∀ t ∈ stmtTrees ss, t.Storable
  | .declaration, s | .letDecl, s | .statement, s => s.toTree.Storable
  | .init, s => (optStmtTree s).Storable
  | .handler, h => (optBodyTree h.2).Storable
  | .finalizer, body => (optBodyTree body).Storable

namespace Tree.Storable

variable {t : Token} {ts : List Token}

theorem line (h : t.Storable) : (Tree.int t.line).Storable := .int h

theorem firstLine (h : ∀ t ∈ ts, t.Storable) : (Tree.int (firstLine ts)).Storable := by
  cases ts with
  | nil => exact .int (by decide)
  | cons t ts => exact line (h t List.mem_cons_self)

theorem names (ns : List String) : (namesTree ns).Storable := by
  refine .list fun t ht => ?_
  obtain ⟨n, -, rfl⟩ := List.mem_map.mp ht
  exact .str n

theorem name (n : Option String) : (nameTree n).Storable := by
  cases n with
  | none => exact .null
  | some n => exact .str n

/-- Nodes other than literals are storable if their fields are. -/
theorem fields {k : NodeKind} {fs : List Tree} (hlen : fs.length = k.fields.length)
    (hk : k ≠ .literal) (h : ∀ f ∈ fs, f.Storable) : (Tree.node k fs).Storable :=
  .node hlen (fun _ hliteral => absurd hliteral hk) h

theorem constant {c : Constant} (h : c.toTree.Storable) : (Expr.constant c).toTree.Storable := by
  refine .node rfl (fun i _ heq => ?_) (by simpa using h)
  cases c <;> cases heq

theorem assigned {n : String} {op : Option BinaryOp} {e : Expr} (h : e.toTree.Storable) :
    (Hantec.assigned n op e).toTree.Storable := by
  have hn : (Expr.variable n).toTree.Storable := fields rfl (by decide) (by simp [str])
  cases op with
  | none => exact h
  | some op => exact fields rfl (by decide) (by simpa [str] using ⟨hn, h⟩)

end Tree.Storable

theorem Stores.exprStmt {e : Expr} {line : Int} (hline : (Tree.int line).Storable)
    (h : Stores .expr e) : Stores .statement (Stmt.mk line (.expr e)) :=
  .fields rfl (by decide) (by simpa using ⟨hline, h⟩)

theorem Stores.call {f : Expr} {args : List Expr} (hf : Stores .expr f)
    (hargs : Stores .items args) : Stores .expr (.call f args) :=
  .fields rfl (by decide) (by simpa using ⟨hf, .list hargs⟩)

theorem Stores.variable (n : String) : Stores .expr (.variable n) :=
  .fields rfl (by decide) (by simpa using .str n)

/-- A statement that starts with a token is storable if its other fields are. -/
theorem Stores.atToken {t : Token} {k : NodeKind} {fs : List Tree} (ht : t.Storable)
    (hlen : (Tree.int t.line :: fs).length = k.fields.length) (hk : k ≠ .literal)
    (h : ∀ f ∈ fs, f.Storable) : (Tree.node k (.int t.line :: fs)).Storable :=
  .fields hlen hk (List.forall_mem_cons.2 ⟨.line ht, h⟩)

theorem Grammar.Phrase.stores {x : Symbol} {ts : List Token} {tree : x.Tree} (h : Phrase x ts tree)
    (hts : ∀ t ∈ ts, t.Storable) : Stores x tree := by
  -- The tokens of the parts of a phrase are storable as well.
  induction h with try simp only [List.forall_mem_append, List.forall_mem_cons] at hts
  | loosest _ ih | tighter _ _ ih | tightest _ ih | base _ ih | operand _ ih | primary _ ih
  | paren _ ih | items _ ih | letDecl _ ih | letInit _ ih | present _ ih => exact ih hts
  | assign _ _ _ _ ih =>
    exact .fields rfl (by decide) (by simpa using ⟨.str _, .assigned (ih hts.2.2)⟩)
  | binary _ _ _ iha ihb | power _ _ _ iha ihb =>
    exact .fields rfl (by decide) (by simpa using ⟨.str _, iha hts.1, ihb hts.2.2⟩)
  | unary _ _ ih => exact .fields rfl (by decide) (by simpa using ⟨.str _, ih hts.2⟩)
  | call _ _ _ _ ihf ihargs => exact .call (ihf hts.1) (ihargs hts.2.2.1)
  | member _ _ _ ih => exact .fields rfl (by decide) (by simpa using ⟨ih hts.1, .str _⟩)
  | step => exact .fields rfl (by decide) (by simpa using ⟨.str _, .str _⟩)
  | @literal t _ =>
    refine Tree.Storable.constant ?_
    cases t.literal with
    | none => exact .null
    | number x => exact .num x
    | text s => exact .str s
  | truth | falsity => exact .constant (.bool _)
  | null => exact .constant .null
  | ident => exact .variable _
  | array _ _ _ ih => exact (Stores.variable arrayMaker).call (ih hts.2.1)
  | function _ _ _ _ ih =>
    exact .fields rfl (by decide) (by simpa using ⟨.names _, .list (ih hts.2.2)⟩)
  | noItems | noDeclarations => exact fun _ h => absurd h List.not_mem_nil
  | lastItem _ ih => exact List.forall_mem_singleton.2 (ih hts)
  | nextItem _ _ _ ih ihs => exact List.forall_mem_cons.2 ⟨ih hts.1, ihs hts.2.2⟩
  | lastName | nextName | noParams | params => trivial
  | condition _ _ _ ih | braced _ _ _ ih => exact ih hts.2.1
  | absent | noInit | noHandler | noFinalizer => exact .null
  | nextDeclaration _ _ ih ihs => exact List.forall_mem_cons.2 ⟨ih hts.1, ihs hts.2⟩
  | define _ _ _ _ _ ih =>
    exact .atToken hts.1 rfl (by decide)
      (by simpa using ⟨.str _, .names _, .list (ih hts.2.2.2)⟩)
  | statement _ _ ih => exact ih (List.forall_mem_cons.2 hts)
  | declareNull => exact .atToken hts.1 rfl (by decide) (by simpa using ⟨.str _, .null⟩)
  | declare _ _ _ _ _ ih =>
    exact .atToken hts.1 rfl (by decide) (by simpa using ⟨.str _, ih hts.2.2.2.1⟩)
  | exprInit _ _ ih | exprStmt _ _ ih => exact .exprStmt (.firstLine hts.1) (ih hts.1)
  | handler _ _ _ _ ih => exact .list (ih hts.2.2.2)
  | namedHandler _ _ _ _ _ ih => exact .list (ih hts.2.2.2.2)
  | finalizer _ _ ih => exact .list (ih hts.2)
  | block _ ih =>
    exact .fields rfl (by decide) (by simpa using ⟨.firstLine hts, .list (ih hts)⟩)
  | cond _ _ _ ihe ihyes =>
    exact .atToken hts.1 rfl (by decide) (by simpa using ⟨ihe hts.2.1, ihyes hts.2.2, .null⟩)
  | condElse _ _ _ _ _ _ ihe ihyes ihno =>
    exact .atToken hts.1 rfl (by decide)
      (by simpa using ⟨ihe hts.2.1, ihyes hts.2.2.1, ihno hts.2.2.2.2⟩)
  | loop _ _ _ ihe ihs =>
    exact .atToken hts.1 rfl (by decide) (by simpa using ⟨ihe hts.2.1, ihs hts.2.2⟩)
  | circuit _ _ _ _ _ _ _ _ ihi iht ihst ihs =>
    exact .atToken hts.1 rfl (by decide) (by simpa using
      ⟨ihi hts.2.2.1, iht hts.2.2.2.1, ihst hts.2.2.2.2.2.1, ihs hts.2.2.2.2.2.2.2⟩)
  | ret _ _ _ ih | load _ _ _ ih =>
    exact .atToken hts.1 rfl (by decide) (List.forall_mem_singleton.2 (ih hts.2.1))
  | print _ _ _ ih =>
    exact .exprStmt (.line hts.1)
      ((Stores.variable printer).call (List.forall_mem_singleton.2 (ih hts.2.1)))
  | attempt _ _ _ _ ihb ihh ihf =>
    exact .atToken hts.1 rfl (by decide) (by simpa using
      ⟨.list (ihb hts.2.1), .name _, ihh hts.2.2.1, ihf hts.2.2.2⟩)
  | leave | skip => exact .atToken hts.1 rfl (by decide) (by simp)

/-! ## Programs -/

/-- No token stands below the last line. -/
theorem Tiled.line_le {before rest : List Char} {ts : List Token} (h : Tiled before rest ts) :
    ∀ t ∈ ts, t.line ≤ (before ++ rest).count '\n' + 1 := by
  induction h with
  | last _ _ hz => exact List.forall_mem_singleton.2 (Nat.le_of_eq hz.line)
  | tile _ _ ht _ ih =>
    refine List.forall_mem_cons.2 ⟨?_, fun u hu => ?_⟩
    · rw [ht.line, ← List.append_assoc]
      exact Nat.succ_le_succ ((List.sublist_append_left _ _).count_le '\n')
    · simpa only [List.append_assoc] using ih u hu

theorem Tree.Storable.readable_toProgramJson {body : Tree} (h : body.Storable) :
    body.toProgramJson.Readable :=
  .obj (by decide : ["type", "body"].Nodup)
    (List.forall_mem_cons.2 ⟨.str _, List.forall_mem_singleton.2 h.readable⟩)

/-- The sources whose lines can be counted in a file. -/
def IsStorable (source : String) : Prop :=
  (Nat.toDigits 10 (source.toList.count '\n' + 1)).length ≤ Json.digitLimit

instance (source : String) : Decidable (IsStorable source) := inferInstanceAs (Decidable (_ ≤ _))

theorem IsStorable.token {source : String} {ts : List Token} (hs : IsStorable source)
    (hts : tokenize source = .ok ts) : ∀ t ∈ ts, t.Storable := by
  have htiled : Tiled [] source.toList ts := (scans_of_scanFrom hts).tiled rfl
  intro t ht
  rw [IsStorable, Nat.length_toDigits_le_iff (by decide) (by decide)] at hs
  rw [Token.Storable, Nat.length_toDigits_le_iff (by decide) (by decide)]
  exact Nat.lt_of_le_of_lt (htiled.line_le t ht) hs

theorem IsStorable.storable {source : String} {p : List Stmt} (hs : IsStorable source)
    (h : parseProgram source = .ok p) : (programJsonTree p).Storable := by
  obtain ⟨ts, hts, us, z, rfl, -, hphrase⟩ := program_of_parseProgram h
  exact .list (hphrase.stores fun t ht => hs.token hts t (List.mem_append_left _ ht))

theorem toProgram_programJsonTree {source : String} {p : List Stmt}
    (h : parseProgram source = .ok p) : (programJsonTree p).toProgram = p := by
  rw [Tree.toProgram, programJsonTree, Tree.toBody]
  exact (wellFormed_of_parseProgram h).restored [] 0

/-- A program that is written to a syntax file is read back as it was, with every line, name, text
and number. A file holds no line number of more than `Json.digitLimit` digits. -/
theorem stored_program_restored {source : String} {p : List Stmt}
    (h : parseProgram source = .ok p)
    (hlines : (Nat.toDigits 10 (source.toList.count '\n' + 1)).length ≤ Json.digitLimit) :
    ∃ j body, Json.parse (Tree.toProgramJson (programJsonTree p)).render = .ok j ∧
      Tree.ofProgramJson j = .ok body ∧ body.toProgram = p := by
  have hstored := IsStorable.storable hlines h
  exact ⟨_, programJsonTree p, Json.parse_render hstored.readable_toProgramJson,
    hstored.ofJson_toJson, toProgram_programJsonTree h⟩

-- A number, a call without arguments, an absent branch, and a text with a letter beyond ASCII, a
-- line end and a backslash.
set_option maxRecDepth 10000 in
theorem stored_program_restored_call :
    ∃ p j body, parseProgram "esli (1.5) f() piča\n\"č\n\\\" piča" = .ok p ∧
      Json.parse (Tree.toProgramJson (programJsonTree p)).render = .ok j ∧
      Tree.ofProgramJson j = .ok body ∧ body.toProgram = p := by
  have hts : tokenize "esli (1.5) f() piča\n\"č\n\\\" piča" = .ok
      [⟨.esli, "esli", .none, 1, 1⟩, ⟨.leftParen, "(", .none, 1, 6⟩,
        ⟨.number, "1.5", .number (Number.ofDecimal 15 (-1)), 1, 7⟩,
        ⟨.rightParen, ")", .none, 1, 10⟩, ⟨.identifier, "f", .text "f", 1, 12⟩,
        ⟨.leftParen, "(", .none, 1, 13⟩, ⟨.rightParen, ")", .none, 1, 14⟩,
        ⟨.pica, "piča", .none, 1, 16⟩, ⟨.string, "\"č\n\\\"", .text "č\n\\", 2, 1⟩,
        ⟨.pica, "piča", .none, 3, 4⟩, ⟨.eof, "", .none, 3, 8⟩] := by rfl
  have hp : parseProgram "esli (1.5) f() piča\n\"č\n\\\" piča" = .ok
      [.mk 1 (.cond (.constant (.num (Number.ofDecimal 15 (-1))))
          (.mk 1 (.expr (.call (.variable "f") []))) none),
        .mk 2 (.expr (.constant (.str "č\n\\")))] := by
    rw [parseProgram, hts]
    rfl
  obtain ⟨j, body, hj, hbody, hrestored⟩ := stored_program_restored hp (by decide)
  exact ⟨_, j, body, hp, hj, hbody, hrestored⟩

end Hantec
