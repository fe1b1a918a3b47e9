import Hantec.Dict
import Hantec.Program.Parser

/-!
# The grammar of programs

Which sequences of tokens are expressions, statements and programs, and which trees they stand
for. The grammar is ambiguous only where a branch could be taken by two conditions; the rule for
two branches settles that on the tree of the first one. Nothing here looks ahead or runs the parser.
-/

namespace Hantec

/-- Whether a statement ends in a condition that has no second branch. -/
def Stmt.endsOpen : Stmt → Bool
  | .mk _ (.cond _ _ none) => true
  | .mk _ (.cond _ _ (some s)) => s.endsOpen
  | .mk _ (.loop _ s) => s.endsOpen
  | .mk _ (.circuit _ _ _ s) => s.endsOpen
  | _ => false

namespace Grammar

/-- The left-associative operators, level by level from the loosest one on. -/
def leftLevels : List (List (TokenKind × BinaryOp)) :=
  [[(.questionQuestion, .nullish)],
   [(.orOr, .or)],
   [(.andAnd, .and)],
   [(.equalEqual, .eq), (.bangEqual, .ne)],
   [(.less, .lt), (.lessEqual, .le), (.greater, .gt), (.greaterEqual, .ge)],
   [(.plus, .add), (.minus, .sub)],
   [(.star, .mul), (.slash, .div), (.percent, .mod)]]

def LevelOp (l : Nat) (k : TokenKind) (op : BinaryOp) : Prop := (k, op) ∈ leftLevels.getD l []

def unaryOps : List (TokenKind × UnaryOp) := [(.bang, .not), (.minus, .neg)]

def steps : List (TokenKind × StepOp) := [(.plusPlus, .increment), (.minusMinus, .decrement)]

/-- The assignments, with the operators that they apply to the old value. -/
def assignments : List (TokenKind × Option BinaryOp) :=
  [(.equal, none), (.plusEqual, some .add), (.minusEqual, some .sub), (.starEqual, some .mul),
   (.slashEqual, some .div), (.percentEqual, some .mod)]

/-- What a sequence of tokens can be read as. -/
inductive Symbol where
  | expr
  | level (l : Nat)
  | power
  | unary
  | postfixed
  | primary
  /-- Expressions with commas between them, perhaps none. -/
  | items
  /-- At least one expression, with commas between them. -/
  | someItems
  | names
  | params
  /-- An expression in parentheses. -/
  | condition
  | optional
  | declarations
  /-- Declarations in braces. -/
  | braced
  | declaration
  | letDecl
  | init
  | handler
  | finalizer
  | statement
  deriving DecidableEq

/-- What a phrase stands for. -/
@[reducible] def Symbol.Tree : Symbol → Type
  | .expr | .level _ | .power | .unary | .postfixed | .primary | .condition => Expr
  | .items | .someItems => List Expr
  | .names | .params => List String
  | .optional => Option Expr
  | .declarations | .braced => List Stmt
  | .declaration | .letDecl | .statement => Stmt
  | .init => Option Stmt
  | .handler => Option String × Option (List Stmt)
  | .finalizer => Option (List Stmt)

def firstLine : List Token → Int
  | [] => 0
  | t :: _ => t.line

/-- The tokens form a phrase of the given kind, with the given tree. -/
inductive Phrase : (x : Symbol) → List Token → x.Tree → Prop where
  | loosest {e : Expr} : Phrase (.level 0) ts e → Phrase .expr ts e
  | assign {t : Token} {name : String} {op : Option BinaryOp} {e : Expr} :
      Phrase (.level 0) ts (Expr.variable name) → (t.kind, op) ∈ assignments → Phrase .expr us e →
      Phrase .expr (ts ++ t :: us) (Expr.assign name (assigned name op e))
  | tighter {l : Nat} {e : Expr} :
      l < levelCount → Phrase (.level (l + 1)) ts e → Phrase (.level l) ts e
  | binary {l : Nat} {t : Token} {op : BinaryOp} {a b : Expr} :
      Phrase (.level l) ts a → LevelOp l t.kind op → Phrase (.level (l + 1)) us b →
      Phrase (.level l) (ts ++ t :: us) (Expr.binary op a b)
  | tightest {e : Expr} : Phrase .power ts e → Phrase (.level levelCount) ts e
  | base {e : Expr} : Phrase .unary ts e → Phrase .power ts e
  | power {t : Token} {a b : Expr} :
      Phrase .unary ts a → t.kind = .starStar → Phrase .power us b →
      Phrase .power (ts ++ t :: us) (Expr.binary .pow a b)
  | unary {t : Token} {op : UnaryOp} {e : Expr} :
      (t.kind, op) ∈ unaryOps → Phrase .unary ts e → Phrase .unary (t :: ts) (Expr.unary op e)
  | operand {e : Expr} : Phrase .postfixed ts e → Phrase .unary ts e
  | primary {e : Expr} : Phrase .primary ts e → Phrase .postfixed ts e
  | call {o c : Token} {e : Expr} {args : List Expr} :
      Phrase .postfixed ts e → o.kind = .leftParen → Phrase .items us args →
      c.kind = .rightParen → Phrase .postfixed (ts ++ o :: (us ++ [c])) (Expr.call e args)
  | member {d t : Token} {e : Expr} :
      Phrase .postfixed ts e → d.kind = .dot → t.kind = .identifier →
      Phrase .postfixed (ts ++ [d, t]) (Expr.member e t.lexeme)
  | step {t : Token} {name : String} {op : StepOp} :
      Phrase .postfixed ts (Expr.variable name) → (t.kind, op) ∈ steps →
      Phrase .postfixed (ts ++ [t]) (Expr.step name op)
  | literal {t : Token} :
      t.kind = .number ∨ t.kind = .string →
      Phrase .primary [t] (Expr.constant t.literal.toConstant)
  | truth {t : Token} : t.kind = .rozni → Phrase .primary [t] (Expr.constant (.bool true))
  | falsity {t : Token} : t.kind = .zhasni → Phrase .primary [t] (Expr.constant (.bool false))
  | null {t : Token} : t.kind = .null → Phrase .primary [t] (Expr.constant .null)
  | ident {t : Token} : t.kind = .identifier → Phrase .primary [t] (Expr.variable t.lexeme)
  | paren {e : Expr} : Phrase .condition ts e → Phrase .primary ts e
  | array {o c : Token} {items : List Expr} :
      o.kind = .leftBracket → Phrase .items ts items → c.kind = .rightBracket →
      Phrase .primary (o :: (ts ++ [c])) (Expr.call (.variable arrayMaker) items)
  | function {t : Token} {params : List String} {body : List Stmt} :
      t.kind = .rob → Phrase .params ts params → Phrase .braced us body →
      Phrase .primary (t :: (ts ++ us)) (Expr.function params body)
  | noItems : Phrase .items [] []
  | items {es : List Expr} : Phrase .someItems ts es → Phrase .items ts es
  | lastItem {e : Expr} : Phrase .expr ts e → Phrase .someItems ts [e]
  | nextItem {t : Token} {e : Expr} {es : List Expr} :
      Phrase .expr ts e → t.kind = .comma → Phrase .someItems us es →
      Phrase .someItems (ts ++ t :: us) (e :: es)
  | lastName {t : Token} : t.kind = .identifier → Phrase .names [t] [t.lexeme]
  | nextName {t c : Token} {names : List String} :
      t.kind = .identifier → c.kind = .comma → Phrase .names us names →
      Phrase .names (t :: c :: us) (t.lexeme :: names)
  | noParams {o c : Token} : o.kind = .leftParen → c.kind = .rightParen → Phrase .params [o, c] []
  | params {o c : Token} {names : List String} :
      o.kind = .leftParen → Phrase .names ts names → c.kind = .rightParen →
      Phrase .params (o :: (ts ++ [c])) names
  | condition {o c : Token} {e : Expr} :
      o.kind = .leftParen → Phrase .expr ts e → c.kind = .rightParen →
      Phrase .condition (o :: (ts ++ [c])) e
  | absent : Phrase .optional [] none
  | present {e : Expr} : Phrase .expr ts e → Phrase .optional ts (some e)
  | noDeclarations : Phrase .declarations [] []
  | nextDeclaration {s : Stmt} {ss : List Stmt} :
      Phrase .declaration ts s → Phrase .declarations us ss →
      Phrase .declarations (ts ++ us) (s :: ss)
  | braced {o c : Token} {ss : List Stmt} :
      o.kind = .leftBrace → Phrase .declarations ts ss → c.kind = .rightBrace →
      Phrase .braced (o :: (ts ++ [c])) ss
  | letDecl {s : Stmt} : Phrase .letDecl ts s → Phrase .declaration ts s
  | define {t n : Token} {params : List String} {body : List Stmt} :
      t.kind = .rob → n.kind = .identifier → Phrase .params ts params → Phrase .braced us body →
      Phrase .declaration (t :: n :: (ts ++ us)) (Stmt.mk t.line (.define n.lexeme params body))
  -- A declaration that starts with `rob` is never an expression.
  | statement {t : Token} {s : Stmt} :
      Phrase .statement (t :: ts) s → t.kind ≠ .rob → Phrase .declaration (t :: ts) s
  | declareNull {t n p : Token} :
      t.kind = .nech → n.kind = .identifier → p.kind = .pica →
      Phrase .letDecl [t, n, p] (Stmt.mk t.line (.declare n.lexeme none))
  | declare {t n q p : Token} {e : Expr} :
      t.kind = .nech → n.kind = .identifier → q.kind = .equal → Phrase .expr ts e →
      p.kind = .pica →
      Phrase .letDecl (t :: n :: q :: (ts ++ [p])) (Stmt.mk t.line (.declare n.lexeme (some e)))
  | noInit {p : Token} : p.kind = .pica → Phrase .init [p] none
  | letInit {s : Stmt} : Phrase .letDecl ts s → Phrase .init ts (some s)
  | exprInit {p : Token} {e : Expr} :
      Phrase .expr ts e → p.kind = .pica →
      Phrase .init (ts ++ [p]) (some (Stmt.mk (firstLine ts) (.expr e)))
  | noHandler : Phrase .handler [] (none, none)
  | handler {t o c : Token} {body : List Stmt} :
      t.kind = .chyt → o.kind = .leftParen → c.kind = .rightParen → Phrase .braced ts body →
      Phrase .handler (t :: o :: c :: ts) (none, some body)
  | namedHandler {t o n c : Token} {body : List Stmt} :
      t.kind = .chyt → o.kind = .leftParen → n.kind = .identifier → c.kind = .rightParen →
      Phrase .braced ts body →
      Phrase .handler (t :: o :: n :: c :: ts) (some n.lexeme, some body)
  | noFinalizer : Phrase .finalizer [] none
  | finalizer {t : Token} {body : List Stmt} :
      t.kind = .potom → Phrase .braced ts body → Phrase .finalizer (t :: ts) (some body)
  | block {body : List Stmt} :
      Phrase .braced ts body → Phrase .statement ts (Stmt.mk (firstLine ts) (.block body))
  | cond {t : Token} {e : Expr} {yes : Stmt} :
      t.kind = .esli → Phrase .condition ts e → Phrase .statement us yes →
      Phrase .statement (t :: (ts ++ us)) (Stmt.mk t.line (.cond e yes none))
  -- The second branch belongs to the nearest condition that has none.
  | condElse {t i : Token} {e : Expr} {yes no : Stmt} :
      t.kind = .esli → Phrase .condition ts e → Phrase .statement us yes → yes.endsOpen = false →
      i.kind = .inak → Phrase .statement vs no →
      Phrase .statement (t :: (ts ++ (us ++ i :: vs))) (Stmt.mk t.line (.cond e yes (some no)))
  | loop {t : Token} {e : Expr} {body : Stmt} :
      t.kind = .salina → Phrase .condition ts e → Phrase .statement us body →
      Phrase .statement (t :: (ts ++ us)) (Stmt.mk t.line (.loop e body))
  | circuit {t o p c : Token} {init : Option Stmt} {test step : Option Expr} {body : Stmt} :
      t.kind = .okruh → o.kind = .leftParen → Phrase .init ts init → Phrase .optional us test →
      p.kind = .pica → Phrase .optional vs step → c.kind = .rightParen →
      Phrase .statement ws body →
      Phrase .statement (t :: o :: (ts ++ (us ++ p :: (vs ++ c :: ws))))
        (Stmt.mk t.line (.circuit init test step body))
  | ret {t p : Token} {e : Option Expr} :
      t.kind = .vrat → Phrase .optional ts e → p.kind = .pica →
      Phrase .statement (t :: (ts ++ [p])) (Stmt.mk t.line (.ret e))
  | print {t p : Token} {e : Expr} :
      t.kind = .vyblij → Phrase .condition ts e → p.kind = .pica →
      Phrase .statement (t :: (ts ++ [p])) (Stmt.mk t.line (.expr (.call (.variable printer) [e])))
  | load {t p : Token} {e : Expr} :
      t.kind = .vokno → Phrase .expr ts e → p.kind = .pica →
      Phrase .statement (t :: (ts ++ [p])) (Stmt.mk t.line (.load e))
  | attempt {t : Token} {body : List Stmt} {name : Option String} {handler finalizer : Option (List Stmt)} :
      t.kind = .zkus → Phrase .braced ts body → Phrase .handler us (name, handler) →
      Phrase .finalizer vs finalizer →
      Phrase .statement (t :: (ts ++ (us ++ vs)))
        (Stmt.mk t.line (.attempt body name handler finalizer))
  | leave {t p : Token} :
      t.kind = .vypadni → p.kind = .pica → Phrase .statement [t, p] (Stmt.mk t.line .leave)
  | skip {t p : Token} :
      t.kind = .preskoc → p.kind = .pica → Phrase .statement [t, p] (Stmt.mk t.line .skip)
  | exprStmt {p : Token} {e : Expr} :
      Phrase .expr ts e → p.kind = .pica →
      Phrase .statement (ts ++ [p]) (Stmt.mk (firstLine ts) (.expr e))

/-- The tokens are those of a whole program: declarations and the end of the source. -/
def Program (ts : List Token) (p : List Stmt) : Prop :=
  ∃ us t, ts = us ++ [t] ∧ t.kind = .eof ∧ Phrase .declarations us p

/-! ## Operators -/

theorem binaryOp?_eq_lookup (l : Nat) (k : TokenKind) :
    binaryOp? l k = (leftLevels.getD l []).lookup k := by
  match l with
  | 0 | 1 | 2 | 3 | 4 | 5 | 6 | n + 7 => cases k <;> rfl

theorem binaryOp?_eof {l : Nat} : binaryOp? l .eof = none := by
  simp [binaryOp?]

theorem levelOp_iff {l : Nat} {k : TokenKind} {op : BinaryOp} :
    LevelOp l k op ↔ binaryOp? l k = some op := by
  rw [binaryOp?_eq_lookup, lookup_eq_some_iff_mem]
  · rfl
  · match l with
    | 0 | 1 | 2 | 3 | 4 | 5 | 6 | n + 7 => simp [leftLevels]

theorem mem_unaryOps_iff {k : TokenKind} {op : UnaryOp} :
    (k, op) ∈ unaryOps ↔ unaryOp? k = some op := by
  have h : unaryOp? k = unaryOps.lookup k := by cases k <;> rfl
  rw [h, lookup_eq_some_iff_mem (by decide)]

theorem mem_steps_iff {k : TokenKind} {op : StepOp} :
    (k, op) ∈ steps ↔ stepOp? k = some op := by
  have h : stepOp? k = steps.lookup k := by cases k <;> rfl
  rw [h, lookup_eq_some_iff_mem (by decide)]

theorem mem_assignments_iff {k : TokenKind} {op : Option BinaryOp} :
    (k, op) ∈ assignments ↔ assignOp? k = some op := by
  have h : assignOp? k = assignments.lookup k := by cases k <;> rfl
  rw [h, lookup_eq_some_iff_mem (by decide)]

/-! ## First tokens -/

def startsExpr : TokenKind → Bool
  | .number | .string | .rozni | .zhasni | .null | .identifier | .leftParen | .leftBracket | .rob
  | .bang | .minus => true
  | _ => false

def startsStatement : TokenKind → Bool
  | .leftBrace | .esli | .salina | .okruh | .vrat | .vyblij | .vokno | .zkus | .vypadni
  | .preskoc => true
  | k => startsExpr k

/-- Whether a phrase that is not empty can start with a token. -/
def Symbol.starts : Symbol → TokenKind → Bool
  | .expr, k | .level _, k | .power, k | .unary, k | .items, k | .someItems, k | .optional, k =>
    startsExpr k
  | .postfixed, k | .primary, k => startsExpr k && k != .bang && k != .minus
  | .names, k => k == .identifier
  | .params, k | .condition, k => k == .leftParen
  | .declarations, k | .declaration, k => startsStatement k || k == .nech
  | .braced, k => k == .leftBrace
  | .letDecl, k => k == .nech
  | .init, k => startsExpr k || k == .nech || k == .pica
  | .handler, k => k == .chyt
  | .finalizer, k => k == .potom
  | .statement, k => startsStatement k

/-- Whether a phrase can be empty. -/
def Symbol.nullable : Symbol → Bool
  | .items | .optional | .declarations | .handler | .finalizer => true
  | _ => false

/-- The tokens start as a phrase of the given kind does. -/
def StartsAs (x : Symbol) (ts : List Token) : Prop :=
  (x.nullable = true ∧ ts = []) ∨ ∃ t us, ts = t :: us ∧ x.starts t.kind = true

theorem StartsAs.append {x y : Symbol} {ts : List Token} (h : StartsAs x ts) (us : List Token)
    (hn : x.nullable = false) (hs : ∀ k, x.starts k = true → y.starts k = true) :
    StartsAs y (ts ++ us) := by
  obtain ⟨hx, -⟩ | ⟨t, vs, rfl, ht⟩ := h
  · simp [hn] at hx
  · exact .inr ⟨t, vs ++ us, rfl, hs _ ht⟩

theorem StartsAs.mono {x y : Symbol} {ts : List Token} (h : StartsAs x ts)
    (hn : x.nullable = false) (hs : ∀ k, x.starts k = true → y.starts k = true) :
    StartsAs y ts := by
  simpa using h.append [] hn hs

theorem startsStatement_of_startsExpr {k : TokenKind} (h : startsExpr k = true) :
    startsStatement k = true := by
  cases k <;> first | rfl | cases h

theorem Phrase.startsAs {x : Symbol} {ts : List Token} {tree : x.Tree} (h : Phrase x ts tree) :
    StartsAs x ts := by
  induction h with
  | loosest _ ih | tighter _ _ ih | tightest _ ih | base _ ih | items _ ih | lastItem _ ih
  | present _ ih | primary _ ih => exact ih.mono rfl fun _ h => h
  | assign _ _ _ ih | binary _ _ _ ih | power _ _ _ ih | nextItem _ _ _ ih | member _ _ _ ih
  | call _ _ _ _ ih | step _ _ ih | nextDeclaration _ _ ih =>
    exact ih.append _ rfl fun _ h => h
  | operand _ ih => exact ih.mono rfl (by simp +contextual [Symbol.starts])
  | paren _ ih => exact ih.mono rfl (by simp +contextual [Symbol.starts, startsExpr])
  | block _ ih => exact ih.mono rfl (by simp +contextual [Symbol.starts, startsStatement])
  | letDecl _ ih | letInit _ ih | statement _ _ ih =>
    exact ih.mono rfl (by simp +contextual [Symbol.starts])
  | exprInit _ _ ih => exact ih.append _ rfl (by simp +contextual [Symbol.starts])
  | exprStmt _ _ ih =>
    exact ih.append _ rfl fun _ h => startsStatement_of_startsExpr h
  | noItems | absent | noDeclarations | noHandler | noFinalizer => exact .inl ⟨rfl, rfl⟩
  | unary h =>
    refine .inr ⟨_, _, rfl, ?_⟩
    simp only [unaryOps, List.mem_cons, Prod.mk.injEq, List.not_mem_nil, or_false] at h
    rcases h with h | h <;> simp [Symbol.starts, startsExpr, h]
  | literal h =>
    refine .inr ⟨_, _, rfl, ?_⟩
    rcases h with h | h <;> simp [Symbol.starts, startsExpr, h]
  -- All other phrases start with a token of a fixed kind.
  | _ =>
    refine .inr ⟨_, _, rfl, ?_⟩
    simp [Symbol.starts, startsExpr, startsStatement, *]

theorem Phrase.exists_first {x : Symbol} {ts : List Token} {tree : x.Tree}
    (h : Phrase x ts tree) (hn : x.nullable = false) :
    ∃ t us, ts = t :: us ∧ x.starts t.kind = true := by
  obtain ⟨hx, -⟩ | hx := h.startsAs
  · simp [hn] at hx
  · exact hx

/-- The end of the source is no part of any phrase. -/
theorem Phrase.kind_ne_eof {x : Symbol} {ts : List Token} {tree : x.Tree} (h : Phrase x ts tree) :
    ∀ t ∈ ts, t.kind ≠ .eof := by
  induction h with
  | @assign _ _ t _ _ _ _ h =>
    have ht : t.kind ≠ .eof := fun he => by simp [he, assignments] at h
    simp_all [or_imp]
  | @binary _ _ _ t _ _ _ _ h =>
    have ht : t.kind ≠ .eof := fun he => by
      rw [he, levelOp_iff] at h
      simp [binaryOp?] at h
    simp_all [or_imp]
  | @unary _ t _ _ h =>
    have ht : t.kind ≠ .eof := fun he => by simp [he, unaryOps] at h
    simp_all
  | @step _ t _ _ _ h =>
    have ht : t.kind ≠ .eof := fun he => by simp [he, steps] at h
    simp_all [or_imp]
  | literal h => rcases h with h | h <;> simp [h]
  | _ => simp_all [or_imp, forall_and]

end Grammar

end Hantec
