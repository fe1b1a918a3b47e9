import Hantec.Program

/-!
# Imports written out

An import can be replaced by the statements of the module. Two programs are compared part by part:
the second one has some of the imports of the first one written out, at any depth and in any of
its lists of statements.
-/

namespace Hantec

/-- The parts of a program. -/
inductive Part where
  | expr
  | exprs
  | optionalExpr
  | stmt
  | form
  | stmts
  | optionalStmt
  | optionalStmts

@[reducible] def Part.Tree : Part → Type
  | .expr => Expr
  | .exprs => List Expr
  | .optionalExpr => Option Expr
  | .stmt => Stmt
  | .form => Form
  | .stmts => List Stmt
  | .optionalStmt => Option Stmt
  | .optionalStmts => Option (List Stmt)

/-- A statement that imports the module of a name. -/
def importOf (line : Int) (name : String) : Stmt := .mk line (.load (.constant (.str name)))

/-- The second part is the first one with some of its imports written out, where `modules` tells
which statements a name stands for. -/
inductive Inlined (modules : String → List Stmt → Prop) : (x : Part) → x.Tree → x.Tree → Prop where
  | constant (c : Constant) : Inlined modules .expr (.constant c) (.constant c)
  | compound (place : List Nat) (t : Tree) :
      Inlined modules .expr (.compound place t) (.compound place t)
  | named (name : String) : Inlined modules .expr (.variable name) (.variable name)
  | assign {e e' : Expr} (name : String) :
      Inlined modules .expr e e' → Inlined modules .expr (.assign name e) (.assign name e')
  | unary {e e' : Expr} (op : UnaryOp) :
      Inlined modules .expr e e' → Inlined modules .expr (.unary op e) (.unary op e')
  | binary {l l' r r' : Expr} (op : BinaryOp) :
      Inlined modules .expr l l' → Inlined modules .expr r r' →
      Inlined modules .expr (.binary op l r) (.binary op l' r')
  | call {c c' : Expr} {args args' : List Expr} :
      Inlined modules .expr c c' → Inlined modules .exprs args args' →
      Inlined modules .expr (.call c args) (.call c' args')
  | step (name : String) (op : StepOp) : Inlined modules .expr (.step name op) (.step name op)
  | member {e e' : Expr} (name : String) :
      Inlined modules .expr e e' → Inlined modules .expr (.member e name) (.member e' name)
  | function {body body' : List Stmt} (params : List String) :
      Inlined modules .stmts body body' →
      Inlined modules .expr (.function params body) (.function params body')
  | misplacedExpr (t : Tree) : Inlined modules .expr (.misplaced t) (.misplaced t)
  | unlistedExpr (t : Tree) : Inlined modules .expr (.unlisted t) (.unlisted t)
  | noExprs : Inlined modules .exprs [] []
  | nextExpr {e e' : Expr} {es es' : List Expr} :
      Inlined modules .expr e e' → Inlined modules .exprs es es' →
      Inlined modules .exprs (e :: es) (e' :: es')
  | noExpr : Inlined modules .optionalExpr none none
  | someExpr {e e' : Expr} :
      Inlined modules .expr e e' → Inlined modules .optionalExpr (some e) (some e')
  | stmt {f f' : Form} (line : Int) :
      Inlined modules .form f f' → Inlined modules .stmt (.mk line f) (.mk line f')
  | expr {e e' : Expr} :
      Inlined modules .expr e e' → Inlined modules .form (.expr e) (.expr e')
  | declare {init init' : Option Expr} (name : String) :
      Inlined modules .optionalExpr init init' →
      Inlined modules .form (.declare name init) (.declare name init')
  | block {body body' : List Stmt} :
      Inlined modules .stmts body body' → Inlined modules .form (.block body) (.block body')
  | cond {test test' : Expr} {yes yes' : Stmt} {no no' : Option Stmt} :
      Inlined modules .expr test test' → Inlined modules .stmt yes yes' →
      Inlined modules .optionalStmt no no' →
      Inlined modules .form (.cond test yes no) (.cond test' yes' no')
  | loop {test test' : Expr} {body body' : Stmt} :
      Inlined modules .expr test test' → Inlined modules .stmt body body' →
      Inlined modules .form (.loop test body) (.loop test' body')
  | circuit {init init' : Option Stmt} {test test' step step' : Option Expr} {body body' : Stmt} :
      Inlined modules .optionalStmt init init' → Inlined modules .optionalExpr test test' →
      Inlined modules .optionalExpr step step' → Inlined modules .stmt body body' →
      Inlined modules .form (.circuit init test step body) (.circuit init' test' step' body')
  | define {body body' : List Stmt} (name : String) (params : List String) :
      Inlined modules .stmts body body' →
      Inlined modules .form (.define name params body) (.define name params body')
  | ret {value value' : Option Expr} :
      Inlined modules .optionalExpr value value' →
      Inlined modules .form (.ret value) (.ret value')
  | load {path path' : Expr} :
      Inlined modules .expr path path' → Inlined modules .form (.load path) (.load path')
  | attempt {body body' : List Stmt} {handler handler' finalizer finalizer' : Option (List Stmt)}
      (name : Option String) :
      Inlined modules .stmts body body' → Inlined modules .optionalStmts handler handler' →
      Inlined modules .optionalStmts finalizer finalizer' →
      Inlined modules .form (.attempt body name handler finalizer)
        (.attempt body' name handler' finalizer')
  | leave : Inlined modules .form .leave .leave
  | skip : Inlined modules .form .skip .skip
  | misplacedStmt (t : Tree) : Inlined modules .form (.misplaced t) (.misplaced t)
  | unlistedStmts (t : Tree) : Inlined modules .form (.unlisted t) (.unlisted t)
  | noStmts : Inlined modules .stmts [] []
  | nextStmt {s s' : Stmt} {ss ss' : List Stmt} :
      Inlined modules .stmt s s' → Inlined modules .stmts ss ss' →
      Inlined modules .stmts (s :: ss) (s' :: ss')
  -- The statements of the module may have imports written out too.
  | writeOut {name : String} {module module' ss ss' : List Stmt} (line : Int) :
      modules name module → Inlined modules .stmts module module' →
      Inlined modules .stmts ss ss' →
      Inlined modules .stmts (importOf line name :: ss) (module' ++ ss')
  | noStmt : Inlined modules .optionalStmt none none
  | someStmt {s s' : Stmt} :
      Inlined modules .stmt s s' → Inlined modules .optionalStmt (some s) (some s')
  | absentStmts : Inlined modules .optionalStmts none none
  | presentStmts {ss ss' : List Stmt} :
      Inlined modules .stmts ss ss' → Inlined modules .optionalStmts (some ss) (some ss')

namespace Inlined

variable {modules : String → List Stmt → Prop}

/-! ## Nothing written out -/

mutual

theorem reflExpr : (e : Expr) → Inlined modules .expr e e
  | .constant c => .constant c
  | .compound place t => .compound place t
  | .variable name => .named name
  | .assign name e => .assign name (reflExpr e)
  | .unary op e => .unary op (reflExpr e)
  | .binary op l r => .binary op (reflExpr l) (reflExpr r)
  | .call c args => .call (reflExpr c) (reflExprs args)
  | .step name op => .step name op
  | .member e name => .member name (reflExpr e)
  | .function params body => .function params (reflStmts body)
  | .misplaced t => .misplacedExpr t
  | .unlisted t => .unlistedExpr t

theorem reflExprs : (es : List Expr) → Inlined modules .exprs es es
  | [] => .noExprs
  | e :: es => .nextExpr (reflExpr e) (reflExprs es)

theorem reflOptionalExpr : (e : Option Expr) → Inlined modules .optionalExpr e e
  | none => .noExpr
  | some e => .someExpr (reflExpr e)

theorem reflStmt : (s : Stmt) → Inlined modules .stmt s s
  | .mk line f => .stmt line (reflForm f)

theorem reflForm : (f : Form) → Inlined modules .form f f
  | .expr e => .expr (reflExpr e)
  | .declare name init => .declare name (reflOptionalExpr init)
  | .block body => .block (reflStmts body)
  | .cond test yes no => .cond (reflExpr test) (reflStmt yes) (reflOptionalStmt no)
  | .loop test body => .loop (reflExpr test) (reflStmt body)
  | .circuit init test last body =>
    .circuit (reflOptionalStmt init) (reflOptionalExpr test) (reflOptionalExpr last) (reflStmt body)
  | .define name params body => .define name params (reflStmts body)
  | .ret value => .ret (reflOptionalExpr value)
  | .load path => .load (reflExpr path)
  | .attempt body name handler finalizer =>
    .attempt name (reflStmts body) (reflOptionalStmts handler) (reflOptionalStmts finalizer)
  | .leave => .leave
  | .skip => .skip
  | .misplaced t => .misplacedStmt t
  | .unlisted t => .unlistedStmts t

theorem reflStmts : (ss : List Stmt) → Inlined modules .stmts ss ss
  | [] => .noStmts
  | s :: ss => .nextStmt (reflStmt s) (reflStmts ss)

theorem reflOptionalStmt : (s : Option Stmt) → Inlined modules .optionalStmt s s
  | none => .noStmt
  | some s => .someStmt (reflStmt s)

theorem reflOptionalStmts : (ss : Option (List Stmt)) → Inlined modules .optionalStmts ss ss
  | none => .absentStmts
  | some ss => .presentStmts (reflStmts ss)

end

theorem eq_of_no_modules (hnone : ∀ name module, ¬ modules name module) {x : Part}
    {a b : x.Tree} (h : Inlined modules x a b) : a = b := by
  induction h with
  | writeOut line hmodule => exact absurd hmodule (hnone _ _)
  | _ => simp_all

end Inlined

end Hantec
