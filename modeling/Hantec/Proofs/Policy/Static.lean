import Hantec.Run.Eval

/-!
# What the text of a program tells

Three facts about statements that do not depend on any run: the signals that can leave a
statement, the names that it can bind in its own scope, and whether it keeps to rules on its
literals, on what stands in the wrong place, and on the bodies of functions. Imports count with the
modules that can be loaded.
-/

namespace Hantec

/-- How a statement can end before the statements after it have their turn. -/
inductive Signal where
  | returned
  | broke
  | continued
  deriving DecidableEq, Repr

/-- A module that can be loaded in some world. -/
def Config.Loads (c : Config) (module : List Stmt) : Prop :=
  ∃ path source w w', c.loader.load path w = (w', .ok source) ∧ parseProgram source = .ok module

namespace Stmt

/-- The signal can leave the statement. Loops keep all signals but returns. -/
inductive Signals (modules : List Stmt → Prop) : Stmt → Signal → Prop where
  | ret (line : Int) (value : Option Expr) : Signals modules ⟨line, .ret value⟩ .returned
  | leave (line : Int) : Signals modules ⟨line, .leave⟩ .broke
  | skip (line : Int) : Signals modules ⟨line, .skip⟩ .continued
  | block {line : Int} {body : List Stmt} :
      s ∈ body → Signals modules s σ → Signals modules ⟨line, .block body⟩ σ
  | yes {line : Int} : Signals modules yes σ → Signals modules ⟨line, .cond test yes no⟩ σ
  | no {line : Int} : Signals modules no σ → Signals modules ⟨line, .cond test yes (some no)⟩ σ
  | loop {line : Int} :
      Signals modules body .returned → Signals modules ⟨line, .loop test body⟩ .returned
  | circuit {line : Int} :
      Signals modules body .returned →
      Signals modules ⟨line, .circuit init test step body⟩ .returned
  | load {line : Int} {module : List Stmt} :
      modules module → s ∈ module → Signals modules s σ → Signals modules ⟨line, .load path⟩ σ
  | body {line : Int} {body : List Stmt} :
      s ∈ body → Signals modules s σ →
      Signals modules ⟨line, .attempt body name handler finalizer⟩ σ
  | handler {line : Int} {handler : List Stmt} :
      s ∈ handler → Signals modules s σ →
      Signals modules ⟨line, .attempt body name (some handler) finalizer⟩ σ
  | finalizer {line : Int} {finalizer : List Stmt} :
      s ∈ finalizer → Signals modules s σ →
      Signals modules ⟨line, .attempt body name handler (some finalizer)⟩ σ

/-- The statement can bind the name in the scope that it is run in. -/
inductive Declares (modules : List Stmt → Prop) : Stmt → String → Prop where
  | declare (line : Int) (name : String) (init : Option Expr) :
      Declares modules ⟨line, .declare name init⟩ name
  | define (line : Int) (name : String) (params : List String) (body : List Stmt) :
      Declares modules ⟨line, .define name params body⟩ name
  | yes {line : Int} : Declares modules yes x → Declares modules ⟨line, .cond test yes no⟩ x
  | no {line : Int} : Declares modules no x → Declares modules ⟨line, .cond test yes (some no)⟩ x
  | loop {line : Int} : Declares modules body x → Declares modules ⟨line, .loop test body⟩ x
  | load {line : Int} {module : List Stmt} :
      modules module → s ∈ module → Declares modules s x → Declares modules ⟨line, .load path⟩ x

end Stmt

/-! ## Rules for programs -/

/-- What a program may contain: literals that are made from a tree, places that fail when they are
reached, and bodies of functions. -/
structure Rules where
  literal : Tree → Prop
  fault : Fault → Prop
  body : List Stmt → Prop

mutual

def Expr.Obeys (R : Rules) : Expr → Prop
  | .constant _ => True
  | .compound _ t => R.literal t
  | .variable _ => True
  | .assign _ e => e.Obeys R
  | .unary _ e => e.Obeys R
  | .binary _ l r => l.Obeys R ∧ r.Obeys R
  | .call c args => c.Obeys R ∧ exprsObey R args
  | .step _ _ => True
  | .member e _ => e.Obeys R
  | .function _ body => R.body body ∧ stmtsObey R body
  | .misplaced t => R.fault (.misplacedExpr t)
  | .unlisted t => R.fault (.notIterable t)

def exprsObey (R : Rules) : List Expr → Prop
  | [] => True
  | e :: es => e.Obeys R ∧ exprsObey R es

def optionalExprObeys (R : Rules) : Option Expr → Prop
  | none => True
  | some e => e.Obeys R

def Stmt.Obeys (R : Rules) : Stmt → Prop
  | .mk _ form => form.Obeys R

def Form.Obeys (R : Rules) : Form → Prop
  | .expr e => e.Obeys R
  | .declare _ init => optionalExprObeys R init
  | .block body => stmtsObey R body
  | .cond test yes no => test.Obeys R ∧ yes.Obeys R ∧ optionalStmtObeys R no
  | .loop test body => test.Obeys R ∧ body.Obeys R
  | .circuit init test step body =>
    optionalStmtObeys R init ∧ optionalExprObeys R test ∧ optionalExprObeys R step ∧ body.Obeys R
  | .define _ _ body => R.body body ∧ stmtsObey R body
  | .ret value => optionalExprObeys R value
  | .load path => path.Obeys R
  | .attempt body _ handler finalizer =>
    stmtsObey R body ∧ optionalStmtsObey R handler ∧ optionalStmtsObey R finalizer
  | .leave => True
  | .skip => True
  | .misplaced t => R.fault (.misplacedStmt t)
  | .unlisted t => R.fault (.notIterable t)

def optionalStmtObeys (R : Rules) : Option Stmt → Prop
  | none => True
  | some s => s.Obeys R

def stmtsObey (R : Rules) : List Stmt → Prop
  | [] => True
  | s :: ss => s.Obeys R ∧ stmtsObey R ss

def optionalStmtsObey (R : Rules) : Option (List Stmt) → Prop
  | none => True
  | some ss => stmtsObey R ss

end

section Obeying

variable {R R' : Rules}

/-- Where everything is allowed, every program keeps to the rules. -/
structure Rules.AllowsAll (R : Rules) : Prop where
  literal : ∀ t, R.literal t
  fault : ∀ f, R.fault f
  body : ∀ body, R.body body

mutual

theorem Expr.obeys (h : R.AllowsAll) : (e : Expr) → e.Obeys R
  | .constant _ | .variable _ | .step _ _ => trivial
  | .compound _ t => h.literal t
  | .assign _ e | .unary _ e | .member e _ => e.obeys h
  | .binary _ l r => ⟨l.obeys h, r.obeys h⟩
  | .call c args => ⟨c.obeys h, exprs_obey h args⟩
  | .function _ body => ⟨h.body body, stmts_obey h body⟩
  | .misplaced _ => h.fault _
  | .unlisted _ => h.fault _

theorem exprs_obey (h : R.AllowsAll) : (es : List Expr) → exprsObey R es
  | [] => trivial
  | e :: es => ⟨e.obeys h, exprs_obey h es⟩

theorem optionalExpr_obeys (h : R.AllowsAll) : (o : Option Expr) → optionalExprObeys R o
  | none => trivial
  | some e => e.obeys h

theorem Stmt.obeys (h : R.AllowsAll) : (s : Stmt) → s.Obeys R
  | .mk _ form => form.obeys h

theorem Form.obeys (h : R.AllowsAll) : (f : Form) → f.Obeys R
  | .expr e | .load e => e.obeys h
  | .declare _ e | .ret e => optionalExpr_obeys h e
  | .block body => stmts_obey h body
  | .cond test yes no => ⟨test.obeys h, yes.obeys h, optionalStmt_obeys h no⟩
  | .loop test body => ⟨test.obeys h, body.obeys h⟩
  | .circuit init test step body =>
    ⟨optionalStmt_obeys h init, optionalExpr_obeys h test, optionalExpr_obeys h step, body.obeys h⟩
  | .define _ _ body => ⟨h.body body, stmts_obey h body⟩
  | .attempt body _ handler finalizer =>
    ⟨stmts_obey h body, optionalStmts_obey h handler, optionalStmts_obey h finalizer⟩
  | .leave | .skip => trivial
  | .misplaced _ => h.fault _
  | .unlisted _ => h.fault _

theorem optionalStmt_obeys (h : R.AllowsAll) : (o : Option Stmt) → optionalStmtObeys R o
  | none => trivial
  | some s => s.obeys h

theorem stmts_obey (h : R.AllowsAll) : (ss : List Stmt) → stmtsObey R ss
  | [] => trivial
  | s :: ss => ⟨s.obeys h, stmts_obey h ss⟩

theorem optionalStmts_obey (h : R.AllowsAll) : (o : Option (List Stmt)) → optionalStmtsObey R o
  | none => trivial
  | some ss => stmts_obey h ss

end

end Obeying

end Hantec
