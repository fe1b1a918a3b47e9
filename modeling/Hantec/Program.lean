import Hantec.Tree

/-!
# Programs

A program is a list of statements. A statement remembers the line of its first
token; zero stands for no line. A program read from a stored tree may have something
else in the place of an expression or of a statement; such a place is kept and fails when
it is reached.
-/

namespace Hantec

/-- What stands in a literal. -/
inductive Constant where
  | null
  | bool (b : Bool)
  | num (x : Float)
  | str (s : String)
  deriving Repr, Inhabited

inductive UnaryOp where
  | not
  | neg
  | other (text : String)
  deriving DecidableEq, Repr

inductive BinaryOp where
  | nullish | or | and
  | eq | ne | lt | le | gt | ge
  | add | sub | mul | div | mod | pow
  | other (text : String)
  deriving DecidableEq, Repr

inductive StepOp where
  | increment
  | decrement
  deriving DecidableEq, Repr

namespace UnaryOp

def text : UnaryOp → String
  | .not => "!"
  | .neg => "-"
  | .other s => s

def ofText (s : String) : UnaryOp :=
  if s = "!" then .not else if s = "-" then .neg else .other s

end UnaryOp

namespace BinaryOp

def all : List BinaryOp :=
  [.nullish, .or, .and, .eq, .ne, .lt, .le, .gt, .ge, .add, .sub, .mul, .div, .mod, .pow]

def text : BinaryOp → String
  | .nullish => "??"
  | .or => "||"
  | .and => "&&"
  | .eq => "=="
  | .ne => "!="
  | .lt => "<"
  | .le => "<="
  | .gt => ">"
  | .ge => ">="
  | .add => "+"
  | .sub => "-"
  | .mul => "*"
  | .div => "/"
  | .mod => "%"
  | .pow => "**"
  | .other s => s

def ofText (s : String) : BinaryOp := (all.find? (·.text == s)).getD (.other s)

end BinaryOp

namespace StepOp

def text : StepOp → String
  | .increment => "++"
  | .decrement => "--"

/-- Every text but that of the increment steps down. -/
def ofText (s : String) : StepOp := if s = "++" then .increment else .decrement

end StepOp

mutual

inductive Expr where
  | constant (c : Constant)
  /-- A literal that is made once: all evaluations at this place yield the same value. -/
  | compound (place : List Nat) (t : Tree)
  | variable (name : String)
  | assign (name : String) (value : Expr)
  | unary (op : UnaryOp) (operand : Expr)
  | binary (op : BinaryOp) (left right : Expr)
  | call (callee : Expr) (args : List Expr)
  | step (name : String) (op : StepOp)
  | member (target : Expr) (name : String)
  | function (params : List String) (body : List Stmt)
  | misplaced (t : Tree)
  /-- What stands where a list of expressions should. -/
  | unlisted (t : Tree)

inductive Stmt where
  | mk (line : Int) (form : Form)

/-- What a statement does, apart from its line. -/
inductive Form where
  | expr (e : Expr)
  | declare (name : String) (init : Option Expr)
  | block (body : List Stmt)
  | cond (test : Expr) (yes : Stmt) (no : Option Stmt)
  | loop (test : Expr) (body : Stmt)
  | circuit (init : Option Stmt) (test step : Option Expr) (body : Stmt)
  | define (name : String) (params : List String) (body : List Stmt)
  | ret (value : Option Expr)
  | load (path : Expr)
  | attempt (body : List Stmt) (name : Option String) (handler finalizer : Option (List Stmt))
  | leave
  | skip
  | misplaced (t : Tree)
  /-- What stands where a list of statements should. -/
  | unlisted (t : Tree)

end

instance : Inhabited Expr := ⟨.constant .null⟩

instance : Inhabited Stmt := ⟨.mk 0 .skip⟩

namespace Stmt

def line : Stmt → Int
  | .mk n _ => n

def form : Stmt → Form
  | .mk _ f => f

end Stmt

end Hantec
