import Hantec.Json
import Hantec.Number.Reading

/-!
# Node trees

The form in which programs are stored: nodes of a known kind with one value for
each field of the kind. The fields of a node may hold anything, so a tree need
not be a program.
-/

namespace Hantec

inductive NodeKind where
  | literal | variable | assign | unary | binary | call | step | get | functionExpr
  | exprStmt | letStmt | block | ifStmt | whileStmt | forStmt | functionDecl | returnStmt
  | importStmt | tryStmt | breakStmt | continueStmt
  deriving DecidableEq, Repr, Inhabited

namespace NodeKind

def all : List NodeKind :=
  [.literal, .variable, .assign, .unary, .binary, .call, .step, .get, .functionExpr,
   .exprStmt, .letStmt, .block, .ifStmt, .whileStmt, .forStmt, .functionDecl, .returnStmt,
   .importStmt, .tryStmt, .breakStmt, .continueStmt]

def name : NodeKind → String
  | .literal => "Literal"
  | .variable => "Variable"
  | .assign => "Assign"
  | .unary => "Unary"
  | .binary => "Binary"
  | .call => "Call"
  | .step => "Postfix"
  | .get => "Get"
  | .functionExpr => "FunctionExpr"
  | .exprStmt => "ExprStmt"
  | .letStmt => "Let"
  | .block => "Block"
  | .ifStmt => "If"
  | .whileStmt => "While"
  | .forStmt => "For"
  | .functionDecl => "FunctionDecl"
  | .returnStmt => "Return"
  | .importStmt => "Import"
  | .tryStmt => "Try"
  | .breakStmt => "Break"
  | .continueStmt => "Continue"

def ofName? (s : String) : Option NodeKind := all.find? (·.name == s)

/-- The fields of a node in their order. Statements start with their line. -/
def fields : NodeKind → List String
  | .literal => ["value"]
  | .variable => ["name"]
  | .assign => ["name", "value"]
  | .unary => ["op", "operand"]
  | .binary => ["op", "left", "right"]
  | .call => ["callee", "args"]
  | .step => ["name", "op"]
  | .get => ["obj", "name"]
  | .functionExpr => ["params", "body"]
  | .exprStmt => ["line", "expr"]
  | .letStmt => ["line", "name", "init"]
  | .block => ["line", "statements"]
  | .ifStmt => ["line", "condition", "then_branch", "else_branch"]
  | .whileStmt => ["line", "condition", "body"]
  | .forStmt => ["line", "init", "condition", "step", "body"]
  | .functionDecl => ["line", "name", "params", "body"]
  | .returnStmt => ["line", "value"]
  | .importStmt => ["line", "path"]
  | .tryStmt => ["line", "body", "name", "handler", "finalizer"]
  | .breakStmt => ["line"]
  | .continueStmt => ["line"]

end NodeKind

inductive Tree where
  | null
  | bool (b : Bool)
  | int (n : Int)
  | num (x : Float)
  | str (s : String)
  | list (items : List Tree)
  | node (kind : NodeKind) (fields : List Tree)
  deriving Inhabited

/-- Why a JSON value is no tree. -/
inductive TreeError where
  | notProgram
  | noBody
  | unknownKind (name : String)
  | compoundKind (shape : String)
  | missingField (kind : NodeKind) (field : String)
  | tooLarge
  deriving Repr

namespace TreeError

def message : TreeError → String
  | .notProgram => "AST file does not contain a Program"
  | .noBody => "'body'"
  | .unknownKind t => s!"Unknown AST node type: {t}"
  | .compoundKind s => s!"unhashable type: '{s}'"
  | .missingField k f => s!"AST node {k.name} is missing field '{f}'"
  | .tooLarge => "int too large to convert to float"

end TreeError

end Hantec
