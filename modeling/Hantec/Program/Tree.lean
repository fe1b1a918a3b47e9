import Hantec.Number.Written
import Hantec.Program

/-!
# Programs as node trees

Every program has a tree. Every tree is read as a program too: what is no expression or no
statement is kept in its place.
-/

namespace Hantec

def Constant.toTree : Constant → Tree
  | .null => .null
  | .bool b => .bool b
  | .num x => .num x
  | .str s => .str s

def nameTree : Option String → Tree
  | none => .null
  | some s => .str s

def namesTree (names : List String) : Tree := .list (names.map .str)

mutual

def Expr.toTree : Expr → Tree
  | .constant c => .node .literal [c.toTree]
  | .compound _ t => .node .literal [t]
  | .variable n => .node .variable [.str n]
  | .assign n e => .node .assign [.str n, e.toTree]
  | .unary op e => .node .unary [.str op.text, e.toTree]
  | .binary op l r => .node .binary [.str op.text, l.toTree, r.toTree]
  | .call c args => .node .call [c.toTree, .list (exprTrees args)]
  | .step n op => .node .step [.str n, .str op.text]
  | .member e n => .node .get [e.toTree, .str n]
  | .function ps body => .node .functionExpr [namesTree ps, .list (stmtTrees body)]
  | .misplaced t => t
  | .unlisted t => t

def exprTrees : List Expr → List Tree
  | [] => []
  | e :: es => e.toTree :: exprTrees es

def Stmt.toTree : Stmt → Tree
  | .mk line form => form.toTree line

def Form.toTree (line : Int) : Form → Tree
  | .expr e => .node .exprStmt [.int line, e.toTree]
  | .declare n e => .node .letStmt [.int line, .str n, optExprTree e]
  | .block body => .node .block [.int line, .list (stmtTrees body)]
  | .cond e y n => .node .ifStmt [.int line, e.toTree, y.toTree, optStmtTree n]
  | .loop e b => .node .whileStmt [.int line, e.toTree, b.toTree]
  | .circuit i e s b =>
    .node .forStmt [.int line, optStmtTree i, optExprTree e, optExprTree s, b.toTree]
  | .define n ps body =>
    .node .functionDecl [.int line, .str n, namesTree ps, .list (stmtTrees body)]
  | .ret e => .node .returnStmt [.int line, optExprTree e]
  | .load e => .node .importStmt [.int line, e.toTree]
  | .attempt b n h f =>
    .node .tryStmt [.int line, .list (stmtTrees b), nameTree n, optBodyTree h, optBodyTree f]
  | .leave => .node .breakStmt [.int line]
  | .skip => .node .continueStmt [.int line]
  | .misplaced t => t
  | .unlisted t => t

def optExprTree : Option Expr → Tree
  | none => .null
  | some e => e.toTree

def optStmtTree : Option Stmt → Tree
  | none => .null
  | some s => s.toTree

def optBodyTree : Option (List Stmt) → Tree
  | none => .null
  | some b => .list (stmtTrees b)

def stmtTrees : List Stmt → List Tree
  | [] => []
  | s :: ss => s.toTree :: stmtTrees ss

end

/-- The stored form of a program. -/
def programJsonTree (p : List Stmt) : Tree := .list (stmtTrees p)

namespace Tree

/-- A name; what is no text is named by the way it is written. -/
def toName : Tree → String
  | .str s => s
  | .null => "None"
  | .bool b => if b then "True" else "False"
  | .int n => toString n
  | .num x => Number.toLabel x
  | .list _ | .node _ _ => ""

/-- The names in a list, or those of one character each in a text. -/
def toNames : Tree → List String
  | .list ts => ts.map toName
  | .str s => s.toList.map String.singleton
  | _ => []

def toOptName : Tree → Option String
  | .null => none
  | t => some t.toName

def toLine : Tree → Int
  | .int n => n
  | _ => 0

def toConstant? : Tree → Option Constant
  | .null => some .null
  | .bool b => some (.bool b)
  | .num x => some (.num x)
  | .str s => some (.str s)
  | _ => none

/-- Nothing in the place of an absent part. -/
def whenPresent {α : Type} (t : Tree) (a : α) : Option α :=
  match t with
  | .null => none
  | _ => some a

def charTrees (s : String) : List Tree := s.toList.map fun c => .str (String.singleton c)

mutual

/-- The expression that a tree at the given place stands for. -/
def toExpr (place : List Nat) : Tree → Expr
  | .node .literal [t] =>
    match t.toConstant? with
    | some c => .constant c
    | none => .compound place t
  | .node .variable [n] => .variable n.toName
  | .node .assign [n, e] => .assign n.toName (toExpr (1 :: place) e)
  | .node .unary [op, e] => .unary (.ofText op.toName) (toExpr (1 :: place) e)
  | .node .binary [op, l, r] =>
    .binary (.ofText op.toName) (toExpr (1 :: place) l) (toExpr (2 :: place) r)
  | .node .call [c, .list args] => .call (toExpr (0 :: place) c) (toExprs (1 :: place) 0 args)
  | .node .call [c, .str args] =>
    .call (toExpr (0 :: place) c) ((charTrees args).map .misplaced)
  | .node .call [c, args] => .call (toExpr (0 :: place) c) [.unlisted args]
  | .node .step [n, op] => .step n.toName (.ofText op.toName)
  | .node .get [e, n] => .member (toExpr (0 :: place) e) n.toName
  | .node .functionExpr [ps, body] => .function ps.toNames (toBody (1 :: place) body)
  | t => .misplaced t

def toExprs (place : List Nat) (i : Nat) : List Tree → List Expr
  | [] => []
  | t :: ts => toExpr (i :: place) t :: toExprs place (i + 1) ts

/-- The statement that a tree at the given place stands for. -/
def toStmt (place : List Nat) : Tree → Stmt
  | .node .exprStmt [n, e] => .mk n.toLine (.expr (toExpr (1 :: place) e))
  | .node .letStmt [n, x, e] =>
    .mk n.toLine (.declare x.toName (e.whenPresent (toExpr (2 :: place) e)))
  | .node .block [n, body] => .mk n.toLine (.block (toBody (1 :: place) body))
  | .node .ifStmt [n, e, yes, no] =>
    .mk n.toLine (.cond (toExpr (1 :: place) e) (toStmt (2 :: place) yes)
      (no.whenPresent (toStmt (3 :: place) no)))
  | .node .whileStmt [n, e, b] =>
    .mk n.toLine (.loop (toExpr (1 :: place) e) (toStmt (2 :: place) b))
  | .node .forStmt [n, i, e, s, b] =>
    .mk n.toLine (.circuit (i.whenPresent (toStmt (1 :: place) i))
      (e.whenPresent (toExpr (2 :: place) e)) (s.whenPresent (toExpr (3 :: place) s))
      (toStmt (4 :: place) b))
  | .node .functionDecl [n, x, ps, body] =>
    .mk n.toLine (.define x.toName ps.toNames (toBody (3 :: place) body))
  | .node .returnStmt [n, e] => .mk n.toLine (.ret (e.whenPresent (toExpr (1 :: place) e)))
  | .node .importStmt [n, e] => .mk n.toLine (.load (toExpr (1 :: place) e))
  | .node .tryStmt [n, body, x, h, f] =>
    .mk n.toLine (.attempt (toBody (1 :: place) body) x.toOptName
      (h.whenPresent (toBody (3 :: place) h)) (f.whenPresent (toBody (4 :: place) f)))
  | .node .breakStmt [n] => .mk n.toLine .leave
  | .node .continueStmt [n] => .mk n.toLine .skip
  | t => .mk 0 (.misplaced t)

/-- The statements of the items from number `i` on. -/
def toStmts (place : List Nat) (i : Nat) : List Tree → List Stmt
  | [] => []
  | t :: ts => toStmt (i :: place) t :: toStmts place (i + 1) ts

def toBody (place : List Nat) : Tree → List Stmt
  | .list ts => toStmts place 0 ts
  | .str s => (charTrees s).map fun t => .mk 0 (.misplaced t)
  | t => [.mk 0 (.unlisted t)]

end

def toProgram (body : Tree) : List Stmt := toBody [] body

end Tree

end Hantec
