import Hantec.Builtin
import Hantec.Tree

/-!
# Values

Arrays, objects and functions are held by reference into a heap, so that two values can be
the same one. An error value carries a number that tells it from other errors with the
same texts. Whole numbers, tuples and nodes of trees are no values of the language; they can only
come from outside. Whole numbers and nodes carry a number too, as only small whole numbers are
shared.
-/

namespace Hantec

/-- What can be called: a function of the program or a builtin. -/
inductive Callable where
  | closure (ref : Nat)
  | builtin (b : Builtin)
  deriving DecidableEq, Repr

inductive Value where
  | null
  | bool (b : Bool)
  | num (x : Float)
  | str (s : String)
  | arr (ref : Nat)
  | obj (ref : Nat)
  | err (id : Nat) (name message : String)
  | fn (f : Callable)
  | int (id : Nat) (n : Int)
  | tuple (items : List Value)
  | node (id : Nat) (kind : NodeKind)
  deriving Repr, Inhabited

namespace Value

/-- Whether a whole number is the same one wherever it stands. -/
def isShared (n : Int) : Bool := -5 ≤ n && n ≤ 256

/-- Equality without coercion. Compound values are equal only to themselves. -/
def strictEq : Value → Value → Bool
  | .null, .null => true
  | .bool a, .bool b => a == b
  | .num x, .num y => x == y
  | .str s, .str t => s == t
  | .arr r, .arr q => r == q
  | .obj r, .obj q => r == q
  | .err i _ _, .err j _ _ => i == j
  | .fn f, .fn g => f == g
  | .int i m, .int j n => m == n && (isShared m || i == j)
  | .tuple [], .tuple [] => true
  | .node i _, .node j _ => i == j
  | _, _ => false

/-- The name of what stands outside the language. -/
def foreign? : Value → Option String
  | .int _ _ => some "int"
  | .tuple _ => some "tuple"
  | .node _ k => some k.name
  | _ => none

end Value

/-- Values written out, without references. -/
inductive Datum where
  | null
  | bool (b : Bool)
  | num (x : Float)
  | str (s : String)
  | list (items : List Datum)
  | record (entries : List (String × Datum))
  | error (name message : String)
  | builtin (b : Builtin)
  | int (n : Int)
  | tuple (items : List Datum)
  deriving Inhabited

end Hantec
