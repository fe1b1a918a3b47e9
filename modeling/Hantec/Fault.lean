import Hantec.Calendar
import Hantec.Codec.Base64
import Hantec.Disk
import Hantec.Json.Reader
import Hantec.Pattern
import Hantec.Program
import Hantec.Web

/-!
# Faults

What can go wrong below the level of the language. A fault inside a builtin becomes an error
value that a script can catch; outside of one it ends the run.
-/

namespace Hantec

/-- The short name of what a tree is. -/
def Tree.shape : Tree → String
  | .null => "NoneType"
  | .bool _ => "bool"
  | .int _ => "int"
  | .num _ => "float"
  | .str _ => "str"
  | .list _ => "list"
  | .node k _ => k.name

/-- The full name of what a tree is. -/
def Tree.fullShape (t : Tree) : String :=
  match t with
  | .node k _ => s!"brno.ast.{k.name}"
  | t => t.shape

inductive Fault where
  | notAValue (shape : String)
  | tooLarge
  | infiniteWhole
  | nanWhole
  | missingArgument
  | tooFewParts (expected got : Nat)
  | tooManyParts (expected : Nat)
  | notArray (builtin : String)
  | notObject (builtin : String)
  | pattern (e : Pattern.Error)
  | base64 (e : Codec.Base64Error)
  | date (e : DateError)
  | utf8 (e : Text.Utf8Error)
  | nullByte
  | disk (e : DiskError)
  | web (e : WebError)
  | noModule (path : String)
  | misplacedExpr (t : Tree)
  | misplacedStmt (t : Tree)
  | notIterable (t : Tree)
  | json (e : JsonError)
  | tree (e : TreeError)

namespace Fault

def message : Fault → String
  | .notAValue s => s!"not a BrnoScript value: {s}"
  | .tooLarge => "int too large to convert to float"
  | .infiniteWhole => "cannot convert float infinity to integer"
  | .nanWhole => "cannot convert float NaN to integer"
  | .missingArgument => "list index out of range"
  | .tooFewParts n m => s!"not enough values to unpack (expected {n}, got {m})"
  | .tooManyParts n => s!"too many values to unpack (expected {n})"
  | .notArray b => s!"{b} expects an array"
  | .notObject b => s!"{b} expects an object"
  | .pattern e => e.message
  | .base64 e => e.message
  | .date e => e.message
  | .utf8 e => e.message
  | .nullByte => "embedded null byte"
  | .disk e => e.message
  | .web e => e.message
  | .noModule p => s!"no such module: {p}"
  | .misplacedExpr t => s!"evaluate: unexpected node type <class '{t.fullShape}'>"
  | .misplacedStmt t => s!"execute: unexpected node type <class '{t.fullShape}'>"
  | .notIterable t => s!"'{t.shape}' object is not iterable"
  | .json e => e.message
  | .tree e => e.message

/-- The name of the error value that a fault inside a builtin becomes, if it becomes one. -/
def errorName? : Fault → Option String
  | .disk _ | .date .beyondCalendar => some "IOError"
  | .pattern e => some (if e.isMalformed then "RegexError" else "TypeError")
  | .web _ | .noModule _ | .misplacedExpr _ | .misplacedStmt _ => none
  | _ => some "TypeError"

end Fault

end Hantec
