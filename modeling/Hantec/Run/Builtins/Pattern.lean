import Hantec.Pattern.Template
import Hantec.Run.Builtins.Core

/-!
# Builtins on patterns
-/

namespace Hantec

/-- The pattern that a text writes out. -/
def readPattern (s : String) : Proc Pattern.Compiled :=
  match Pattern.parse s with
  | .ok c => pure c
  | .error e => Proc.fault (.pattern e)

def PatternFn.run (f : PatternFn) (args : List Value) : Proc Value :=
  match f with
  | .find => do
    let pattern ← textArgument args 1
    let s ← textArgument args 0
    let c ← readPattern pattern
    return ((c.findFirst s).map .str).getD .null
  | .findAll => do
    let pattern ← textArgument args 1
    let s ← textArgument args 0
    let c ← readPattern pattern
    Proc.newArray ((c.findAll s).map .str)
  | .replace => do
    let template ← textArgument args 2
    let pattern ← textArgument args 1
    let s ← textArgument args 0
    let c ← readPattern pattern
    return .str (c.replace s template)

end Hantec
