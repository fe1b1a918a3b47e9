import Hantec.Run.Builtins.Array
import Hantec.Run.Builtins.Crypto
import Hantec.Run.Builtins.File
import Hantec.Run.Builtins.Math
import Hantec.Run.Builtins.Object
import Hantec.Run.Builtins.Pattern
import Hantec.Run.Builtins.Process
import Hantec.Run.Builtins.Time

/-!
# Calls of builtins

A fault inside a builtin becomes an error value whose message starts with the name of the
builtin. The result is then taken into the language.
-/

namespace Hantec

namespace Builtin

/-- What a builtin does with its arguments. -/
def run (b : Builtin) (args : List Value) : Proc Value :=
  match b with
  | .core f => f.run args
  | .text f => f.run args
  | .array f => f.run args
  | .object f => f.run args
  | .math f => f.run args
  | .time f => f.run args
  | .pattern f => f.run args
  | .crypto f => f.run args
  | .process f => f.run args
  | .file f => f.run args

/-- Fails with what a script can catch, if a builtin has failed with a fault. -/
def failWith {α : Type} (b : Builtin) (e : Failure) : Proc α :=
  match e with
  | .fault f =>
    match f.errorName? with
    | some name => Proc.raiseError name s!"{b.name}: {f.message}"
    | none => Proc.fault f
  | e => Proc.failWith e

/-- Takes a result into the language. -/
def adopt (v : Value) : Proc Value := fun s =>
  match s.heap.adopt v with
  | .ok (w, h) => .ret w { s with heap := h }
  | .error f => .fail (.fault f) s

def call (b : Builtin) (args : List Value) : Proc Value := do
  match ← Proc.attempt (b.run args) with
  | .error e => b.failWith e
  | .ok v => adopt v

end Builtin

end Hantec
