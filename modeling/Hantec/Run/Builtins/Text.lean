import Hantec.Run.Builtins.Core
import Hantec.Text.Case

/-!
# Builtins on texts

The arguments are read as texts first, whatever they are.
-/

namespace Hantec

/-- A number as a place in a text of the given length. -/
def clampPlace (x : Float) (length : Nat) : Nat :=
  match Number.trunc? x with
  | some n => min length n.toNat
  | none => if x.isNaN || x < 0 then 0 else length

/-- The characters between two places, in whatever order these are given. -/
def textPart (s : String) (start stop : Float) : String :=
  let a := clampPlace start s.length
  let b := clampPlace stop s.length
  Text.slice s (min a b) (max a b)

/-- The mask filled with the date of a number of milliseconds. -/
def dateText (ms mask : Value) : Proc Value := do
  let x ← Proc.toNumber ms
  match Calendar.ofMillis x with
  | .error e => Proc.fault (.date e)
  | .ok m => return .str (Calendar.fillMask m (← Proc.toText mask))

/-- The texts of items, with an empty one for null. -/
def itemTexts : List Value → Proc (List String)
  | [] => pure []
  | .null :: vs => do return "" :: (← itemTexts vs)
  | v :: vs => do
    let s ← Proc.toText v
    return s :: (← itemTexts vs)

/-- The items to be joined: those of an array, or the characters of a text. -/
def joinItems (v : Value) : Proc (List Value) :=
  match v with
  | .arr r => Proc.ask fun h => .ok (h.array r).toList
  | .str s => pure (s.toList.map fun c => .str (String.singleton c))
  | _ => pure []

def TextFn.run (f : TextFn) (args : List Value) : Proc Value :=
  match f with
  | .part => do
    let s ← textArgument args 0
    let start ← numberArgument args 1
    let length ← numberArgument args 2
    return .str (textPart s start (start + length))
  | .replace => do
    let new ← textArgument args 2
    let s ← argument args 0
    let old ← argument args 1
    let s ← Proc.toText s
    return .str (Text.replace s (← Proc.toText old) new)
  | .lower => do return .str (Text.lower (← textArgument args 0))
  | .upper => do return .str (Text.upper (← textArgument args 0))
  | .split => do
    let s ← textArgument args 0
    let sep ← textArgument args 1
    Proc.newArray ((Text.split s sep).map .str)
  | .join => do
    let items ← joinItems (← argument args 0)
    let sep ← textArgument args 1
    return .str (Text.join sep (← itemTexts items))
  | .trim => do return .str (Text.trim (← textArgument args 0))
  | .contains => do
    let part ← textArgument args 1
    return .bool (Text.contains (← textArgument args 0) part)
  | .startsWith => do
    let s ← textArgument args 0
    let start ← textArgument args 1
    return .bool (start.toList.isPrefixOf s.toList)
  | .endsWith => do
    let s ← textArgument args 0
    let stop ← textArgument args 1
    return .bool (stop.toList.isSuffixOf s.toList)
  | .formatDate => do
    let ms ← argument args 0
    dateText ms (← argument args 1)

end Hantec
