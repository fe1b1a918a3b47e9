import Hantec.Run.Builtins.Core

/-!
# Builtins on objects

What is no object counts as one without members, except where a member is put.
-/

namespace Hantec

def membersOf (h : Heap) : Value → Dict Value
  | .obj r => h.object r
  | _ => .empty

def members (v : Value) : Proc (Dict Value) := Proc.ask fun h => .ok (membersOf h v)

/-- Each entry as an array of its key and its value. -/
def pairArrays : List (String × Value) → Proc (List Value)
  | [] => pure []
  | (k, v) :: es => do
    let pair ← Proc.newArray [.str k, v]
    return pair :: (← pairArrays es)

def ObjectFn.run (f : ObjectFn) (args : List Value) : Proc Value :=
  match f with
  | .empty => Proc.newObject .empty
  | .get => do
    match ← twoArguments args with
    | (.obj r, key) =>
      let k ← Proc.toText key
      Proc.ask fun h => .ok (((h.object r).get? k).getD .null)
    | _ => return .null
  | .put => do
    match ← threeArguments args with
    | (.obj r, key, v) =>
      let k ← Proc.toText key
      Proc.modifyHeap (·.putMember r k v)
      return v
    | _ => Proc.fault (.notObject "mapa.dej")
  | .keys => do
    let d ← members (← argument args 0)
    Proc.newArray (d.keys.map .str)
  | .values => do
    let d ← members (← argument args 0)
    Proc.newArray d.values
  | .pairs => do
    let d ← members (← argument args 0)
    Proc.newArray (← pairArrays d.entries)
  | .merge => do
    let a ← members (← argument args 0)
    let b ← members (← argument args 1)
    Proc.newObject (a.putAll b.entries)

end Hantec
