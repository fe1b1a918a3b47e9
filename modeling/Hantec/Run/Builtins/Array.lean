import Hantec.Run.Builtins.Core

/-!
# Builtins on arrays

Callbacks are called for the items that the array had at the start, whatever they do to the array.
Sorting with a comparison merges the sorted halves and takes the left item unless it compares
as greater.
-/

namespace Hantec

/-- The reference of what has to be an array. -/
def requireArray (builtin : String) (v : Value) : Proc Nat :=
  match v with
  | .arr r => pure r
  | _ => Proc.fault (.notArray builtin)

def items (r : Nat) : Proc (List Value) := Proc.ask fun h => .ok (h.array r).toList

def arrayGet (v index : Value) : Proc Value :=
  match v with
  | .arr r => do
    match ← Proc.ask (·.toIndex index) with
    | some i => Proc.ask fun h => .ok ((h.array r).getD i .null)
    | none => return .null
  | .str s => do
    match ← Proc.ask (·.toIndex index) with
    | some i => return ((s.toList[i]?).map fun c => .str (String.singleton c)).getD .null
    | none => return .null
  | .obj r => do
    let x ← Proc.toNumber index
    Proc.ask fun h => .ok (((h.object r).get? (Number.toText x)).getD .null)
  | _ => pure .null

/-- Merges sorted lists; `n` bounds their common length and `done` holds the items before, the last
one first. -/
def mergeBy (greater : Value → Value → Proc Bool) (done : List Value) :
    Nat → List Value → List Value → Proc (List Value)
  | n + 1, x :: xs, y :: ys => do
    if ← greater x y then mergeBy greater (y :: done) n (x :: xs) ys
    else mergeBy greater (x :: done) n xs (y :: ys)
  | _, xs, ys => pure (done.reverse ++ xs ++ ys)

/-- Merges the sorted halves; `n` bounds the length of the list. -/
def sortBy (greater : Value → Value → Proc Bool) : Nat → List Value → Proc (List Value)
  | 0, xs => pure xs
  | n + 1, xs =>
    if xs.length ≤ 1 then pure xs
    else do
      let mid := xs.length / 2
      let left ← sortBy greater n (xs.take mid)
      let right ← sortBy greater n (xs.drop mid)
      mergeBy greater [] (left.length + right.length) left right

/-- Sorts an array by a comparison. The second half is taken when the first one is sorted. -/
def sortArrayBy (greater : Value → Value → Proc Bool) (r : Nat) : Proc Unit := do
  let xs ← items r
  if xs.length ≤ 1 then pure ()
  else
    let mid := xs.length / 2
    let left ← sortBy greater xs.length (xs.take mid)
    let ys ← items r
    let right ← sortBy greater ys.length (ys.drop mid)
    let sorted ← mergeBy greater [] (left.length + right.length) left right
    Proc.modifyHeap (·.setArray r sorted.toArray)

/-- The items with the texts that they are sorted by. -/
def sortKeys (h : Heap) : List Value → Except Trouble (List (String × Value))
  | [] => .ok []
  | v :: vs => do
    let key ← h.toText v
    return (key, v) :: (← sortKeys h vs)

/-- Sorts an array by the texts of its items. While these are made the array counts as empty. -/
def sortArray (r : Nat) : Proc Unit := do
  let xs ← items r
  let keyed ← Proc.ask fun h => sortKeys (h.setArray r #[]) xs
  let sorted := keyed.mergeSort fun a b => !(b.1 < a.1)
  Proc.modifyHeap (·.setArray r (sorted.map Prod.snd).toArray)

/-- The comparison to sort by, if one is given. -/
def comparison? : List Value → Option Value
  | _ :: .null :: _ => none
  | _ :: f :: _ => some f
  | _ => none

/-- The values of a callback on the items from number `i` on; `done` holds those before, the last
one first. -/
def mapItems (f array : Value) (done : List Value) (i : Nat) : List Value → Proc (List Value)
  | [] => pure done.reverse
  | v :: vs => do
    let w ← invoke f [v, .num (Float.ofNat i), array]
    mapItems f array (w :: done) (i + 1) vs

/-- The items from number `i` on for which a callback is true. -/
def filterItems (f array : Value) (done : List Value) (i : Nat) : List Value → Proc (List Value)
  | [] => pure done.reverse
  | v :: vs => do
    let w ← invoke f [v, .num (Float.ofNat i), array]
    if ← Proc.isTruthy w then filterItems f array (v :: done) (i + 1) vs
    else filterItems f array done (i + 1) vs

/-- Goes over the items from number `i` on with an accumulator. -/
def reduceItems (f array acc : Value) (i : Nat) : List Value → Proc Value
  | [] => pure acc
  | v :: vs => do
    let acc ← invoke f [acc, v, .num (Float.ofNat i), array]
    reduceItems f array acc (i + 1) vs

def flatItem (h : Heap) : Value → List Value
  | .arr r => (h.array r).toList
  | v => [v]

def ArrayFn.run (f : ArrayFn) (args : List Value) : Proc Value :=
  match f with
  | .isArray => do
    match ← argument args 0 with
    | .arr _ => return .bool true
    | _ => return .bool false
  | .get => do
    let (v, index) ← twoArguments args
    arrayGet v index
  | .push => do
    let r ← requireArray "šalát.hoď" (← argument args 0)
    let v ← argument args 1
    Proc.modifyHeap (·.updateArray r (·.push v))
    Proc.ask fun h => .ok (.num (Float.ofNat (h.array r).size))
  | .pop => do
    let r ← requireArray "šalát.sekni" (← argument args 0)
    let last ← Proc.ask fun h => .ok ((h.array r).back?.getD .null)
    Proc.modifyHeap (·.updateArray r (·.pop))
    return last
  | .reverse => do
    let v ← argument args 0
    let r ← requireArray "šalát.otoč" v
    Proc.modifyHeap (·.updateArray r (·.reverse))
    return v
  | .sort => do
    let v := args.headD .null
    let r ← requireArray "šalát.seřaď" v
    match comparison? args with
    | none => sortArray r
    | some f => sortArrayBy (fun x y => do return (← Proc.toNumber (← invoke f [x, y])) > 0) r
    return v
  | .map => do
    let v ← argument args 0
    let r ← requireArray "šalát.mapuj" v
    let f ← argument args 1
    Proc.newArray (← mapItems f v [] 0 (← items r))
  | .filter => do
    let v ← argument args 0
    let r ← requireArray "šalát.filtruj" v
    let f ← argument args 1
    Proc.newArray (← filterItems f v [] 0 (← items r))
  | .reduce => do
    let v ← argument args 0
    let r ← requireArray "šalát.spočítej" v
    let f ← argument args 1
    let acc ← argument args 2
    reduceItems f v acc 0 (← items r)
  | .flatten => do
    let r ← requireArray "šalát.placka" (← argument args 0)
    let flat ← Proc.ask fun h => .ok ((h.array r).toList.flatMap (flatItem h))
    Proc.newArray flat
  | .length => do
    match ← argument args 0 with
    | .arr r => Proc.ask fun h => .ok (.num (Float.ofNat (h.array r).size))
    | .str s => return .num (Float.ofNat s.length)
    | _ => return .null

end Hantec
