import Hantec.Fault
import Hantec.Heap
import Hantec.Number.Written

/-!
# Coercions

Reading values as truth values, numbers and texts. The text of an array is made of the
texts of its items, so an array that contains itself has none.
-/

namespace Hantec

/-- Why a value cannot be read as something else: it is none of the language, or it contains
itself. -/
inductive Trouble where
  | fault (f : Fault)
  | overflow

/-- Whether a value counts as true. -/
def Value.isTruthy : Value → Except Fault Bool
  | .null => .ok false
  | .bool b => .ok b
  | .num x => .ok !(x == 0 || x.isNaN)
  | .str s => .ok !s.isEmpty
  | .int _ _ => .error (.notAValue "int")
  | .tuple _ => .error (.notAValue "tuple")
  | .node _ k => .error (.notAValue k.name)
  | _ => .ok true

def Value.typeName : Value → Except Fault String
  | .null => .ok "null"
  | .bool true => .ok "pravda"
  | .bool false => .ok "nepravda"
  | .num _ => .ok "číslo"
  | .str _ => .ok "řetězec"
  | .arr _ => .ok "pole"
  | .fn _ => .ok "funkce"
  | .obj _ | .err _ _ _ => .ok "mapa"
  | .int _ _ => .error (.notAValue "int")
  | .tuple _ => .error (.notAValue "tuple")
  | .node _ k => .error (.notAValue k.name)

namespace Heap

def callableName (h : Heap) : Callable → String
  | .closure r => (h.closure r).name
  | .builtin b => b.name

/-- The number of arguments that a callable takes, if it is fixed. -/
def callableArity (h : Heap) : Callable → Option Nat
  | .closure r => some (h.closure r).params.length
  | .builtin b => b.arity

def callableText (h : Heap) : Callable → String
  | .closure r => s!"<rob {(h.closure r).name}>"
  | .builtin b => s!"<builtin {b.name}>"

/-- The text of a value in which arrays are nested at most `n` deep. -/
def textWithin (h : Heap) : Nat → Value → Except Trouble String
  | _, .null => .ok "null"
  | _, .bool b => .ok (if b then "true" else "false")
  | _, .num x => .ok (Number.toText x)
  | _, .str s => .ok s
  | _, .obj _ => .ok "[object Object]"
  | _, .err _ name message => .ok s!"{name}: {message}"
  | _, .fn f => .ok (h.callableText f)
  | _, .int _ _ => .error (.fault (.notAValue "int"))
  | _, .tuple _ => .error (.fault (.notAValue "tuple"))
  | _, .node _ k => .error (.fault (.notAValue k.name))
  | 0, .arr _ => .error .overflow
  | n + 1, .arr r => do
    let texts ← (h.array r).toList.mapM fun v =>
      match v with
      | .null => .ok ""
      | v => h.textWithin n v
    return ",".intercalate texts

/-- The text of a value. Nested deeper than there are arrays, it contains itself. -/
def toText (h : Heap) (v : Value) : Except Trouble String := h.textWithin (h.arrays.size + 1) v

def numberOfText (s : String) : Except Trouble Float :=
  match Number.ofText? s with
  | some x => .ok x
  | none => .error (.fault .tooLarge)

def toNumber (h : Heap) : Value → Except Trouble Float
  | .null => .ok 0
  | .bool b => .ok (if b then 1 else 0)
  | .num x => .ok x
  | .str s => numberOfText s
  | .arr r => do numberOfText (← h.toText (.arr r))
  | .int _ _ => .error (.fault (.notAValue "int"))
  | .tuple _ => .error (.fault (.notAValue "tuple"))
  | .node _ k => .error (.fault (.notAValue k.name))
  | _ => .ok Number.nan

/-- The index that a value stands for, if it is whole and not negative. -/
def toIndex (h : Heap) (v : Value) : Except Trouble (Option Nat) := do
  return Number.toIndex? (← h.toNumber v)

/-- The form in which a value is printed, nested at most `n` deep. Texts inside of others are
quoted. -/
def displayWithin (h : Heap) : Nat → Bool → Value → Except Trouble String
  | _, nested, .str s => .ok (if nested then s!"\"{s}\"" else s)
  | 0, _, .arr _ => .error .overflow
  | 0, _, .obj _ => .error .overflow
  | n + 1, _, .arr r => do
    let items ← (h.array r).toList.mapM (h.displayWithin n true)
    return "[" ++ ", ".intercalate items ++ "]"
  | n + 1, _, .obj r => do
    let entries ← (h.object r).entries.mapM fun (k, v) => do
      let text ← h.displayWithin n true v
      return s!"{k}: {text}"
    return "\x7b" ++ ", ".intercalate entries ++ "\x7d"
  | _, _, v => h.toText v

/-- The form in which a value is printed. Nested deeper than there are arrays and objects, it
contains itself. -/
def display (h : Heap) (v : Value) : Except Trouble String :=
  h.displayWithin (h.arrays.size + h.objects.size + 1) false v

/-- The entries that a list of keys and values stands for. A last key without a value has null. -/
def pairEntries (h : Heap) : List Value → Except Trouble (List (String × Value))
  | [] => .ok []
  | [k] => do return [(← h.toText k, .null)]
  | k :: v :: rest => do
    let key ← h.toText k
    return (key, v) :: (← h.pairEntries rest)

mutual

/-- Takes a value from outside into the language: whole numbers become numbers, tuples arrays. -/
def adopt (h : Heap) : Value → Except Fault (Value × Heap)
  | .int _ n =>
    match Number.ofInt? n with
    | some x => .ok (.num x, h)
    | none => .error .tooLarge
  | .tuple vs => do
    let (items, h) ← h.adoptAll vs
    let (r, h) := h.newArray items.toArray
    return (.arr r, h)
  | .node _ k => .error (.notAValue k.name)
  | v => .ok (v, h)

def adoptAll (h : Heap) : List Value → Except Fault (List Value × Heap)
  | [] => .ok ([], h)
  | v :: vs => do
    let (w, h) ← h.adopt v
    let (ws, h) ← h.adoptAll vs
    return (w :: ws, h)

end

end Heap

/-- A value as it is, if it is one of the language. -/
def Value.check (v : Value) : Except Fault Value :=
  match v.foreign? with
  | some shape => .error (.notAValue shape)
  | none => .ok v

end Hantec
