import Hantec.Dict
import Hantec.Program
import Hantec.Value

/-!
# Heaps

The arrays, objects, functions and scopes that exist, each under its number. Nothing is ever
removed. A scope binds names to values and has an outer scope with a smaller number, except
for the global ones.
-/

namespace Hantec

/-- A function of the program with the scope where it was defined. -/
structure Closure where
  name : String
  params : List String
  body : List Stmt
  scope : Nat
  deriving Inhabited

structure Scope where
  parent : Option Nat
  vars : Dict Value
  deriving Inhabited

structure Heap where
  arrays : Array (Array Value)
  objects : Array (Dict Value)
  closures : Array Closure
  scopes : Array Scope
  /-- The number of the next value that is told apart by a number. -/
  nextId : Nat
  /-- The values that compound literals have made, by the place of the literal. -/
  literals : List (List Nat × Value)

namespace Heap

def empty : Heap := ⟨#[], #[], #[], #[], 0, []⟩

instance : Inhabited Heap := ⟨empty⟩

def array (h : Heap) (r : Nat) : Array Value := h.arrays.getD r #[]

def object (h : Heap) (r : Nat) : Dict Value := h.objects.getD r .empty

def closure (h : Heap) (r : Nat) : Closure := h.closures.getD r default

def newArray (h : Heap) (items : Array Value) : Nat × Heap :=
  (h.arrays.size, { h with arrays := h.arrays.push items })

def setArray (h : Heap) (r : Nat) (items : Array Value) : Heap :=
  { h with arrays := h.arrays.setIfInBounds r items }

/-- Changes the items of an array. -/
def updateArray (h : Heap) (r : Nat) (f : Array Value → Array Value) : Heap :=
  { h with arrays := h.arrays.modify r f }

def newObject (h : Heap) (d : Dict Value) : Nat × Heap :=
  (h.objects.size, { h with objects := h.objects.push d })

def putMember (h : Heap) (r : Nat) (k : String) (v : Value) : Heap :=
  { h with objects := h.objects.modify r (·.put k v) }

def newClosure (h : Heap) (c : Closure) : Nat × Heap :=
  (h.closures.size, { h with closures := h.closures.push c })

def newError (h : Heap) (name message : String) : Value × Heap :=
  (.err h.nextId name message, { h with nextId := h.nextId + 1 })

/-- A new whole number. -/
def newInt (h : Heap) (n : Int) : Value × Heap :=
  (.int h.nextId n, { h with nextId := h.nextId + 1 })

def newNode (h : Heap) (k : NodeKind) : Value × Heap :=
  (.node h.nextId k, { h with nextId := h.nextId + 1 })

def newScope (h : Heap) (parent : Option Nat) : Nat × Heap :=
  (h.scopes.size, { h with scopes := h.scopes.push ⟨parent, .empty⟩ })

def define (h : Heap) (scope : Nat) (name : String) (v : Value) : Heap :=
  { h with scopes := h.scopes.modify scope fun s => { s with vars := s.vars.put name v } }

/-- The nearest scope that binds a name, among at most `n` scopes from `scope` outwards. -/
def resolveWithin (h : Heap) (name : String) : Nat → Nat → Option Nat
  | 0, _ => none
  | n + 1, scope =>
    match h.scopes[scope]? with
    | none => none
    | some s =>
      if s.vars.contains name then some scope
      else
        match s.parent with
        | none => none
        | some p => resolveWithin h name n p

/-- The nearest scope from `scope` outwards that binds a name. -/
def resolve (h : Heap) (scope : Nat) (name : String) : Option Nat :=
  h.resolveWithin name (scope + 1) scope

/-- The value of a name as seen from a scope. -/
def lookup (h : Heap) (scope : Nat) (name : String) : Option Value :=
  (h.resolve scope name).bind fun s => (h.scopes.getD s default).vars.get? name

mutual

/-- Makes the value that is written out. -/
def build (h : Heap) : Datum → Value × Heap
  | .null => (.null, h)
  | .bool b => (.bool b, h)
  | .num x => (.num x, h)
  | .str s => (.str s, h)
  | .list ds =>
    let (vs, h) := h.buildAll ds
    let (r, h) := h.newArray vs.toArray
    (.arr r, h)
  | .record es =>
    let (vs, h) := h.buildEntries es
    let (r, h) := h.newObject (Dict.ofList vs)
    (.obj r, h)
  | .error name message => h.newError name message
  | .builtin b => (.fn (.builtin b), h)
  | .int n => h.newInt n
  | .tuple ds =>
    let (vs, h) := h.buildAll ds
    (.tuple vs, h)

def buildAll (h : Heap) : List Datum → List Value × Heap
  | [] => ([], h)
  | d :: ds =>
    let (v, h) := h.build d
    let (vs, h) := h.buildAll ds
    (v :: vs, h)

def buildEntries (h : Heap) : List (String × Datum) → List (String × Value) × Heap
  | [] => ([], h)
  | (k, d) :: es =>
    let (v, h) := h.build d
    let (vs, h) := h.buildEntries es
    ((k, v) :: vs, h)

end

mutual

/-- Makes the value of a literal that is kept as a tree. -/
def buildTree (h : Heap) : Tree → Value × Heap
  | .null => (.null, h)
  | .node k _ => h.newNode k
  | .bool b => (.bool b, h)
  | .int n => h.newInt n
  | .num x => (.num x, h)
  | .str s => (.str s, h)
  | .list ts =>
    let (vs, h) := h.buildTrees ts
    let (r, h) := h.newArray vs.toArray
    (.arr r, h)

def buildTrees (h : Heap) : List Tree → List Value × Heap
  | [] => ([], h)
  | t :: ts =>
    let (v, h) := h.buildTree t
    let (vs, h) := h.buildTrees ts
    (v :: vs, h)

end

/-- The value that the literal at a place stands for. It is made the first time. -/
def literal (h : Heap) (place : List Nat) (t : Tree) : Value × Heap :=
  match h.literals.lookup place with
  | some v => (v, h)
  | none =>
    let (v, h) := h.buildTree t
    (v, { h with literals := (place, v) :: h.literals })

/-- Binds the members of one namespace in the global scope. -/
def installSpace (h : Heap) (space : String) (members : List (String × Builtin)) : Heap :=
  let (r, h) := h.newObject (Dict.ofList (members.map fun (k, b) => (k, .fn (.builtin b))))
  h.define 0 space (.obj r)

/-- The heap of a fresh run: one global scope with the builtins. -/
def initial : Heap :=
  let (_, h) := empty.newScope none
  let h := Builtin.free.foldl (fun h (name, b) => h.define 0 name (.fn (.builtin b))) h
  Builtin.namespaces.foldl (fun h (space, members) => h.installSpace space members) h

end Heap

end Hantec
