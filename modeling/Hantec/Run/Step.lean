import Hantec.Run.State
import Hantec.Value.Coerce

/-!
# Steps

A part of a program is run up to the point where it is done, fails, needs a task to be run first,
or has to wait. What it needs is described by a step, which holds the continuation. So evaluation
never calls itself for loops and calls: a machine runs the tasks one by one.
-/

namespace Hantec

/-- How running statements ends when it does not fail. -/
inductive Outcome where
  | normal
  | returned (v : Value)
  | broke
  | continued

/-- How a run fails. Only a raised value can be caught by a script. -/
inductive Failure where
  | raised (v : Value) (line : Option Int)
  | fault (f : Fault)
  | exit (code : Int)
  /-- Something is nested without an end. -/
  | overflow

def Trouble.toFailure : Trouble → Failure
  | .fault f => .fault f
  | .overflow => .overflow

/-- What the machine runs on behalf of a step. -/
inductive Task where
  /-- Calls a function; the outcome returns its value. -/
  | call (f : Callable) (args : List Value)
  /-- Runs a loop; its scope is the one that the clauses and the body see. -/
  | loop (test step : Option Expr) (body : Stmt) (scope : Nat)
  /-- Runs the statements of a module in a scope. -/
  | module (body : List Stmt) (scope : Nat)

inductive Step (α : Type) where
  | ret (a : α) (s : State)
  | fail (f : Failure) (s : State)
  | sub (t : Task) (s : State) (k : Except Failure Outcome → State → Step α)
  | wait (d : Delay) (s : State) (k : State → Step α)

namespace Step

variable {α β : Type}

/-- Goes on with the result or the failure of a step. -/
def andThen : Step α → (Except Failure α → State → Step β) → Step β
  | .ret a s, f => f (.ok a) s
  | .fail e s, f => f (.error e) s
  | .sub t s k, f => .sub t s fun r s => (k r s).andThen f
  | .wait d s k, f => .wait d s fun s => (k s).andThen f

/-- Goes on with the result of a step. -/
def bind : Step α → (α → State → Step β) → Step β
  | .ret a s, f => f a s
  | .fail e s, _ => .fail e s
  | .sub t s k, f => .sub t s fun r s => (k r s).bind f
  | .wait d s k, f => .wait d s fun s => (k s).bind f

end Step

/-- What is run in a state. -/
def Proc (α : Type) : Type := State → Step α

namespace Proc

variable {α β : Type}

instance : Monad Proc where
  pure a := fun s => .ret a s
  bind p f := fun s => (p s).bind fun a => f a

def config : Proc Config := fun s => .ret s.config s

/-- Changes the heap and yields what the change yields. -/
def onHeap (f : Heap → α × Heap) : Proc α := fun s =>
  let (a, h) := f s.heap
  .ret a { s with heap := h }

def modifyHeap (f : Heap → Heap) : Proc Unit := fun s => .ret () { s with heap := f s.heap }

def onWorld (f : World → α × World) : Proc α := fun s =>
  let (a, w) := f s.world
  .ret a { s with world := w }

def failWith (f : Failure) : Proc α := fun s => .fail f s

/-- Raises a value that stands outside any statement. -/
def raise (v : Value) : Proc α := failWith (.raised v none)

def raiseError (name message : String) : Proc α := fun s =>
  let (v, h) := s.heap.newError name message
  .fail (.raised v none) { s with heap := h }

def fault (f : Fault) : Proc α := failWith (.fault f)

/-- Reads something off the heap. -/
def ask (f : Heap → Except Trouble α) : Proc α := fun s =>
  match f s.heap with
  | .ok a => .ret a s
  | .error t => .fail t.toFailure s

def ofExcept : Except Fault α → Proc α
  | .ok a => pure a
  | .error f => fault f

/-- Runs a task and takes its outcome or its failure. -/
def task (t : Task) : Proc (Except Failure Outcome) := fun s => .sub t s fun r s => .ret r s

def wait (d : Delay) : Proc Unit := fun s => .wait d s fun s => .ret () s

/-- Waits for one thing after the other. -/
def waitAll : List Delay → Proc Unit
  | [] => pure ()
  | d :: ds => do
    wait d
    waitAll ds

/-- Goes on with the result or the failure. -/
def attempt (p : Proc α) : Proc (Except Failure α) := fun s => (p s).andThen fun r s => .ret r s

/-- The result of what may have failed. -/
def ofResult : Except Failure α → Proc α
  | .ok a => pure a
  | .error e => failWith e

/-- Adds a line to the trace at a level of detail. -/
def trace (level : Nat) (line : Heap → Except Trouble String) : Proc Unit := fun s =>
  if s.config.traceLevel < level then .ret () s
  else
    match line s.heap with
    | .ok text => .ret () (s.trace text)
    | .error t => .fail t.toFailure s.tear

/-- Writes the trace to its file. -/
def settleTrace : Proc Unit := fun s => .ret () s.settle

def toText (v : Value) : Proc String := ask (·.toText v)

def toNumber (v : Value) : Proc Float := ask (·.toNumber v)

def isTruthy (v : Value) : Proc Bool := ofExcept v.isTruthy

def typeName (v : Value) : Proc String := ofExcept v.typeName

def print (text : String) : Proc Unit := onWorld fun w => ((), w.print text)

def newArray (items : List Value) : Proc Value :=
  onHeap fun h => let (r, h) := h.newArray items.toArray; (.arr r, h)

def newObject (d : Dict Value) : Proc Value :=
  onHeap fun h => let (r, h) := h.newObject d; (.obj r, h)

end Proc

end Hantec
