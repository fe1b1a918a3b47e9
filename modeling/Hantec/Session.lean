import Hantec.Run.Machine

/-!
# Sessions

A session is the state that programs run in, one after the other; the names that one defines
are there for the next one. A failure ends a program but not the session.
-/

namespace Hantec

/-- How a session goes on after something was run in it, and what that gave. -/
structure Ending (α : Type) where
  result : Except Failure α
  state : State

/-- Runs a program in the global scope. -/
def programProc (program : List Stmt) : Proc Outcome := do
  Proc.trace 1 fun _ => .ok s!"run {program.length} statements"
  match ← execAll 0 program with
  | .normal => return .normal
  | o => raiseStray o

namespace State

/-- Runs something alone. There is no ending if it takes more than `limit` waits, or more than
`limit` moves from one wait to the next. -/
def perform (s : State) (limit : Nat) (p : Proc Outcome) : Option (Ending Outcome) :=
  ((Machine.start p s).finish limit limit).map fun (r, s) => ⟨r, s.settle⟩

/-- Runs a program. -/
def run (s : State) (limit : Nat) (program : List Stmt) : Option (Ending Unit) :=
  (s.perform limit (programProc program)).map fun e => ⟨e.result.map fun _ => (), e.state⟩

/-- Runs what yields a value. -/
def evaluate (s : State) (limit : Nat) (p : Proc Value) : Option (Ending Value) :=
  (s.perform limit (do return .returned (← p))).map fun e =>
    ⟨e.result.map Outcome.value, e.state⟩

def global? (s : State) (name : String) : Option Value := s.heap.lookup 0 name

/-- The value of a global name, or of a member of one. -/
def dotted? (s : State) (path : String) : Option Value :=
  match Text.split path "." with
  | [name] => s.global? name
  | [space, name] =>
    match s.global? space with
    | some (.obj r) => (s.heap.object r).get? name
    | _ => none
  | _ => none

end State

namespace Failure

/-- What a raised value is called in a report. -/
def describe (h : Heap) : Value → Except Trouble String
  | .err _ name message => .ok s!"{name}: {message}"
  | v => do return "uncaught value: " ++ (← h.toText v)

/-- The text of a raised value in a report, with its line if that is known. -/
def report (h : Heap) (v : Value) (line : Option Int) : Except Trouble String := do
  let text ← describe h v
  match line with
  | some n => return text ++ s!" (line {n})"
  | none => return text

end Failure

/-- The name of a raised value in a report. -/
def Value.raisedName : Value → String
  | .err _ name _ => name
  | _ => "Thrown"

end Hantec
