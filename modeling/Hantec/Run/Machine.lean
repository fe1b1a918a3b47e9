import Hantec.Run.Builtins

/-!
# The machine

The machine runs a step to its end. Each task that a step asks for is started on top of what waits
for it, so calls and loops never nest inside the machine. Calls nested deeper than a limit fail as
calls without an end do.
-/

namespace Hantec

/-- Binds parameters to arguments. Missing ones are null, further ones are ignored. -/
def bindParams (scope : Nat) : List String → List Value → Heap → Heap
  | [], _, h => h
  | p :: ps, [], h => bindParams scope ps [] (h.define scope p .null)
  | p :: ps, v :: vs, h => bindParams scope ps vs (h.define scope p v)

/-- What an outcome is called that stands where it cannot. -/
def Outcome.strayMessage : Outcome → String
  | .normal => ""
  | .returned _ => "'vrat' outside a function"
  | .broke => "'vypadni' outside a loop"
  | .continued => "'přeskoč' outside a loop"

/-- Raises the error of an outcome that stands where it cannot. -/
def raiseStray {α : Type} (o : Outcome) : Proc α := Proc.raiseError "ControlError" o.strayMessage

/-- Runs the body of a function in a new scope. -/
def Closure.call (c : Closure) (args : List Value) : Proc Outcome := do
  let scope ← innerScope c.scope
  Proc.modifyHeap (bindParams scope c.params args)
  match ← execAll scope c.body with
  | .normal => return .returned .null
  | .returned v => return .returned v
  | o => raiseStray o

def Callable.call (f : Callable) (args : List Value) : Proc Outcome :=
  match f with
  | .closure r => do
    let c ← Proc.ask fun h => .ok (h.closure r)
    c.call args
  | .builtin b => do return .returned (← b.call args)

def loopStep (step : Option Expr) (scope : Nat) : Proc Outcome := do
  match step with
  | some e => let _ ← e.eval scope
  | none => pure ()
  return .continued

/-- The body of a loop and its step. -/
def loopBody (step : Option Expr) (body : Stmt) (scope : Nat) : Proc Outcome := do
  match ← body.exec scope with
  | .broke => return .normal
  | .returned v => return .returned v
  | .normal | .continued => loopStep step scope

/-- One turn of a loop. It ends with `continued` if the loop goes on. -/
def loopTurn (test step : Option Expr) (body : Stmt) (scope : Nat) : Proc Outcome :=
  match test with
  | some e => do
    if ← Proc.isTruthy (← e.eval scope) then loopBody step body scope else return .normal
  | none => loopBody step body scope

/-- An overflow inside of a call becomes an error that a script can catch. -/
def catchOverflow (p : Proc Outcome) : Proc Outcome := do
  match ← Proc.attempt p with
  | .error .overflow => Proc.raiseError "RangeError" "maximum call depth exceeded"
  | r => Proc.ofResult r

/-- What waits for the current step. -/
inductive Frame where
  /-- Goes on after a task that was started at a depth of calls. -/
  | resume (depth : Nat) (k : Except Failure Outcome → State → Step Outcome)
  /-- Takes the next turn of a loop. -/
  | again (test step : Option Expr) (body : Stmt) (scope : Nat)

structure Machine where
  current : Step Outcome
  /-- What waits, the innermost frame first. -/
  frames : List Frame
  /-- How many calls are open. -/
  depth : Nat

/-- What a machine has come to. -/
inductive Progress where
  | running (m : Machine)
  | waiting (d : Delay) (s : State) (resume : State → Machine)
  | done (r : Except Failure Outcome) (s : State)

namespace Machine

/-- How many calls and modules can be open. This stands for the host's limit of 20000 frames, of
which a call takes several; turning a value into text takes frames there and no place here. -/
def depthLimit : Nat := 2000

def start (p : Proc Outcome) (s : State) : Machine := ⟨p s, [], 0⟩

/-- Starts a call or a module, unless too many are open. -/
def enter (depth : Nat) (p : Proc Outcome) : Proc Outcome :=
  if depth < depthLimit then p else Proc.failWith .overflow

/-- Starts a task on top of what waits for it. -/
def startTask (t : Task) (s : State) (frames : List Frame) (depth : Nat) : Machine :=
  match t with
  | .call f args => ⟨catchOverflow (enter depth (f.call args)) s, frames, depth + 1⟩
  | .module body scope => ⟨enter depth (execAll scope body) s, frames, depth + 1⟩
  | .loop test step body scope =>
    ⟨loopTurn test step body scope s, .again test step body scope :: frames, depth⟩

/-- Hands a result to the innermost frame. -/
def deliver (r : Except Failure Outcome) (s : State) (depth : Nat) : List Frame → Progress
  | [] => .done r s
  | .resume d k :: frames => .running ⟨k r s, frames, d⟩
  | .again test step body scope :: frames =>
    match r with
    | .ok .continued =>
      .running ⟨loopTurn test step body scope s, .again test step body scope :: frames, depth⟩
    | r => deliver r s depth frames

/-- One move. -/
def next : Machine → Progress
  | ⟨.ret o s, frames, depth⟩ => deliver (.ok o) s depth frames
  | ⟨.fail e s, frames, depth⟩ => deliver (.error e) s depth frames
  | ⟨.sub t s k, frames, depth⟩ => .running (startTask t s (.resume depth k :: frames) depth)
  | ⟨.wait d s k, frames, depth⟩ => .waiting d s fun s => ⟨k s, frames, depth⟩

/-- Moves until the machine waits or is done, at most `n` times. -/
def advance : Nat → Machine → Progress
  | 0, m => .running m
  | n + 1, m =>
    match m.next with
    | .running m => advance n m
    | p => p

end Machine

/-- How much later a wait ends, in milliseconds. -/
def Delay.length : Delay → Float
  | .millis x => x
  | .turn | .worker => 0

/-- Lets time pass. -/
def World.pass (w : World) (d : Delay) : World := { w with clock := w.clock + d.length }

/-- Runs alone until it is done, with at most `waits` waits and `n` moves from one to the next. -/
def Machine.finish (n : Nat) : Nat → Machine → Option (Except Failure Outcome × State)
  | 0, _ => none
  | waits + 1, m =>
    match m.advance n with
    | .running _ => none
    | .done r s => some (r, s)
    | .waiting d s resume => Machine.finish n waits (resume { s with world := s.world.pass d })

end Hantec
