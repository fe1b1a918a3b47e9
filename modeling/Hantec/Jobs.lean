import Hantec.Session

/-!
# Jobs

A job is a script with a name. It has a state of its own; only the world is shared with other
jobs. A job takes turns: each one lasts until the job has to wait or is at its end.
-/

namespace Hantec

structure Job where
  source : String
  name : String
  /-- Whether the job runs in the background. -/
  detached : Bool

/-- How a job can fail. A raised value comes with the heap that it refers to. -/
inductive JobError where
  | source (e : SourceError)
  | raised (v : Value) (line : Option Int) (heap : Heap)

structure JobResult where
  name : String
  error : Option JobError

namespace JobResult

def isOk (r : JobResult) : Bool := r.error.isNone

/-- What went wrong, if anything did. -/
def message (r : JobResult) : String :=
  match r.error with
  | none => ""
  | some (.source e) => e.message
  | some (.raised v line heap) => (Failure.report heap v line).toOption.getD ""

/-- The line that reports a failed job. -/
def report (r : JobResult) : String := s!"Error running {r.name}: {r.message}\n"

end JobResult

/-- How a turn of a job ends. -/
inductive Turn where
  /-- The job waits and then goes on in the world as it is then. -/
  | paused (w : World) (d : Delay) (resume : World → Machine)
  /-- The job has a result, or it fails with what no job can fail with. -/
  | ended (w : World) (r : Except Failure JobResult)
  /-- The turn took too long. -/
  | unfinished

namespace Job

/-- The result of a job whose program is done. -/
def finish (job : Job) (r : Except Failure Outcome) (s : State) : Except Failure JobResult :=
  match r with
  | .ok _ => .ok ⟨job.name, none⟩
  | .error (.raised v line) => .ok ⟨job.name, some (.raised v line s.heap)⟩
  | .error f => .error f

/-- Takes a turn of at most `limit` moves. -/
def turn (job : Job) (limit : Nat) (m : Machine) : Turn :=
  match m.advance limit with
  | .running _ => .unfinished
  | .waiting d s resume => .paused s.world d fun w => resume { s with world := w }
  | .done r s => .ended s.world (job.finish r s)

/-- Takes the first turn. -/
def start (job : Job) (limit : Nat) (config : Config) (w : World) : Turn :=
  match parseProgram job.source with
  | .error e => .ended w (.ok ⟨job.name, some (.source e)⟩)
  | .ok program => job.turn limit (Machine.start (programProc program) ⟨config, .initial, w, none, false⟩)

end Job

end Hantec
