import Hantec.Jobs

/-!
# Schedules

The lead does the jobs in their order. Background jobs are put into the queue when the lead comes
to them, and have their turns whenever the lead waits. At the end the lead waits for all of
them. Those who are ready go on in the order in which they have become so; time passes only when
nobody is ready.

A failure that is not the result of a job ends the whole schedule, at the latest after the round
in which the lead has learned of it. An exit ends it at once.
-/

namespace Hantec

/-- Who takes turns. -/
inductive Party where
  | lead
  | background (i : Nat)
  deriving DecidableEq, Repr

/-- What is ready to happen. -/
inductive Event where
  | go (p : Party)
  /-- The wait is over, so the party can go on after those who are ready already. -/
  | due (p : Party)
  /-- The lead takes note of the end of a background job. -/
  | noted (i : Nat)
  /-- No other round begins. -/
  | close
  deriving DecidableEq, Repr

/-- What the lead is doing. -/
inductive Lead where
  /-- The jobs to be done. If the lead waits, it is in the middle of the first one. -/
  | working (todo : List (Nat × Job))
  /-- Waits for background jobs; `missing` of them have not been noted. -/
  | collecting (missing : Nat)
  /-- Knows how the background jobs have ended. -/
  | informed (failure : Option Failure)

structure Schedule where
  world : World
  ready : List Event
  /-- Who waits until when, the earliest first. -/
  alarms : List (Float × Party)
  /-- How those who wait go on. -/
  asleep : List (Party × (World → Machine))
  /-- The background jobs so far, the last one first. -/
  background : List (Nat × Job)
  /-- How background jobs have ended. -/
  ends : List (Nat × Except Failure JobResult)
  lead : Lead
  results : List (Nat × JobResult)
  /-- The failed jobs in the order of their reports. -/
  reported : List JobResult
  /-- How everything has ended. -/
  verdict : Option (Except Failure Unit)
  closed : Bool

namespace Schedule

def start (w : World) (jobs : List Job) : Schedule :=
  { world := w, ready := [.go .lead], alarms := [], asleep := [], background := [], ends := []
    lead := .working (jobs.zipIdx.map fun (job, i) => (i, job))
    results := [], reported := [], verdict := none, closed := false }

def push (b : Schedule) (e : Event) : Schedule := { b with ready := b.ready ++ [e] }

/-- Puts an alarm behind those that are not later. -/
def insertAlarm (time : Float) (p : Party) : List (Float × Party) → List (Float × Party)
  | [] => [(time, p)]
  | a :: rest => if time < a.1 then (time, p) :: a :: rest else a :: insertAlarm time p rest

/-- Lets a party wait. -/
def pause (b : Schedule) (p : Party) (w : World) (d : Delay) (resume : World → Machine) :
    Schedule :=
  let b := { b with world := w, asleep := (p, resume) :: b.asleep }
  match d with
  | .turn => b.push (.go p)
  | d => { b with alarms := insertAlarm (w.clock + d.length) p b.alarms }

/-- Takes the continuation of a party that waits. -/
def wake (b : Schedule) (p : Party) : Option (World → Machine) × Schedule :=
  ((b.asleep.find? (·.1 == p)).map Prod.snd,
    { b with asleep := b.asleep.filter (·.1 != p) })

/-- Keeps the result of a job, and reports it if the job has failed. -/
def keep (b : Schedule) (i : Nat) (r : JobResult) : Schedule :=
  { b with
    results := (i, r) :: b.results
    reported := if r.isOk then b.reported else b.reported ++ [r] }

/-- Ends everything with a failure: at once for an exit, else after the round. -/
def fail (b : Schedule) (f : Failure) : Schedule :=
  match f with
  | .exit _ => { b with verdict := some (.error f), closed := true, ready := [] }
  | f => { b with verdict := some (.error f) }.push .close

/-- The lead waits for the background jobs, and is told of those that have ended. -/
def collect (b : Schedule) : Schedule :=
  if b.background.isEmpty then { b with verdict := some (.ok ()) }.push .close
  else
    let ended := b.background.reverse.filter fun (i, _) => (b.ends.lookup i).isSome
    { b with
      lead := .collecting b.background.length
      ready := b.ready ++ ended.map fun (i, _) => .noted i }

/-- The lead stops in the middle of a job. -/
def leave (b : Schedule) (t : Turn) (todo : List (Nat × Job)) : Schedule :=
  match t with
  | .paused w d resume => { b with lead := .working todo }.pause .lead w d resume
  | .ended w (.error f) => { b with world := w }.fail f
  | .ended w (.ok _) => { b with world := w }
  | .unfinished => { b with closed := true, ready := [] }

/-- The lead does its jobs until it has to wait. -/
def work (limit : Nat) (config : Config) : List (Nat × Job) → Schedule → Schedule
  | [], b => b.collect
  | (i, job) :: todo, b =>
    if job.detached then
      work limit config todo
        ({ b with background := (i, job) :: b.background }.push (.go (.background i)))
    else
      match job.start limit config b.world with
      | .ended w (.ok r) => work limit config todo ({ b with world := w }.keep i r)
      | t => b.leave t ((i, job) :: todo)

/-- Keeps the results of the background jobs in the order of the jobs. -/
def keepBackground (b : Schedule) : Schedule :=
  b.background.reverse.foldl (fun b (i, _) =>
    match b.ends.lookup i with
    | some (.ok r) => b.keep i r
    | _ => b) b

/-- The lead goes on. -/
def goLead (limit : Nat) (config : Config) (b : Schedule) : Schedule :=
  match b.lead with
  | .working todo =>
    match b.wake .lead, todo with
    | (some resume, b), (i, job) :: rest =>
      match job.turn limit (resume b.world) with
      | .ended w (.ok r) => work limit config rest ({ b with world := w }.keep i r)
      | t => b.leave t ((i, job) :: rest)
    | (_, b), todo => work limit config todo b
  | .collecting _ => b
  | .informed (some f) => b.fail f
  | .informed none => { b.keepBackground with verdict := some (.ok ()) }.push .close

/-- A background job goes on, or starts. -/
def goBackground (limit : Nat) (config : Config) (b : Schedule) (i : Nat) (job : Job) :
    Schedule :=
  let (resume, b) := b.wake (.background i)
  let t := match resume with
    | some resume => job.turn limit (resume b.world)
    | none => job.start limit config b.world
  match t with
  | .paused w d resume => b.pause (.background i) w d resume
  | .ended w (.error (.exit code)) => { b with world := w }.fail (.exit code)
  | .ended w r =>
    let b := { b with world := w, ends := (i, r) :: b.ends }
    match b.lead with
    | .collecting _ => b.push (.noted i)
    | _ => b
  | .unfinished => { b with closed := true, ready := [] }

/-- The lead takes note of the end of a background job. -/
def note (b : Schedule) (i : Nat) : Schedule :=
  match b.lead with
  | .collecting missing =>
    match b.ends.lookup i with
    | some (.error f) => { b with lead := .informed (some f) }.push (.go .lead)
    | _ =>
      if missing ≤ 1 then { b with lead := .informed none }.push (.go .lead)
      else { b with lead := .collecting (missing - 1) }
  | _ => b

/-- What an event does. -/
def handle (limit : Nat) (config : Config) (b : Schedule) : Event → Schedule
  | .go .lead => b.goLead limit config
  | .go (.background i) =>
    match b.background.lookup i with
    | some job => b.goBackground limit config i job
    | none => b
  | .due p => b.push (.go p)
  | .noted i => b.note i
  | .close => { b with closed := true }

/-- Lets the first `n` ready events happen. -/
def round (limit : Nat) (config : Config) : Nat → Schedule → Schedule
  | 0, b => b
  | n + 1, b =>
    match b.ready with
    | [] => b
    | e :: es => round limit config n (handle limit config { b with ready := es } e)

/-- Lets time pass until the first alarm. -/
def passTime (b : Schedule) : Schedule :=
  match b.alarms with
  | [] => { b with closed := true }
  | (time, _) :: _ =>
    let due := b.alarms.takeWhile (·.1 ≤ time)
    { b with
      world := { b.world with clock := time }
      alarms := b.alarms.drop due.length
      ready := due.map fun a => .due a.2 }

/-- Goes on for at most `n` rounds. -/
def run (limit : Nat) (config : Config) : Nat → Schedule → Schedule
  | 0, b => b
  | n + 1, b =>
    if b.closed then b
    else if b.ready.isEmpty then run limit config n b.passTime
    else run limit config n (round limit config b.ready.length b)

def sortedResults (b : Schedule) (jobs : List Job) : List JobResult :=
  (List.range jobs.length).filterMap fun i => b.results.lookup i

end Schedule

/-- What has come of a list of jobs. -/
structure JobsEnding where
  world : World
  results : Except Failure (List JobResult)
  reported : List JobResult

/-- Runs jobs, with at most `limit` rounds and at most `limit` moves for each turn. -/
def runJobs (limit : Nat) (config : Config) (w : World) (jobs : List Job) : Option JobsEnding :=
  let b := Schedule.run limit config limit (Schedule.start w jobs)
  b.verdict.map fun v => ⟨b.world, v.map fun _ => b.sortedResults jobs, b.reported⟩

end Hantec
