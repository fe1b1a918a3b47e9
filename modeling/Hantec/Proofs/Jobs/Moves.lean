import Hantec.Jobs.Schedule
import Hantec.Proofs.Jobs.Turns

/-!
# Moves of a schedule

Those who are ready may go on in any order, and a wait may end at any time. What is printed is
logged with the number of the job that prints it. The order in which a schedule runs on its own is
one of these orders.
-/

namespace Hantec

/-! ## Logs -/

def textsOf (i : Nat) (log : List (Nat × String)) : List String :=
  (log.filter (·.1 == i)).map Prod.snd

/-- Texts with the number of the job that prints them. -/
def signed (i : Nat) (texts : List String) : List (Nat × String) := texts.map fun t => (i, t)

@[simp] theorem textsOf_append (i : Nat) (log log' : List (Nat × String)) :
    textsOf i (log ++ log') = textsOf i log ++ textsOf i log' := by
  simp [textsOf]

@[simp] theorem textsOf_signed (i j : Nat) (texts : List String) :
    textsOf i (signed j texts) = if j = i then texts else [] := by
  split
  · rename_i h
    induction texts <;> simp_all [textsOf, signed]
  · rename_i h
    induction texts <;> simp_all [textsOf, signed]

@[simp] theorem map_snd_signed (i : Nat) (texts : List String) :
    (signed i texts).map Prod.snd = texts := by
  simp [signed, Function.comp_def]

def Turn.texts (w : World) : Turn → List String
  | .paused w' _ _ => w'.output.toList.drop w.output.size
  | .ended w' _ => w'.output.toList.drop w.output.size
  | .unfinished => []

namespace Schedule

variable (limit : Nat) (config : Config)

/-! ## What the parties print -/

/-- The lead goes on with the jobs to be done after a turn of a job. -/
def leadOn (i : Nat) (job : Job) (todo : List (Nat × Job)) (b : Schedule) (t : Turn) : Schedule :=
  match t with
  | .ended w (.ok r) => work limit config todo ({ b with world := w }.keep i r)
  | t => b.leave t ((i, job) :: todo)

/-- What the lead prints when it does its jobs until it has to wait. -/
def workLog : List (Nat × Job) → Schedule → List (Nat × String)
  | [], _ => []
  | (i, job) :: todo, b =>
    if job.detached then
      workLog todo ({ b with background := (i, job) :: b.background }.push (.go (.background i)))
    else
      let t := job.start limit config b.world
      signed i (t.texts b.world) ++
        match t with
        | .ended w (.ok r) => workLog todo ({ b with world := w }.keep i r)
        | _ => []

/-- What is printed in a turn of the lead and when it goes on with the jobs to be done. -/
def leadLog (i : Nat) (todo : List (Nat × Job)) (b : Schedule) (t : Turn) : List (Nat × String) :=
  signed i (t.texts b.world) ++
    match t with
    | .ended w (.ok r) => workLog limit config todo ({ b with world := w }.keep i r)
    | _ => []

def nextTurn (b : Schedule) (p : Party) (job : Job) (w : World) : Turn :=
  match (b.wake p).1 with
  | some resume => job.turn limit (resume w)
  | none => job.start limit config w

def eventLog (b : Schedule) : Event → List (Nat × String)
  | .go .lead =>
    match b.lead with
    | .working todo =>
      match b.wake .lead, todo with
      | (some resume, b), (i, job) :: todo =>
        leadLog limit config i todo b (job.turn limit (resume b.world))
      | (_, b), todo => workLog limit config todo b
    | _ => []
  | .go (.background i) =>
    match b.background.lookup i with
    | some job => signed i ((b.nextTurn limit config (.background i) job b.world).texts b.world)
    | none => []
  | _ => []

/-! ## Moves -/

/-- What can happen next in a schedule, with what it prints. -/
inductive Move : Schedule → List (Nat × String) → Schedule → Prop where
  /-- One of those who are ready goes on. -/
  | event {b : Schedule} {pre post : List Event} {e : Event} :
      b.closed = false → b.ready = pre ++ e :: post →
      Move b (eventLog limit config { b with ready := pre ++ post } e)
        (handle limit config { b with ready := pre ++ post } e)
  /-- A wait ends, whatever the clock shows. -/
  | alarm {b : Schedule} {pre post : List (Float × Party)} {time clock : Float} {p : Party} :
      b.closed = false → b.alarms = pre ++ (time, p) :: post → 0 ≤ clock →
      Move b []
        { b with
          world := { b.world with clock := clock }
          alarms := pre ++ post
          ready := b.ready ++ [.due p] }

/-- So many moves one after the other, with all that they print. -/
inductive Moves : Nat → Schedule → List (Nat × String) → Schedule → Prop where
  | refl (b : Schedule) : Moves 0 b [] b
  | move {n : Nat} {b b₁ b₂ : Schedule} {log texts : List (Nat × String)} :
      Moves n b log b₁ → Move limit config b₁ texts b₂ → Moves (n + 1) b (log ++ texts) b₂

variable {limit config}

theorem Moves.trans {n k : Nat} {b b₁ b₂ : Schedule} {log log' : List (Nat × String)}
    (h : Moves limit config n b log b₁) (h' : Moves limit config k b₁ log' b₂) :
    Moves limit config (n + k) b (log ++ log') b₂ := by
  induction h' with
  | refl => simpa using h
  | move _ hmove ih =>
    rw [← List.append_assoc]
    exact .move (ih h) hmove

end Schedule

end Hantec
