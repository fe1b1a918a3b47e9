import Hantec.Proofs.Jobs.Duties

/-!
# The stages of a schedule

If it is known how each job goes when it is run alone, then it is known at each stage of a schedule
what has come of the jobs and what is still to come, whatever the order of the events was. First
the lead does its jobs, then it waits for the others, then it is informed of them, and then all is
over.
-/

namespace Hantec

/-! ## The order of jobs -/

def numbered (jobs : List Job) : List (Nat × Job) := jobs.zipIdx.map Prod.swap

theorem mem_numbered {jobs : List Job} {e : Nat × Job} :
    e ∈ numbered jobs ↔ jobs[e.1]? = some e.2 := by
  constructor
  · intro h
    obtain ⟨x, hx, rfl⟩ := List.mem_map.mp h
    exact List.mem_zipIdx_iff_getElem?.mp hx
  · intro h
    exact List.mem_map.mpr ⟨(e.2, e.1), List.mem_zipIdx_iff_getElem?.mpr h, rfl⟩

theorem numbered_sorted (jobs : List Job) : (numbered jobs).Pairwise fun x y => x.1 < y.1 := by
  have hkeys : (numbered jobs).map Prod.fst = List.range jobs.length := by
    rw [numbered, List.map_map, List.range_eq_range']
    exact List.zipIdx_map_snd 0 jobs
  have hrange := List.pairwise_lt_range (n := jobs.length)
  rw [← hkeys, List.pairwise_map] at hrange
  exact hrange

theorem lt_of_split {jobs : List Job} {past todo : List (Nat × Job)} {e : Nat × Job}
    (h : numbered jobs = past ++ e :: todo) :
    (∀ x ∈ past, x.1 < e.1) ∧ ∀ x ∈ todo, e.1 < x.1 := by
  have hsorted := numbered_sorted jobs
  rw [h, List.pairwise_append, List.pairwise_cons] at hsorted
  exact ⟨fun x hx => hsorted.2.2 x hx e List.mem_cons_self, hsorted.2.1.1⟩

/-- A job that the lead does. -/
def IsForeground (jobs : List Job) (i : Nat) : Prop :=
  ∃ job, jobs[i]? = some job ∧ job.detached = false

/-- What the jobs of the lead print stands in the order of the jobs. -/
def InOrder (jobs : List Job) (log : List (Nat × String)) : Prop :=
  log.Pairwise fun x y => IsForeground jobs x.1 → IsForeground jobs y.1 → x.1 ≤ y.1

theorem textsOf_ne_nil_of_mem {log : List (Nat × String)} {x : Nat × String} (h : x ∈ log) :
    textsOf x.1 log ≠ [] := by
  intro hnil
  have hnone := List.filter_eq_nil_iff.mp (List.map_eq_nil_iff.mp hnil) x h
  simp at hnone

theorem InOrder.append {jobs : List Job} {log : List (Nat × String)} {i : Nat}
    (h : InOrder jobs log)
    (hi : IsForeground jobs i → ∀ j, IsForeground jobs j → textsOf j log ≠ [] → j ≤ i)
    (texts : List String) : InOrder jobs (log ++ signed i texts) := by
  refine List.pairwise_append.mpr ⟨h, ?_, fun x hx y hy hx' hy' => ?_⟩
  · exact List.pairwise_map.mpr (List.pairwise_of_forall fun _ _ _ _ => Nat.le_refl i)
  · obtain ⟨text, -, rfl⟩ := List.mem_map.mp hy
    exact hi hy' x.1 hx' (textsOf_ne_nil_of_mem hx)

theorem signers_append {log : List (Nat × String)} {i n : Nat} (h : ∀ x ∈ log, x.1 < n) (hi : i < n)
    (texts : List String) : ∀ x ∈ log ++ signed i texts, x.1 < n := by
  intro x hx
  obtain hx | hx := List.mem_append.mp hx
  · exact h x hx
  · obtain ⟨text, -, rfl⟩ := List.mem_map.mp hx
    exact hi

/-- What is known of how each job goes. -/
structure Forecast (limit : Nat) (config : Config) (start : World) (jobs : List Job) where
  result : Job → JobResult
  texts : Job → List String
  turns : Job → Nat
  plays : ∀ job ∈ jobs, job.Plays limit start.environment (result job) (turns job)
    (job.start limit config) (texts job)

namespace Forecast

open Schedule (duties sleeper)

variable {limit : Nat} {config : Config} {start : World} {jobs : List Job}
  (F : Forecast limit config start jobs)

/-! ## Background jobs -/

/-- A party is in the middle of a job, or about to begin with it. -/
structure Ongoing (b : Schedule) (log : List (Nat × String)) (p : Party) (i : Nat) (job : Job)
    (n : Nat) : Prop where
  duty : (duties b.ready b.alarms).count (.turn p) = 1
  plays : ∃ rest, F.texts job = textsOf i log ++ rest ∧
    job.Plays limit start.environment (F.result job) n (b.nextTurn limit config p job) rest

/-- A background job is done. -/
structure Settled (b : Schedule) (log : List (Nat × String)) (i : Nat) (job : Job) : Prop where
  duty : (duties b.ready b.alarms).count (.turn (.background i)) = 0
  ended : b.ends.lookup i = some (.ok (F.result job))
  texts : textsOf i log = F.texts job

/-- What has come of a background job, or of a number that is none. -/
def Status (b : Schedule) (log : List (Nat × String)) (turns : Nat → Nat) (i : Nat) : Prop :=
  match b.background.lookup i with
  | some job =>
    F.Ongoing b log (.background i) i job (turns i) ∧ b.ends.lookup i = none ∨
      F.Settled b log i job
  | none =>
    (duties b.ready b.alarms).count (.turn (.background i)) = 0 ∧
      sleeper b.asleep (.background i) = none ∧ b.ends.lookup i = none

/-! ## Stages -/

/-- What holds until all is over, if the lead is done with the jobs of the past. -/
structure Books (b : Schedule) (log : List (Nat × String)) (past : List (Nat × Job))
    (turns : Nat → Nat) : Prop where
  isOpen : b.closed = false
  undecided : b.verdict = none
  close : (duties b.ready b.alarms).count .close = 0
  environment : b.world.environment = start.environment
  clock : 0 ≤ b.world.clock
  alarms : ∀ a ∈ b.alarms, 0 ≤ a.1
  output : b.world.output.toList = start.output.toList ++ log.map Prod.snd
  signers : ∀ x ∈ log, x.1 < jobs.length
  order : InOrder jobs log
  first : past <+: numbered jobs
  background : b.background = (past.filter (·.2.detached)).reverse
  results : b.results = ((past.filter (!·.2.detached)).map fun e => (e.1, F.result e.2)).reverse
  reported : b.reported =
    ((past.filter (!·.2.detached)).map fun e => F.result e.2).filter (!·.isOk)
  foreground : ∀ e ∈ past, e.2.detached = false → textsOf e.1 log = F.texts e.2
  status : ∀ i, F.Status b log turns i

/-- Nothing has come of the jobs yet. -/
def Untouched (log : List (Nat × String)) (turns : Nat → Nat) (todo : List (Nat × Job)) : Prop :=
  ∀ e ∈ todo, textsOf e.1 log = [] ∧ turns e.1 = F.turns e.2

/-- All is over. -/
structure Over (b : Schedule) (log : List (Nat × String)) : Prop where
  verdict : b.verdict = some (.ok ())
  results : b.sortedResults jobs = jobs.map F.result
  reported : b.reported =
    ((jobs.filter (!·.detached) ++ jobs.filter (·.detached)).map F.result).filter (!·.isOk)
  texts : ∀ i job, jobs[i]? = some job → textsOf i log = F.texts job
  output : b.world.output.toList = start.output.toList ++ log.map Prod.snd
  signers : ∀ x ∈ log, x.1 < jobs.length
  order : InOrder jobs log
  alarms : b.alarms = []
  ready : b.ready = [.close] ∧ b.closed = false ∨ b.ready = [] ∧ b.closed = true

inductive Stage (b : Schedule) (log : List (Nat × String)) (turns : Nat → Nat) : Prop where
  | starting :
      F.Books b log [] turns → b.lead = .working (numbered jobs) →
      (duties b.ready b.alarms).count (.turn .lead) = 1 →
      (duties b.ready b.alarms).count .note = 0 →
      sleeper b.asleep .lead = none → F.Untouched log turns (numbered jobs) → Stage b log turns
  | working {past todo : List (Nat × Job)} {i : Nat} {job : Job} {resume : World → Machine} :
      F.Books b log past turns → numbered jobs = past ++ (i, job) :: todo →
      b.lead = .working ((i, job) :: todo) → job.detached = false →
      F.Ongoing b log .lead i job (turns i) → (duties b.ready b.alarms).count .note = 0 →
      sleeper b.asleep .lead = some resume → F.Untouched log turns todo → Stage b log turns
  | collecting :
      F.Books b log (numbered jobs) turns → b.lead = .collecting (duties b.ready b.alarms).length →
      (duties b.ready b.alarms).count (.turn .lead) = 0 →
      0 < (duties b.ready b.alarms).length → Stage b log turns
  | informed :
      F.Books b log (numbered jobs) turns → b.lead = .informed none →
      (duties b.ready b.alarms) = [.turn .lead] → Stage b log turns
  | ended : F.Over b log → Stage b log turns

variable {F} {b b' : Schedule} {log log' : List (Nat × String)} {turns turns' : Nat → Nat}
  {p : Party} {i n : Nat} {job : Job} {past : List (Nat × Job)}

/-! ## What does not concern a job -/

theorem Ongoing.frame (h : F.Ongoing b log p i job n)
    (hduty : (duties b'.ready b'.alarms).count (.turn p) =
      (duties b.ready b.alarms).count (.turn p))
    (hsleeper : sleeper b'.asleep p = sleeper b.asleep p)
    (htexts : textsOf i log' = textsOf i log) : F.Ongoing b' log' p i job n := by
  have hturn : b'.nextTurn limit config p job = b.nextTurn limit config p job := by
    funext w
    simp only [Schedule.nextTurn, Schedule.wake_eq, hsleeper]
  exact ⟨hduty.trans h.duty, by rw [htexts, hturn]; exact h.plays⟩

theorem Status.frame (h : F.Status b log turns i)
    (hbackground : b'.background.lookup i = b.background.lookup i)
    (hends : b'.ends.lookup i = b.ends.lookup i)
    (hduty : (duties b'.ready b'.alarms).count (.turn (.background i)) =
      (duties b.ready b.alarms).count (.turn (.background i)))
    (hsleeper : sleeper b'.asleep (.background i) =
      sleeper b.asleep (.background i))
    (hsame : ∀ job, b.background.lookup i = some job →
      textsOf i log' = textsOf i log ∧ turns' i = turns i) :
    F.Status b' log' turns' i := by
  unfold Status at h ⊢
  rw [hbackground, hends, hduty, hsleeper]
  split at h
  · rename_i job hjob
    obtain ⟨htexts, hturns⟩ := hsame job hjob
    rw [hturns]
    refine h.imp (And.imp_left fun hgoing => hgoing.frame hduty hsleeper htexts) fun hsettled => ?_
    exact ⟨hduty.trans hsettled.duty, hends.trans hsettled.ended, htexts.trans hsettled.texts⟩
  · exact h

/-! ## Background jobs in the books -/

theorem Books.nodup_background (h : F.Books b log past turns) :
    (b.background.map Prod.fst).Nodup := by
  have hsorted := ((numbered_sorted jobs).sublist h.first.sublist).filter (·.2.detached)
  rw [h.background, List.map_reverse, List.Nodup, List.pairwise_reverse, List.pairwise_map]
  exact hsorted.imp fun hlt => Nat.ne_of_gt hlt

theorem Books.lookup_iff (h : F.Books b log past turns) :
    b.background.lookup i = some job ↔ (i, job) ∈ past ∧ job.detached = true := by
  rw [lookup_eq_some_iff_mem h.nodup_background, h.background, List.mem_reverse, List.mem_filter]

theorem Books.getElem?_of_mem (h : F.Books b log past turns) {e : Nat × Job} (he : e ∈ past) :
    jobs[e.1]? = some e.2 :=
  mem_numbered.mp (h.first.subset he)

theorem Books.lt_length (h : F.Books b log past turns) (hjob : b.background.lookup i = some job) :
    i < jobs.length :=
  (List.getElem?_eq_some_iff.mp (h.getElem?_of_mem (h.lookup_iff.mp hjob).1)).1

/-- The number of a background job is that of no other job. -/
theorem Books.not_isForeground (h : F.Books b log past turns)
    (hjob : b.background.lookup i = some job) : ¬IsForeground jobs i := by
  obtain ⟨hmem, hdetached⟩ := h.lookup_iff.mp hjob
  rintro ⟨job', hjob', hattached⟩
  obtain rfl : job = job' := by simpa [h.getElem?_of_mem hmem] using hjob'
  rw [hdetached] at hattached
  cases hattached

/-- Who has something to do in the background is in the middle of a job. -/
theorem Books.ongoing (h : F.Books b log past turns)
    (hduty : .turn (.background i) ∈ (duties b.ready b.alarms)) :
    ∃ job, b.background.lookup i = some job ∧ b.ends.lookup i = none ∧
      F.Ongoing b log (.background i) i job (turns i) := by
  have hcount := List.one_le_count_iff.mpr hduty
  have hstatus := h.status i
  unfold Status at hstatus
  split at hstatus
  · rename_i job hjob
    obtain ⟨hgoing, hends⟩ | hsettled := hstatus
    · exact ⟨job, hjob, hends, hgoing⟩
    · rw [hsettled.duty] at hcount
      cases hcount
  · rw [hstatus.1] at hcount
    cases hcount

end Forecast

end Hantec
