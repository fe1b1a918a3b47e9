import Hantec.Proofs.Jobs.Background

/-!
# Turns of the lead

The lead does its jobs one after the other and puts the others into the queue, until it has to
wait, or has to collect what has come of the others. Wherever it stops, the books are right.
-/

namespace Hantec

namespace Schedule

variable {limit : Nat} {config : Config} {b : Schedule} {i : Nat} {job : Job}
  {todo : List (Nat × Job)}

theorem work_attached (h : job.detached = false) :
    work limit config ((i, job) :: todo) b =
      leadOn limit config i job todo b (job.start limit config b.world) := by
  rw [work, if_neg (by simp [h])]
  rfl

theorem workLog_attached (h : job.detached = false) :
    workLog limit config ((i, job) :: todo) b =
      leadLog limit config i todo b (job.start limit config b.world) := by
  rw [workLog, if_neg (by simp [h])]
  rfl

/-- The weight of all that is still to happen when the lead goes on with some jobs. -/
def workWeight (n : Nat) (b : Schedule) (todo : List (Nat × Job)) (turns : Nat → Nat) : Nat :=
  4 * totalTurns n turns + eventWeight b.ready b.alarms +
    (3 * todo.length + b.background.length + 4)

end Schedule

namespace Forecast

open Schedule (duties eventWeight sleeper duties_push eventWeight_push sleeper_cons sleeper_filter
  count_of_perm_cons work workLog leadOn leadLog workWeight)

variable {limit : Nat} {config : Config} {start : World} {jobs : List Job}
  {F : Forecast limit config start jobs} {b b' : Schedule} {log log' : List (Nat × String)}
  {turns turns' : Nat → Nat} {i n : Nat} {job : Job} {past todo : List (Nat × Job)}

variable (F) in
/-- The lead does nothing else and may go on with the jobs to be done. -/
structure Idle (b : Schedule) (log : List (Nat × String)) (past todo : List (Nat × Job))
    (turns : Nat → Nat) : Prop where
  books : F.Books b log past turns
  split : numbered jobs = past ++ todo
  duty : (duties b.ready b.alarms).count (.turn .lead) = 0
  note : (duties b.ready b.alarms).count .note = 0
  awake : sleeper b.asleep .lead = none

variable (F) in
/-- The schedule is at a stage from where less is still to happen than the bound says. -/
def Proceeds (b : Schedule) (log : List (Nat × String)) (bound : Nat) : Prop :=
  ∃ turns, F.Stage b log turns ∧ b.potential jobs.length turns < bound

/-! ## Jobs of the lead -/

/-- What the jobs of the lead have printed so far belongs to this job or to earlier ones. -/
theorem Idle.le_of_texts (h : F.Idle b log past ((i, job) :: todo) turns)
    (htodo : F.Untouched log turns todo) {j : Nat} (hj : IsForeground jobs j)
    (htexts : textsOf j log ≠ []) : j ≤ i := by
  obtain ⟨job', hjob', -⟩ := hj
  have hmem : (j, job') ∈ numbered jobs := mem_numbered.mpr hjob'
  have hlt := (lt_of_split h.split).1
  rw [h.split, List.mem_append, List.mem_cons] at hmem
  obtain hpast | heq | hlater := hmem
  · exact Nat.le_of_lt (hlt _ hpast)
  · exact Nat.le_of_eq (Prod.mk.inj heq).1
  · exact absurd (htodo _ hlater).1 htexts

theorem Idle.lt_length (h : F.Idle b log past ((i, job) :: todo) turns) : i < jobs.length := by
  have hmem : (i, job) ∈ numbered jobs := by simp [h.split]
  exact (List.getElem?_eq_some_iff.mp (mem_numbered.mp hmem)).1

/-- The books after a turn of the lead in the middle of a job. -/
theorem Idle.afterLead (h : F.Idle b log past ((i, job) :: todo) turns)
    (htodo : F.Untouched log turns todo) (now : List String) (lead : Lead) {ready : List Event}
    {alarms : List (Float × Party)} {asleep : List (Party × (World → Machine))}
    (hduties : ∀ x, x ≠ .turn .lead →
      (duties ready alarms).count x = (duties b.ready b.alarms).count x)
    (halarms : ∀ a ∈ alarms, 0 ≤ a.1)
    (hasleep : ∀ j, sleeper asleep (.background j) = sleeper b.asleep (.background j)) :
    F.Books
      { b with
        lead := lead, world := b.world.printAll now, ready := ready, alarms := alarms
        asleep := asleep } (log ++ signed i now) past (spend turns i) := by
  have hne {e : Nat × Job} (he : e ∈ past) : i ≠ e.1 :=
    Nat.ne_of_gt ((lt_of_split h.split).1 e he)
  exact { h.books with
    close := (hduties .close nofun).trans h.books.close
    alarms := halarms
    output := by simp [h.books.output]
    signers := signers_append h.books.signers h.lt_length now
    order := h.books.order.append (fun _ j hj htexts => h.le_of_texts htodo hj htexts) now
    foreground := fun e he hattached => by
      simpa [hne he] using h.books.foreground e he hattached
    status := fun j => by
      refine (h.books.status j).frame rfl rfl (hduties (.turn (.background j)) nofun) (hasleep j) ?_
      intro job' hjob'
      have hj := hne (h.books.lookup_iff.mp hjob').1
      exact ⟨by simp [hj], spend_of_ne (Ne.symm hj)⟩ }

/-- A job of the lead is done and filed. -/
theorem Idle.file (h : F.Idle b log past ((i, job) :: todo) turns) (hjob : job.detached = false)
    (htexts : textsOf i log = F.texts job) :
    F.Idle (b.keep i (F.result job)) log (past ++ [(i, job)]) todo turns := by
  have hsplit : numbered jobs = (past ++ [(i, job)]) ++ todo := by simp [h.split]
  have hbooks : F.Books (b.keep i (F.result job)) log (past ++ [(i, job)]) turns :=
    { h.books with
      first := ⟨todo, hsplit.symm⟩
      background := by simpa [Schedule.keep, hjob] using h.books.background
      results := by simp [Schedule.keep, hjob, h.books.results]
      reported := by
        cases hok : (F.result job).isOk <;> simp [Schedule.keep, hjob, hok, h.books.reported]
      foreground := fun e he hattached => by
        obtain he | he := List.mem_append.mp he
        · exact h.books.foreground e he hattached
        · obtain rfl := List.mem_singleton.mp he
          exact htexts
      status := fun j =>
        (h.books.status j).frame rfl rfl rfl rfl fun _ _ => ⟨rfl, rfl⟩ }
  exact ⟨hbooks, hsplit, h.duty, h.note, h.awake⟩

/-- A job to be done is not in the background yet. -/
theorem Idle.lookup_eq_none (h : F.Idle b log past ((i, job) :: todo) turns) :
    b.background.lookup i = none := by
  rw [Option.eq_none_iff_forall_ne_some]
  intro job' hjob'
  exact Nat.lt_irrefl i ((lt_of_split h.split).1 _ (h.books.lookup_iff.mp hjob').1)

/-- The first turn of a job in the background is its start. -/
theorem Idle.ongoing_of_push (h : F.Idle b log past ((i, job) :: todo) turns)
    (htexts : textsOf i log = []) (hturns : turns i = F.turns job) :
    F.Ongoing ({ b with background := (i, job) :: b.background }.push (.go (.background i))) log
      (.background i) i job (turns i) ∧ b.ends.lookup i = none := by
  have hstatus := h.books.status i
  simp only [Status, h.lookup_eq_none] at hstatus
  obtain ⟨hduty, hsleeper, hends⟩ := hstatus
  have hmem : job ∈ jobs := by
    have hmem : (i, job) ∈ numbered jobs := by simp [h.split]
    exact List.mem_of_getElem? (mem_numbered.mp hmem)
  have hpush := count_of_perm_cons (duties_push b.ready b.alarms (.go (.background i)))
  have hstart : b.nextTurn limit config (.background i) job = job.start limit config := by
    funext w
    simp only [Schedule.nextTurn, Schedule.wake_eq, hsleeper]
  refine ⟨⟨?_, F.texts job, by simp [htexts], ?_⟩, hends⟩
  · exact (hpush (.turn (.background i))).trans (by simp [hduty, Event.duty])
  · rw [hturns]
    exact hstart ▸ F.plays job hmem

/-- A job is put into the queue. -/
theorem Idle.detach (h : F.Idle b log past ((i, job) :: todo) turns) (hjob : job.detached = true)
    (htexts : textsOf i log = []) (hturns : turns i = F.turns job) :
    F.Idle ({ b with background := (i, job) :: b.background }.push (.go (.background i))) log
      (past ++ [(i, job)]) todo turns := by
  have hsplit : numbered jobs = (past ++ [(i, job)]) ++ todo := by simp [h.split]
  have hcount := count_of_perm_cons (duties_push b.ready b.alarms (.go (.background i)))
  have hbooks : F.Books ({ b with background := (i, job) :: b.background }.push
      (.go (.background i))) log (past ++ [(i, job)]) turns :=
    { h.books with
      close := (hcount .close).trans h.books.close
      first := ⟨todo, hsplit.symm⟩
      background := by simp [Schedule.push, hjob, h.books.background]
      results := by simp [Schedule.push, hjob, h.books.results]
      reported := by simp [Schedule.push, hjob, h.books.reported]
      foreground := fun e he hattached => by
        obtain he | he := List.mem_append.mp he
        · exact h.books.foreground e he hattached
        · obtain rfl := List.mem_singleton.mp he
          rw [hjob] at hattached
          cases hattached
      status := fun j => by
        by_cases hj : j = i
        · subst hj
          have hlookup : ((j, job) :: b.background).lookup j = some job := by simp
          simp only [Status, Schedule.push, hlookup]
          exact .inl (h.ongoing_of_push htexts hturns)
        · have hb : (j == i) = false := by simpa using hj
          have hlookup : ((i, job) :: b.background).lookup j = b.background.lookup j := by
            simp [List.lookup_cons, hb]
          refine (h.books.status j).frame hlookup rfl ?_ rfl fun _ _ => ⟨rfl, rfl⟩
          exact (hcount (.turn (.background j))).trans (by simp [Event.duty, Ne.symm hj]) }
  exact ⟨hbooks, hsplit, (hcount (.turn .lead)).trans h.duty, (hcount .note).trans h.note, h.awake⟩

/-! ## Turns -/

theorem Untouched.append_signed (h : F.Untouched log turns todo) (hi : ∀ e ∈ todo, i < e.1)
    (now : List String) : F.Untouched (log ++ signed i now) (spend turns i) todo := by
  intro e he
  have hne : i ≠ e.1 := Nat.ne_of_lt (hi e he)
  obtain ⟨htexts, hturns⟩ := h e he
  exact ⟨by simp [htexts, hne], (spend_of_ne (Ne.symm hne)).trans hturns⟩

/-- The lead waits in the middle of a job. -/
theorem Idle.proceeds_pause (h : F.Idle b log past ((i, job) :: todo) turns)
    (hjob : job.detached = false) (htodo : F.Untouched log turns todo) {k : Nat}
    {now later : List String} {d : Delay} {resume : World → Machine} (hk : turns i = k + 1)
    (hd : 0 ≤ d.length) (htexts : F.texts job = textsOf i (log ++ signed i now) ++ later)
    (hplays : job.Plays limit start.environment (F.result job) k
      (fun w => job.turn limit (resume w)) later) :
    F.Proceeds
      ({ b with lead := .working ((i, job) :: todo) }.pause .lead (b.world.printAll now) d resume)
      (log ++ signed i now) (workWeight jobs.length b ((i, job) :: todo) turns) := by
  obtain ⟨ready', alarms', hpause, hduties, hweight, halarms⟩ :=
    { b with lead := .working ((i, job) :: todo) }.exists_pause .lead
      (w := b.world.printAll now) hd h.books.clock h.books.alarms resume
  have hcount := count_of_perm_cons hduties
  have hsleeper (j : Nat) : sleeper ((.lead, resume) :: b.asleep) (.background j) =
      sleeper b.asleep (.background j) :=
    (sleeper_cons _ _ _ _).trans (if_neg nofun)
  have hawake : sleeper ((.lead, resume) :: b.asleep) .lead = some resume :=
    (sleeper_cons _ _ _ _).trans (if_pos rfl)
  have hbooks := h.afterLead htodo now (.working ((i, job) :: todo))
    (fun x hx => (hcount x).trans (by simp [Ne.symm hx])) halarms hsleeper
  rw [hpause]
  refine ⟨spend turns i, .working hbooks h.split rfl hjob ?_ ?_ hawake
    (htodo.append_signed (lt_of_split h.split).2 now), ?_⟩
  · have hk' : k = spend turns i i := by rw [spend_self]; omega
    refine .ofPlays ((hcount (.turn .lead)).trans ?_) hawake htexts (hk' ▸ hplays)
    rw [h.duty, if_pos rfl]
  · exact (hcount .note).trans h.note
  · -- The turn that was spent outweighs the alarm.
    have htotal := totalTurns_spend jobs.length (show 0 < turns i by omega)
    rw [if_pos h.lt_length] at htotal
    simp only [Schedule.potential, Schedule.leadWeight, h.books.undecided, workWeight,
      List.length_cons]
    have hweight : eventWeight ready' alarms' ≤ eventWeight b.ready b.alarms + 3 := hweight
    omega

/-- The lead goes on after a turn of a job, if it can do the jobs that come after it. -/
theorem Idle.proceeds_leadOn (h : F.Idle b log past ((i, job) :: todo) turns)
    (hjob : job.detached = false) (htodo : F.Untouched log turns todo) {k : Nat} {t : Turn}
    {now : List String} (hk : turns i = k + 1) (ht : F.TurnEnds log i job k b.world t now)
    (hwork : ∀ b log turns, F.Idle b log (past ++ [(i, job)]) todo turns →
      F.Untouched log turns todo →
      F.Proceeds (work limit config todo b) (log ++ workLog limit config todo b)
        (workWeight jobs.length b todo turns)) :
    F.Proceeds (leadOn limit config i job todo b t) (log ++ leadLog limit config i todo b t)
      (workWeight jobs.length b ((i, job) :: todo) turns) := by
  cases ht with
  | ended htexts =>
    have hidle : F.Idle { b with world := b.world.printAll now } (log ++ signed i now) past
        ((i, job) :: todo) (spend turns i) :=
      ⟨h.afterLead htodo now b.lead (fun _ _ => rfl) h.books.alarms fun _ => rfl, h.split, h.duty,
        h.note, h.awake⟩
    obtain ⟨turns', hstage, hweight⟩ := hwork _ _ _ (hidle.file hjob htexts)
      (htodo.append_signed (lt_of_split h.split).2 now)
    refine ⟨turns', ?_, Nat.lt_trans hweight ?_⟩
    · rw [leadLog, Turn.texts_ended, ← List.append_assoc]
      exact hstage
    · have htotal := totalTurns_spend jobs.length (show 0 < turns i by omega)
      rw [if_pos h.lt_length] at htotal
      simp only [workWeight, Schedule.keep, List.length_cons]
      omega
  | @paused _ later d resume hd htexts hplays =>
    have hleave : leadOn limit config i job todo b (.paused (b.world.printAll now) d resume) =
        { b with lead := .working ((i, job) :: todo) }.pause .lead (b.world.printAll now) d
          resume := rfl
    have hlog : leadLog limit config i todo b (.paused (b.world.printAll now) d resume) =
        signed i now := by
      simp [leadLog, Turn.texts_paused]
    rw [hleave, hlog]
    exact h.proceeds_pause hjob htodo hk hd htexts hplays

end Forecast

end Hantec
