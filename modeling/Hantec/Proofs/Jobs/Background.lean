import Hantec.Proofs.Jobs.Stages

/-!
# Turns in the background

A turn of a background job keeps the books right and does not disturb the lead. What is still to
happen becomes less by it.
-/

namespace Hantec

/-! ## What is still to happen -/

/-- One of the turns of a job is taken. -/
def spend (turns : Nat → Nat) (i j : Nat) : Nat := if j = i then turns j - 1 else turns j

theorem spend_self (turns : Nat → Nat) (i : Nat) : spend turns i i = turns i - 1 := if_pos rfl

theorem spend_of_ne {turns : Nat → Nat} {i j : Nat} (h : j ≠ i) : spend turns i j = turns j :=
  if_neg h

/-- The turns of all jobs with numbers below a bound. -/
def totalTurns : Nat → (Nat → Nat) → Nat
  | 0, _ => 0
  | n + 1, turns => totalTurns n turns + turns n

theorem totalTurns_spend (n : Nat) {i : Nat} {turns : Nat → Nat} (h : 0 < turns i) :
    totalTurns n (spend turns i) + (if i < n then 1 else 0) = totalTurns n turns := by
  induction n with
  | zero => rfl
  | succ n ih =>
    rw [totalTurns, totalTurns]
    by_cases hn : n = i
    · subst hn
      rw [if_neg (Nat.lt_irrefl n)] at ih
      rw [spend_self, if_pos (Nat.lt_succ_self n)]
      omega
    · rw [spend_of_ne hn]
      split at ih <;> split <;> omega

theorem Turn.texts_ended (w : World) (texts : List String) (r : Except Failure JobResult) :
    (Turn.ended (w.printAll texts) r).texts w = texts := by
  simp [Turn.texts]

theorem Turn.texts_paused (w : World) (texts : List String) (d : Delay)
    (resume : World → Machine) : (Turn.paused (w.printAll texts) d resume).texts w = texts := by
  simp [Turn.texts]

namespace Schedule

/-- The weight of what the lead has to do. Each of its jobs may have to be started and to be
noted. -/
def leadWeight (b : Schedule) : Nat :=
  match b.verdict, b.lead with
  | some _, _ => 0
  | none, .working todo => 3 * todo.length + b.background.length + 4
  | none, .collecting _ => 3
  | none, .informed _ => 1

/-- The weight of all that is still to happen, if each job has so many turns left. -/
def potential (n : Nat) (b : Schedule) (turns : Nat → Nat) : Nat :=
  4 * totalTurns n turns + Schedule.eventWeight b.ready b.alarms + b.leadWeight

section

variable {limit : Nat} {config : Config} {b : Schedule} {i : Nat} {job : Job} {w : World}

theorem goBackground_eq : b.goBackground limit config i job =
      match b.nextTurn limit config (.background i) job b.world with
      | .paused w d resume => (b.wake (.background i)).2.pause (.background i) w d resume
      | .ended w (.error (.exit code)) =>
        { (b.wake (.background i)).2 with world := w }.fail (.exit code)
      | .ended w r =>
        match b.lead with
        | .collecting _ =>
          { (b.wake (.background i)).2 with world := w, ends := (i, r) :: b.ends }.push (.noted i)
        | _ => { (b.wake (.background i)).2 with world := w, ends := (i, r) :: b.ends }
      | .unfinished => { (b.wake (.background i)).2 with closed := true, ready := [] } :=
  rfl

theorem goBackground_paused {d : Delay} {resume : World → Machine}
    (h : b.nextTurn limit config (.background i) job b.world = .paused w d resume) :
    b.goBackground limit config i job =
      (b.wake (.background i)).2.pause (.background i) w d resume := by
  rw [goBackground_eq, h]

theorem goBackground_ended {r : JobResult}
    (h : b.nextTurn limit config (.background i) job b.world = .ended w (.ok r))
    (hlead : ∀ missing, b.lead ≠ .collecting missing) :
    b.goBackground limit config i job =
      { (b.wake (.background i)).2 with world := w, ends := (i, .ok r) :: b.ends } := by
  rw [goBackground_eq, h]
  dsimp only
  split
  · rename_i hmissing
    exact absurd hmissing (hlead _)
  · rfl

theorem goBackground_ended_collecting {r : JobResult} {missing : Nat}
    (h : b.nextTurn limit config (.background i) job b.world = .ended w (.ok r))
    (hlead : b.lead = .collecting missing) :
    b.goBackground limit config i job =
      { (b.wake (.background i)).2 with world := w, ends := (i, .ok r) :: b.ends }.push
        (.noted i) := by
  rw [goBackground_eq, h, hlead]

end

end Schedule

namespace Forecast

open Schedule (duties eventWeight sleeper duties_push eventWeight_push sleeper_cons sleeper_filter
  count_of_perm_cons)

variable {limit : Nat} {config : Config} {start : World} {jobs : List Job}
  {F : Forecast limit config start jobs} {b b' : Schedule} {log log' : List (Nat × String)}
  {turns turns' : Nat → Nat} {p : Party} {i n : Nat} {job : Job} {past : List (Nat × Job)}
  {ready : List Event}

/-! ## Events that change only what is ready -/

theorem Books.reorder (h : F.Books b log past turns)
    {alarms : List (Float × Party)} {clock : Float} (hclock : 0 ≤ clock)
    (halarms : ∀ a ∈ alarms, 0 ≤ a.1)
    (hduties : (duties ready alarms).Perm (duties b.ready b.alarms)) :
    F.Books { b with
      world := { b.world with clock := clock }, ready := ready, alarms := alarms } log past turns :=
  { h with
    close := (hduties.count_eq _).trans h.close
    clock := hclock
    alarms := halarms
    status := fun i => (h.status i).frame rfl rfl (hduties.count_eq _) rfl fun _ _ => ⟨rfl, rfl⟩ }

/-- What the lead does and has to do may change while the books stay right. -/
theorem Books.redirect (h : F.Books b log past turns) {lead : Lead}
    {asleep : List (Party × (World → Machine))}
    (hcount : ∀ x, x ≠ .note → x ≠ .turn .lead →
      (duties ready b.alarms).count x = (duties b.ready b.alarms).count x)
    (hasleep : ∀ j, sleeper asleep (.background j) = sleeper b.asleep (.background j)) :
    F.Books { b with ready := ready, lead := lead, asleep := asleep } log past turns :=
  { h with
    close := (hcount .close nofun nofun).trans h.close
    status := fun j => (h.status j).frame rfl rfl (hcount (.turn (.background j)) nofun nofun)
      (hasleep j) fun _ _ => ⟨rfl, rfl⟩ }

theorem Stage.reorder (h : F.Stage b log turns) (hundecided : b.verdict = none)
    {alarms : List (Float × Party)} {clock : Float} (hclock : 0 ≤ clock)
    (halarms : ∀ a ∈ alarms, 0 ≤ a.1)
    (hduties : (duties ready alarms).Perm (duties b.ready b.alarms)) :
    F.Stage { b with
      world := { b.world with clock := clock }, ready := ready, alarms := alarms } log turns := by
  cases h with
  | starting hbooks hlead hduty hnote hsleeper htodo =>
    exact .starting (hbooks.reorder hclock halarms hduties) hlead
      ((hduties.count_eq _).trans hduty) ((hduties.count_eq _).trans hnote) hsleeper htodo
  | working hbooks hsplit hlead hjob hgoing hnote hsleeper htodo =>
    exact .working (hbooks.reorder hclock halarms hduties) hsplit hlead hjob
      (hgoing.frame (hduties.count_eq _) rfl rfl) ((hduties.count_eq _).trans hnote) hsleeper htodo
  | collecting hbooks hlead hduty hmissing =>
    exact .collecting (hbooks.reorder hclock halarms hduties)
      (hlead.trans (congrArg _ hduties.length_eq.symm)) ((hduties.count_eq _).trans hduty)
      (hduties.length_eq ▸ hmissing)
  | informed hbooks hlead hduties' =>
    exact .informed (hbooks.reorder hclock halarms hduties) hlead (hduties' ▸ hduties).eq_singleton
  | ended hover =>
    rw [hover.verdict] at hundecided
    cases hundecided

/-! ## Turns -/

variable (F) in
/-- How a turn ends in which a job prints some texts: the job ends as it does alone, or it is in the
middle. -/
inductive TurnEnds (log : List (Nat × String)) (i : Nat) (job : Job) (k : Nat) (w : World) :
    Turn → List String → Prop where
  | ended {now : List String} :
      textsOf i (log ++ signed i now) = F.texts job →
      TurnEnds log i job k w (.ended (w.printAll now) (.ok (F.result job))) now
  | paused {now later : List String} {d : Delay} {resume : World → Machine} :
      0 ≤ d.length → F.texts job = textsOf i (log ++ signed i now) ++ later →
      job.Plays limit start.environment (F.result job) k (fun w => job.turn limit (resume w))
        later →
      TurnEnds log i job k w (.paused (w.printAll now) d resume) now

theorem turnEnds_of_plays {turn : World → Turn} {rest : List String} {w : World}
    (htexts : F.texts job = textsOf i log ++ rest)
    (hplays : job.Plays limit start.environment (F.result job) n turn rest)
    (henv : w.environment = start.environment) :
    ∃ k now, n = k + 1 ∧ F.TurnEnds log i job k w (turn w) now := by
  cases n with
  | zero => exact hplays.elim
  | succ k =>
    obtain hended | ⟨d, resume, now, later, hpaused, hd, rfl, hlater⟩ := hplays w henv
    · exact ⟨k, rest, rfl, hended ▸ .ended (by simp [htexts])⟩
    · exact ⟨k, now, rfl, hpaused ▸ .paused hd (by simp [htexts]) hlater⟩

theorem Ongoing.turnEnds (h : F.Ongoing b log p i job n)
    (henv : b.world.environment = start.environment) :
    ∃ k now, n = k + 1 ∧
      F.TurnEnds log i job k b.world (b.nextTurn limit config p job b.world) now := by
  obtain ⟨-, rest, htexts, hplays⟩ := h
  exact turnEnds_of_plays htexts hplays henv

/-- What is left to do for a party after a turn that ends in the middle of a job. -/
theorem Ongoing.ofPlays {resume : World → Machine} {later : List String}
    (hduty : (duties b.ready b.alarms).count (.turn p) = 1)
    (hsleeper : sleeper b.asleep p = some resume)
    (htexts : F.texts job = textsOf i log ++ later)
    (hplays : job.Plays limit start.environment (F.result job) n
      (fun w => job.turn limit (resume w)) later) : F.Ongoing b log p i job n := by
  refine ⟨hduty, later, htexts, ?_⟩
  have hturn : b.nextTurn limit config p job = fun w => job.turn limit (resume w) := by
    funext w
    simp only [Schedule.nextTurn, Schedule.wake_eq, hsleeper]
  rw [hturn]
  exact hplays

/-! ## Background jobs -/

/-- What the lead sees of a turn of a background job. -/
structure Undisturbed (b b' : Schedule) : Prop where
  lead : b'.lead = b.lead
  background : b'.background = b.background
  sleeper : sleeper b'.asleep .lead = sleeper b.asleep .lead
  duty : (duties b'.ready b'.alarms).count (.turn .lead) =
    (duties b.ready b.alarms).count (.turn .lead)
  note : (∀ missing, b.lead ≠ .collecting missing) →
    (duties b'.ready b'.alarms).count .note = (duties b.ready b.alarms).count .note
  length : ∀ missing, b.lead = .collecting missing →
    (duties b'.ready b'.alarms).length = (duties b.ready b.alarms).length
  weight : eventWeight b'.ready b'.alarms ≤ eventWeight b.ready b.alarms + 2

/-- The books after a turn of a background job, if they are right for the job itself. -/
theorem Books.afterBackground (h : F.Books b log past turns)
    (hjob : b.background.lookup i = some job) {now : List String}
    {alarms : List (Float × Party)}
    {asleep : List (Party × (World → Machine))} {ends : List (Nat × Except Failure JobResult)}
    (hclose : (duties ready alarms).count .close = 0)
    (halarms : ∀ a ∈ alarms, 0 ≤ a.1)
    (hothers : ∀ j, j ≠ i → ends.lookup j = b.ends.lookup j ∧
      (duties ready alarms).count (.turn (.background j)) =
        (duties b.ready b.alarms).count (.turn (.background j)) ∧
      sleeper asleep (.background j) = sleeper b.asleep (.background j))
    (hstatus : F.Status
      { b with
        world := b.world.printAll now, ready := ready, alarms := alarms, asleep := asleep
        ends := ends } (log ++ signed i now) (spend turns i) i) :
    F.Books
      { b with
        world := b.world.printAll now, ready := ready, alarms := alarms, asleep := asleep
        ends := ends } (log ++ signed i now) past (spend turns i) :=
  { h with
    close := hclose
    alarms := halarms
    output := by simp [h.output]
    signers := signers_append h.signers (h.lt_length hjob) now
    order := h.order.append (fun hi => absurd hi (h.not_isForeground hjob)) now
    foreground := fun e he hattached => by
      have hne : i ≠ e.1 := fun hi =>
        h.not_isForeground hjob ⟨e.2, hi ▸ h.getElem?_of_mem he, hattached⟩
      simpa [hne] using h.foreground e he hattached
    status := fun j => by
      by_cases hj : j = i
      · exact hj ▸ hstatus
      · obtain ⟨hends, hduty, hsleeper⟩ := hothers j hj
        refine (h.status j).frame rfl hends hduty hsleeper fun _ _ => ⟨?_, spend_of_ne hj⟩
        simp [Ne.symm hj] }

theorem Books.pauseBackground (h : F.Books b log past turns)
    (hduties : (duties b.ready b.alarms).Perm (.turn (.background i) :: (duties ready b.alarms)))
    (hweight : eventWeight b.ready b.alarms = eventWeight ready b.alarms + 1)
    (hjob : b.background.lookup i = some job) (hends : b.ends.lookup i = none)
    (hduty : (duties b.ready b.alarms).count (.turn (.background i)) = 1)
    {now later : List String} {d : Delay} {resume : World → Machine} (hd : 0 ≤ d.length)
    (htexts : F.texts job = textsOf i (log ++ signed i now) ++ later)
    (hplays : job.Plays limit start.environment (F.result job) (turns i - 1)
      (fun w => job.turn limit (resume w)) later) :
    F.Books (({ b with ready := ready }.wake (.background i)).2.pause (.background i)
        (b.world.printAll now) d resume) (log ++ signed i now) past (spend turns i) ∧
      Undisturbed b (({ b with ready := ready }.wake (.background i)).2.pause (.background i)
        (b.world.printAll now) d resume) := by
  obtain ⟨ready', alarms', hpause, hduties', hweight', halarms'⟩ :=
    ({ b with ready := ready }.wake (.background i)).2.exists_pause (.background i)
      (w := b.world.printAll now) hd h.clock h.alarms resume
  rw [hpause]
  have hall : (duties ready' alarms').Perm (duties b.ready b.alarms) :=
    hduties'.trans hduties.symm
  constructor
  · refine h.afterBackground hjob ((hall.count_eq _).trans h.close) halarms' ?_ ?_
    · intro j hj
      refine ⟨rfl, hall.count_eq _, ?_⟩
      rw [sleeper_cons, if_neg (by simpa using Ne.symm hj)]
      exact (sleeper_filter _ _ _).trans (if_neg (by simpa using Ne.symm hj))
    · simp only [Status, hjob]
      rw [← spend_self] at hplays
      have hsleeper := (sleeper_cons (b.asleep.filter (·.1 != .background i))
        (.background i) (.background i) resume).trans (if_pos rfl)
      exact .inl ⟨.ofPlays ((hall.count_eq _).trans hduty) hsleeper htexts hplays, hends⟩
  · refine ⟨rfl, rfl, ?_, hall.count_eq _, fun _ => hall.count_eq _, fun _ _ => hall.length_eq, ?_⟩
    · rw [sleeper_cons, if_neg nofun]
      exact (sleeper_filter _ _ _).trans (if_neg nofun)
    · exact Nat.le_trans hweight' (by rw [hweight]; exact Nat.le_refl _)

theorem Books.endBackground (h : F.Books b log past turns) {ready ready' : List Event}
    {extra : List Duty}
    (hduties : (duties b.ready b.alarms).Perm
      (.turn (.background i) :: duties ready b.alarms))
    (hduties' : (duties ready' b.alarms).Perm (extra ++ duties ready b.alarms))
    (hextra : extra = [] ∨ extra = [.note])
    (hjob : b.background.lookup i = some job)
    (hduty : (duties b.ready b.alarms).count (.turn (.background i)) = 1)
    {now : List String} (htexts : textsOf i (log ++ signed i now) = F.texts job) :
    F.Books { ({ b with ready := ready' }.wake (.background i)).2 with
        world := b.world.printAll now, ends := (i, .ok (F.result job)) :: b.ends }
      (log ++ signed i now) past (spend turns i) := by
  have hcount := count_of_perm_cons hduties
  have hcount' (x : Duty) (hx : x ≠ .note) :
      (duties ready' b.alarms).count x = (duties ready b.alarms).count x := by
    rw [hduties'.count_eq, List.count_append]
    obtain rfl | rfl := hextra
    · simp
    · simp [Ne.symm hx]
  refine h.afterBackground hjob ?_ h.alarms ?_ ?_
  · have hclose := hcount .close
    rw [h.close] at hclose
    exact (hcount' .close nofun).trans (by omega)
  · intro j hj
    have hj' := hcount (.turn (.background j))
    rw [if_neg (by simpa using Ne.symm hj)] at hj'
    refine ⟨?_, (hcount' (.turn (.background j)) nofun).trans hj'.symm, ?_⟩
    · have hb : (j == i) = false := by simpa using hj
      simp [List.lookup_cons, hb]
    · exact (sleeper_filter _ _ _).trans (if_neg (by simpa using Ne.symm hj))
  · simp only [Status, hjob]
    refine .inr ⟨?_, by simp, htexts⟩
    have hi := hcount (.turn (.background i))
    rw [hduty, if_pos rfl] at hi
    exact (hcount' (.turn (.background i)) nofun).trans (by omega)

theorem Books.goBackground (h : F.Books b log past turns)
    (hduties : (duties b.ready b.alarms).Perm
      (.turn (.background i) :: duties ready b.alarms))
    (hweight : eventWeight b.ready b.alarms = eventWeight ready b.alarms + 1)
    (hjob : b.background.lookup i = some job) (hends : b.ends.lookup i = none)
    (hgoing : F.Ongoing b log (.background i) i job (turns i)) :
    F.Books ({ b with ready := ready }.goBackground limit config i job)
        (log ++ signed i ((b.nextTurn limit config (.background i) job b.world).texts b.world))
        past (spend turns i) ∧
      Undisturbed b ({ b with ready := ready }.goBackground limit config i job) := by
  obtain ⟨k, now, hk, hturn⟩ := hgoing.turnEnds h.environment
  generalize hnext : b.nextTurn limit config (.background i) job b.world = t at hturn
  cases hturn with
  | ended htexts =>
    rw [Turn.texts_ended]
    have hcount := count_of_perm_cons hduties
    have hsleeper : sleeper (b.asleep.filter (·.1 != .background i)) .lead =
        sleeper b.asleep .lead :=
      (sleeper_filter _ _ _).trans (if_neg nofun)
    by_cases hlead : ∃ missing, b.lead = .collecting missing
    · obtain ⟨missing, hmissing⟩ := hlead
      have hpush := duties_push ready b.alarms (.noted i)
      have hnote := eventWeight_push ready b.alarms (.noted i)
      rw [Schedule.goBackground_ended_collecting (b := { b with ready := ready }) hnext hmissing]
      refine ⟨h.endBackground hduties hpush (.inr rfl) hjob hgoing.duty htexts, rfl, rfl, hsleeper,
        ?_, fun hne => absurd hmissing (hne missing), fun _ _ => ?_, ?_⟩
      · exact (count_of_perm_cons hpush (.turn .lead)).trans (hcount (.turn .lead)).symm
      · exact hpush.length_eq.trans hduties.length_eq.symm
      · exact Nat.le_trans (Nat.le_of_eq (hnote.trans hweight.symm)) (Nat.le_add_right _ _)
    · have hlead : ∀ missing, b.lead ≠ .collecting missing := not_exists.mp hlead
      rw [Schedule.goBackground_ended (b := { b with ready := ready }) hnext hlead]
      refine ⟨h.endBackground hduties (.refl _) (.inl rfl) hjob hgoing.duty htexts, rfl, rfl,
        hsleeper, (hcount (.turn .lead)).symm, fun _ => (hcount .note).symm,
        fun missing hmissing => absurd hmissing (hlead missing), ?_⟩
      show eventWeight ready b.alarms ≤ _
      omega
  | paused hd htexts hplays =>
    rw [Turn.texts_paused, Schedule.goBackground_paused (b := { b with ready := ready }) hnext]
    have hk' : k = turns i - 1 := by omega
    exact h.pauseBackground hduties hweight hjob hends hgoing.duty hd htexts (hk' ▸ hplays)

end Forecast

end Hantec
