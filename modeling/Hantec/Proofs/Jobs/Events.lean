import Hantec.Proofs.Jobs.Collection

/-!
# From stage to stage

Each move leads from one stage of a schedule to another one, with less that is still to happen. A
schedule that cannot move any more is over.
-/

namespace Hantec

namespace Schedule

variable (limit : Nat) (config : Config) {b : Schedule} {i : Nat} {job : Job}
  {todo : List (Nat × Job)} {resume : World → Machine}

theorem goLead_next (hlead : b.lead = .working todo) (hsleeper : sleeper b.asleep .lead = none) :
    handle limit config b (.go .lead) = work limit config todo (b.wake .lead).2 ∧
      eventLog limit config b (.go .lead) = workLog limit config todo (b.wake .lead).2 := by
  simp only [handle, goLead, eventLog, hlead, wake_eq, hsleeper, and_self]

theorem goLead_midway (hlead : b.lead = .working ((i, job) :: todo))
    (hsleeper : sleeper b.asleep .lead = some resume) :
    handle limit config b (.go .lead) =
        leadOn limit config i job todo (b.wake .lead).2 (job.turn limit (resume b.world)) ∧
      eventLog limit config b (.go .lead) =
        leadLog limit config i todo (b.wake .lead).2 (job.turn limit (resume b.world)) := by
  simp only [handle, goLead, eventLog, hlead, wake_eq, hsleeper, and_true]
  rfl

/-- The lead takes note of a job that has not failed the schedule. -/
theorem note_eq {missing : Nat} (hlead : b.lead = .collecting missing)
    (hends : ∀ f, b.ends.lookup i ≠ some (.error f)) :
    b.note i =
      if missing ≤ 1 then { b with lead := .informed none }.push (.go .lead)
      else { b with lead := .collecting (missing - 1) } := by
  unfold note
  rw [hlead]
  dsimp only
  split
  · rename_i f hf
    exact absurd hf (hends f)
  · rfl

/-- Nothing can happen any more. -/
def IsFinal (b : Schedule) : Prop := ∀ texts b', ¬Move limit config b texts b'

theorem isFinal_of_closed (h : b.closed = true) : b.IsFinal limit config := by
  intro texts b' hmove
  cases hmove with
  | event hopen | alarm hopen =>
    rw [h] at hopen
    cases hopen

end Schedule

namespace Forecast

open Schedule (duties eventWeight sleeper duties_take duties_push duties_ring eventWeight_take
  eventWeight_push eventWeight_ring sleeper_filter count_of_perm_cons eventLog handle Move Moves)

variable {limit : Nat} {config : Config} {start : World} {jobs : List Job}
  {F : Forecast limit config start jobs} {b b' : Schedule} {log texts : List (Nat × String)}
  {turns : Nat → Nat} {i : Nat} {job : Job} {past todo : List (Nat × Job)}
  {pre post : List Event} {e : Event}

/-! ## What is ready -/

theorem Over.eq_close (h : F.Over b log) {x : Duty} (hx : x ∈ duties b.ready b.alarms) :
    x = .close ∧ b.ready = [.close] := by
  obtain ⟨hready, -⟩ | ⟨hready, -⟩ := h.ready
  · exact ⟨by simpa [duties, hready, h.alarms, Event.duty] using hx, hready⟩
  · simp [duties, hready, h.alarms] at hx

theorem Stage.books (h : F.Stage b log turns) {x : Duty} (hx : x ∈ duties b.ready b.alarms)
    (hne : x ≠ .close) : ∃ past, F.Books b log past turns := by
  cases h with
  | starting hbooks => exact ⟨_, hbooks⟩
  | working hbooks => exact ⟨_, hbooks⟩
  | collecting hbooks => exact ⟨_, hbooks⟩
  | informed hbooks => exact ⟨_, hbooks⟩
  | ended hover => exact absurd (hover.eq_close hx).1 hne

theorem mem_duties_of_ready (hready : b.ready = pre ++ e :: post) :
    e.duty ∈ duties b.ready b.alarms :=
  (duties_take b.alarms hready).mem_iff.mpr List.mem_cons_self

/-! ## The lead -/

theorem count_of_goLead (hready : b.ready = pre ++ .go .lead :: post) {x : Duty}
    (hx : x ≠ .turn .lead) :
    (duties (pre ++ post) b.alarms).count x = (duties b.ready b.alarms).count x := by
  have hcount := count_of_perm_cons (duties_take b.alarms hready) x
  rw [Event.duty, if_neg (Ne.symm hx)] at hcount
  exact hcount.symm

/-- A lead that begins to go on has nothing else to do. -/
theorem Books.idle (h : F.Books b log past turns) (hready : b.ready = pre ++ .go .lead :: post)
    (hsplit : numbered jobs = past ++ todo)
    (hduty : (duties b.ready b.alarms).count (.turn .lead) = 1)
    (hnote : (duties b.ready b.alarms).count .note = 0) :
    F.Idle ({ b with ready := pre ++ post }.wake .lead).2 log past todo turns := by
  refine ⟨h.redirect (fun x _ => count_of_goLead hready) fun j => ?_, hsplit, ?_,
    (count_of_goLead (x := .note) hready nofun).trans hnote, ?_⟩
  · exact (sleeper_filter _ _ _).trans (if_neg nofun)
  · have hlead := count_of_perm_cons (duties_take b.alarms hready) (.turn .lead)
    rw [hduty, Event.duty, if_pos rfl] at hlead
    exact (Nat.succ_inj.mp hlead).symm
  · exact (sleeper_filter _ _ _).trans (if_pos rfl)

/-- The lead was told of the last background job: nothing else is left to be done. -/
theorem Books.goLead_informed (h : F.Books b log (numbered jobs) turns)
    (hlead : b.lead = .informed none) (hduties : duties b.ready b.alarms = [.turn .lead])
    (hready : b.ready = pre ++ .go .lead :: post) :
    F.Proceeds (handle limit config { b with ready := pre ++ post } (.go .lead))
      (log ++ eventLog limit config { b with ready := pre ++ post } (.go .lead))
      (b.potential jobs.length turns) := by
  have hperm := hduties ▸ duties_take b.alarms hready
  have hnil : duties (pre ++ post) b.alarms = [] := by
    simpa using hperm.length_eq
  obtain ⟨hready', halarms⟩ := Schedule.duties_eq_nil_iff.mp hnil
  have hbooks : F.Books { b with ready := pre ++ post } log (numbered jobs) turns :=
    h.redirect (fun x _ => count_of_goLead hready) fun _ => rfl
  have hover := hbooks.ended hready' halarms
  have hhandle : handle limit config { b with ready := pre ++ post } (.go .lead) =
      { { b with ready := pre ++ post }.keepBackground with verdict := some (.ok ()) }.push
        .close := by
    simp only [handle, Schedule.goLead, hlead]
  have hlog : eventLog limit config { b with ready := pre ++ post } (.go .lead) = [] := by
    simp only [eventLog, hlead]
  rw [hhandle, hlog, List.append_nil]
  refine ⟨turns, .ended hover, Nat.lt_of_le_of_lt (hover.potential_le turns) ?_⟩
  have hweight := eventWeight_take b.alarms hready
  simp [Schedule.potential, Schedule.leadWeight, h.undecided, hlead, hweight, Event.weight]

theorem Stage.goLead (h : F.Stage b log turns) (hready : b.ready = pre ++ .go .lead :: post) :
    F.Proceeds (handle limit config { b with ready := pre ++ post } (.go .lead))
      (log ++ eventLog limit config { b with ready := pre ++ post } (.go .lead))
      (b.potential jobs.length turns) := by
  have hweight := eventWeight_take b.alarms hready
  cases h with
  | starting hbooks hlead hduty hnote hsleeper htodo =>
    obtain ⟨hhandle, hlog⟩ := Schedule.goLead_next limit config
      (b := { b with ready := pre ++ post }) hlead hsleeper
    rw [hhandle, hlog]
    have hidle : F.Idle _ log [] (numbered jobs) turns := hbooks.idle hready rfl hduty hnote
    refine (hidle.proceeds_work htodo).imp fun _ hnext => ⟨hnext.1, Nat.lt_trans hnext.2 ?_⟩
    simp only [Schedule.potential, Schedule.leadWeight, hbooks.undecided, hlead, hweight,
      Schedule.workWeight, Schedule.wake, Event.weight]
    omega
  | @working past todo i job resume hbooks hsplit hlead hjob hgoing hnote hsleeper htodo =>
    obtain ⟨hhandle, hlog⟩ := Schedule.goLead_midway limit config
      (b := { b with ready := pre ++ post }) hlead hsleeper
    rw [hhandle, hlog]
    have hidle := hbooks.idle hready hsplit hgoing.duty hnote
    obtain ⟨k, now, hk, hturn⟩ := hgoing.turnEnds hbooks.environment
    have hnext : b.nextTurn limit config .lead job b.world = job.turn limit (resume b.world) := by
      simp only [Schedule.nextTurn, Schedule.wake_eq, hsleeper]
    rw [hnext] at hturn
    refine (hidle.proceeds_leadOn hjob htodo hk hturn fun _ _ _ => Idle.proceeds_work).imp
      fun _ hnext => ⟨hnext.1, Nat.lt_trans hnext.2 ?_⟩
    simp only [Schedule.potential, Schedule.leadWeight, hbooks.undecided, hlead, hweight,
      Schedule.workWeight, Schedule.wake, Event.weight]
    omega
  | collecting hbooks hlead hduty =>
    -- The lead has no turn while it collects.
    have hlead := count_of_perm_cons (duties_take b.alarms hready) (.turn .lead)
    rw [hduty, Event.duty, if_pos rfl] at hlead
    cases hlead
  | informed hbooks hlead hduties => exact hbooks.goLead_informed hlead hduties hready
  | ended hover => cases (hover.eq_close (mem_duties_of_ready hready)).1

/-! ## The others -/

theorem Undisturbed.leadWeight_eq (h : Undisturbed b b') (hverdict : b'.verdict = b.verdict) :
    b'.leadWeight = b.leadWeight := by
  simp only [Schedule.leadWeight, hverdict, h.lead, h.background]

/-- Where the lead stands is the same after a turn of a background job. -/
theorem Stage.undisturbed (h : F.Stage b log turns)
    (hduty : .turn (.background i) ∈ duties b.ready b.alarms) {now : List String}
    (hjob : b.background.lookup i = some job)
    (hbooks' : ∀ past, F.Books b log past turns →
      F.Books b' (log ++ signed i now) past (spend turns i))
    (hlead : Undisturbed b b') : F.Stage b' (log ++ signed i now) (spend turns i) := by
  cases h with
  | starting hbooks =>
    simp [hbooks.background] at hjob
  | @working past todo i₀ job₀ resume hbooks hsplit hworking hjob₀ hgoing hnote hsleeper htodo =>
    obtain ⟨hbefore, hafter⟩ := lt_of_split hsplit
    have hlt : i < i₀ := hbefore _ (hbooks.lookup_iff.mp hjob).1
    have hsame : spend turns i i₀ = turns i₀ := spend_of_ne (Nat.ne_of_gt hlt)
    refine .working (hbooks' past hbooks) hsplit (hlead.lead.trans hworking) hjob₀ ?_
      ((hlead.note (by simp [hworking])).trans hnote) (hlead.sleeper.trans hsleeper) ?_
    · rw [hsame]
      exact hgoing.frame hlead.duty hlead.sleeper (by simp [Nat.ne_of_lt hlt])
    · exact htodo.append_signed (fun e he => Nat.lt_trans hlt (hafter e he)) now
  | collecting hbooks hcollecting hnone hmissing =>
    have hlength := hlead.length _ hcollecting
    exact .collecting (hbooks' _ hbooks) (hlead.lead.trans (hlength ▸ hcollecting))
      (hlead.duty.trans hnone) (hlength ▸ hmissing)
  | informed hbooks hinformed hduties =>
    simp [hduties] at hduty
  | ended hover => cases (hover.eq_close hduty).1

theorem Stage.goBackground (h : F.Stage b log turns)
    (hready : b.ready = pre ++ .go (.background i) :: post) :
    F.Proceeds (handle limit config { b with ready := pre ++ post } (.go (.background i)))
      (log ++ eventLog limit config { b with ready := pre ++ post } (.go (.background i)))
      (b.potential jobs.length turns) := by
  have hduty := mem_duties_of_ready hready
  have hduties := duties_take b.alarms hready
  have hweight := eventWeight_take b.alarms hready
  obtain ⟨past, hbooks⟩ := h.books hduty nofun
  obtain ⟨job, hjob, hends, hgoing⟩ := hbooks.ongoing hduty
  have hhandle : handle limit config { b with ready := pre ++ post } (.go (.background i)) =
      { b with ready := pre ++ post }.goBackground limit config i job := by
    simp only [handle, hjob]
  have hlog : eventLog limit config { b with ready := pre ++ post } (.go (.background i)) =
      signed i ((b.nextTurn limit config (.background i) job b.world).texts b.world) := by
    simp only [eventLog, hjob]
    rfl
  rw [hhandle, hlog]
  have hnext (past : List (Nat × Job)) (hbooks : F.Books b log past turns) :=
    hbooks.goBackground hduties hweight hjob hends hgoing
  obtain ⟨hbooks', hlead⟩ := hnext past hbooks
  refine ⟨spend turns i, h.undisturbed hduty hjob (fun past hbooks => (hnext past hbooks).1) hlead,
    ?_⟩
  obtain ⟨k, -, hk, -⟩ := hgoing.turnEnds hbooks.environment
  have htotal := totalTurns_spend jobs.length (show 0 < turns i by omega)
  rw [if_pos (hbooks.lt_length hjob)] at htotal
  have hless := hlead.weight
  simp only [Schedule.potential,
    hlead.leadWeight_eq (hbooks'.undecided.trans hbooks.undecided.symm)]
  omega

/-! ## Events without a turn -/

theorem Stage.due (h : F.Stage b log turns) {p : Party} (hready : b.ready = pre ++ .due p :: post) :
    F.Proceeds (handle limit config { b with ready := pre ++ post } (.due p)) log
      (b.potential jobs.length turns) := by
  obtain ⟨past, hbooks⟩ := h.books (mem_duties_of_ready hready) nofun
  have hduties :=
    (duties_push (pre ++ post) b.alarms (.go p)).trans (duties_take b.alarms hready).symm
  refine ⟨turns, h.reorder hbooks.undecided hbooks.clock hbooks.alarms hduties, ?_⟩
  have hpush := eventWeight_push (pre ++ post) b.alarms (.go p)
  have htake := eventWeight_take b.alarms hready
  simp only [Schedule.potential, handle, Schedule.push, Schedule.leadWeight, hpush, htake,
    Event.weight]
  omega

/-- No background job ends with a failure of the schedule. -/
theorem Books.ends_ne_error (h : F.Books b log past turns) (i : Nat) (f : Failure) :
    b.ends.lookup i ≠ some (.error f) := by
  intro hends
  have hstatus := h.status i
  unfold Status at hstatus
  split at hstatus
  · obtain ⟨-, hnone⟩ | hsettled := hstatus
    · cases hends.symm.trans hnone
    · cases hends.symm.trans hsettled.ended
  · cases hends.symm.trans hstatus.2.2

theorem Stage.note (h : F.Stage b log turns) (hready : b.ready = pre ++ .noted i :: post) :
    F.Proceeds (handle limit config { b with ready := pre ++ post } (.noted i)) log
      (b.potential jobs.length turns) := by
  have hduty := mem_duties_of_ready hready
  have hduties := duties_take b.alarms hready
  have hcount := count_of_perm_cons hduties
  have hweight := eventWeight_take b.alarms hready
  have hnote : (duties b.ready b.alarms).count .note ≠ 0 := by
    rw [hcount, Event.duty, if_pos rfl]
    exact Nat.succ_ne_zero _
  cases h with
  | starting _ _ _ hnone => exact absurd hnone hnote
  | working _ _ _ _ _ hnone => exact absurd hnone hnote
  | collecting hbooks hlead hnone hmissing =>
    have hlength := hduties.length_eq
    rw [List.length_cons] at hlength
    have hhandle := Schedule.note_eq (b := { b with ready := pre ++ post }) hlead
      (hbooks.ends_ne_error i)
    rw [handle, hhandle]
    have hrest (x : Duty) (hx : x ≠ .note) :
        (duties (pre ++ post) b.alarms).count x = (duties b.ready b.alarms).count x := by
      rw [hcount, Event.duty, if_neg (Ne.symm hx), Nat.add_zero]
    split
    · -- It was the last of the jobs that were missing.
      have hnil : duties (pre ++ post) b.alarms = [] := List.eq_nil_of_length_eq_zero (by omega)
      have hpush := duties_push (pre ++ post) b.alarms (.go .lead)
      refine ⟨turns, .informed ?_ rfl ?_, ?_⟩
      · refine hbooks.redirect (fun x hx hne => ?_) fun _ => rfl
        rw [count_of_perm_cons hpush, Event.duty, if_neg (Ne.symm hne)]
        exact hrest x hx
      · rw [hnil] at hpush
        exact hpush.eq_singleton
      · have hpushed := eventWeight_push (pre ++ post) b.alarms (.go .lead)
        simp only [Schedule.potential, Schedule.push, Schedule.leadWeight, hbooks.undecided, hlead,
          hpushed, hweight, Event.weight]
        omega
    · refine ⟨turns, .collecting ?_ ?_ ((hrest (.turn .lead) (by simp)).trans hnone) ?_, ?_⟩
      · exact hbooks.redirect (fun x hx _ => hrest x hx) fun _ => rfl
      · simp only [hlength, Nat.add_sub_cancel]
      · show 0 < (duties (pre ++ post) b.alarms).length
        omega
      · simp only [Schedule.potential, Schedule.leadWeight, hbooks.undecided, hlead, hweight,
          Event.weight]
        omega
  | informed _ _ hlast => simp [hlast, Event.duty] at hduty
  | ended hover => cases (hover.eq_close hduty).1

theorem Stage.close (h : F.Stage b log turns) (hready : b.ready = pre ++ .close :: post) :
    F.Proceeds (handle limit config { b with ready := pre ++ post } .close) log
      (b.potential jobs.length turns) := by
  have hduty := mem_duties_of_ready hready
  have hcount := List.one_le_count_iff.mpr hduty
  have hnone {past : List (Nat × Job)} (hbooks : F.Books b log past turns) : False := by
    rw [Event.duty, hbooks.close] at hcount
    cases hcount
  cases h with
  | starting hbooks => exact (hnone hbooks).elim
  | working hbooks => exact (hnone hbooks).elim
  | collecting hbooks => exact (hnone hbooks).elim
  | informed hbooks => exact (hnone hbooks).elim
  | ended hover =>
    have hnil : pre ++ post = [] := by
      have hlength := congrArg List.length hready
      rw [(hover.eq_close hduty).2] at hlength
      simp only [List.length_append, List.length_cons, List.length_nil] at hlength
      exact List.eq_nil_of_length_eq_zero (by rw [List.length_append]; omega)
    rw [hnil]
    refine ⟨turns, .ended { hover with ready := .inr ⟨rfl, rfl⟩ }, ?_⟩
    have hweight := eventWeight_take b.alarms hready
    simp [Schedule.potential, handle, hweight, hnil, Event.weight, Schedule.leadWeight]

theorem Stage.ring (h : F.Stage b log turns) {pre post : List (Float × Party)} {time clock : Float}
    {p : Party} (halarms : b.alarms = pre ++ (time, p) :: post) (hclock : 0 ≤ clock) :
    F.Proceeds
      { b with
        world := { b.world with clock := clock }
        alarms := pre ++ post
        ready := b.ready ++ [.due p] } log (b.potential jobs.length turns) := by
  have hduties := duties_ring b.ready halarms
  have hduty : .turn p ∈ duties b.ready b.alarms := by
    simp [duties, halarms]
  obtain ⟨past, hbooks⟩ := h.books hduty (by simp)
  refine ⟨turns, h.reorder hbooks.undecided hclock (fun a ha => ?_) hduties, ?_⟩
  · refine hbooks.alarms a ?_
    rw [halarms]
    simp only [List.mem_append, List.mem_cons] at ha ⊢
    exact ha.imp_right .inr
  · have hweight := eventWeight_ring b.ready halarms
    simp only [Schedule.potential, Schedule.leadWeight, hweight]
    omega

/-! ## Moves -/

/-- Each move leads to another stage, with less that is still to happen. -/
theorem Stage.move (h : F.Stage b log turns) (hmove : Move limit config b texts b') :
    F.Proceeds b' (log ++ texts) (b.potential jobs.length turns) := by
  cases hmove with
  | @event pre post e hopen hready =>
    cases e with
    | go p =>
      cases p with
      | lead => exact h.goLead hready
      | background i => exact h.goBackground hready
    | due p => simpa [eventLog] using h.due hready
    | noted i => simpa [eventLog] using h.note hready
    | close => simpa [eventLog] using h.close hready
  | alarm hopen halarms hclock => simpa using h.ring halarms hclock

/-- Many moves take at least one from what is still to happen for each of them. -/
theorem Stage.moves {n : Nat} (h : F.Stage b log turns) (hmoves : Moves limit config n b texts b') :
    ∃ turns', F.Stage b' (log ++ texts) turns' ∧
      b'.potential jobs.length turns' + n ≤ b.potential jobs.length turns := by
  induction hmoves with
  | refl => exact ⟨turns, by simpa using h, Nat.le_refl _⟩
  | move _ hmove ih =>
    obtain ⟨turns₁, hstage₁, hle₁⟩ := ih h
    obtain ⟨turns₂, hstage₂, hlt₂⟩ := hstage₁.move hmove
    exact ⟨turns₂, by simpa using hstage₂, by omega⟩

/-- As long as a schedule is not over, it has something to do. -/
theorem Stage.over_or_duty (h : F.Stage b log turns) :
    F.Over b log ∨ ∃ past x, F.Books b log past turns ∧ x ∈ duties b.ready b.alarms := by
  cases h with
  | starting hbooks _ hduty =>
    exact .inr ⟨_, _, hbooks, List.one_le_count_iff.mp (Nat.le_of_eq hduty.symm)⟩
  | working hbooks _ _ _ hgoing =>
    exact .inr ⟨_, _, hbooks, List.one_le_count_iff.mp (Nat.le_of_eq hgoing.duty.symm)⟩
  | collecting hbooks _ _ hmissing =>
    exact .inr ⟨_, _, hbooks, List.getElem_mem hmissing⟩
  | informed hbooks _ hduties =>
    exact .inr ⟨_, _, hbooks, hduties ▸ List.mem_singleton_self _⟩
  | ended hover => exact .inl hover

theorem Stage.isOpen (h : F.Stage b log turns) (hready : b.ready ≠ []) : b.closed = false := by
  obtain hover | ⟨past, x, hbooks, -⟩ := h.over_or_duty
  · obtain ⟨-, hopen⟩ | ⟨hnil, -⟩ := hover.ready
    · exact hopen
    · exact absurd hnil hready
  · exact hbooks.isOpen

/-- If no move is left, then all is over. -/
theorem Stage.over_of_final (h : F.Stage b log turns) (hfinal : b.IsFinal limit config) :
    F.Over b log := by
  obtain hover | ⟨past, x, hbooks, hx⟩ := h.over_or_duty
  · exact hover
  · obtain hx | hx := List.mem_append.mp hx
    · obtain ⟨e, he, -⟩ := List.mem_map.mp hx
      obtain ⟨pre, post, hready⟩ := List.append_of_mem he
      exact absurd (.event hbooks.isOpen hready) (hfinal _ _)
    · obtain ⟨⟨time, p⟩, ha, -⟩ := List.mem_map.mp hx
      obtain ⟨pre, post, halarms⟩ := List.append_of_mem ha
      exact absurd (.alarm hbooks.isOpen halarms hbooks.clock) (hfinal _ _)

end Forecast

end Hantec
