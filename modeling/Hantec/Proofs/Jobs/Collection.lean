import Hantec.Proofs.Jobs.Lead

/-!
# The end of a schedule

When the lead has no job left, each of the others is in the middle of something or has ended and
is still to be noted. When all have been noted, their results are kept, and all is over.
-/

namespace Hantec

theorem map_snd_numbered (jobs : List Job) : (numbered jobs).map Prod.snd = jobs := by
  rw [numbered, List.map_map]
  exact List.zipIdx_map_fst 0 jobs

theorem filter_numbered (q : Job → Bool) (jobs : List Job) :
    ((numbered jobs).filter fun e => q e.2).map Prod.snd = jobs.filter q := by
  have hmap := List.filter_map (p := q) (f := Prod.snd) (l := numbered jobs)
  rw [map_snd_numbered] at hmap
  exact hmap.symm

theorem nodup_numbered (jobs : List Job) : ((numbered jobs).map Prod.fst).Nodup := by
  rw [List.Nodup, List.pairwise_map]
  exact (numbered_sorted jobs).imp Nat.ne_of_lt

namespace Schedule

variable {b : Schedule} {jobs : List Job}

def keepEnd (b : Schedule) (e : Nat × Job) : Schedule :=
  match b.ends.lookup e.1 with
  | some (.ok r) => b.keep e.1 r
  | _ => b

theorem keepBackground_eq (b : Schedule) :
    b.keepBackground = b.background.reverse.foldl keepEnd b := rfl

theorem foldl_keepEnd (result : Job → JobResult) (es : List (Nat × Job))
    (h : ∀ e ∈ es, b.ends.lookup e.1 = some (.ok (result e.2))) :
    es.foldl keepEnd b =
      { b with
        results := (es.map fun e => (e.1, result e.2)).reverse ++ b.results
        reported := b.reported ++ (es.map fun e => result e.2).filter (!·.isOk) } := by
  induction es generalizing b with
  | nil => simp
  | cons e es ih =>
    have hkeep : b.keepEnd e = b.keep e.1 (result e.2) := by
      simp only [keepEnd, h e List.mem_cons_self]
    have hends : (b.keep e.1 (result e.2)).ends = b.ends := rfl
    rw [List.foldl_cons, hkeep, ih fun e' he' => hends ▸ h e' (List.mem_cons_of_mem e he')]
    cases hok : (result e.2).isOk <;> simp [keep, hok]

theorem sortedResults_eq {result : Job → JobResult}
    (h : b.results.Perm ((numbered jobs).map fun e => (e.1, result e.2))) :
    b.sortedResults jobs = jobs.map result := by
  have hnodup : (b.results.map Prod.fst).Nodup := by
    have hkeys := h.map Prod.fst
    rw [List.map_map] at hkeys
    exact hkeys.nodup_iff.mpr (nodup_numbered jobs)
  have hlookup (e : Nat × Job) (he : e ∈ numbered jobs) :
      b.results.lookup e.1 = some (result e.2) := by
    rw [lookup_eq_some_iff_mem hnodup, h.mem_iff]
    exact List.mem_map.mpr ⟨e, he, rfl⟩
  have hrange : List.range jobs.length = (numbered jobs).map Prod.fst := by
    rw [numbered, List.map_map, List.range_eq_range']
    exact (List.zipIdx_map_snd 0 jobs).symm
  calc b.sortedResults jobs
      = ((numbered jobs).map fun e => b.results.lookup e.1).filterMap id := by
        rw [sortedResults, hrange, List.filterMap_map, List.filterMap_map]
        rfl
    _ = ((numbered jobs).map fun e => some (result e.2)).filterMap id := by
        rw [List.map_congr_left hlookup]
    _ = ((numbered jobs).map Prod.snd).map result := by
        rw [List.filterMap_map, List.map_map]
        exact congrFun List.filterMap_eq_map' _
    _ = jobs.map result := by rw [map_snd_numbered]

end Schedule

namespace Forecast

open Schedule (duties totalWeight totalWeight_noted eventWeight duties_append eventWeight_append
  eventWeight_push work workLog workWeight)

variable {limit : Nat} {config : Config} {start : World} {jobs : List Job}
  {F : Forecast limit config start jobs} {b : Schedule} {log : List (Nat × String)}
  {turns : Nat → Nat} {i : Nat} {job : Job} {past todo : List (Nat × Job)}

/-! ## The others -/

/-- If nobody has anything to do in the background, then all have ended. -/
theorem Books.settled (h : F.Books b log past turns)
    (hduty : (duties b.ready b.alarms).count (.turn (.background i)) = 0)
    (hjob : b.background.lookup i = some job) : F.Settled b log i job := by
  have hstatus := h.status i
  simp only [Status, hjob] at hstatus
  obtain ⟨hgoing, -⟩ | hsettled := hstatus
  · rw [hgoing.duty] at hduty
    cases hduty
  · exact hsettled

/-- Background jobs that have not ended. -/
def unended (b : Schedule) : List (Nat × Job) :=
  b.background.filter fun e => (b.ends.lookup e.1).isNone

/-- If neither the lead nor the schedule itself has anything to do, then what is to be done are the
turns of the background jobs that have not ended. -/
theorem Books.duties_perm (h : F.Books b log past turns)
    (hlead : (duties b.ready b.alarms).count (.turn .lead) = 0)
    (hnote : (duties b.ready b.alarms).count .note = 0) :
    (duties b.ready b.alarms).Perm ((unended b).map fun e => .turn (.background e.1)) := by
  have hnodup : ((unended b).map fun e => Duty.turn (.background e.1)).Nodup := by
    have hsublist := (List.filter_sublist (l := b.background)
      (p := fun e => (b.ends.lookup e.1).isNone)).map Prod.fst
    have hkeys := List.Nodup.sublist hsublist h.nodup_background
    rw [List.Nodup, List.pairwise_map] at hkeys ⊢
    exact hkeys.imp fun hne heq => hne (by simpa using heq)
  have hmem : ∀ i, .turn (.background i) ∈ (unended b).map (fun e => Duty.turn (.background e.1)) ↔
      ∃ job, b.background.lookup i = some job ∧ b.ends.lookup i = none := by
    intro i
    simp [unended, lookup_eq_some_iff_mem h.nodup_background]
  refine List.perm_iff_count.mpr fun x => ?_
  rw [hnodup.count]
  cases x with
  | note => simpa using hnote
  | close => simpa using h.close
  | turn p =>
    cases p with
    | lead => simpa using hlead
    | background i =>
      have hstatus := h.status i
      unfold Status at hstatus
      split at hstatus
      · rename_i job hjob
        obtain ⟨hgoing, hends⟩ | hsettled := hstatus
        · rw [if_pos ((hmem i).mpr ⟨job, hjob, hends⟩)]
          exact hgoing.duty
        · rw [if_neg fun hi => ?_]
          · exact hsettled.duty
          · obtain ⟨_, -, hends⟩ := (hmem i).mp hi
            rw [hsettled.ended] at hends
            cases hends
      · rename_i hnone
        rw [if_neg fun hi => ?_]
        · exact hstatus.1
        · obtain ⟨_, hjob, -⟩ := (hmem i).mp hi
          rw [hnone] at hjob
          cases hjob

/-! ## The end -/

/-- When nothing is left to be done, the results are kept and all is over. -/
theorem Books.ended (h : F.Books b log (numbered jobs) turns)
    (hready : b.ready = []) (halarms : b.alarms = []) :
    F.Over ({ b.keepBackground with verdict := some (.ok ()) }.push .close) log := by
  have hnone (x : Duty) : (duties b.ready b.alarms).count x = 0 := by
    simp [duties, hready, halarms]
  have hsettled {i : Nat} {job : Job} (hjob : b.background.lookup i = some job) :
      F.Settled b log i job :=
    h.settled (hnone _) hjob
  have hkept := Schedule.foldl_keepEnd (b := b) F.result b.background.reverse (by
    intro e he
    have hjob : b.background.lookup e.1 = some e.2 :=
      (lookup_eq_some_iff_mem h.nodup_background).mpr (List.mem_reverse.mp he)
    exact (hsettled hjob).ended)
  rw [← Schedule.keepBackground_eq] at hkept
  have hbackground : b.background.reverse = (numbered jobs).filter (·.2.detached) := by
    rw [h.background, List.reverse_reverse]
  refine ⟨rfl, ?_, ?_, ?_, ?_, h.signers, h.order, ?_, .inl ⟨?_, ?_⟩⟩
  · refine Schedule.sortedResults_eq ?_
    have hresults : ({ b.keepBackground with verdict := some (.ok ()) }.push .close).results =
        b.keepBackground.results := rfl
    rw [hresults, hkept, hbackground, h.results]
    refine ((List.reverse_perm _).append (List.reverse_perm _)).trans ?_
    rw [← List.map_append]
    exact (List.filter_append_perm _ _).map _
  · show b.keepBackground.reported = _
    rw [hkept, hbackground, h.reported, ← List.filter_append, List.map_append,
      ← filter_numbered (!·.detached), ← filter_numbered (·.detached), List.map_map, List.map_map]
    rfl
  · intro i job hjob
    cases hdetached : job.detached with
    | false => exact h.foreground (i, job) (mem_numbered.mpr hjob) hdetached
    | true => exact (hsettled (h.lookup_iff.mpr ⟨mem_numbered.mpr hjob, hdetached⟩)).texts
  · show b.keepBackground.world.output.toList = _
    rw [hkept]
    exact h.output
  · show b.keepBackground.alarms = []
    rw [hkept]
    exact halarms
  · show b.keepBackground.ready ++ [.close] = _
    rw [hkept]
    simp [hready]
  · show b.keepBackground.closed = false
    rw [hkept]
    exact h.isOpen

theorem Over.potential_le (h : F.Over b log) (turns : Nat → Nat) :
    b.potential jobs.length turns ≤ 4 * totalTurns jobs.length turns + 1 := by
  obtain ⟨hready, -⟩ | ⟨hready, -⟩ := h.ready <;>
    simp [Schedule.potential, Schedule.leadWeight, h.verdict, eventWeight, totalWeight, hready,
      h.alarms, Event.weight]

/-- The lead has done all its jobs and there are no others. -/
theorem Idle.proceeds_collect_none (h : F.Idle b log past [] turns) (hnone : b.background = []) :
    F.Proceeds b.collect log (workWeight jobs.length b [] turns) := by
  have hperm := h.books.duties_perm h.duty h.note
  obtain rfl : past = numbered jobs := by simpa using h.split.symm
  have hduties : duties b.ready b.alarms = [] := by
    simpa [unended, hnone] using hperm
  obtain ⟨hready, halarms⟩ := Schedule.duties_eq_nil_iff.mp hduties
  have hcollect : b.collect = { b.keepBackground with verdict := some (.ok ()) }.push .close := by
    simp [Schedule.collect, Schedule.keepBackground, hnone]
  have hover := h.books.ended hready halarms
  refine ⟨turns, hcollect ▸ .ended hover, ?_⟩
  have hweight := hover.potential_le turns
  rw [← hcollect] at hweight
  rw [workWeight]
  omega

/-- The lead has done all its jobs. It is told of every background job once: at once of those that
have ended, later of the others. -/
theorem Idle.proceeds_collect (h : F.Idle b log past [] turns) :
    F.Proceeds b.collect log (workWeight jobs.length b [] turns) := by
  by_cases hnone : b.background = []
  · exact h.proceeds_collect_none hnone
  have hperm := h.books.duties_perm h.duty h.note
  obtain rfl : past = numbered jobs := by simpa using h.split.symm
  have hcollect : b.collect =
      { b with
        lead := .collecting b.background.length
        ready := b.ready ++ (b.background.reverse.filter fun e =>
          (b.ends.lookup e.1).isSome).map fun e => .noted e.1 } := by
    simp [Schedule.collect, hnone]
  rw [hcollect]
  generalize hended : (b.background.reverse.filter fun e => (b.ends.lookup e.1).isSome) = ended
  have hlength : (unended b).length + ended.length = b.background.length := by
    have hsplit := (List.filter_append_perm (fun e => (b.ends.lookup e.1).isNone)
      b.background).length_eq
    simpa [← hended, unended, List.filter_reverse] using hsplit
  have hduties := duties_append b.ready (ended.map fun e => .noted e.1) b.alarms
  have hcount (x : Duty) (hx : x ≠ .note) :
      (duties (b.ready ++ ended.map fun e => .noted e.1) b.alarms).count x =
        (duties b.ready b.alarms).count x := by
    rw [hduties.count_eq, List.count_append, List.count_eq_zero.mpr, Nat.zero_add]
    simp [Event.duty, Ne.symm hx]
  have htotal : (duties (b.ready ++ ended.map fun e => .noted e.1) b.alarms).length =
      b.background.length := by
    rw [hduties.length_eq, List.length_append, hperm.length_eq]
    simp only [List.length_map]
    omega
  have hlead := (hcount (.turn .lead) (by simp)).trans h.duty
  refine ⟨turns, .collecting ?_ (congrArg _ htotal.symm) hlead ?_, ?_⟩
  · exact h.books.redirect (fun x hx _ => hcount x hx) fun _ => rfl
  · rw [htotal]
    exact List.length_pos_iff.mpr hnone
  · have hweight := eventWeight_append b.ready (ended.map fun e => .noted e.1) b.alarms
    have hnotes := totalWeight_noted ended
    simp only [Schedule.potential, Schedule.leadWeight, h.books.undecided, workWeight, hweight,
      hnotes]
    omega

/-- The lead does the jobs to be done until it has to wait. The induction is on these jobs. -/
theorem Idle.proceeds_work (h : F.Idle b log past todo turns) (htodo : F.Untouched log turns todo) :
    F.Proceeds (work limit config todo b) (log ++ workLog limit config todo b)
      (workWeight jobs.length b todo turns) := by
  induction todo generalizing b log past turns with
  | nil => simpa [work, workLog] using h.proceeds_collect
  | cons e todo ih =>
    obtain ⟨i, job⟩ := e
    have hrest : F.Untouched log turns todo := fun e he => htodo e (List.mem_cons_of_mem _ he)
    obtain ⟨htexts, hturns⟩ := htodo (i, job) List.mem_cons_self
    cases hjob : job.detached with
    | true =>
      obtain ⟨turns', hstage, hweight⟩ := ih (h.detach hjob htexts hturns) hrest
      rw [work, workLog, if_pos hjob, if_pos hjob]
      refine ⟨turns', hstage, Nat.lt_of_lt_of_le hweight ?_⟩
      have hpush := eventWeight_push b.ready b.alarms (.go (.background i))
      simp only [workWeight, Schedule.push, hpush, Event.weight, List.length_cons]
      omega
    | false =>
      have hmem : job ∈ jobs := by
        have hmem : (i, job) ∈ numbered jobs := by simp [h.split]
        exact List.mem_of_getElem? (mem_numbered.mp hmem)
      have hplays := F.plays job hmem
      rw [← hturns] at hplays
      obtain ⟨k, now, hk, hturn⟩ := turnEnds_of_plays
        (show F.texts job = textsOf i log ++ F.texts job by simp [htexts]) hplays
        h.books.environment
      rw [Schedule.work_attached hjob, Schedule.workLog_attached hjob]
      exact h.proceeds_leadOn hjob hrest hk hturn fun _ _ _ => ih

end Forecast

end Hantec
