import Hantec.Proofs.Run.Result

/-!
# How procedures end

A procedure that is run while so many calls are open can end with a result in a state. How it ends
follows from how its parts end, with one rule for each way to put procedures together, and how a
task ends follows from what the task runs. The ends of a procedure are those of the machine that
runs it.
-/

namespace Hantec

variable {α β : Type} {d : Nat} {s s' : State}

theorem comesTo_wait_iff {delay : Delay} {k : State → Step α} {r : Except Failure α} :
    ComesTo d (.step (.wait delay s k)) r s' ↔
      ∃ w, ComesTo d (.step (k { s with world := w })) r s' := by
  constructor
  · intro h
    cases h with
    | wait w h => exact ⟨w, h⟩
  · rintro ⟨w, h⟩
    exact .wait w h

theorem comesTo_andThen_iff {c : Step α} {k : Except Failure α → State → Step β}
    {r : Except Failure β} :
    ComesTo d (.step (c.andThen k)) r s' ↔
      ∃ r₁ s₁, ComesTo d (.step c) r₁ s₁ ∧ ComesTo d (.step (k r₁ s₁)) r s' := by
  induction c with
  | ret a s =>
    constructor
    · exact fun h => ⟨_, _, .ret a s, h⟩
    · rintro ⟨r₁, s₁, hc, hk⟩
      obtain ⟨rfl, rfl⟩ := comesTo_ret_iff.1 hc
      exact hk
  | fail e s =>
    constructor
    · exact fun h => ⟨_, _, .fail e s, h⟩
    · rintro ⟨r₁, s₁, hc, hk⟩
      obtain ⟨rfl, rfl⟩ := comesTo_fail_iff.1 hc
      exact hk
  | sub t s k₁ ih =>
    rw [Step.andThen_sub, comesTo_sub_iff]
    constructor
    · rintro ⟨r₀, s₀, ht, h⟩
      obtain ⟨r₁, s₁, hc, hk⟩ := (ih r₀ s₀).1 h
      exact ⟨r₁, s₁, .sub ht hc, hk⟩
    · rintro ⟨r₁, s₁, hc, hk⟩
      obtain ⟨r₀, s₀, ht, hc⟩ := comesTo_sub_iff.1 hc
      exact ⟨r₀, s₀, ht, (ih r₀ s₀).2 ⟨r₁, s₁, hc, hk⟩⟩
  | wait delay s k₁ ih =>
    show ComesTo d (.step (.wait delay s fun s => (k₁ s).andThen k)) r s' ↔ _
    rw [comesTo_wait_iff]
    constructor
    · rintro ⟨w, h⟩
      obtain ⟨r₁, s₁, hc, hk⟩ := (ih _).1 h
      exact ⟨r₁, s₁, .wait w hc, hk⟩
    · rintro ⟨r₁, s₁, hc, hk⟩
      obtain ⟨w, hc⟩ := comesTo_wait_iff.1 hc
      exact ⟨w, (ih _).2 ⟨r₁, s₁, hc, hk⟩⟩

namespace Proc

/-- The procedure, run in the first state while so many calls are open, can end with a result in the
second one. Waits may end in any world. -/
def Ends (p : Proc α) (d : Nat) (s : State) (r : Except Failure α) (s' : State) : Prop :=
  ComesTo d (.step (p.run s)) r s'

variable {p : Proc α} {r : Except Failure α}

theorem ends_of_run_ret {a : α} {s₁ : State} (h : p.run s = .ret a s₁) :
    p.Ends d s r s' ↔ r = .ok a ∧ s' = s₁ := by
  rw [Ends, h, comesTo_ret_iff]

theorem ends_of_run_fail {e : Failure} {s₁ : State} (h : p.run s = .fail e s₁) :
    p.Ends d s r s' ↔ r = .error e ∧ s' = s₁ := by
  rw [Ends, h, comesTo_fail_iff]

theorem ends_pure_iff {a : α} : (pure a : Proc α).Ends d s r s' ↔ r = .ok a ∧ s' = s :=
  ends_of_run_ret rfl

theorem ends_failWith_iff {e : Failure} :
    (failWith e : Proc α).Ends d s r s' ↔ r = .error e ∧ s' = s :=
  ends_of_run_fail rfl

theorem ends_ofResult_iff {r₁ : Except Failure α} :
    (ofResult r₁).Ends d s r s' ↔ r = r₁ ∧ s' = s := by
  cases r₁ with
  | ok a => exact ends_pure_iff
  | error e => exact ends_failWith_iff

theorem ends_ask_iff {f : Heap → Except Trouble α} :
    (ask f).Ends d s r s' ↔ r = (f s.heap).mapError Trouble.toFailure ∧ s' = s := by
  cases hf : f s.heap with
  | ok a => exact ends_of_run_ret (run_ask s hf)
  | error t => exact ends_of_run_fail (run_ask_error s hf)

theorem ends_bind_iff {f : α → Proc β} {r : Except Failure β} :
    (p >>= f).Ends d s r s' ↔
      (∃ a s₁, p.Ends d s (.ok a) s₁ ∧ (f a).Ends d s₁ r s') ∨
        ∃ e, r = .error e ∧ p.Ends d s (.error e) s' := by
  rw [Ends, run_bind, Step.bind_eq_andThen, comesTo_andThen_iff]
  constructor
  · rintro ⟨r₁ | a, s₁, hp, h⟩
    · obtain ⟨rfl, rfl⟩ := comesTo_fail_iff.1 h
      exact .inr ⟨_, rfl, hp⟩
    · exact .inl ⟨a, s₁, hp, h⟩
  · rintro (⟨a, s₁, hp, h⟩ | ⟨e, rfl, hp⟩)
    · exact ⟨.ok a, s₁, hp, h⟩
    · exact ⟨.error e, s', hp, .fail e s'⟩

theorem ends_bind_ok_iff {f : α → Proc β} {b : β} :
    (p >>= f).Ends d s (.ok b) s' ↔ ∃ a s₁, p.Ends d s (.ok a) s₁ ∧ (f a).Ends d s₁ (.ok b) s' := by
  rw [ends_bind_iff]
  constructor
  · rintro (h | ⟨e, he, -⟩)
    · exact h
    · cases he
  · exact .inl

/-- What comes after a procedure that cannot fail. -/
theorem ends_bind_of_run_ret {a : α} {s₁ : State} (h : p.run s = .ret a s₁) {f : α → Proc β}
    {r : Except Failure β} : (p >>= f).Ends d s r s' ↔ (f a).Ends d s₁ r s' := by
  rw [Ends, run_bind, h]
  rfl

theorem ends_attempt_bind_iff {f : Except Failure α → Proc β} {r : Except Failure β} :
    (p.attempt >>= f).Ends d s r s' ↔
      ∃ r₁ s₁, p.Ends d s r₁ s₁ ∧ (f r₁).Ends d s₁ r s' := by
  rw [Ends, run_attempt_bind, comesTo_andThen_iff]
  rfl

variable {r : Except Failure Outcome}

theorem ends_perform_iff {t : Task} :
    (perform t).Ends d s r s' ↔ ComesTo d (.task t s) r s' := by
  show ComesTo d (.step (.sub t s fun r => (ofResult r).run)) r s' ↔ _
  rw [comesTo_sub_iff]
  constructor
  · rintro ⟨r₁, s₁, ht, h⟩
    obtain ⟨rfl, rfl⟩ := ends_ofResult_iff.1 h
    exact ht
  · exact fun ht => ⟨r, s', ht, ends_ofResult_iff.2 ⟨rfl, rfl⟩⟩

/-- A procedure ends as the machine that runs it. -/
theorem ends_iff_endsWith {p : Proc Outcome} :
    p.Ends d s r s' ↔ Machine.EndsWith ⟨p s, [], d⟩ r s' :=
  comesTo_run_iff.symm.trans (endsWith_iff_comesTo (c := .run p)).symm

end Proc

/-! ## Machines in lockstep -/

/-- Two machines have come to the same: both run on, wait or are done. -/
inductive Progress.Matches (R : Machine → Machine → Prop) (E : State → State → Prop) :
    Progress → Progress → Prop where
  | running {m m' : Machine} : R m m' → Matches R E (.running m) (.running m')
  | waiting {s s' : State} {resume resume' : State → Machine} (d : Delay) :
      (∀ w, R (resume { s with world := w }) (resume' { s' with world := w })) →
      Matches R E (.waiting d s resume) (.waiting d s' resume')
  | done {s s' : State} (r : Except Failure Outcome) : E s s' → Matches R E (.done r s) (.done r s')

section Lockstep

variable {R : Machine → Machine → Prop} {E : State → State → Prop} {x x' : Progress}

theorem Progress.Matches.flip (h : x.Matches R E x') :
    x'.Matches (fun m' m => R m m') (fun s' s => E s s') x := by
  cases h with
  | running hm => exact .running hm
  | waiting d hm => exact .waiting d hm
  | done r hs => exact .done r hs

namespace Machine

/-- Machines in the relation come to the same with each move. -/
def Lockstep (R : Machine → Machine → Prop) (E : State → State → Prop) : Prop :=
  ∀ m m', R m m' → m.next.Matches R E m'.next

theorem Lockstep.flip (h : Lockstep R E) : Lockstep (fun m' m => R m m') (fun s' s => E s s') :=
  fun m' m hm => (h m m' hm).flip

theorem Lockstep.endsWith (h : Lockstep R E) {m m' : Machine} (hm : R m m')
    {r : Except Failure Outcome} (hend : m.EndsWith r s) : ∃ s', m'.EndsWith r s' ∧ E s s' := by
  obtain ⟨last, hleads, hlast⟩ := hend
  induction hleads generalizing m' with
  | refl m =>
    have hnext := h m m' hm
    rw [hlast] at hnext
    generalize hm' : m'.next = x' at hnext
    cases hnext with
    | done r hs => exact ⟨_, ⟨m', .refl m', hm'⟩, hs⟩
  | @move m _ _ hmove _ ih =>
    have hnext := h m m' hm
    rw [hmove] at hnext
    generalize hm' : m'.next = x' at hnext
    cases hnext with
    | running hm =>
      obtain ⟨s', ⟨last', hleads', hlast'⟩, hs⟩ := ih hm hlast
      exact ⟨s', ⟨last', .move hm' hleads', hlast'⟩, hs⟩
  | @wake m _ _ _ _ w hwake _ ih =>
    have hnext := h m m' hm
    rw [hwake] at hnext
    generalize hm' : m'.next = x' at hnext
    cases hnext with
    | waiting d hm =>
      obtain ⟨s', ⟨last', hleads', hlast'⟩, hs⟩ := ih (hm w) hlast
      exact ⟨s', ⟨last', .wake w hm' hleads', hlast'⟩, hs⟩

end Machine

end Lockstep

/-! ## Tasks -/

/-- A script comes to what its procedure ends with. -/
theorem comesTo_script_iff {c : Script Outcome} {r : Except Failure Outcome} :
    ComesTo d (.script c s) r s' ↔ c.proc.Ends d s r s' :=
  endsWith_iff_comesTo.symm.trans Proc.ends_iff_endsWith.symm

section Tasks

variable {r : Except Failure Outcome}

theorem comesTo_turn_iff {test step : Option Expr} {body : Stmt} {q : Nat} :
    ComesTo d (.script (turnScript test step body q) s) r s' ↔
      (loopTurn test step body q).Ends d s r s' := by
  rw [comesTo_script_iff, proc_turnScript]

/-- Some laps, one after the other. -/
inductive Laps (lap : State → State → Prop) : State → State → Prop where
  | refl (s : State) : Laps lap s s
  | cons {s s₁ s' : State} : lap s s₁ → Laps lap s₁ s' → Laps lap s s'

/-- How a loop comes to a result; nothing is said about other works. -/
def Work.EndsInLaps (d : Nat) : {α : Type} → Work α → Except Failure α → State → Prop
  | _, .task (.loop test after body q) s, r, s' =>
    ∃ s₁, Laps ((loopTurn test after body q).Ends d · (.ok .continued)) s s₁ ∧
      (loopTurn test after body q).Ends d s₁ r s' ∧ r ≠ .ok .continued
  | _, _, _, _ => True

theorem ComesTo.endsInLaps {α : Type} {w : Work α} {r : Except Failure α}
    (h : ComesTo d w r s') : w.EndsInLaps d r s' := by
  induction h with
  | again hturn _ _ ih =>
    obtain ⟨s₂, hlaps, hlast⟩ := ih
    exact ⟨s₂, .cons (comesTo_turn_iff.1 hturn) hlaps, hlast⟩
  | leave hturn hr => exact ⟨_, .refl _, comesTo_turn_iff.1 hturn, hr⟩
  | _ => trivial

/-- A loop takes turns until one of them does not end with `continued`. -/
theorem comesTo_loop_iff {test step : Option Expr} {body : Stmt} {q : Nat} :
    ComesTo d (.task (.loop test step body q) s) r s' ↔
      ∃ s₁, Laps ((loopTurn test step body q).Ends d · (.ok .continued)) s s₁ ∧
        (loopTurn test step body q).Ends d s₁ r s' ∧ r ≠ .ok .continued := by
  constructor
  · exact ComesTo.endsInLaps
  · rintro ⟨s₁, hlaps, hlast, hr⟩
    induction hlaps with
    | refl s => exact .leave (comesTo_turn_iff.2 hlast) hr
    | cons hturn _ ih => exact .again (comesTo_turn_iff.2 hturn) (ih hlast)

/-- A call ends as its body does, unless something in it is nested too deep. -/
theorem comesTo_call_iff {f : Callable} {args : List Value} (hd : d < Machine.depthLimit) :
    ComesTo d (.task (.call f args) s) r s' ↔
      ((f.call args).Ends (d + 1) s r s' ∧ r ≠ .error .overflow) ∨
      ∃ s₁, (f.call args).Ends (d + 1) s (.error .overflow) s₁ ∧ raiseTooDeep.Ends d s₁ r s' := by
  rw [← Callable.proc_script]
  constructor
  · intro h
    cases h with
    | call _ hc hr => exact .inl ⟨comesTo_script_iff.1 hc, hr⟩
    | overflow _ hc hraise => exact .inr ⟨_, comesTo_script_iff.1 hc, hraise⟩
    | tooDeep hd' => exact absurd hd hd'
  · rintro (⟨hc, hr⟩ | ⟨s₁, hc, hraise⟩)
    · exact .call hd (comesTo_script_iff.2 hc) hr
    · exact .overflow hd (comesTo_script_iff.2 hc) hraise

end Tasks

end Hantec
