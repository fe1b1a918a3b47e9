import Hantec.Proofs.Policy.Machine
import Hantec.Proofs.Run.Script

/-!
# What scripts come to

How scripts, steps and tasks end, with one rule for each way in which they can. The rules follow
the structure of scripts; no machine and no stack is involved. Yet they tell how machines end: a
machine that runs a script ends with what the script comes to, and with nothing else.
-/

namespace Hantec

variable {α β : Type}

/-- What can be run. -/
inductive Work : Type → Type 1 where
  | script {α : Type} (c : Script α) (s : State) : Work α
  | step {α : Type} (c : Step α) : Work α
  | task (t : Task) (s : State) : Work Outcome

/-- What can still be changed by a finalizer. -/
def Pending (r : Except Failure Outcome) : Prop := ∀ e, r = .error e → e.IsRaised

theorem exists_raised_or (r : Except Failure α) :
    (∃ v line, r = .error (.raised v line)) ∨ ∀ v line, r ≠ .error (.raised v line) := by
  rcases r with (⟨v, line⟩ | f | code | _) | a
  · exact .inl ⟨v, line, rfl⟩
  all_goals exact .inr nofun

theorem pending_or (r : Except Failure Outcome) :
    Pending r ∨ ∃ e, r = .error e ∧ ¬ e.IsRaised := by
  rcases r with e | o
  · cases e with
    | raised v line => exact .inl (by rintro _ ⟨⟩; trivial)
    | fault | exit | overflow => exact .inr ⟨_, rfl, id⟩
  · exact .inl nofun

/-- A call that is nested too deep raises an error. -/
def raiseTooDeep : Proc Outcome := Proc.raiseError "RangeError" "maximum call depth exceeded"

/-- While so many calls and modules are open, the work can come to a result and leave a state. Waits
may end in any world. -/
inductive ComesTo : Nat → {α : Type} → Work α → Except Failure α → State → Prop where
  | ret {α : Type} (a : α) (s : State) : ComesTo d (.step (.ret a s)) (.ok a) s
  | fail {α : Type} (e : Failure) (s : State) : ComesTo d (.step (.fail e s : Step α)) (.error e) s
  | sub :
      ComesTo d (.task t s) r s₁ → ComesTo d (.step (k r s₁)) r' s' →
      ComesTo d (.step (.sub t s k)) r' s'
  | wait {α : Type} {s : State} {k : State → Step α} {r : Except Failure α} (w : World) :
      ComesTo d (.step (k { s with world := w })) r s' → ComesTo d (.step (.wait delay s k)) r s'
  | run : ComesTo d (.step (p s)) r s' → ComesTo d (.script (.run p) s) r s'
  | next :
      ComesTo d (.script c s) (.ok a) s₁ → ComesTo d (.script (f a) s₁) r s' →
      ComesTo d (.script (.bind c f) s) r s'
  | stop : ComesTo d (.script c s) (.error e) s' → ComesTo d (.script (.bind c f) s) (.error e) s'
  | site : ComesTo d (.script c s) r s' → ComesTo d (.script (.site x c) s) r s'
  | within {r : Except Failure Outcome} :
      ComesTo d (.script c s) r s' →
      ComesTo d (.script (.within line c) s) (r.mapError (·.atLine line)) s'
  | unhandled :
      ComesTo d (.script c s) r s' → (∀ v line, r ≠ .error (.raised v line)) →
      ComesTo d (.script (.guard c handler) s) r s'
  | handled :
      ComesTo d (.script c s) (.error (.raised v line)) s₁ →
      ComesTo d (.script (handler v) s₁) r s' → ComesTo d (.script (.guard c handler) s) r s'
  | skipped :
      ComesTo d (.script c s) (.error e) s' → ¬ e.IsRaised →
      ComesTo d (.script (.ensure c finalizer) s) (.error e) s'
  | cleaned :
      ComesTo d (.script c s) r s₁ → Pending r → ComesTo d (.script finalizer s₁) (.ok .normal) s' →
      ComesTo d (.script (.ensure c finalizer) s) r s'
  | replaced :
      ComesTo d (.script c s) r s₁ → Pending r → ComesTo d (.script finalizer s₁) r' s' →
      r' ≠ .ok .normal → ComesTo d (.script (.ensure c finalizer) s) r' s'
  | call {f : Callable} :
      d < Machine.depthLimit → ComesTo (d + 1) (.script (f.script args) s) r s' →
      r ≠ .error .overflow → ComesTo d (.task (.call f args) s) r s'
  | overflow {f : Callable} :
      d < Machine.depthLimit → ComesTo (d + 1) (.script (f.script args) s) (.error .overflow) s₁ →
      ComesTo d (.step (raiseTooDeep s₁)) r s' → ComesTo d (.task (.call f args) s) r s'
  | tooDeep :
      ¬ d < Machine.depthLimit → ComesTo d (.step (raiseTooDeep s)) r s' →
      ComesTo d (.task (.call f args) s) r s'
  | module :
      d < Machine.depthLimit → ComesTo (d + 1) (.script (bodyScript scope body) s) r s' →
      ComesTo d (.task (.module body scope) s) r s'
  | moduleTooDeep :
      ¬ d < Machine.depthLimit → ComesTo d (.task (.module body scope) s) (.error .overflow) s
  | again :
      ComesTo d (.script (turnScript test step body scope) s) (.ok .continued) s₁ →
      ComesTo d (.task (.loop test step body scope) s₁) r s' →
      ComesTo d (.task (.loop test step body scope) s) r s'
  | leave :
      ComesTo d (.script (turnScript test step body scope) s) r s' → r ≠ .ok .continued →
      ComesTo d (.task (.loop test step body scope) s) r s'

section Inversion

variable {d : Nat} {s s' : State} {r : Except Failure α}

theorem comesTo_ret_iff {a : α} : ComesTo d (.step (.ret a s)) r s' ↔ r = .ok a ∧ s' = s := by
  constructor
  · intro h
    cases h
    exact ⟨rfl, rfl⟩
  · rintro ⟨rfl, rfl⟩
    exact .ret _ _

theorem comesTo_fail_iff {e : Failure} :
    ComesTo d (.step (.fail e s)) r s' ↔ r = .error e ∧ s' = s := by
  constructor
  · intro h
    cases h
    exact ⟨rfl, rfl⟩
  · rintro ⟨rfl, rfl⟩
    exact .fail _ _

theorem comesTo_sub_iff {t : Task} {k : Except Failure Outcome → State → Step α} :
    ComesTo d (.step (.sub t s k)) r s' ↔
      ∃ r₁ s₁, ComesTo d (.task t s) r₁ s₁ ∧ ComesTo d (.step (k r₁ s₁)) r s' := by
  constructor
  · intro h
    cases h with
    | sub ht hk => exact ⟨_, _, ht, hk⟩
  · rintro ⟨r₁, s₁, ht, hk⟩
    exact .sub ht hk

theorem comesTo_run_iff {p : Proc α} :
    ComesTo d (.script (.run p) s) r s' ↔ ComesTo d (.step (p.run s)) r s' := by
  constructor
  · intro h
    cases h with
    | run h => exact h
  · exact .run

theorem comesTo_run_ret_iff {p : Proc α} {a : α} {s₁ : State} (hp : p.run s = .ret a s₁) :
    ComesTo d (.script (.run p) s) r s' ↔ r = .ok a ∧ s' = s₁ := by
  rw [comesTo_run_iff, hp, comesTo_ret_iff]

theorem comesTo_site_iff {x : Site} {c : Script α} :
    ComesTo d (.script (.site x c) s) r s' ↔ ComesTo d (.script c s) r s' := by
  constructor
  · intro h
    cases h with
    | site h => exact h
  · exact .site

theorem comesTo_bind_iff {c : Script β} {f : β → Script α} :
    ComesTo d (.script (.bind c f) s) r s' ↔
      (∃ b s₁, ComesTo d (.script c s) (.ok b) s₁ ∧ ComesTo d (.script (f b) s₁) r s') ∨
        ∃ e, r = .error e ∧ ComesTo d (.script c s) (.error e) s' := by
  constructor
  · intro h
    cases h with
    | next hc hf => exact .inl ⟨_, _, hc, hf⟩
    | stop hc => exact .inr ⟨_, rfl, hc⟩
  · rintro (⟨b, s₁, hc, hf⟩ | ⟨e, rfl, hc⟩)
    · exact .next hc hf
    · exact .stop hc

end Inversion

/-! ## Steps of scripts -/

namespace Script

variable {γ : Type} (k : Except Failure β → State → Step γ)

/-- Goes on after the first part of a script. -/
def onNext (f : α → Script β) : Except Failure α → State → Step γ
  | .ok a, s => ((f a).proc.run s).andThen k
  | .error e, s => k (.error e) s

variable (k : Except Failure Outcome → State → Step γ)

/-- Goes on after what a handler guards. -/
def onGuarded (handler : Value → Script Outcome) : Except Failure Outcome → State → Step γ
  | .error (.raised v _), s => ((handler v).proc.run s).andThen k
  | r, s => k r s

/-- Goes on after a finalizer. -/
def onCleaned (r : Except Failure Outcome) : Except Failure Outcome → State → Step γ
  | .ok .normal, s => k r s
  | r', s => k r' s

/-- Goes on after what a finalizer cleans up. -/
def onEnsured (finalizer : Script Outcome) : Except Failure Outcome → State → Step γ
  | .ok o, s => (finalizer.proc.run s).andThen (onCleaned k (.ok o))
  | .error (.raised v line), s =>
    (finalizer.proc.run s).andThen (onCleaned k (.error (.raised v line)))
  | .error e, s => k (.error e) s

variable {k} {r : Except Failure Outcome} {s : State}

theorem onGuarded_of_ne (hr : ∀ v line, r ≠ .error (.raised v line))
    (handler : Value → Script Outcome) : onGuarded k handler r s = k r s := by
  rcases r with (⟨v, line⟩ | f | code | _) | o
  case error.raised => exact absurd rfl (hr v line)
  all_goals rfl

theorem onCleaned_of_ne {r' : Except Failure Outcome} (hr : r' ≠ .ok .normal) :
    onCleaned k r r' s = k r' s := by
  rcases r' with e | o
  · rfl
  · cases o with
    | normal => exact absurd rfl hr
    | _ => rfl

theorem onEnsured_of_pending (hr : Pending r) (finalizer : Script Outcome) :
    onEnsured k finalizer r s = (finalizer.proc.run s).andThen (onCleaned k r) := by
  rcases r with (⟨v, line⟩ | f | code | _) | o
  case error.fault | error.exit | error.overflow => exact (hr _ rfl).elim
  all_goals rfl

theorem onEnsured_of_not_isRaised {e : Failure} (he : ¬ e.IsRaised) (finalizer : Script Outcome) :
    onEnsured k finalizer (.error e) s = k (.error e) s := by
  cases e with
  | raised => exact absurd trivial he
  | fault | exit | overflow => rfl

end Script

section Equations

variable {γ : Type} (s : State)

theorem Script.andThen_bind (c : Script α) (f : α → Script β)
    (k : Except Failure β → State → Step γ) :
    ((Script.bind c f).proc.run s).andThen k = (c.proc.run s).andThen (Script.onNext k f) := by
  rw [Script.proc, Proc.run_bind, Step.bind_eq_andThen, Step.andThen_andThen]
  congr 1
  funext r s
  cases r <;> rfl

variable (k : Except Failure Outcome → State → Step γ)

theorem Script.andThen_within (line : Int) (c : Script Outcome) :
    ((Script.within line c).proc.run s).andThen k =
      (c.proc.run s).andThen fun r s => k (r.mapError (·.atLine line)) s := by
  show ((c.proc.attempt >>= closeAt line).run s).andThen k = _
  rw [Proc.run_attempt_bind, Step.andThen_andThen]
  congr 1
  funext r s
  cases r <;> rfl

theorem andThen_ofResult_run (r : Except Failure Outcome) (s : State) :
    ((Proc.ofResult r).run s).andThen k = k r s := by
  cases r <;> rfl

theorem Script.andThen_guard (c : Script Outcome) (handler : Value → Script Outcome) :
    ((Script.guard c handler).proc.run s).andThen k =
      (c.proc.run s).andThen (Script.onGuarded k handler) := by
  show ((c.proc.attempt >>= _).run s).andThen k = _
  rw [Proc.run_attempt_bind, Step.andThen_andThen]
  congr 1
  funext r s
  cases r with
  | ok o => rfl
  | error e =>
    cases e with
    | raised v line =>
      show (((handler v).proc.attempt >>= Proc.ofResult).run s).andThen k = _
      rw [Proc.attempt_ofResult]
      rfl
    | fault | exit | overflow => rfl

theorem Script.andThen_ensure (c finalizer : Script Outcome) :
    ((Script.ensure c finalizer).proc.run s).andThen k =
      (c.proc.run s).andThen (Script.onEnsured k finalizer) := by
  have hclean (r : Except Failure Outcome) (hr : ∀ p, finalize r p = p >>= settleWith r) (s : State) :
      ((finalize r finalizer.proc).run s).andThen k =
        (finalizer.proc.run s).andThen (Script.onCleaned k r) := by
    rw [hr, Proc.run_bind, Step.bind_eq_andThen, Step.andThen_andThen]
    congr 1
    funext r' s
    rcases r' with e | o
    · rfl
    · cases o with
      | normal => exact andThen_ofResult_run k r s
      | _ => rfl
  show ((c.proc.attempt >>= fun r => finalize r finalizer.proc).run s).andThen k = _
  rw [Proc.run_attempt_bind, Step.andThen_andThen]
  congr 1
  funext r s
  rcases r with (⟨v, line⟩ | f | code | _) | o
  · exact hclean _ (fun _ => rfl) s
  · rfl
  · rfl
  · rfl
  · exact hclean _ (fun _ => rfl) s

end Equations

/-! ## From results to machines -/

/-- The machine that runs the work with so many calls open, goes on with what it comes to, and
then with what waits. -/
def Work.machine (d : Nat) (F : List Frame) :
    {α : Type} → Work α → (Except Failure α → State → Step Outcome) → Machine
  | _, .script c s, k => ⟨(c.proc.run s).andThen k, F, d⟩
  | _, .step c, k => ⟨c.andThen k, F, d⟩
  | _, .task t s, k => .startTask t s (.resume d k :: F) d

namespace Machine

theorem Leads.trans {m m₁ m' : Machine} (h : m.Leads m₁) (h' : m₁.Leads m') : m.Leads m' := by
  induction h with
  | refl => exact h'
  | move hnext _ ih => exact .move hnext (ih h')
  | wake w hnext _ ih => exact .wake w hnext (ih h')

end Machine

/-- What a call does with the result of its body. -/
def afterCall : Except Failure Outcome → State → Step Outcome
  | .error .overflow, s => raiseTooDeep.run s
  | r, s => (Proc.ofResult r).run s

theorem run_catchOverflow (p : Proc Outcome) (s : State) :
    (catchOverflow p).run s = (p.run s).andThen afterCall := by
  show (p.attempt >>= _).run s = _
  rw [Proc.run_attempt_bind]
  congr 1
  funext r s
  rcases r with (⟨v, line⟩ | f | code | _) | o <;> rfl

theorem afterCall_of_ne {r : Except Failure Outcome} (hr : r ≠ .error .overflow) (s : State) :
    afterCall r s = (Proc.ofResult r).run s := by
  rcases r with (⟨v, line⟩ | f | code | _) | o
  case error.overflow => exact absurd rfl hr
  all_goals rfl

section Start

variable {d : Nat} {s : State} {F : List Frame}

theorem startTask_call {f : Callable} (h : d < Machine.depthLimit) (args : List Value) :
    Machine.startTask (.call f args) s F d =
      ⟨((f.script args).proc.run s).andThen afterCall, F, d + 1⟩ := by
  show Machine.mk ((catchOverflow (Machine.enter d (f.call args))).run s) F (d + 1) = _
  rw [Machine.enter, if_pos h, run_catchOverflow, Callable.proc_script]

theorem startTask_call_tooDeep {f : Callable} (h : ¬ d < Machine.depthLimit) (args : List Value) :
    Machine.startTask (.call f args) s F d = ⟨raiseTooDeep.run s, F, d + 1⟩ := by
  show Machine.mk ((catchOverflow (Machine.enter d (f.call args))).run s) F (d + 1) = _
  rw [Machine.enter, if_neg h]
  rfl

theorem startTask_body (h : d < Machine.depthLimit) (body : List Stmt) (scope : Nat) :
    Machine.startTask (.module body scope) s F d =
      ⟨((bodyScript scope body).proc.run s).andThen fun r => (Proc.ofResult r).run, F, d + 1⟩ := by
  rw [Machine.startTask_module h, proc_bodyScript, Proc.andThen_ofResult]
  rfl

theorem startTask_body_tooDeep (h : ¬ d < Machine.depthLimit) (body : List Stmt) (scope : Nat) :
    Machine.startTask (.module body scope) s F d = ⟨.fail .overflow s, F, d + 1⟩ := by
  show Machine.mk ((Machine.enter d (execAll scope body)).run s) F (d + 1) = _
  rw [Machine.enter, if_neg h]
  rfl

theorem startTask_turn (test step : Option Expr) (body : Stmt) (scope : Nat) :
    Machine.startTask (.loop test step body scope) s F d =
      ⟨((turnScript test step body scope).proc.run s).andThen fun r => (Proc.ofResult r).run,
        .again test step body scope :: F, d⟩ := by
  rw [proc_turnScript, Proc.andThen_ofResult]
  rfl

/-- A result is handed to what waits for it. -/
theorem next_ofResult (r : Except Failure Outcome) (s : State) (F : List Frame) (d : Nat) :
    Machine.next ⟨(Proc.ofResult r).run s, F, d⟩ = Machine.deliver r s d F := by
  cases r <;> rfl

theorem deliver_again {r : Except Failure Outcome} (hr : r ≠ .ok .continued)
    (test step : Option Expr) (body : Stmt) (scope : Nat) :
    Machine.deliver r s d (.again test step body scope :: F) = Machine.deliver r s d F := by
  rcases r with e | o
  · rfl
  · cases o with
    | continued => exact absurd rfl hr
    | _ => rfl

end Start

/-- A machine that runs the work comes to where its result is taken. -/
theorem ComesTo.leads {d : Nat} {w : Work α} {r : Except Failure α} {s' : State}
    (h : ComesTo d w r s') (k : Except Failure α → State → Step Outcome) (F : List Frame) :
    (w.machine d F k).Leads ⟨k r s', F, d⟩ := by
  induction h generalizing F with
  | ret | fail => exact .refl _
  | sub _ _ iht ihk => exact .move rfl ((iht _ F).trans (ihk k F))
  | wait w _ ih => exact .wake w rfl (ih k F)
  | run _ ih => exact ih k F
  | next _ _ ihc ihf =>
    rw [Work.machine, Script.andThen_bind]
    exact (ihc _ F).trans (ihf k F)
  | stop _ ih =>
    rw [Work.machine, Script.andThen_bind]
    exact ih _ F
  | site _ ih => exact ih k F
  | within _ ih =>
    rw [Work.machine, Script.andThen_within]
    exact ih _ F
  | @unhandled _ _ _ _ _ handler _ hr ih =>
    have hrun := ih (Script.onGuarded k handler) F
    rw [Script.onGuarded_of_ne hr] at hrun
    rwa [Work.machine, Script.andThen_guard]
  | handled _ _ ihc ihh =>
    rw [Work.machine, Script.andThen_guard]
    exact (ihc _ F).trans (ihh k F)
  | @skipped _ _ _ _ _ finalizer _ he ih =>
    have hrun := ih (Script.onEnsured k finalizer) F
    rw [Script.onEnsured_of_not_isRaised he] at hrun
    rwa [Work.machine, Script.andThen_ensure]
  | @cleaned _ _ _ _ _ finalizer _ _ hr _ ihc ihf =>
    have hrun := ihc (Script.onEnsured k finalizer) F
    rw [Script.onEnsured_of_pending hr] at hrun
    rw [Work.machine, Script.andThen_ensure]
    exact hrun.trans (ihf _ F)
  | @replaced _ _ _ r _ finalizer _ _ _ hr _ hne ihc ihf =>
    have hrun := ihc (Script.onEnsured k finalizer) F
    have hlast := ihf (Script.onCleaned k r) F
    rw [Script.onEnsured_of_pending hr] at hrun
    rw [Script.onCleaned_of_ne hne] at hlast
    rw [Work.machine, Script.andThen_ensure]
    exact hrun.trans hlast
  | @call d _ _ r _ _ hd _ hr ih =>
    rw [Work.machine, startTask_call hd]
    refine (ih afterCall (.resume d k :: F)).trans (.move ?_ (.refl _))
    rw [afterCall_of_ne hr, next_ofResult]
    rfl
  | @overflow d _ _ s₁ _ _ _ hd _ hraise ih _ =>
    rw [Work.machine, startTask_call hd]
    obtain ⟨rfl, rfl⟩ := comesTo_fail_iff.1 hraise
    exact (ih afterCall (.resume d k :: F)).trans (.move rfl (.refl _))
  | tooDeep hd hraise _ =>
    rw [Work.machine, startTask_call_tooDeep hd]
    obtain ⟨rfl, rfl⟩ := comesTo_fail_iff.1 hraise
    exact .move rfl (.refl _)
  | @module d _ _ _ r _ hd _ ih =>
    rw [Work.machine, startTask_body hd]
    exact (ih _ (.resume d k :: F)).trans (.move (next_ofResult r _ _ _) (.refl _))
  | moduleTooDeep hd =>
    rw [Work.machine, startTask_body_tooDeep hd]
    exact .move rfl (.refl _)
  | @again d test step body scope _ s₁ _ _ _ _ iht ihl =>
    rw [Work.machine, startTask_turn]
    refine (iht _ (.again test step body scope :: .resume d k :: F)).trans ?_
    exact .move rfl (ihl k F)
  | @leave d test step body scope _ r _ _ hr ih =>
    rw [Work.machine, startTask_turn]
    refine (ih _ (.again test step body scope :: .resume d k :: F)).trans (.move ?_ (.refl _))
    rw [next_ofResult, deliver_again hr]
    rfl

/-! ## From machines to results -/

namespace Machine

/-- How a machine can end after so many moves. -/
inductive EndsAfter : Nat → Machine → Except Failure Outcome → State → Prop where
  | done {m : Machine} {r : Except Failure Outcome} {s : State} :
      m.next = .done r s → EndsAfter 0 m r s
  | move {n : Nat} {m m₁ : Machine} {r : Except Failure Outcome} {s : State} :
      m.next = .running m₁ → EndsAfter n m₁ r s → EndsAfter (n + 1) m r s
  | wake {n : Nat} {m : Machine} {d : Delay} {s s₁ : State} {resume : State → Machine}
      {r : Except Failure Outcome} (w : World) :
      m.next = .waiting d s₁ resume → EndsAfter n (resume { s₁ with world := w }) r s →
      EndsAfter (n + 1) m r s

variable {m m₁ : Machine} {r : Except Failure Outcome} {s : State} {n : Nat}

theorem EndsWith.exists_endsAfter (h : m.EndsWith r s) : ∃ n, m.EndsAfter n r s := by
  obtain ⟨m', hm, hnext⟩ := h
  induction hm with
  | refl m => exact ⟨0, .done hnext⟩
  | move h _ ih =>
    obtain ⟨n, hn⟩ := ih hnext
    exact ⟨n + 1, .move h hn⟩
  | wake w h _ ih =>
    obtain ⟨n, hn⟩ := ih hnext
    exact ⟨n + 1, .wake w h hn⟩

theorem EndsAfter.of_running (h : m.EndsAfter n r s) (hnext : m.next = .running m₁) :
    ∃ i, i < n ∧ m₁.EndsAfter i r s := by
  cases h with
  | done hdone => cases hnext.symm.trans hdone
  | move hmove hrest =>
    cases hnext.symm.trans hmove
    exact ⟨_, Nat.lt_succ_self _, hrest⟩
  | wake w hwait _ => cases hnext.symm.trans hwait

end Machine

/-- A machine that runs the work and ends after so many moves comes to a result of the work on its
way. -/
def Work.Splits (n d : Nat) (w : Work α) : Prop :=
  ∀ (k : Except Failure α → State → Step Outcome) (F : List Frame) (r : Except Failure Outcome)
    (s : State), (w.machine d F k).EndsAfter n r s →
    ∃ r₁ s₁ i, i ≤ n ∧ ComesTo d w r₁ s₁ ∧ Machine.EndsAfter i ⟨k r₁ s₁, F, d⟩ r s

section Splitting

variable {n : Nat} (htasks : ∀ i, i < n → ∀ d t s, (Work.task t s).Splits i d)

include htasks

theorem splits_step (c : Step α) {i : Nat} (hi : i ≤ n) (d : Nat) : (Work.step c).Splits i d := by
  induction c generalizing i with
  | ret a s => exact fun k F r s' h => ⟨_, _, i, Nat.le_refl i, .ret a s, h⟩
  | fail e s => exact fun k F r s' h => ⟨_, _, i, Nat.le_refl i, .fail e s, h⟩
  | sub t s k₁ ih =>
    intro k F r s' h
    obtain ⟨j, hj, h⟩ := h.of_running rfl
    obtain ⟨r₁, s₁, j₁, hj₁, ht, h⟩ := htasks j (by omega) d t s _ F r s' h
    obtain ⟨r₂, s₂, j₂, hj₂, hk, h⟩ := ih r₁ s₁ (i := j₁) (by omega) k F r s' h
    exact ⟨r₂, s₂, j₂, by omega, .sub ht hk, h⟩
  | wait delay s k₁ ih =>
    intro k F r s' h
    cases h with
    | done hdone => cases hdone
    | move hmove _ => cases hmove
    | wake w hwait h =>
      cases hwait
      obtain ⟨r₂, s₂, j₂, hj₂, hk, h⟩ := ih { s with world := w } (Nat.le_of_succ_le hi) k F r s' h
      exact ⟨r₂, s₂, j₂, by omega, .wait w hk, h⟩

theorem splits_script (c : Script α) {i : Nat} (hi : i ≤ n) (d : Nat) (s : State) :
    (Work.script c s).Splits i d := by
  induction c generalizing i s with
  | run p =>
    intro k F r s' h
    obtain ⟨r₁, s₁, j, hj, hc, h⟩ := splits_step htasks (p s) hi d k F r s' h
    exact ⟨r₁, s₁, j, hj, .run hc, h⟩
  | bind c f ihc ihf =>
    intro k F r s' h
    rw [Work.machine, Script.andThen_bind] at h
    obtain ⟨r₁, s₁, j, hj, hc, h⟩ := ihc hi s _ F r s' h
    cases r₁ with
    | error e => exact ⟨_, s₁, j, hj, .stop hc, h⟩
    | ok a =>
      obtain ⟨r₂, s₂, j₂, hj₂, hf, h⟩ := ihf a (i := j) (by omega) s₁ k F r s' h
      exact ⟨r₂, s₂, j₂, by omega, .next hc hf, h⟩
  | site x c ih =>
    intro k F r s' h
    obtain ⟨r₁, s₁, j, hj, hc, h⟩ := ih hi s k F r s' h
    exact ⟨r₁, s₁, j, hj, .site hc, h⟩
  | within line c ih =>
    intro k F r s' h
    rw [Work.machine, Script.andThen_within] at h
    obtain ⟨r₁, s₁, j, hj, hc, h⟩ := ih hi s _ F r s' h
    exact ⟨_, s₁, j, hj, .within hc, h⟩
  | guard c handler ihc ihh =>
    intro k F r s' h
    rw [Work.machine, Script.andThen_guard] at h
    obtain ⟨r₁, s₁, j, hj, hc, h⟩ := ihc hi s _ F r s' h
    rcases exists_raised_or r₁ with ⟨v, line, rfl⟩ | hr
    · obtain ⟨r₂, s₂, j₂, hj₂, hh, h⟩ := ihh v (i := j) (by omega) s₁ k F r s' h
      exact ⟨r₂, s₂, j₂, by omega, .handled hc hh, h⟩
    · rw [Script.onGuarded_of_ne hr] at h
      exact ⟨r₁, s₁, j, hj, .unhandled hc hr, h⟩
  | ensure c finalizer ihc ihf =>
    intro k F r s' h
    rw [Work.machine, Script.andThen_ensure] at h
    obtain ⟨r₁, s₁, j, hj, hc, h⟩ := ihc hi s _ F r s' h
    rcases pending_or r₁ with hr | ⟨e, rfl, he⟩
    · rw [Script.onEnsured_of_pending hr] at h
      obtain ⟨r₂, s₂, j₂, hj₂, hf, h⟩ := ihf (i := j) (by omega) s₁ _ F r s' h
      by_cases hne : r₂ = .ok .normal
      · subst hne
        exact ⟨r₁, s₂, j₂, by omega, .cleaned hc hr hf, h⟩
      · rw [Script.onCleaned_of_ne hne] at h
        exact ⟨r₂, s₂, j₂, by omega, .replaced hc hr hf hne, h⟩
    · rw [Script.onEnsured_of_not_isRaised he] at h
      exact ⟨_, s₁, j, hj, .skipped hc he, h⟩

end Splitting

/-- Every machine that runs a task and ends comes to a result of the task on its way. -/
theorem splits_task (n d : Nat) (t : Task) (s : State) : (Work.task t s).Splits n d := by
  induction n using Nat.strongRecOn generalizing d t s with
  | ind n htasks =>
    intro k F r s' h
    cases t with
    | call f args =>
      by_cases hd : d < Machine.depthLimit
      · rw [Work.machine, startTask_call hd] at h
        obtain ⟨r₁, s₁, i, hi, hc, h⟩ :=
          splits_script htasks (f.script args) (Nat.le_refl n) (d + 1) s afterCall _ r s' h
        by_cases hr : r₁ = .error .overflow
        · subst hr
          obtain ⟨j, hj, h⟩ := h.of_running rfl
          exact ⟨_, _, j, by omega, .overflow hd hc (.fail _ _), h⟩
        · rw [afterCall_of_ne hr] at h
          obtain ⟨j, hj, h⟩ := h.of_running (next_ofResult r₁ s₁ _ _)
          exact ⟨r₁, s₁, j, by omega, .call hd hc hr, h⟩
      · rw [Work.machine, startTask_call_tooDeep hd] at h
        obtain ⟨j, hj, h⟩ := h.of_running rfl
        exact ⟨_, _, j, by omega, .tooDeep hd (.fail _ _), h⟩
    | module body scope =>
      by_cases hd : d < Machine.depthLimit
      · rw [Work.machine, startTask_body hd] at h
        obtain ⟨r₁, s₁, i, hi, hc, h⟩ :=
          splits_script htasks (bodyScript scope body) (Nat.le_refl n) (d + 1) s _ _ r s' h
        obtain ⟨j, hj, h⟩ := h.of_running (next_ofResult r₁ s₁ _ _)
        exact ⟨r₁, s₁, j, by omega, .module hd hc, h⟩
      · rw [Work.machine, startTask_body_tooDeep hd] at h
        obtain ⟨j, hj, h⟩ := h.of_running rfl
        exact ⟨_, _, j, by omega, .moduleTooDeep hd, h⟩
    | loop test step body scope =>
      rw [Work.machine, startTask_turn] at h
      obtain ⟨r₁, s₁, i, hi, hc, h⟩ :=
        splits_script htasks (turnScript test step body scope) (Nat.le_refl n) d s _ _ r s' h
      by_cases hr : r₁ = .ok .continued
      · subst hr
        obtain ⟨j, hj, h⟩ := h.of_running rfl
        obtain ⟨r₂, s₂, i₂, hi₂, ht, h⟩ :=
          htasks j (by omega) d (.loop test step body scope) s₁ k F r s' h
        exact ⟨r₂, s₂, i₂, by omega, .again hc ht, h⟩
      · obtain ⟨j, hj, h⟩ :=
          h.of_running ((next_ofResult r₁ s₁ _ _).trans (deliver_again hr test step body scope))
        exact ⟨r₁, s₁, j, by omega, .leave hc hr, h⟩

/-- A machine ends with what the script that it runs comes to. -/
theorem endsWith_iff_comesTo {d : Nat} {c : Script Outcome} {s s' : State}
    {r : Except Failure Outcome} :
    Machine.EndsWith ⟨c.proc s, [], d⟩ r s' ↔ ComesTo d (.script c s) r s' := by
  have hstart : Work.machine d [] (.script c s) (fun r => (Proc.ofResult r).run) =
      ⟨c.proc s, [], d⟩ := by
    rw [Work.machine, Proc.andThen_ofResult]
    rfl
  constructor
  · intro h
    obtain ⟨n, hn⟩ := h.exists_endsAfter
    rw [← hstart] at hn
    obtain ⟨r₁, s₁, i, hi, hc, h⟩ :=
      splits_script (fun i _ d t s => splits_task i d t s) c (Nat.le_refl n) d s _ _ r s' hn
    have hdone := next_ofResult r₁ s₁ [] d
    cases h with
    | done h =>
      cases hdone.symm.trans h
      exact hc
    | move h _ => cases hdone.symm.trans h
    | wake w h _ => cases hdone.symm.trans h
  · intro h
    refine ⟨_, hstart ▸ h.leads (fun r => (Proc.ofResult r).run) [], next_ofResult r s' [] d⟩

/-- How a program ends, by the parts that it is made of. -/
theorem endsWith_program_iff {p : List Stmt} {s s' : State} {r : Except Failure Outcome} :
    (Machine.start (programProc p) s).EndsWith r s' ↔
      ComesTo 0 (.script (programScript p) s) r s' := by
  rw [← proc_programScript]
  exact endsWith_iff_comesTo

end Hantec
