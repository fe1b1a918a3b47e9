import Hantec.Proofs.Run.Result

/-!
# Contracts

A contract says what holds whenever a run begins an expression, a statement or a task, and what
holds when a task has ended. A script meets a contract if it keeps to it step by step, as long as
its tasks do. If the bodies of all tasks meet the contract as well, whatever is begun in a run is
begun as the contract says, and whatever ends, ends so.
-/

namespace Hantec

variable {α β : Type}

/-- Passes on whatever its tasks raise, and raises values of its own without a line. -/
inductive Step.Forwards : Step α → Prop where
  | ret (a : α) (s : State) : Forwards (.ret a s)
  | fail {e : Failure} (s : State) : (∀ v line, e = .raised v line → line = none) →
      Forwards (.fail e s)
  | sub {t : Task} {s : State} {k : Except Failure Outcome → State → Step α} :
      (∀ v line s, k (.error (.raised v line)) s = .fail (.raised v line) s) →
      (∀ r s, (∀ v line, r ≠ .error (.raised v line)) → Forwards (k r s)) → Forwards (.sub t s k)
  | wait {d : Delay} {s : State} {k : State → Step α} :
      (∀ s, Forwards (k s)) → Forwards (.wait d s k)

structure Contract where
  /-- What holds when a part of the program is begun. -/
  begins : Site → State → Prop
  /-- The lines of statements. -/
  line : Int → Prop
  /-- What holds when a task is begun. -/
  accepts : Task → State → Prop
  /-- How a task may end that was begun in the first state. -/
  ends : Task → State → Except Failure Outcome → State → Prop

namespace Contract

variable (C : Contract)

/-- A step that keeps to the contract and ends as `R` says, while so many calls are open. -/
inductive StepMeets (d : Nat) (R : Except Failure α → State → Prop) : Step α → Prop where
  | ret {a : α} {s : State} : R (.ok a) s → StepMeets d R (.ret a s)
  | fail {e : Failure} {s : State} : R (.error e) s → StepMeets d R (.fail e s)
  | sub {t : Task} {s : State} {k : Except Failure Outcome → State → Step α} :
      C.accepts t s →
      (∀ r s', ComesTo d (.task t s) r s' → C.ends t s r s' → StepMeets d R (k r s')) →
      StepMeets d R (.sub t s k)
  | wait {delay : Delay} {s : State} {k : State → Step α} :
      (∀ w, StepMeets d R (k { s with world := w })) → StepMeets d R (.wait delay s k)

/-- A script that keeps to the contract from a state on and ends as `R` says. -/
def ScriptMeets (d : Nat) :
    {α : Type} → Script α → State → (Except Failure α → State → Prop) → Prop
  | _, .run p, s, R => C.StepMeets d R (p s) ∧ (p s).Forwards
  | _, .bind c f, s, R => ScriptMeets d c s fun r s₁ =>
    (∀ a, r = .ok a → ScriptMeets d (f a) s₁ R) ∧ ∀ e, r = .error e → R (.error e) s₁
  | _, .site x c, s, R => C.begins x s ∧ ScriptMeets d c s R
  | _, .within line c, s, R =>
    C.line line ∧ ScriptMeets d c s fun r s' => R (r.mapError (·.atLine line)) s'
  | _, .guard c handler, s, R => ScriptMeets d c s fun r s₁ =>
    (∀ v line, r = .error (.raised v line) → ScriptMeets d (handler v) s₁ R) ∧
      ((∀ v line, r ≠ .error (.raised v line)) → R r s₁)
  | _, .ensure c finalizer, s, R => ScriptMeets d c s fun r s₁ =>
    (Pending r → ScriptMeets d finalizer s₁ fun r' s' =>
      (r' = .ok .normal → R r s') ∧ (r' ≠ .ok .normal → R r' s')) ∧
      ∀ e, r = .error e → ¬ e.IsRaised → R r s₁

/-- Work that keeps to the contract and ends as `R` says. -/
def Meets (d : Nat) : {α : Type} → Work α → (Except Failure α → State → Prop) → Prop
  | _, .script c s, R => C.ScriptMeets d c s R
  | _, .step c, R => C.StepMeets d R c
  | _, .task t s, R => C.accepts t s ∧ ∀ r s', C.ends t s r s' → R r s'

/-- A task that was begun in the first state may end with the error of a call that is nested too
deep, which is raised in the second one. -/
def EndsTooDeep (t : Task) (s s₁ : State) : Prop :=
  ∀ e s', raiseTooDeep s₁ = .fail e s' → C.ends t s (.error e) s'

/-- What tasks do meets the contract. -/
structure Lawful : Prop where
  line : ∀ line, C.line line → line ≠ 0
  call : ∀ {d : Nat} {f : Callable} {args : List Value} {s : State},
    C.accepts (.call f args) s → C.ScriptMeets d (f.script args) s fun r s' =>
      (r ≠ .error .overflow → C.ends (.call f args) s r s') ∧
        (r = .error .overflow → C.EndsTooDeep (.call f args) s s')
  tooDeep : ∀ {f : Callable} {args : List Value} {s : State},
    C.accepts (.call f args) s → C.EndsTooDeep (.call f args) s s
  module : ∀ {d : Nat} {body : List Stmt} {scope : Nat} {s : State},
    C.accepts (.module body scope) s →
    C.ScriptMeets d (bodyScript scope body) s (C.ends (.module body scope) s)
  moduleTooDeep : ∀ {body : List Stmt} {scope : Nat} {s : State},
    C.accepts (.module body scope) s → C.ends (.module body scope) s (.error .overflow) s
  turn : ∀ {d : Nat} {test step : Option Expr} {body : Stmt} {scope : Nat} {s : State},
    C.accepts (.loop test step body scope) s →
    C.ScriptMeets d (turnScript test step body scope) s fun r s' =>
      (r = .ok .continued → C.Meets d (.task (.loop test step body scope) s')
        (C.ends (.loop test step body scope) s)) ∧
      (r ≠ .ok .continued → C.ends (.loop test step body scope) s r s')

variable {C} {d : Nat} {R R' : Except Failure α → State → Prop} {s s' : State}

theorem StepMeets.mono {c : Step α} (h : C.StepMeets d R c) (hR : ∀ r s, R r s → R' r s) :
    C.StepMeets d R' c := by
  induction h with
  | ret h => exact .ret (hR _ _ h)
  | fail h => exact .fail (hR _ _ h)
  | sub ht _ ih => exact .sub ht ih
  | wait _ ih => exact .wait ih

theorem ScriptMeets.mono {c : Script α} (h : C.ScriptMeets d c s R)
    (hR : ∀ r s, R r s → R' r s) : C.ScriptMeets d c s R' := by
  induction c generalizing s with
  | run p => exact ⟨h.1.mono hR, h.2⟩
  | bind c f ihc ihf =>
    exact ihc h fun r s₁ h₁ => ⟨fun a ha => ihf a (h₁.1 a ha) hR, fun e he => hR _ _ (h₁.2 e he)⟩
  | site x c ih => exact ⟨h.1, ih h.2 hR⟩
  | within line c ih => exact ⟨h.1, ih h.2 fun _ _ => hR _ _⟩
  | guard c handler ihc ihh =>
    exact ihc h fun r s₁ h₁ =>
      ⟨fun v line hr => ihh v (h₁.1 v line hr) hR, fun hr => hR _ _ (h₁.2 hr)⟩
  | ensure c finalizer ihc ihf =>
    refine ihc h fun r s₁ h₁ => ⟨fun hr => ihf (h₁.1 hr) fun r' s' h' => ?_, ?_⟩
    · exact ⟨fun hn => hR _ _ (h'.1 hn), fun hn => hR _ _ (h'.2 hn)⟩
    · exact fun e he hne => hR _ _ (h₁.2 e he hne)

/-- Work that keeps to the contract ends as it should. -/
theorem Lawful.of_comesTo (hC : C.Lawful) {w : Work α} {r : Except Failure α}
    (h : ComesTo d w r s') (hw : C.Meets d w R) : R r s' := by
  induction h with
  | ret a s =>
    cases hw with
    | ret h => exact h
  | fail e s =>
    cases hw with
    | fail h => exact h
  | sub ht _ iht ihk =>
    cases hw with
    | sub hacc hk => exact ihk (hk _ _ ht (iht ⟨hacc, fun _ _ h => h⟩))
  | wait w _ ih =>
    cases hw with
    | wait hk => exact ih (hk w)
  | run _ ih => exact ih hw.1
  | next _ _ ihc ihf => exact ihf ((ihc hw).1 _ rfl)
  | stop _ ih => exact (ih hw).2 _ rfl
  | site _ ih => exact ih hw.2
  | within _ ih => exact ih hw.2
  | unhandled _ hr ih => exact (ih hw).2 hr
  | handled _ _ ihc ihh => exact ihh ((ihc hw).1 _ _ rfl)
  | skipped _ he ih => exact (ih hw).2 _ rfl he
  | cleaned _ hr _ ihc ihf => exact (ihf ((ihc hw).1 hr)).1 rfl
  | replaced _ hr _ hne ihc ihf => exact (ihf ((ihc hw).1 hr)).2 hne
  | call _ _ hr ih => exact hw.2 _ _ ((ih (hC.call hw.1)).1 hr)
  | overflow _ _ hraise ih _ =>
    obtain ⟨rfl, rfl⟩ := comesTo_fail_iff.1 hraise
    exact hw.2 _ _ ((ih (hC.call hw.1)).2 rfl _ _ rfl)
  | tooDeep _ hraise =>
    obtain ⟨rfl, rfl⟩ := comesTo_fail_iff.1 hraise
    exact hw.2 _ _ (hC.tooDeep hw.1 _ _ rfl)
  | module _ _ ih => exact hw.2 _ _ (ih (hC.module hw.1))
  | moduleTooDeep => exact hw.2 _ _ (hC.moduleTooDeep hw.1)
  | again _ _ iht ihl => exact hw.2 _ _ (ihl ((iht (hC.turn hw.1)).1 rfl))
  | leave _ hr ih => exact hw.2 _ _ ((ih (hC.turn hw.1)).2 hr)

end Contract

end Hantec
