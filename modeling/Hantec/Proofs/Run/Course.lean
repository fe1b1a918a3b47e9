import Hantec.Proofs.Run.Contract

/-!
# The course of a run

What is begun while something runs, with the number of open calls and the lines of the statements
that are being executed at that moment, the innermost first. Whatever a lawful contract says of the
parts of a program holds of all that is begun, also in runs that never end. The second relation
tells where a value was raised that leaves a run: it comes from a part that is begun, and nothing
between takes it.
-/

namespace Hantec

variable {α β : Type}

/-- Running the first work begins the second one at once, or after other parts of the first one
have ended. The flag says whether a value that leaves the second one leaves the first one too,
without further ado. -/
inductive Begins : Bool → Nat → List Int → {α : Type} → Work α → Nat → List Int →
    {β : Type} → Work β → Prop where
  | run : Begins true d ls (.script (.run p) s) d ls (.step (p s))
  | first : Begins true d ls (.script (.bind c f) s) d ls (.script c s)
  | next :
      ComesTo d (.script c s) (.ok a) s₁ →
      Begins true d ls (.script (.bind c f) s) d ls (.script (f a) s₁)
  | site : Begins true d ls (.script (.site x c) s) d ls (.script c s)
  | within : Begins true d ls (.script (.within line c) s) d (line :: ls) (.script c s)
  | guarded : Begins false d ls (.script (.guard c handler) s) d ls (.script c s)
  | handler :
      ComesTo d (.script c s) (.error (.raised v line)) s₁ →
      Begins true d ls (.script (.guard c handler) s) d ls (.script (handler v) s₁)
  -- A finalizer comes between a value that was raised and the whole.
  | ensured : Begins false d ls (.script (.ensure c finalizer) s) d ls (.script c s)
  | finalizer :
      ComesTo d (.script c s) r s₁ → Pending r →
      Begins true d ls (.script (.ensure c finalizer) s) d ls (.script finalizer s₁)
  | task : Begins false d ls (.step (.sub t s k)) d ls (.task t s)
  | forward {α : Type} {k : Except Failure Outcome → State → Step α} :
      (∀ v line s, k (.error (.raised v line)) s = .fail (.raised v line) s) →
      Begins true d ls (.step (.sub t s k)) d ls (.task t s)
  | resume :
      ComesTo d (.task t s) r s₁ → Begins true d ls (.step (.sub t s k)) d ls (.step (k r s₁))
  | wake {α : Type} {s : State} {k : State → Step α} (w : World) :
      Begins true d ls (.step (.wait delay s k)) d ls (.step (k { s with world := w }))
  | call {f : Callable} :
      d < Machine.depthLimit →
      Begins true d ls (.task (.call f args) s) (d + 1) ls (.script (f.script args) s)
  | overflow {f : Callable} :
      d < Machine.depthLimit → ComesTo (d + 1) (.script (f.script args) s) (.error .overflow) s₁ →
      Begins true d ls (.task (.call f args) s) d ls (.step (raiseTooDeep s₁))
  | tooDeep :
      ¬ d < Machine.depthLimit →
      Begins true d ls (.task (.call f args) s) d ls (.step (raiseTooDeep s))
  | module :
      d < Machine.depthLimit →
      Begins true d ls (.task (.module body scope) s) (d + 1) ls
        (.script (bodyScript scope body) s)
  | turn :
      Begins true d ls (.task (.loop test step body scope) s) d ls
        (.script (turnScript test step body scope) s)
  | again :
      ComesTo d (.script (turnScript test step body scope) s) (.ok .continued) s₁ →
      Begins true d ls (.task (.loop test step body scope) s) d ls
        (.task (.loop test step body scope) s₁)

/-- What is begun in the course of running the first work, sooner or later. -/
inductive Enters (d : Nat) (ls : List Int) (w : Work α) : Nat → List Int → {β : Type} → Work β →
    Prop where
  | refl : Enters d ls w d ls w
  | step {d₁ d₂ : Nat} {ls₁ ls₂ : List Int} {β γ : Type} {w₁ : Work β} {w₂ : Work γ}
      {passes : Bool} :
      Enters d ls w d₁ ls₁ w₁ → Begins passes d₁ ls₁ w₁ d₂ ls₂ w₂ → Enters d ls w d₂ ls₂ w₂

theorem Enters.trans {γ : Type} {d d₁ d₂ : Nat} {ls ls₁ ls₂ : List Int} {w : Work α} {w₁ : Work β}
    {w₂ : Work γ} (h : Enters d ls w d₁ ls₁ w₁) (h' : Enters d₁ ls₁ w₁ d₂ ls₂ w₂) :
    Enters d ls w d₂ ls₂ w₂ := by
  induction h' with
  | refl => exact h
  | step _ hb ih => exact .step ih hb

/-- What is begun at once. -/
theorem Begins.enters {passes : Bool} {d d₁ : Nat} {ls ls₁ : List Int} {w : Work α} {w₁ : Work β}
    (h : Begins passes d ls w d₁ ls₁ w₁) : Enters d ls w d₁ ls₁ w₁ :=
  .step .refl h

/-! ## Contracts -/

namespace Contract

variable {C : Contract} {d d' : Nat} {ls ls' : List Int} {w : Work α} {w' : Work β}
  {R : Except Failure α → State → Prop}

theorem Lawful.of_begins (hC : C.Lawful) {passes : Bool} (h : Begins passes d ls w d' ls' w')
    (hw : C.Meets d w R) : ∃ R', C.Meets d' w' R' := by
  cases h with
  | run => exact ⟨_, hw.1⟩
  | first => exact ⟨_, hw⟩
  | next hc => exact ⟨_, (hC.of_comesTo hc hw).1 _ rfl⟩
  | site | within => exact ⟨_, hw.2⟩
  | guarded | ensured => exact ⟨_, hw⟩
  | handler hc => exact ⟨_, (hC.of_comesTo hc hw).1 _ _ rfl⟩
  | finalizer hc hr => exact ⟨_, (hC.of_comesTo hc hw).1 hr⟩
  | task =>
    cases hw with
    | sub hacc _ => exact ⟨_, hacc, fun _ _ h => h⟩
  | forward =>
    cases hw with
    | sub hacc _ => exact ⟨_, hacc, fun _ _ h => h⟩
  | resume ht =>
    cases hw with
    | sub hacc hk => exact ⟨_, hk _ _ ht (hC.of_comesTo ht ⟨hacc, fun _ _ h => h⟩)⟩
  | wake w =>
    cases hw with
    | wait hk => exact ⟨_, hk w⟩
  | call => exact ⟨_, hC.call hw.1⟩
  | overflow | tooDeep => exact ⟨fun _ _ => True, .fail trivial⟩
  | module => exact ⟨_, hC.module hw.1⟩
  | turn => exact ⟨_, hC.turn hw.1⟩
  | again hc => exact ⟨_, (hC.of_comesTo hc (hC.turn hw.1)).1 rfl⟩

/-- All that is begun in the course of a run keeps to the contract. -/
theorem Lawful.of_enters (hC : C.Lawful) (h : Enters d ls w d' ls' w') (hw : C.Meets d w R) :
    ∃ R', C.Meets d' w' R' := by
  induction h with
  | refl => exact ⟨R, hw⟩
  | step _ hb ih =>
    obtain ⟨R₁, hw₁⟩ := ih
    exact hC.of_begins hb hw₁

end Contract

/-! ## Raised values -/

/-- Running the work raises the value, which leaves it with the last state. The first list has the
lines of the statements that are executed when the value is raised, the second one those around the
work. -/
inductive Raises (v : Value) (origin : List Int) : Nat → List Int → {α : Type} → Work α → State →
    Prop where
  | here {d : Nat} {α : Type} (s : State) :
      Raises v origin d origin (.step (.fail (.raised v none) s : Step α)) s
  | inside {d d₁ : Nat} {ls ls₁ : List Int} {α β : Type} {w : Work α} {w₁ : Work β} {s' : State} :
      Begins true d ls w d₁ ls₁ w₁ → Raises v origin d₁ ls₁ w₁ s' → Raises v origin d ls w s'
  /-- A finalizer that ends normally leaves what is pending as it is. -/
  | cleaned {d : Nat} {ls : List Int} {c finalizer : Script Outcome} {s s₁ s' : State} :
      Raises v origin d ls (.script c s) s₁ →
      ComesTo d (.script finalizer s₁) (.ok .normal) s' →
      Raises v origin d ls (.script (.ensure c finalizer) s) s'

/-- A value that leaves the second work with a line or without one leaves the first work too, with
the line of the statement between them if it had none. -/
def Passes (new : List Int) (d : Nat) (w : Work α) (d₁ : Nat) (w₁ : Work β) : Prop :=
  ∀ v line s', ComesTo d₁ w₁ (.error (.raised v line)) s' →
    ComesTo d w (.error (.raised v (line.or new.head?))) s'

section Passing

variable {C : Contract} {d d₁ : Nat} {ls ls₁ : List Int} {w : Work α} {w₁ : Work β} {s' : State}
  {R : Except Failure α → State → Prop}

theorem exists_passes (h : ∀ v line s', ComesTo d₁ w₁ (.error (.raised v line)) s' →
    ComesTo d w (.error (.raised v line)) s') : ∃ new, ls = new ++ ls ∧ Passes new d w d₁ w₁ := by
  refine ⟨[], rfl, fun v line s' hc => ?_⟩
  rw [List.head?_nil, Option.or_none]
  exact h v line s' hc

theorem mapError_raised {line : Int} (hline : line ≠ 0) (v : Value) (l : Option Int) :
    (Except.error (.raised v l) : Except Failure Outcome).mapError (·.atLine line) =
      .error (.raised v (l.or (some line))) := by
  refine congrArg Except.error ?_
  cases l with
  | none => simp [Failure.atLine, hline]
  | some l => rfl

theorem passes_within {line : Int} (hline : line ≠ 0) (d : Nat) (c : Script Outcome) (s : State) :
    Passes [line] d (.script (.within line c) s) d (.script c s) := by
  intro v l s' hc
  have hin : ComesTo d (.script (.within line c) s) _ s' := .within hc
  rwa [mapError_raised hline] at hin

theorem Begins.passes (hC : C.Lawful) (h : Begins true d ls w d₁ ls₁ w₁) (hw : C.Meets d w R) :
    ∃ new, ls₁ = new ++ ls ∧ Passes new d w d₁ w₁ := by
  cases h with
  | within => exact ⟨_, rfl, passes_within (hC.line _ hw.1) _ _ _⟩
  | run => exact exists_passes fun _ _ _ hr => .run hr
  | first => exact exists_passes fun _ _ _ hr => .stop hr
  | next hc => exact exists_passes fun _ _ _ hr => .next hc hr
  | site => exact exists_passes fun _ _ _ hr => .site hr
  | handler hc => exact exists_passes fun _ _ _ hr => .handled hc hr
  | finalizer hc hp => exact exists_passes fun _ _ _ hr => .replaced hc hp hr nofun
  | forward hk => exact exists_passes fun v line s' hr => .sub hr (hk v line s' ▸ .fail _ _)
  | resume ht => exact exists_passes fun _ _ _ hr => .sub ht hr
  | wake w => exact exists_passes fun _ _ _ hr => .wait w hr
  | call hd => exact exists_passes fun _ _ _ hr => .call hd hr nofun
  | overflow hd hc => exact exists_passes fun _ _ _ hr => .overflow hd hc hr
  | tooDeep hd => exact exists_passes fun _ _ _ hr => .tooDeep hd hr
  | module hd => exact exists_passes fun _ _ _ hr => .module hd hr
  | turn => exact exists_passes fun _ _ _ hr => .leave hr nofun
  | again hc => exact exists_passes fun _ _ _ hr => .again hc hr

variable {v : Value} {origin : List Int}

/-- The value leaves the work with the line of the innermost statement inside of it. -/
theorem Raises.comesTo (hC : C.Lawful) (h : Raises v origin d ls w s') (hw : C.Meets d w R) :
    ∃ new, origin = new ++ ls ∧ ComesTo d w (.error (.raised v new.head?)) s' := by
  induction h with
  | here s => exact ⟨[], rfl, .fail _ s⟩
  | inside hb _ ih =>
    obtain ⟨R₁, hw₁⟩ := hC.of_begins hb hw
    obtain ⟨new, rfl, hpass⟩ := hb.passes hC hw
    obtain ⟨new₁, rfl, hc⟩ := ih hw₁
    refine ⟨new₁ ++ new, (List.append_assoc ..).symm, ?_⟩
    rw [List.head?_append]
    exact hpass _ _ _ hc
  | cleaned _ hf ih =>
    obtain ⟨new, rfl, hc⟩ := ih hw
    refine ⟨new, rfl, .cleaned hc ?_ hf⟩
    rintro _ ⟨⟩
    trivial

/-- Steps have to forward what their tasks raise. -/
def Work.Forwards : {α : Type} → Work α → Prop
  | _, .step c => c.Forwards
  | _, _ => True

theorem Begins.raises (hb : Begins true d ls w d₁ ls w₁) {line : Option Int}
    (h : ∃ new, Raises v (new ++ ls) d₁ ls w₁ s' ∧ line = new.head?) :
    ∃ new, Raises v (new ++ ls) d ls w s' ∧ line = new.head? :=
  h.imp fun _ hin => ⟨.inside hb hin.1, hin.2⟩

/-- Whatever leaves work that keeps to a contract was raised inside of it, and has the line of the
innermost statement that was executed there. -/
theorem ComesTo.raises (hC : C.Lawful) {line : Option Int}
    (h : ComesTo d w (.error (.raised v line)) s') (hw : C.Meets d w R) (hf : w.Forwards)
    (ls : List Int) : ∃ new, Raises v (new ++ ls) d ls w s' ∧ line = new.head? := by
  generalize hr : (Except.error (Failure.raised v line) : Except Failure α) = r at h
  induction h generalizing line ls with
  | ret => cases hr
  | fail =>
    cases hr
    cases hf with
    | fail _ hnone =>
      obtain rfl := hnone v line rfl
      exact ⟨[], .here _, rfl⟩
  | @sub d t s r s₁ α k r' s' ht hk iht ihk =>
    subst hr
    cases hw with
    | sub hacc hmeets =>
      cases hf with
      | sub hforward hrest =>
        have hends := hC.of_comesTo ht ⟨hacc, fun _ _ h => h⟩
        rcases exists_raised_or r with ⟨u, l, rfl⟩ | hne
        · rw [hforward] at hk
          obtain ⟨hr, rfl⟩ := comesTo_fail_iff.1 hk
          cases hr
          exact (Begins.forward hforward).raises (iht ⟨hacc, fun _ _ h => h⟩ trivial ls rfl)
        · exact (Begins.resume ht).raises (ihk (hmeets _ _ ht hends) (hrest r s₁ hne) ls rfl)
  | wait w _ ih =>
    subst hr
    cases hw with
    | wait hk =>
      cases hf with
      | wait hforward =>
        exact (Begins.wake w).raises (ih (hk w) (hforward _) ls rfl)
  | run _ ih =>
    exact Begins.run.raises (ih hw.1 hw.2 ls hr)
  | next hc _ _ ihf =>
    exact (Begins.next hc).raises (ihf ((hC.of_comesTo hc hw).1 _ rfl) trivial ls hr)
  | stop _ ih =>
    cases hr
    exact Begins.first.raises (ih hw trivial ls rfl)
  | site _ ih =>
    exact Begins.site.raises (ih hw.2 trivial ls hr)
  | @within d c s s' line' r hc ih =>
    rcases r with e | o
    · cases e with
      | raised u l =>
        rw [mapError_raised (hC.line line' hw.1)] at hr
        cases hr
        obtain ⟨new, hin, rfl⟩ := ih hw.2 trivial (line' :: ls) rfl
        rw [List.append_cons] at hin
        exact ⟨new ++ [line'], .inside .within hin, by rw [List.head?_append, List.head?_cons]⟩
      | fault | exit | overflow => cases hr
    · cases hr
  | unhandled _ hne => exact absurd hr.symm (hne v line)
  | handled hc _ _ ihh =>
    exact (Begins.handler hc).raises (ihh ((hC.of_comesTo hc hw).1 _ _ rfl) trivial ls hr)
  | skipped _ he =>
    cases hr
    exact absurd trivial he
  | cleaned _ _ hclean ihc _ =>
    obtain ⟨new, hin, hline⟩ := ihc hw trivial ls hr
    exact ⟨new, .cleaned hin hclean, hline⟩
  | replaced hc hp _ _ _ ihf =>
    exact (Begins.finalizer hc hp).raises (ihf ((hC.of_comesTo hc hw).1 hp) trivial ls hr)
  | call hd _ _ ih =>
    exact (Begins.call hd).raises (ih (hC.call hw.1) trivial ls hr)
  | overflow hd hc _ _ ih =>
    refine (Begins.overflow hd hc).raises ?_
    exact ih (R := fun _ _ => True) (.fail trivial) (.fail _ (by rintro _ _ ⟨⟩; rfl)) ls hr
  | tooDeep hd _ ih =>
    refine (Begins.tooDeep hd).raises ?_
    exact ih (R := fun _ _ => True) (.fail trivial) (.fail _ (by rintro _ _ ⟨⟩; rfl)) ls hr
  | module hd _ ih =>
    exact (Begins.module hd).raises (ih (hC.module hw.1) trivial ls hr)
  | moduleTooDeep => cases hr
  | again hc _ _ ih =>
    exact (Begins.again hc).raises (ih ((hC.of_comesTo hc (hC.turn hw.1)).1 rfl) trivial ls hr)
  | leave _ _ ih =>
    exact Begins.turn.raises (ih (hC.turn hw.1) trivial ls hr)

end Passing

end Hantec
