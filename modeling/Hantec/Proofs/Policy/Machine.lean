import Hantec.Proofs.Policy.Builtins
import Hantec.Proofs.Run.Machine

/-!
# Machines under a policy

Every task that may be started keeps to the policy, so a machine does as long as it runs, whatever
happens to the world while it waits. The main statement tells how a procedure ends that keeps to
the policy.
-/

namespace Hantec

/-! ## Runs in any world -/

namespace Machine

/-- The second machine comes after the first one, whatever becomes of the world in each wait. -/
inductive Leads : Machine → Machine → Prop where
  | refl (m : Machine) : Leads m m
  | move {m m₁ m' : Machine} : m.next = .running m₁ → Leads m₁ m' → Leads m m'
  | wake {m m' : Machine} {d : Delay} {s : State} {resume : State → Machine} (w : World) :
      m.next = .waiting d s resume → Leads (resume { s with world := w }) m' → Leads m m'

/-- How a machine can end. -/
def EndsWith (m : Machine) (r : Except Failure Outcome) (s : State) : Prop :=
  ∃ m', m.Leads m' ∧ m'.next = .done r s

theorem Reaches.leads {m m' : Machine} (h : m.Reaches m') : m.Leads m' := by
  induction h with
  | refl m => exact .refl m
  | move hnext _ ih => exact .move hnext ih
  | wake hnext _ ih => exact .wake _ hnext ih

end Machine

namespace Policy

variable {P : Policy} {A : Nat → String → Prop}

/-! ## Tasks -/

theorem holds_bindParams {scope : Nat} {params : List String} {args : List Value}
    (hnull : P.value .null) (hargs : ∀ v ∈ args, P.value v) {h : Heap} (hh : P.Holds h) :
    P.Holds (bindParams scope params args h) := by
  induction params generalizing args h with
  | nil => exact hh
  | cons p ps ih =>
    cases args with
    | nil => exact ih hargs (hh.define scope p hnull)
    | cons v vs =>
      rw [List.forall_mem_cons] at hargs
      exact ih hargs.2 (hh.define scope p hargs.1)

theorem grows_bindParams (scope : Nat) (params : List String) (args : List Value) (h : Heap) :
    h.Grows (fun q _ => q = scope) (bindParams scope params args h) := by
  induction params generalizing args h with
  | nil => exact .refl h
  | cons p ps ih =>
    have hfirst (v : Value) : h.Grows (fun q _ => q = scope) (h.define scope p v) :=
      ⟨(Heap.adds_define h scope p v).mono fun _ _ _ hx => hx.1, Nat.le_refl _⟩
    cases args with
    | nil => exact (hfirst .null).trans (ih [] _) fun _ _ _ hx => hx
    | cons v vs => exact (hfirst v).trans (ih vs _) fun _ _ _ hx => hx

namespace Runs

variable {args : List Value} {p : Proc Outcome} {Q : Outcome → Prop}

theorem enter (hp : P.Runs A hard p Q) (depth : Nat) :
    P.Runs A hard (Machine.enter depth p) Q := by
  unfold Machine.enter
  split
  · exact hp
  · exact failWith trivial

/-- A signal that a function cannot have raises an error that may be around. -/
theorem raiseStray {body : List Stmt} (hbody : P.Tame body) {o : Outcome}
    (ho : P.Allows (P.stmtsSignal body) o) (hstray : o = .broke ∨ o = .continued) :
    P.Runs A hard (raiseStray o) Q := by
  have herr : ∀ id message, P.value (.err id "ControlError" message) := by
    rcases hstray with rfl | rfl
    all_goals
      obtain ⟨s, hs, hσ⟩ := ho
      exact (hbody s hs _ hσ).resolve_left nofun
  exact raiseErrorValue fun id => herr id _

variable [P.Lawful]

theorem catchOverflow (hp : P.Runs A hard p Q) : P.Runs A hard (catchOverflow p) Q := by
  refine hp.attempt.bind fun r hr => ?_
  split
  · exact raiseError (by decide) _
  · exact ofResult hr

theorem closureCall {c : Closure} (hc : P.Body c.body) (hargs : ∀ v ∈ args, P.value v) :
    P.Runs A hard (c.call args) (P.Allows (· = .returned)) := by
  refine inner c.scope fun scope => ?_
  have hnull : P.value .null := Lawful.plain _ trivial
  refine (modifyHeap fun h hh => ⟨holds_bindParams hnull hargs hh,
    grows_bindParams scope c.params args h⟩).bind fun _ _ => ?_
  have hexec : P.Runs (fun q _ => q = scope) hard (execAll scope c.body)
      (P.Allows (P.stmtsSignal c.body)) :=
    (execAll_runs c.body hc.2 scope).mono (fun _ _ hx => hx.1) fun _ ho => ho
  refine hexec.bind fun o ho => ?_
  cases o with
  | normal => exact pure ⟨rfl, hnull⟩
  | returned v => exact pure ⟨rfl, ho.2⟩
  | broke => exact raiseStray (Lawful.tame _ hc.1) ho (.inl rfl)
  | continued => exact raiseStray (Lawful.tame _ hc.1) ho (.inr rfl)

theorem callableCall (f : Callable) (hargs : ∀ v ∈ args, P.value v) :
    P.Runs A hard (f.call args) (P.Allows (· = .returned)) := by
  cases f with
  | closure r =>
    have hnil : P.Body [] := ⟨Lawful.empty, trivial⟩
    have hread : P.Runs A hard (.ask fun h => .ok (h.closure r)) fun c => P.Body c.body :=
      get fun _ hh => hh.closure hnil r
    exact hread.bind fun c hc => closureCall hc hargs
  | builtin b => exact (builtinCall b hargs).bind fun v hv => pure ⟨rfl, hv⟩

/-- The signals of a turn: the loop goes on, or the body has returned. -/
def turnSignals (P : Policy) (body : Stmt) (σ : Signal) : Prop :=
  σ = .continued ∨ σ = .returned ∧ body.Signals P.config.Loads .returned

theorem loopTurn {test step : Option Expr} {body : Stmt} {scope : Nat}
    (ht : P.Accepts (.loop test step body scope)) :
    P.Runs (P.stmtAdds body scope) hard (loopTurn test step body scope)
      (P.Allows (turnSignals P body)) := by
  obtain ⟨htest, hstep, hbody⟩ := ht
  have hgo : P.Runs (P.stmtAdds body scope) hard (loopStep step scope)
      (P.Allows (turnSignals P body)) := by
    cases step with
    | none => exact pure (.inl rfl)
    | some e => exact (eval_runs e hstep scope).bind fun _ _ => pure (.inl rfl)
  have hrest : P.Runs (P.stmtAdds body scope) hard (loopBody step body scope)
      (P.Allows (turnSignals P body)) := by
    refine (exec_runs body hbody scope).bind fun o ho => ?_
    cases o with
    | broke => exact pure trivial
    | returned v => exact pure ⟨.inr ⟨rfl, ho.1⟩, ho.2⟩
    | normal => exact hgo
    | continued => exact hgo
  cases test with
  | none => exact hrest
  | some e =>
    refine (eval_runs e htest scope).bind fun v hv => (scopeless (.isTruthy hv)).bind fun b _ => ?_
    split
    · exact hrest
    · exact pure trivial

end Runs

/-! ## Stacks -/

/-- Fails only as the policy tolerates. -/
def Strict (P : Policy) (R : Except Failure Outcome → State → Prop) : Prop :=
  ∀ f s, R (.error f) s → P.Tolerates hard f

/-- The frames make an end as in `Q` of a result as in `R`. -/
inductive Stacks (P : Policy) (Q : Except Failure Outcome → State → Prop) :
    (Except Failure Outcome → State → Prop) → List Frame → Prop where
  | nil : P.Strict Q → Stacks P Q Q []
  | resume {R R' : Except Failure Outcome → State → Prop} {depth : Nat} {k : Continuation}
      {frames : List Frame} :
      P.Strict R → (∀ r s, R r s → P.Meets R' (k r s)) → Stacks P Q R' frames →
      Stacks P Q R (.resume depth k :: frames)
  | again {R R' : Except Failure Outcome → State → Prop} {test step : Option Expr} {body : Stmt}
      {scope : Nat} {frames : List Frame} :
      P.Strict R → (∀ s, R (.ok .continued) s → P.Meets R (loopTurn test step body scope s)) →
      (∀ r s, R r s → r ≠ .ok .continued → R' r s) → Stacks P Q R' frames →
      Stacks P Q R (.again test step body scope :: frames)

/-- A machine that keeps to the policy and ends as `Q` says. -/
def Keeps (P : Policy) (Q : Except Failure Outcome → State → Prop) (m : Machine) : Prop :=
  ∃ R, P.Meets R m.current ∧ P.Stacks Q R m.frames

/-- What has come of a machine keeps to the policy. -/
def Goes (P : Policy) (Q : Except Failure Outcome → State → Prop) : Progress → Prop
  | .running m => P.Keeps Q m
  | .waiting d s resume => 0 ≤ d.length ∧ ∀ w, P.Keeps Q (resume { s with world := w })
  | .done r s => Q r s

variable {Q R : Except Failure Outcome → State → Prop} {frames : List Frame} {m m' : Machine}
  {r : Except Failure Outcome} {s s' : State}

theorem Stacks.strict (h : P.Stacks Q R frames) : P.Strict R := by
  cases h <;> assumption

theorem strict_taskEnds (t : Task) (s : State) : P.Strict (P.TaskEnds t s) :=
  fun f _ h => h.error f rfl

theorem Stacks.deliver (h : P.Stacks Q R frames) (hr : R r s) (depth : Nat) :
    P.Goes Q (Machine.deliver r s depth frames) := by
  induction h generalizing r with
  | nil => exact hr
  | resume _ hk hrest => exact ⟨_, hk r s hr, hrest⟩
  | again hstrict hturn hstop hrest ih =>
    rw [Machine.deliver.eq_def]
    dsimp only
    split
    · exact ⟨_, hturn s hr, .again hstrict hturn hstop hrest⟩
    · rename_i hne
      exact ih (hstop r s hr hne)

/-- A task that may be started keeps to the policy. -/
theorem Stacks.startTask [P.Lawful] {t : Task} (h : P.Stacks Q (P.TaskEnds t s) frames)
    (ht : P.Accepts t) (hs : P.Admits s) (depth : Nat) :
    P.Keeps Q (Machine.startTask t s frames depth) := by
  cases t with
  | call f args => exact ⟨_, ((Runs.callableCall f ht).enter depth).catchOverflow s hs, h⟩
  | module body scope => exact ⟨_, (Runs.enter (execAll_runs body ht scope) depth) s hs, h⟩
  | loop test step body scope =>
    have hturn := Runs.loopTurn ht
    refine ⟨_, hturn s hs, .again (fun f _ h' => h'.error f rfl) ?_ ?_ h⟩
    -- A later turn ends as one would that began where the loop did.
    · intro s₁ h₁
      exact (hturn s₁ h₁.admits).mono fun _ _ h' => h'.after h₁.grows
    · intro r s₁ h₁ hne
      refine ⟨h₁.admits, h₁.grows, fun o ho => ?_, h₁.error⟩
      subst ho
      have hallows := h₁.ok o rfl
      cases o with
      | normal => trivial
      | returned v =>
        obtain ⟨hσ | ⟨-, hσ⟩, hv⟩ := hallows
        · cases hσ
        · exact ⟨⟨rfl, hσ⟩, hv⟩
      | broke => exact absurd hallows (by simp [Allows, Runs.turnSignals])
      | continued => exact absurd rfl hne

/-! ## Runs -/

theorem Keeps.next [P.Lawful] (h : P.Keeps Q m) : P.Goes Q m.next := by
  obtain ⟨c, frames, depth⟩ := m
  obtain ⟨R, hc, hframes⟩ := h
  cases hc with
  | ret hr => exact hframes.deliver hr depth
  | fail hr => exact hframes.deliver hr depth
  | sub ht hs hk =>
    exact Stacks.startTask (.resume (strict_taskEnds _ _) hk hframes) ht hs depth
  | wait hd hk => exact ⟨hd, fun w => ⟨R, hk w, hframes⟩⟩

theorem Keeps.leads [P.Lawful] (h : P.Keeps Q m) (hm : m.Leads m') : P.Keeps Q m' := by
  induction hm with
  | refl m => exact h
  | move hnext _ ih =>
    have hgoes := h.next
    rw [hnext] at hgoes
    exact ih hgoes
  | wake w hnext _ ih =>
    have hgoes := h.next
    rw [hnext] at hgoes
    exact ih (hgoes.2 w)

theorem Runs.keeps {p : Proc Outcome} {Q : Outcome → Prop} (hp : P.Runs A hard p Q)
    (hs : P.Admits s) (depth : Nat) : P.Keeps (P.Ends A hard Q s) ⟨p s, [], depth⟩ :=
  ⟨_, hp s hs, .nil fun f _ h => h.error f rfl⟩

/-- A procedure that keeps to the policy ends as it says. -/
theorem Runs.ends [P.Lawful] {p : Proc Outcome} {Q : Outcome → Prop} (hp : P.Runs A hard p Q)
    (hs : P.Admits s) {depth : Nat} (hend : Machine.EndsWith ⟨p s, [], depth⟩ r s') :
    P.Ends A hard Q s r s' := by
  obtain ⟨m, hm, hnext⟩ := hend
  have hgoes := ((hp.keeps hs depth).leads hm).next
  rw [hnext] at hgoes
  exact hgoes

/-- Whatever fails along the way fails as the policy tolerates. -/
theorem Keeps.tolerates (h : P.Keeps Q m) {f : Failure} (hf : m.current = .fail f s) :
    P.Tolerates hard f := by
  obtain ⟨R, hc, hframes⟩ := h
  rw [hf] at hc
  cases hc with
  | fail hr => exact hframes.strict f s hr

/-- Nothing waits for less than no time. -/
theorem Keeps.zero_le_delay [P.Lawful] (h : P.Keeps Q m) {d : Delay} {resume : State → Machine}
    (hnext : m.next = .waiting d s resume) : 0 ≤ d.length := by
  have hgoes := h.next
  rw [hnext] at hgoes
  exact hgoes.1

end Policy

/-- A fresh run without a loader. -/
def State.bare : State :=
  ⟨⟨.absent, true, 0, false, []⟩, .initial, ⟨#[], ⟨[], []⟩, ⟨[], []⟩, [], 0, 0⟩, none, false⟩

end Hantec
