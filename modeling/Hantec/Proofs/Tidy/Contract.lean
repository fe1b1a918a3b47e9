import Hantec.Proofs.Run.Course
import Hantec.Proofs.Tidy.Heap

/-!
# The contract of tidy programs

While a tidy program runs under a policy, every part of it is begun in a state of the policy with a
tidy heap, and in a scope that is there. What is shown here are the rules of the parts that scripts
are made of.
-/

namespace Hantec

variable {α β : Type}

/-- The task binds free names only, and its scope is there. -/
def Task.IsTidy (h : Heap) : Task → Prop
  | .call _ _ => True
  | .loop test step body scope =>
    scope < h.scopes.size ∧ optionalExprTidy test ∧ optionalExprTidy step ∧ body.IsTidy
  | .module body scope => scope < h.scopes.size ∧ stmtsTidy body

namespace Site

def IsTidy (h : Heap) : Site → Prop
  | .expr e scope => scope < h.scopes.size ∧ e.IsTidy
  | .stmt s scope => scope < h.scopes.size ∧ s.IsTidy

def Obeys (R : Rules) : Site → Prop
  | .expr e _ => e.Obeys R
  | .stmt s _ => s.Obeys R

end Site

namespace Policy

/-- The errors of stray signals may be around as well. -/
class Lenient (P : Policy) : Prop extends P.Lawful where
  control : ∀ id message, P.value (.err id "ControlError" message)

instance (c : Config) : (any c).Lenient where
  control _ _ := trivial

theorem taskEnds_of_comesTo {P : Policy} [P.Lawful] {d : Nat} {t : Task} {s s' : State}
    {r : Except Failure Outcome} (h : ComesTo d (.task t s) r s') (ht : P.Accepts t)
    (hs : P.Admits s) : P.TaskEnds t s r s' := by
  have hframe : P.Stacks (P.TaskEnds t s) (P.TaskEnds t s)
      [.resume d fun r => (Proc.ofResult r).run] := by
    refine .resume (strict_taskEnds t s) (fun r s₁ h₁ => ?_) (.nil (strict_taskEnds t s))
    cases r with
    | ok o => exact .ret h₁
    | error e => exact .fail h₁
  have hgoes := ((hframe.startTask ht hs d).leads (h.leads _ [])).next
  cases r <;> exact hgoes

theorem Meets.of_comesTo {P : Policy} [P.Lawful] {α : Type} {d : Nat} {c : Step α} {s' : State}
    {r : Except Failure α} {R : Except Failure α → State → Prop} (hc : P.Meets R c)
    (h : ComesTo d (.step c) r s') : R r s' := by
  induction hc with
  | ret hr | fail hr =>
    cases h
    exact hr
  | sub ht hs _ ih =>
    cases h with
    | sub htask hk => exact ih _ _ (taskEnds_of_comesTo htask ht hs) hk
  | wait _ _ ih =>
    cases h with
    | wait w hk => exact ih w hk

variable (P : Policy)

/-- A state of the policy with a tidy heap. -/
structure Welcomes (s : State) : Prop where
  admits : P.Admits s
  tidy : s.heap.IsTidy

def contract : Contract where
  begins x s := P.Welcomes s ∧ x.Obeys P.rules ∧ x.IsTidy s.heap
  line l := l ≠ 0
  accepts t s := P.Welcomes s ∧ P.Accepts t ∧ t.IsTidy s.heap
  ends _ s _ s' := s.heap.Tidies s'.heap

/-- How what was begun in the state `s` may end: a result satisfies `Q`. -/
structure Finishes (Q : α → Prop) (s : State) (r : Except Failure α) (s' : State) : Prop where
  admits : P.Admits s'
  tidies : s.heap.Tidies s'.heap
  ok : ∀ a, r = .ok a → Q a
  error : ∀ e, r = .error e → P.Tolerates hard e

/-- A script that keeps to the contract in the scope `q`, with so many calls open, and whose result
satisfies `Q`. -/
def Follows (d q : Nat) (c : Script α) (Q : α → Prop) : Prop :=
  ∀ s, P.Welcomes s → q < s.heap.scopes.size → P.contract.ScriptMeets d c s (P.Finishes Q s)

variable {P} {d q : Nat} {Q Q' : α → Prop} {s s₁ s' : State}

namespace Finishes

variable {r : Except Failure α}

theorem welcomes (h : P.Finishes Q s r s') : P.Welcomes s' := ⟨h.admits, h.tidies.tidy⟩

theorem after (h : P.Finishes Q s₁ r s') (hs : s.heap.Tidies s₁.heap) : P.Finishes Q s r s' :=
  { h with tidies := hs.trans h.tidies }

theorem result (hs : P.Admits s') (ht : s.heap.Tidies s'.heap) {a : α} (ha : Q a) :
    P.Finishes Q s (.ok a) s' where
  admits := hs
  tidies := ht
  ok _ h := Except.ok.inj h ▸ ha
  error _ h := nomatch h

/-- What has failed has no result to be judged. -/
theorem failure {Q' : β → Prop} {e : Failure} (h : P.Finishes Q s (.error e) s') :
    P.Finishes Q' s (.error e) s' where
  admits := h.admits
  tidies := h.tidies
  ok _ h := nomatch h
  error _ he := Except.error.inj he ▸ h.error e rfl

end Finishes

/-! ## Steps -/

/-- A calm step that keeps to the policy keeps to the contract. -/
theorem stepMeets_of_calm [P.Lawful] {R R' : Except Failure α → State → Prop} {c : Step α}
    (hc : P.Meets R c) {h : Heap} (hcalm : c.Calm h) (hh : h.IsTidy)
    (hR : ∀ r s', R r s' → h.Tidies s'.heap → R' r s') : P.contract.StepMeets d R' c := by
  induction hc generalizing h with
  | ret hr =>
    cases hcalm with
    | ret hs => exact .ret (hR _ _ hr (hh.ofSame hs))
  | fail hr =>
    cases hcalm with
    | fail hs _ => exact .fail (hR _ _ hr (hh.ofSame hs))
  | @sub t s k ht hs hk ih =>
    cases hcalm with
    | sub hsame hraised hcalm =>
      have hbegin := hh.ofSame hsame
      refine .sub ⟨⟨hs, hbegin.tidy⟩, ht, trivial⟩ fun r s' htask hend => ?_
      have htaskEnds := taskEnds_of_comesTo htask ht hs
      rcases exists_raised_or r with ⟨v, line, rfl⟩ | hr
      · have hmeets := hk _ _ htaskEnds
        rw [hraised] at hmeets ⊢
        cases hmeets with
        | fail hr => exact .fail (hR _ _ hr (hbegin.trans hend))
      · refine ih r s' htaskEnds (hcalm r s' hr) hend.tidy fun r s'' hr ht => ?_
        exact hR r s'' hr (hbegin.trans (hend.trans ht))
  | wait hd _ ih =>
    cases hcalm with
    | wait hsame hk =>
      have hbegin := hh.ofSame hsame
      refine .wait fun w => ih w (hk _) hbegin.tidy fun r s' hr ht => ?_
      exact hR r s' hr (hbegin.trans ht)

namespace Follows

variable {c : Script α} {p : Proc α}

theorem calm [P.Lawful] (hp : P.Runs (fun _ _ => True) hard p Q) (hcalm : p.IsCalm) :
    P.Follows d q (.run p) Q := by
  refine fun s hs _ => ⟨?_, hcalm.forwards s⟩
  refine stepMeets_of_calm (hp s hs.admits) (hcalm s) hs.tidy fun r s' hr ht => ?_
  exact ⟨hr.admits, ht, hr.ok, hr.error⟩

theorem scopeless [P.Lawful] [Holding α] (hp : P.Runs (fun _ _ => True) hard p Q)
    (hscopeless : Proc.Scopeless True true p) : P.Follows d q (.run p) Q :=
  calm hp hscopeless.isCalm

theorem raiseError [P.Lawful] {name : String} (hname : name ≠ "ControlError") (message : String) :
    P.Follows d q (.run (Proc.raiseError name message)) Q :=
  calm (.raiseError hname message) (.raiseError name message)

theorem pure {a : α} (ha : Q a) : P.Follows d q (.run (Pure.pure a)) Q :=
  fun _ hs _ => ⟨.ret (.result hs.admits hs.tidy.refl ha), .ret _ _⟩

/-- What only changes the heap and yields something. -/
theorem onHeap {f : Heap → α × Heap}
    (hf : ∀ h, P.Holds h → h.IsTidy → q < h.scopes.size →
      Q (f h).1 ∧ P.Holds (f h).2 ∧ h.Tidies (f h).2) :
    P.Follows d q (.run (.onHeap f)) Q := by
  intro s hs hq
  obtain ⟨ha, hholds, ht⟩ := hf s.heap hs.admits.heap hs.tidy hq
  exact ⟨.ret (.result (hs.admits.withHeap hholds) ht ha), .ret _ _⟩

theorem define (scope : Nat) {name : String} (hname : IsFree name) {v : Value} (hv : P.value v) :
    P.Follows d q (.run (.modifyHeap (·.define scope name v))) fun _ => True :=
  onHeap (f := fun h => ((), h.define scope name v)) fun _ hh ht _ =>
    ⟨trivial, hh.define scope name hv, ht.define scope hname v⟩

theorem writeName [P.Lawful] (scope : Nat) {name : String} (hname : IsFree name) {v : Value}
    (hv : P.value v) : P.Follows d q (.run (writeName scope name v)) fun _ => True := by
  intro s hs hq
  show P.contract.StepMeets d _ ((Hantec.writeName scope name v).run s) ∧
    ((Hantec.writeName scope name v).run s).Forwards
  have hask : (Proc.ask fun h => .ok (h.resolve scope name)).run s =
      .ret (s.heap.resolve scope name) s := Proc.run_ask s rfl
  rw [Hantec.writeName, Proc.run_bind, hask, Step.bind_ret]
  cases s.heap.resolve scope name with
  | some owner => exact define owner hname hv s hs hq
  | none =>
    have herror : P.Follows d q (.run (Proc.raiseError "NameError" s!"unknown variable '{name}'"))
        fun _ : Unit => True := raiseError (by decide) _
    exact herror s hs hq

theorem makeClosure [P.Lawful] {c : Closure} (hbody : P.Body c.body)
    (hparams : ∀ p ∈ c.params, IsFree p) (htidy : stmtsTidy c.body) (hscope : c.scope = q) :
    P.Follows d q (.run (makeClosure c)) P.value :=
  onHeap fun _ hh ht hq =>
    ⟨Lawful.plain _ trivial, hh.newClosure hbody, ht.newClosure ⟨hscope ▸ hq, hparams, htidy⟩⟩

/-- Performs a task whose outcome may be around. -/
theorem perform [P.Lawful] {t : Task} (ht : P.Accepts t)
    (htidy : ∀ h : Heap, q < h.scopes.size → t.IsTidy h) :
    P.Follows d q (.run (Proc.perform t)) (P.Allows fun _ => True) := by
  intro s hs hq
  refine ⟨.sub ⟨hs, ht, htidy _ hq⟩ fun r s' htask hend => ?_, .sub (fun _ _ _ => rfl) ?_⟩
  · have hends := taskEnds_of_comesTo htask ht hs.admits
    cases r with
    | ok o =>
      refine .ret (.result hends.admits hend ((hends.ok o rfl).mono fun _ _ => trivial))
    | error e =>
      exact .fail ⟨hends.admits, hend, nofun, fun _ he => Except.error.inj he ▸ hends.error e rfl⟩
  · intro r s hr
    cases r with
    | ok o => exact .ret o s
    | error e => exact .fail s fun v line he => absurd (congrArg Except.error he) (hr v line)

/-! ## Scripts -/

theorem bind {f : α → Script β} {Q' : β → Prop} (hc : P.Follows d q c Q)
    (hf : ∀ a, Q a → P.Follows d q (f a) Q') : P.Follows d q (.bind c f) Q' := by
  intro s hs hq
  refine (hc s hs hq).mono fun r s₁ h₁ => ⟨fun a ha => ?_, fun e he => ?_⟩
  · refine (hf a (h₁.ok a ha) s₁ h₁.welcomes (h₁.tidies.lt_size hq)).mono fun _ _ h => ?_
    exact h.after h₁.tidies
  · subst he
    exact h₁.failure

/-- What goes on in a new scope. -/
theorem inner {f : Nat → Script α} (hf : ∀ new, P.Follows d new (f new) Q) :
    P.Follows d q (.bind (.run (innerScope q)) f) Q := by
  intro s hs hq
  have hgrown := hs.tidy.newScope hq
  have hs₁ := hs.admits.withHeap (hs.admits.heap.newScope (some q))
  refine ⟨.ret ⟨fun new hnew => ?_, nofun⟩, .ret _ _⟩
  obtain rfl := Except.ok.inj hnew
  refine (hf _ _ ⟨hs₁, hgrown.tidy⟩ ?_).mono fun _ _ h => h.after hgrown
  show s.heap.scopes.size < (s.heap.newScope (some q)).2.scopes.size
  simp [Heap.newScope]

theorem expr {e : Expr} {c : Script α} (hobeys : e.Obeys P.rules) (htidy : e.IsTidy)
    (hc : P.Follows d q c Q) : P.Follows d q (.site (.expr e q) c) Q :=
  fun s hs hq => ⟨⟨hs, hobeys, hq, htidy⟩, hc s hs hq⟩

theorem stmt {x : Stmt} {c : Script α} (hobeys : x.Obeys P.rules) (htidy : x.IsTidy)
    (hc : P.Follows d q c Q) : P.Follows d q (.site (.stmt x q) c) Q :=
  fun s hs hq => ⟨⟨hs, hobeys, hq, htidy⟩, hc s hs hq⟩

variable {c c' : Script Outcome} {Q : Outcome → Prop}

theorem within {line : Int} (hline : line ≠ 0) (hc : P.Follows d q c Q) :
    P.Follows d q (.within line c) Q := by
  refine fun s hs hq => ⟨hline, (hc s hs hq).mono fun r s' h => ?_⟩
  rcases r with (⟨v, l⟩ | f | code | _) | o
  · rw [mapError_raised hline]
    have hv : P.value v := h.error (.raised v l) rfl
    exact ⟨h.admits, h.tidies, nofun, fun _ he => Except.error.inj he ▸ hv⟩
  all_goals exact h

theorem guard {handler : Value → Script Outcome} (hc : P.Follows d q c Q)
    (hhandler : ∀ v, P.value v → P.Follows d q (handler v) Q) :
    P.Follows d q (.guard c handler) Q := by
  intro s hs hq
  refine (hc s hs hq).mono fun r s₁ h₁ => ⟨fun v line hr => ?_, fun _ => h₁⟩
  have hfollows := hhandler v (h₁.error _ hr) s₁ h₁.welcomes (h₁.tidies.lt_size hq)
  exact hfollows.mono fun _ _ h => h.after h₁.tidies

theorem ensure (hc : P.Follows d q c Q) (hc' : P.Follows d q c' Q) :
    P.Follows d q (.ensure c c') Q := by
  intro s hs hq
  refine (hc s hs hq).mono fun r s₁ h₁ => ⟨fun _ => ?_, fun _ _ _ => h₁⟩
  refine (hc' s₁ h₁.welcomes (h₁.tidies.lt_size hq)).mono fun r' s' h' => ⟨fun _ => ?_, fun _ => ?_⟩
  · exact ⟨h'.admits, h₁.tidies.trans h'.tidies, h₁.ok, h₁.error⟩
  · exact h'.after h₁.tidies

/-- What is tried, with its handler. -/
theorem handled {name : Option String} {handler : Option (List Stmt)}
    (hc : P.Follows d q c Q) (hname : ∀ x ∈ name, IsFree x)
    (hhandler : ∀ h, handler = some h → ∀ q, P.Follows d q (bodyScript q h) Q) :
    P.Follows d q (match handler with
      | some h => .guard c fun v => .bind (.run (innerScope q)) fun inner =>
        .bind (.run (bindCaught inner name v)) fun _ => bodyScript inner h
      | none => c) Q := by
  cases handler with
  | none => exact hc
  | some h =>
    refine hc.guard fun v hv => inner fun new => ?_
    refine Follows.bind (Q := fun _ => True) ?_ fun _ _ => hhandler h rfl new
    cases name with
    | none => exact pure trivial
    | some x => exact define new (hname x rfl) hv

end Follows

end Policy

end Hantec
