import Hantec.Proofs.Padding.Ends

/-!
# Loops with clauses

A loop with clauses does the same as a block with its first clause and a plain loop, in which the
last clause comes after the body, unless the body can end with `continued`. In any case it goes
around in laps: the test holds, the body ends normally or with `continued`, and the last clause is
evaluated once. In the lap that is not finished, the last clause is evaluated only if the body
ended in this way, and then it fails.
-/

namespace Hantec

variable {d q : Nat} {s s' : State} {test step : Option Expr} {body : Stmt}
  {r : Except Failure Outcome}

/-! ## Laps -/

/-- The test of a loop, which holds if there is none. -/
def loopTest (test : Option Expr) (q : Nat) : Proc Bool :=
  test.elim (pure true) fun e => e.eval q >>= Proc.isTruthy

theorem loopTurn_eq (test step : Option Expr) (body : Stmt) (q : Nat) :
    loopTurn test step body q =
      loopTest test q >>= fun b => if b then loopBody step body q else pure .normal := by
  cases test with
  | none => rfl
  | some e => exact (Proc.bind_assoc _ _ _).symm

/-- The body of a loop lets it go on. -/
def Outcome.GoesOn (o : Outcome) : Prop := o = .normal ∨ o = .continued

/-- One lap of a loop. -/
inductive Lap (d : Nat) (test step : Option Expr) (body : Stmt) (q : Nat) (s s' : State) :
    Prop where
  | mk {o : Outcome} {s₁ s₂ : State} : (loopTest test q).Ends d s (.ok true) s₁ →
      (body.exec q).Ends d s₁ (.ok o) s₂ → o.GoesOn →
      (loopStep step q).Ends d s₂ (.ok .continued) s' → Lap d test step body q s s'

/-- The lap of a loop that is not finished. -/
inductive LastLap (d : Nat) (test step : Option Expr) (body : Stmt) (q : Nat) (s : State) :
    Except Failure Outcome → State → Prop where
  | finishes {s' : State} : (loopTest test q).Ends d s (.ok false) s' →
      LastLap d test step body q s (.ok .normal) s'
  | testFails {e : Failure} {s' : State} : (loopTest test q).Ends d s (.error e) s' →
      LastLap d test step body q s (.error e) s'
  | leaves {s₁ s' : State} : (loopTest test q).Ends d s (.ok true) s₁ →
      (body.exec q).Ends d s₁ (.ok .broke) s' → LastLap d test step body q s (.ok .normal) s'
  | returns {v : Value} {s₁ s' : State} : (loopTest test q).Ends d s (.ok true) s₁ →
      (body.exec q).Ends d s₁ (.ok (.returned v)) s' →
      LastLap d test step body q s (.ok (.returned v)) s'
  | bodyFails {e : Failure} {s₁ s' : State} : (loopTest test q).Ends d s (.ok true) s₁ →
      (body.exec q).Ends d s₁ (.error e) s' → LastLap d test step body q s (.error e) s'
  | stepFails {o : Outcome} {e : Failure} {s₁ s₂ s' : State} :
      (loopTest test q).Ends d s (.ok true) s₁ → (body.exec q).Ends d s₁ (.ok o) s₂ → o.GoesOn →
      (loopStep step q).Ends d s₂ (.error e) s' → LastLap d test step body q s (.error e) s'

def afterBody (step : Option Expr) (q : Nat) : Outcome → Proc Outcome
  | .broke => pure .normal
  | .returned v => pure (.returned v)
  | .normal | .continued => loopStep step q

theorem loopBody_eq (step : Option Expr) (body : Stmt) (q : Nat) :
    loopBody step body q = body.exec q >>= afterBody step q := rfl

theorem loopStep_ok {o : Outcome} (h : (loopStep step q).Ends d s (.ok o) s') : o = .continued := by
  cases step with
  | none => exact Except.ok.inj (Proc.ends_pure_iff.1 h).1
  | some e =>
    obtain ⟨_, _, -, hend⟩ | ⟨_, hend, -⟩ := Proc.ends_bind_iff.1 h
    · exact Except.ok.inj (Proc.ends_pure_iff.1 hend).1
    · cases hend

/-- A turn of a loop in its parts. -/
theorem ends_turn_iff :
    (loopTurn test step body q).Ends d s r s' ↔
      (∃ s₁, (loopTest test q).Ends d s (.ok true) s₁ ∧
        ((∃ o s₂, (body.exec q).Ends d s₁ (.ok o) s₂ ∧ (afterBody step q o).Ends d s₂ r s') ∨
          ∃ e, r = .error e ∧ (body.exec q).Ends d s₁ (.error e) s')) ∨
      (loopTest test q).Ends d s (.ok false) s' ∧ r = .ok .normal ∨
      ∃ e, r = .error e ∧ (loopTest test q).Ends d s (.error e) s' := by
  rw [loopTurn_eq, Proc.ends_bind_iff]
  constructor
  · rintro (⟨b, s₁, htest, hrest⟩ | hfails)
    · cases b with
      | true => exact .inl ⟨s₁, htest, Proc.ends_bind_iff.1 hrest⟩
      | false =>
        obtain ⟨rfl, rfl⟩ := Proc.ends_pure_iff.1 hrest
        exact .inr (.inl ⟨htest, rfl⟩)
    · exact .inr (.inr hfails)
  · rintro (⟨s₁, htest, hrest⟩ | ⟨htest, rfl⟩ | hfails)
    · exact .inl ⟨true, s₁, htest, Proc.ends_bind_iff.2 hrest⟩
    · exact .inl ⟨false, s', htest, Proc.ends_pure_iff.2 ⟨rfl, rfl⟩⟩
    · exact .inr hfails

theorem afterBody_of_goesOn {o : Outcome} (ho : o.GoesOn) :
    afterBody step q o = loopStep step q := by
  obtain rfl | rfl := ho <;> rfl

theorem ends_turn_continued_iff :
    (loopTurn test step body q).Ends d s (.ok .continued) s' ↔ Lap d test step body q s s' := by
  rw [ends_turn_iff]
  constructor
  · rintro (⟨s₁, htest, ⟨o, s₂, hbody, hafter⟩ | ⟨_, he, -⟩⟩ | ⟨-, ho⟩ | ⟨_, he, -⟩)
    · cases o with
      | normal => exact .mk htest hbody (.inl rfl) hafter
      | continued => exact .mk htest hbody (.inr rfl) hafter
      | broke | returned => cases (Proc.ends_pure_iff.1 hafter).1
    · cases he
    · cases ho
    · cases he
  · rintro ⟨htest, hbody, ho, hstep⟩
    exact .inl ⟨_, htest, .inl ⟨_, _, hbody, afterBody_of_goesOn ho ▸ hstep⟩⟩

theorem ends_turn_last_iff :
    (loopTurn test step body q).Ends d s r s' ∧ r ≠ .ok .continued ↔
      LastLap d test step body q s r s' := by
  rw [ends_turn_iff]
  constructor
  · rintro ⟨⟨s₁, htest, ⟨o, s₂, hbody, hafter⟩ | ⟨e, rfl, hbody⟩⟩ | ⟨htest, rfl⟩ | ⟨e, rfl, htest⟩, hr⟩
    · have hstep (ho : o.GoesOn) : LastLap d test step body q s r s' := by
        rw [afterBody_of_goesOn ho] at hafter
        cases r with
        | ok o' => exact absurd (congrArg Except.ok (loopStep_ok hafter)) hr
        | error e => exact .stepFails htest hbody ho hafter
      cases o with
      | normal => exact hstep (.inl rfl)
      | continued => exact hstep (.inr rfl)
      | broke =>
        obtain ⟨rfl, rfl⟩ := Proc.ends_pure_iff.1 hafter
        exact .leaves htest hbody
      | returned v =>
        obtain ⟨rfl, rfl⟩ := Proc.ends_pure_iff.1 hafter
        exact .returns htest hbody
    · exact .bodyFails htest hbody
    · exact .finishes htest
    · exact .testFails htest
  · intro h
    cases h with
    | finishes htest => exact ⟨.inr (.inl ⟨htest, rfl⟩), by simp⟩
    | testFails htest => exact ⟨.inr (.inr ⟨_, rfl, htest⟩), by simp⟩
    | leaves htest hbody =>
      exact ⟨.inl ⟨_, htest, .inl ⟨_, _, hbody, Proc.ends_pure_iff.2 ⟨rfl, rfl⟩⟩⟩, by simp⟩
    | returns htest hbody =>
      exact ⟨.inl ⟨_, htest, .inl ⟨_, _, hbody, Proc.ends_pure_iff.2 ⟨rfl, rfl⟩⟩⟩, by simp⟩
    | bodyFails htest hbody => exact ⟨.inl ⟨_, htest, .inr ⟨_, rfl, hbody⟩⟩, by simp⟩
    | stepFails htest hbody ho hstep =>
      exact ⟨.inl ⟨_, htest, .inl ⟨_, _, hbody, afterBody_of_goesOn ho ▸ hstep⟩⟩, by simp⟩

/-- A loop goes around in laps, up to one that is not finished. -/
theorem ends_loop_iff :
    (Proc.perform (.loop test step body q)).Ends d s r s' ↔
      ∃ s₁, Laps (Lap d test step body q) s s₁ ∧ LastLap d test step body q s₁ r s' := by
  have hlap : ((loopTurn test step body q).Ends d · (.ok .continued)) = Lap d test step body q :=
    funext fun _ => funext fun _ => propext ends_turn_continued_iff
  simp only [Proc.ends_perform_iff, comesTo_loop_iff, ends_turn_last_iff, hlap]

def firstClause (init : Option Stmt) (q : Nat) : Proc Unit :=
  init.elim (pure ()) fun x => x.exec q >>= fun _ => pure ()

theorem exec_circuit (init : Option Stmt) (test step : Option Expr) (body : Stmt) (q : Nat) :
    (Form.circuit init test step body).exec q = innerScope q >>= fun n =>
      firstClause init n >>= fun _ => Proc.perform (.loop test step body n) := by
  rw [Form.exec.eq_def]
  cases init with
  | none => rfl
  | some x =>
    have hclause (n : Nat) : (x.exec n >>= fun _ => Proc.perform (.loop test step body n)) =
        firstClause (some x) n >>= fun _ => Proc.perform (.loop test step body n) :=
      (Proc.bind_assoc (x.exec n) (fun _ => pure ())
        fun _ => Proc.perform (.loop test step body n)).symm
    show innerScope q >>= (fun n => x.exec n >>= fun _ => Proc.perform (.loop test step body n)) = _
    simp only [hclause]

/-- The state after a new scope was entered. -/
def State.entered (s : State) (q : Nat) : State :=
  { s with heap := (s.heap.newScope (some q)).2 }

/-- A loop with clauses evaluates the first one in a new scope and then goes around. -/
theorem ends_circuit_iff {init : Option Stmt} :
    ((Form.circuit init test step body).exec q).Ends d s r s' ↔
      (∃ s₁, (firstClause init s.heap.scopes.size).Ends d (s.entered q) (.ok ()) s₁ ∧
        ∃ s₂, Laps (Lap d test step body s.heap.scopes.size) s₁ s₂ ∧
          LastLap d test step body s.heap.scopes.size s₂ r s') ∨
      ∃ e, r = .error e ∧
        (firstClause init s.heap.scopes.size).Ends d (s.entered q) (.error e) s' := by
  have hinner : (innerScope q).run s = .ret s.heap.scopes.size (s.entered q) := rfl
  rw [exec_circuit, Proc.ends_bind_of_run_ret hinner, Proc.ends_bind_iff]
  simp only [ends_loop_iff]
  constructor
  · rintro (⟨⟨⟩, s₁, hfirst, hloop⟩ | hfails)
    · exact .inl ⟨s₁, hfirst, hloop⟩
    · exact .inr hfails
  · rintro (⟨s₁, hfirst, hloop⟩ | hfails)
    · exact .inl ⟨(), s₁, hfirst, hloop⟩
    · exact .inr hfails

/-! ## Plain loops -/

/-- The plain loop with a first clause, in a block. -/
def Form.plain (line : Int) (init : Option Stmt) (test step : Option Expr) (body : Stmt) : Form :=
  .block (init.toList ++ [.mk line (.loop (test.getD (.constant (.bool true)))
    (.mk line (.block (body :: step.toList.map fun e => .mk line (.expr e)))))])

/-- No run of the statement ends with `continued`. -/
def Stmt.NeverSkips (c : Config) (x : Stmt) : Prop :=
  ∀ d q s s', s.config = c → ¬ (x.exec q).Ends d s (.ok .continued) s'

theorem Stmt.allows_of_ends {x : Stmt} {o : Outcome} (h : (x.exec q).Ends d s (.ok o) s') :
    (Policy.any s.config).Allows (x.Signals s.config.Loads) o := by
  have hobeys := x.obeys (Policy.allowsAll_any s.config)
  have hends := (Policy.exec_runs x hobeys q).ends (Policy.admits_any s)
    (Proc.ends_iff_endsWith.1 h)
  exact hends.ok o rfl

/-- It is enough that neither the statement nor a module that it loads has such a signal. -/
theorem Stmt.neverSkips_of_not_signals {c : Config} {x : Stmt}
    (h : ¬ x.Signals c.Loads .continued) : x.NeverSkips c := by
  rintro d q s s' rfl hend
  exact h (allows_of_ends hend)

/-- A first clause declares a variable or evaluates an expression. -/
inductive Stmt.IsClause : Stmt → Prop where
  | declare (line : Int) (name : String) (init : Option Expr) :
      IsClause (.mk line (.declare name init))
  | expr (line : Int) (e : Expr) : IsClause (.mk line (.expr e))

theorem Stmt.IsClause.ends_normal {x : Stmt} (hx : x.IsClause) {o : Outcome}
    (h : (x.exec q).Ends d s (.ok o) s') : o = .normal := by
  have hsignals (σ : Signal) : ¬ x.Signals s.config.Loads σ := by
    intro hσ
    cases hx <;> cases hσ
  have hallows := allows_of_ends h
  cases o with
  | normal => rfl
  | returned v => exact absurd hallows.1 (hsignals _)
  | broke | continued => exact absurd hallows (hsignals _)

theorem loopTest_getD (test : Option Expr) (q : Nat) :
    loopTest (some (test.getD (.constant (.bool true)))) q = loopTest test q := by
  cases test with
  | some e => rfl
  | none =>
    show (Expr.constant (.bool true)).eval q >>= Proc.isTruthy = pure true
    rw [Expr.eval]
    rfl

/-- What the body of the plain loop does after the body of the loop with clauses. -/
def thenStep (step : Option Expr) (q : Nat) : Outcome → Proc Outcome
  | .normal => step.elim (pure .normal) fun e => e.eval q >>= fun _ => pure .normal
  | o => pure o

theorem thenStep_afterBody {o : Outcome} (ho : o ≠ .continued) :
    thenStep step q o >>= afterBody none q = afterBody step q o := by
  cases o with
  | continued => exact absurd rfl ho
  | broke | returned => rfl
  | normal =>
    cases step with
    | none => rfl
    | some e => exact Proc.bind_assoc _ _ _

/-- If the body does not end with `continued`, the last clause may be a part of it. -/
theorem ends_loopBody_iff
    (hskip : ∀ s', ¬ (body.exec q).Ends d s (.ok .continued) s') :
    (loopBody step body q).Ends d s r s' ↔
      (body.exec q >>= thenStep step q >>= afterBody none q).Ends d s r s' := by
  rw [Proc.bind_assoc, loopBody_eq, Proc.ends_bind_iff, Proc.ends_bind_iff]
  refine or_congr_left (exists_congr fun o => exists_congr fun s₁ => and_congr_right fun hbody => ?_)
  rw [thenStep_afterBody]
  rintro rfl
  exact hskip s₁ hbody

theorem Accord.Procs.loopTest {ω : Type} {A : Accord ω} [A.Lawful] {w : ω} {q' : Nat}
    (hq : A.views w q q') : A.Procs A.Breaks w (loopTest test q) (loopTest test q') := by
  cases test with
  | none => exact pure _
  | some e => exact (eval e hq).bind fun v => scopeless (.isTruthy trivial)

namespace Padding

open Accord

variable {cfg : Config} [(cfg.padding 4).Lawful] {P Q : Pairing} {q' : Nat} {line : Int}

/-- The body and the last clause in a scope of their own. -/
theorem agree_body_step {bodyLine : Int} {body : List Stmt} (hs : States cfg P s s')
    (hq : P.views q q') :
    Agree cfg (·.atLine line) d P
      (.step (((Stmt.mk bodyLine (.block body)).exec q >>= thenStep step q).run s))
      (.step (((Stmt.mk line (.block (.mk bodyLine (.block body) ::
        step.toList.map fun e => .mk line (.expr e)))).exec q').run s')) := by
  refine agree_exec_right hs fun t' ht => ?_
  rw [Form.exec]
  refine agree_inner_right ht hq fun Q n' t' _ hn ht => ?_
  rw [execAll_cons]
  refine (agree_procs (Procs.execBlock bodyLine body hn) ht).bind fun o Q t t' hQ _ ht => ?_
  cases o with
  | broke | returned | continued => exact agree_ret ht _
  | normal =>
    cases step with
    | none =>
      show Agree cfg _ _ _ _ (.step ((execAll n' []).run t'))
      rw [execAll]
      exact agree_ret ht _
    | some e =>
      show Agree cfg _ _ _ _ (.step ((execAll n' [.mk line (.expr e)]).run t'))
      rw [execAll_single]
      refine agree_exec_right ht fun u' hu => ?_
      rw [Form.exec]
      exact (agree_procs (Procs.eval e (hQ.views hn)) hu).bind fun _ _ _ _ _ _ hv => agree_ret hv _

/-- The turns of the two loops. -/
theorem agree_turn {bodyLine : Int} {body : List Stmt}
    (hskip : (Stmt.mk bodyLine (.block body)).NeverSkips cfg) (hs : States cfg P s s')
    (hq : P.views q q') :
    Agree cfg (·.atLine line) d P
      (.step ((loopTurn test step (.mk bodyLine (.block body)) q).run s))
      (.step ((loopTurn (some (test.getD (.constant (.bool true)))) none
        (.mk line (.block (.mk bodyLine (.block body) ::
          step.toList.map fun e => .mk line (.expr e)))) q').run s')) := by
  rw [loopTurn_eq, loopTurn_eq, loopTest_getD]
  refine (agree_procs (Procs.loopTest hq) hs).bind fun b Q t t' hQ _ ht => ?_
  cases b with
  | false => exact agree_ret ht _
  | true =>
    refine Agree.congr_left ?_ fun r u => ends_loopBody_iff fun u => hskip d q t u ht.config
    refine (agree_body_step ht (hQ.views hq)).bind fun o R u u' _ _ hu => ?_
    cases o with
    | normal | broke | returned | continued => exact agree_ret hu _

/-- The loop with clauses and the plain one. -/
theorem agree_circuit {bodyLine : Int} {body : List Stmt} {init : Option Stmt}
    (hinit : ∀ x ∈ init, x.IsClause)
    (hskip : (Stmt.mk bodyLine (.block body)).NeverSkips cfg) (hs : States cfg P s s')
    (hq : P.views q q') :
    Agree cfg (·.atLine line) d P
      (.step (((Form.circuit init test step (.mk bodyLine (.block body))).exec q).run s))
      (.step (((Form.plain line init test step (.mk bodyLine (.block body))).exec q').run s')) := by
  rw [Form.exec.eq_def, Form.plain, Form.exec.eq_def]
  refine agree_inner hs hq fun Q n n' t t' _ hn ht => ?_
  have hloop {R : Pairing} {u u' : State} (hQR : Q ≤ R) (hu : States cfg R u u') :
      Agree cfg (·.atLine line) d R
        (.step ((Proc.perform (.loop test step (.mk bodyLine (.block body)) n)).run u))
        (.step ((execAll n' [.mk line (.loop (test.getD (.constant (.bool true)))
          (.mk line (.block (.mk bodyLine (.block body) ::
            step.toList.map fun e => .mk line (.expr e)))))]).run u')) := by
    rw [execAll_single]
    refine agree_exec_right hu fun v' hv => ?_
    rw [Form.exec]
    exact agree_loop (fun R' x x' hR' hx =>
      agree_turn hskip hx (R'.home_view (hR'.homes (hQR.homes hn)))) hv
  cases init with
  | none => exact hloop (Pairing.le_refl _) ht
  | some x =>
    show Agree cfg _ _ _ _ (.step ((execAll n' (x :: [_])).run t'))
    rw [execAll_cons]
    refine (agree_procs (Procs.exec x hn) ht).bind fun o R u u' hR hend hu => ?_
    obtain rfl := (hinit x rfl).ends_normal hend
    exact hloop hR hu

end Padding

/-- From every state whose scopes are nested, a loop with clauses and a block as its body is
exchangeable with the plain loop, if its body never ends with `continued`, unless scripts can see
which statements are traced. From every state at all and with any block as its body, it goes around
in laps: the last clause is evaluated once after each body that ends normally or with `continued`,
before the next test, and after no other one. -/
theorem circuit_exchangeable (d : Nat) (line bodyLine : Int) (init : Option Stmt)
    (test step : Option Expr) (body : List Stmt) :
    (s.heap.Nested → s.config.HidesStatements → q < s.heap.scopes.size →
      (∀ x ∈ init, x.IsClause) → (Stmt.mk bodyLine (.block body)).NeverSkips s.config →
      Stmt.Exchangeable d q s (.mk line (.circuit init test step (.mk bodyLine (.block body))))
        (.mk line (.plain line init test step (.mk bodyLine (.block body))))) ∧
    ∀ r s', ((Form.circuit init test step (.mk bodyLine (.block body))).exec q).Ends d s r s' ↔
      (∃ s₁, (firstClause init s.heap.scopes.size).Ends d (s.entered q) (.ok ()) s₁ ∧
        ∃ s₂, Laps (Lap d test step (.mk bodyLine (.block body)) s.heap.scopes.size) s₁ s₂ ∧
          LastLap d test step (.mk bodyLine (.block body)) s.heap.scopes.size s₂ r s') ∨
      ∃ e, r = .error e ∧
        (firstClause init s.heap.scopes.size).Ends d (s.entered q) (.error e) s' := by
  refine ⟨fun hheap hhidden hq hinit hskip => ?_, fun r s' => ends_circuit_iff⟩
  have hstates := Padding.states hheap 4
  have := Padding.lawful hhidden
  have hview : (Pairing.below s.heap.scopes.size).views q q := ⟨rfl, hq⟩
  exact (Padding.agree_exec hstates fun t t' ht =>
    Padding.agree_circuit hinit hskip ht hview).exchangeable

/-- `nech i = 0` -/
def countFrom : Stmt := .mk 1 (.declare "i" (some (.constant (.num 0))))

/-- `i < 3` -/
def countTo : Expr := .binary .lt (.variable "i") (.constant (.num 3))

/-- `f = rob () { vrat i piča }` -/
def capture : Stmt :=
  .mk 2 (.expr (.assign "f" (.function [] [.mk 2 (.ret (some (.variable "i")))])))

/-- A function captures the variable of a loop. -/
theorem circuit_exchangeable_capture :
    State.bare.heap.Nested ∧ State.bare.config.HidesStatements ∧
    0 < State.bare.heap.scopes.size ∧ (∀ x ∈ some countFrom, x.IsClause) ∧
    (Stmt.mk 1 (.block [capture])).NeverSkips State.bare.config ∧
    Stmt.Exchangeable 0 0 State.bare
      (.mk 1 (.circuit (some countFrom) (some countTo) (some (.step "i" .increment))
        (.mk 1 (.block [capture]))))
      (.mk 1 (.plain 1 (some countFrom) (some countTo) (some (.step "i" .increment))
        (.mk 1 (.block [capture])))) := by
  have hheap : State.bare.heap.Nested := Heap.isTidy_initial.nested
  have hhidden : State.bare.config.HidesStatements := .inl (by decide)
  have hq : 0 < State.bare.heap.scopes.size := Heap.isTidy_initial.root
  have hinit : ∀ x ∈ some countFrom, x.IsClause := by
    rintro x ⟨⟩
    exact .declare _ _ _
  have hskip : (Stmt.mk 1 (.block [capture])).NeverSkips State.bare.config := by
    refine Stmt.neverSkips_of_not_signals fun h => ?_
    cases h with
    | block hmem hcapture =>
      obtain rfl := List.mem_singleton.1 hmem
      cases hcapture
  exact ⟨hheap, hhidden, hq, hinit, hskip,
    (circuit_exchangeable 0 1 1 _ _ _ _).1 hheap hhidden hq hinit hskip⟩

/-- The trace tells the loops apart, and where files may be used, scripts can see it. -/
theorem circuit_in_trace :
    State.watched.config.fileAccess = true ∧
    (State.watched.run 9 [.mk 1 (.circuit none (some (.constant (.bool false))) none
      (.mk 1 (.block [])))]).map (·.state.world.disk) ≠
      (State.watched.run 9 [.mk 1 (.plain 1 none (some (.constant (.bool false))) none
        (.mk 1 (.block [])))]).map (·.state.world.disk) := by
  refine ⟨rfl, fun h => ?_⟩
  have hdisk : (State.watchedWith ["line 1: For", "run 1 statements"]).settle.world.disk =
      (State.watchedWith ["line 1: While", "line 1: Block", "run 1 statements"]).settle.world.disk :=
    Option.some.inj h
  have htext := State.text_eq_of_settle hdisk
  simp [Trace.text] at htext

end Hantec
