import Hantec.Run.Eval

/-!
# Running procedures by hand

What a procedure does in a state, as equations. Together they run a procedure as far as its state
is known. The procedure of a statement is put together from those of its parts.
-/

namespace Hantec

variable {α β γ : Type}

/-- Only a raised value can be caught, and only then is there something to clean up. -/
def Failure.IsRaised : Failure → Prop
  | .raised _ _ => True
  | _ => False

namespace Step

@[simp] theorem bind_ret (a : α) (s : State) (f : α → State → Step β) :
    (Step.ret a s).bind f = f a s := rfl

@[simp] theorem bind_fail (e : Failure) (s : State) (f : α → State → Step β) :
    (Step.fail e s : Step α).bind f = .fail e s := rfl

@[simp] theorem bind_sub (t : Task) (s : State) (k : Except Failure Outcome → State → Step α)
    (f : α → State → Step β) : (Step.sub t s k).bind f = .sub t s fun r s => (k r s).bind f := rfl

@[simp] theorem andThen_ret (a : α) (s : State) (f : Except Failure α → State → Step β) :
    (Step.ret a s).andThen f = f (.ok a) s := rfl

@[simp] theorem andThen_fail (e : Failure) (s : State) (f : Except Failure α → State → Step β) :
    (Step.fail e s : Step α).andThen f = f (.error e) s := rfl

@[simp] theorem andThen_sub (t : Task) (s : State) (k : Except Failure Outcome → State → Step α)
    (f : Except Failure α → State → Step β) :
    (Step.sub t s k).andThen f = .sub t s fun r s => (k r s).andThen f := rfl

theorem andThen_andThen (c : Step α) (f : Except Failure α → State → Step β)
    (g : Except Failure β → State → Step γ) :
    (c.andThen f).andThen g = c.andThen fun r s => (f r s).andThen g := by
  induction c with
  | ret a s => rfl
  | fail e s => rfl
  | sub t s k ih => exact congrArg _ (funext fun r => funext fun s => ih r s)
  | wait d s k ih => exact congrArg _ (funext fun s => ih s)

/-- Goes on with a result only. -/
def onResult (f : α → State → Step β) : Except Failure α → State → Step β
  | .ok a, s => f a s
  | .error e, s => .fail e s

theorem bind_eq_andThen (c : Step α) (f : α → State → Step β) :
    c.bind f = c.andThen (onResult f) := by
  induction c with
  | ret a s => rfl
  | fail e s => rfl
  | sub t s k ih => exact congrArg _ (funext fun r => funext fun s => ih r s)
  | wait d s k ih => exact congrArg _ (funext fun s => ih s)

theorem bind_assoc (c : Step α) (f : α → State → Step β) (g : β → State → Step γ) :
    (c.bind f).bind g = c.bind fun a s => (f a s).bind g := by
  induction c with
  | ret a s => rfl
  | fail e s => rfl
  | sub t s k ih => exact congrArg _ (funext fun r => funext fun s => ih r s)
  | wait d s k ih => exact congrArg _ (funext fun s => ih s)

end Step

namespace Proc

/-- The first step of a procedure in a state. -/
def run (p : Proc α) (s : State) : Step α := p s

variable (s : State)

@[simp] theorem run_pure (a : α) : (pure a : Proc α).run s = .ret a s := rfl

@[simp] theorem run_bind (p : Proc α) (f : α → Proc β) :
    (p >>= f).run s = (p.run s).bind fun a => (f a).run := rfl

@[simp] theorem run_ite (c : Prop) [Decidable c] (p q : Proc α) :
    (if c then p else q).run s = if c then p.run s else q.run s := by
  split <;> rfl

@[simp] theorem run_config : Proc.config.run s = .ret s.config s := rfl

@[simp] theorem run_failWith (f : Failure) : (failWith f : Proc α).run s = .fail f s := rfl

@[simp] theorem run_raiseError (name message : String) :
    (raiseError name message : Proc α).run s =
      .fail (.raised (.err s.heap.nextId name message) none)
        { s with heap := { s.heap with nextId := s.heap.nextId + 1 } } := rfl

@[simp] theorem run_onHeap (f : Heap → α × Heap) :
    (onHeap f).run s = .ret (f s.heap).1 { s with heap := (f s.heap).2 } := rfl

@[simp] theorem run_modifyHeap (f : Heap → Heap) :
    (modifyHeap f).run s = .ret () { s with heap := f s.heap } := rfl

@[simp] theorem run_onWorld (f : World → α × World) :
    (onWorld f).run s = .ret (f s.world).1 { s with world := (f s.world).2 } := rfl

@[simp] theorem run_task (t : Task) : (task t).run s = .sub t s .ret := rfl

@[simp] theorem run_ofResult_ok (a : α) : (ofResult (.ok a)).run s = .ret a s := rfl

@[simp] theorem run_ofResult_error (e : Failure) :
    (ofResult (.error e) : Proc α).run s = .fail e s := rfl

theorem run_attempt_bind (p : Proc α) (f : Except Failure α → Proc β) :
    (p.attempt >>= f).run s = (p.run s).andThen fun r => (f r).run :=
  (Step.bind_eq_andThen _ _).trans (Step.andThen_andThen _ _ _)

theorem andThen_ofResult (c : Step α) : (c.andThen fun r => (ofResult r).run) = c := by
  induction c with
  | ret a s => rfl
  | fail e s => rfl
  | sub t s k ih => exact congrArg _ (funext fun r => funext fun s => ih r s)
  | wait d s k ih => exact congrArg _ (funext fun s => ih s)

theorem bind_pure (p : Proc α) : p >>= pure = p := by
  funext s
  refine (Step.bind_eq_andThen _ _).trans (Eq.trans ?_ (andThen_ofResult (p s)))
  congr 1
  funext r s
  cases r <;> rfl

theorem attempt_attempt_bind (p : Proc α) (f : Except Failure α → Proc β)
    (g : Except Failure β → Proc γ) :
    (p.attempt >>= f).attempt >>= g = p.attempt >>= fun r => (f r).attempt >>= g := by
  funext s
  refine (run_attempt_bind s _ g).trans (Eq.trans ?_ (run_attempt_bind s p _).symm)
  rw [run_attempt_bind, Step.andThen_andThen]
  congr 1
  funext r t
  exact (run_attempt_bind t _ g).symm

theorem attempt_ofResult_bind (r : Except Failure α) (g : Except Failure α → Proc β) :
    (ofResult r).attempt >>= g = g r := by
  cases r <;> rfl

theorem run_ask {f : Heap → Except Trouble α} {a : α} (h : f s.heap = .ok a) :
    (ask f).run s = .ret a s := by
  simp [run, ask, h]

theorem run_ask_error {f : Heap → Except Trouble α} {t : Trouble} (h : f s.heap = .error t) :
    (ask f).run s = .fail t.toFailure s := by
  simp [run, ask, h]

theorem run_trace {s : State} (hsilent : s.config.traceLevel = 0) {level : Nat}
    (hlevel : 0 < level) (line : Heap → Except Trouble String) :
    (trace level line).run s = .ret () s := by
  simp [run, trace, hsilent, hlevel]

/-- A line that is there in any case changes at most the trace. -/
theorem exists_run_note (level : Nat) (line : Heap → String) (s : State) :
    ∃ t, (trace level fun h => .ok (line h)).run s = .ret () { s with traced := t } ∧
      (s.config.traceLevel < level → t = s.traced) := by
  unfold run trace
  split
  case isTrue => exact ⟨s.traced, rfl, fun _ => rfl⟩
  case isFalse h => exact ⟨_, rfl, fun hlevel => absurd hlevel h⟩

theorem run_settleTrace {s : State} (htraced : s.traced = none) :
    settleTrace.run s = .ret () s := by
  simp [run, settleTrace, State.settle, htraced]

end Proc

/-! ## Statements -/

/-- Goes on with further statements after a normal end. -/
def goOn (scope : Nat) (ss : List Stmt) : Outcome → Proc Outcome
  | .normal => execAll scope ss
  | o => pure o

theorem execAll_cons (scope : Nat) (s : Stmt) (ss : List Stmt) :
    execAll scope (s :: ss) = s.exec scope >>= goOn scope ss := by
  rw [execAll]
  rfl

theorem execAll_single (scope : Nat) (s : Stmt) : execAll scope [s] = s.exec scope := by
  rw [execAll_cons]
  refine Eq.trans (congrArg _ (funext fun o => ?_)) (Proc.bind_pure _)
  cases o with
  | normal => rw [goOn, execAll]
  | returned | broke | continued => rfl

/-- Gives a failure the line of the statement that it ends. -/
def closeAt (line : Int) : Except Failure Outcome → Proc Outcome
  | .ok o => pure o
  | .error f => Proc.failWith (f.atLine line)

theorem exec_mk (scope : Nat) (line : Int) (form : Form) :
    (Stmt.mk line form).exec scope =
      (do
        Proc.trace 4 fun _ => .ok s!"line {line}: {form.kindName}"
        (form.exec scope).attempt >>= closeAt line) := by
  rw [Stmt.exec]
  rfl

theorem run_exec_mk {s : State} (hsilent : s.config.traceLevel = 0) (scope : Nat) (line : Int)
    (form : Form) : ((Stmt.mk line form).exec scope).run s =
      ((form.exec scope).run s).andThen fun r => (closeAt line r).run := by
  rw [exec_mk, Proc.run_bind, Proc.run_trace hsilent (by decide), Step.bind_ret,
    Proc.run_attempt_bind]

theorem exec_declare (scope : Nat) (name : String) (init : Option Expr) :
    (Form.declare name init).exec scope =
      (do
        let v ← init.elim (pure .null) (·.eval scope)
        Proc.modifyHeap (·.define scope name v)
        Proc.trace 2 fun h => do return s!"let {name} = " ++ (← h.toText v)
        return .normal) := by
  cases init <;> rw [Form.exec] <;> rfl

/-- Runs statements in a new scope. -/
def execInner (scope : Nat) (body : List Stmt) : Proc Outcome := do
  execAll (← innerScope scope) body

/-- Runs the handler of a raised value. -/
def execHandler (scope : Nat) (name : Option String) (body : List Stmt) (v : Value) :
    Proc Outcome := do
  let inner ← innerScope scope
  name.elim (pure ()) fun x => Proc.modifyHeap (·.define inner x v)
  execAll inner body

theorem exec_attempt (scope : Nat) (body : List Stmt) (name : Option String)
    (handler finalizer : Option (List Stmt)) :
    (Form.attempt body name handler finalizer).exec scope =
      (do
        let first ← (execInner scope body).attempt
        let pending ← handler.elim (pure first) fun h => recover first (execHandler scope name h)
        finalizer.elim (Proc.ofResult pending) fun f => finalize pending (execInner scope f)) := by
  cases handler <;> cases finalizer <;> cases name <;> rw [Form.exec] <;> rfl

/-- What a protected block has come to after its handler, if it has one. -/
def rescue (scope : Nat) (name : Option String) (handler : Option (List Stmt))
    (first : Except Failure Outcome) : Proc (Except Failure Outcome) :=
  handler.elim (pure first) fun h => recover first (execHandler scope name h)

/-- Ends a protected block with its finalizer, if it has one. -/
def conclude (scope : Nat) (finalizer : Option (List Stmt)) (pending : Except Failure Outcome) :
    Proc Outcome :=
  finalizer.elim (Proc.ofResult pending) fun f => finalize pending (execInner scope f)

/-- What is pending, unless a finalizer does not end normally. -/
def settleWith (pending : Except Failure Outcome) : Outcome → Proc Outcome
  | .normal => Proc.ofResult pending
  | o => pure o

theorem exec_attempt_eq (scope : Nat) (body : List Stmt) (name : Option String)
    (handler finalizer : Option (List Stmt)) :
    (Form.attempt body name handler finalizer).exec scope =
      (execInner scope body).attempt >>= fun first =>
        rescue scope name handler first >>= conclude scope finalizer :=
  exec_attempt scope body name handler finalizer

/-- What no script can catch passes a protected block unchanged. -/
theorem run_conclude_of_not_isRaised {e : Failure} (he : ¬ e.IsRaised) (scope : Nat)
    (finalizer : Option (List Stmt)) (s : State) :
    (conclude scope finalizer (.error e)).run s = .fail e s := by
  cases finalizer with
  | none => rfl
  | some f =>
    cases e with
    | raised v line => exact absurd trivial he
    | _ => rfl

theorem run_rescue_of_not_isRaised {e : Failure} (he : ¬ e.IsRaised) (scope : Nat)
    (name : Option String) (handler : Option (List Stmt)) (s : State) :
    (rescue scope name handler (.error e)).run s = .ret (.error e) s := by
  cases handler with
  | none => rfl
  | some h =>
    cases e with
    | raised v line => exact absurd trivial he
    | _ => rfl

end Hantec
