import Hantec.Proofs.Run.Eval

/-!
# Evaluation under a policy

Expressions bring no names to any scope that there is. A statement brings names to its own
scope only, and only those that it declares; it ends with those signals only that can leave it.
All this holds by induction on the program, with one case for each kind of expression and
statement. What a call, a loop or a module does is left to the tasks that they become.
-/

namespace Hantec

namespace Policy

variable {P : Policy} {A : Nat → String → Prop} {soft : Fault → Prop}

/-! ## The parts of evaluation -/

namespace Runs

variable {v : Value}

theorem define {scope : Nat} {name : String} (hA : A scope name) (hv : P.value v) :
    P.Runs A soft (.modifyHeap (·.define scope name v)) fun _ => True :=
  modifyHeap fun h hh => ⟨hh.define scope name hv,
    (Heap.adds_define h scope name v).mono fun _ _ _ hx => hx.1 ▸ hx.2 ▸ hA, Nat.le_refl _⟩

theorem recover {r : Except Failure Outcome} {Q : Outcome → Prop} (hr : Result P soft Q r)
    {handler : Value → Proc Outcome} (hh : ∀ v, P.value v → P.Runs A soft (handler v) Q) :
    P.Runs A soft (recover r handler) (Result P soft Q) := by
  unfold Hantec.recover
  split
  · exact (hh _ hr).attempt
  · exact pure hr

theorem finalize {r : Except Failure Outcome} {Q : Outcome → Prop} (hr : Result P soft Q r)
    {finalizer : Proc Outcome} (hf : P.Runs A soft finalizer Q) :
    P.Runs A soft (finalize r finalizer) Q := by
  unfold Hantec.finalize
  split
  · refine hf.bind fun o ho => ?_
    split
    · exact ofResult hr
    · exact pure ho
  · refine hf.bind fun o ho => ?_
    split
    · exact ofResult hr
    · exact pure ho
  · exact failWith hr

variable [P.Lawful]

/-- What leaves scopes alone brings no names to them. -/
theorem scopeless {α : Type} [Holding α] {p : Proc α} (hp : p.Abides P soft True true) :
    P.Runs A soft p (Holding.All P.value) :=
  hp.runs

theorem readName (scope : Nat) (name : String) :
    P.Runs A soft (readName scope name) P.value := by
  have hread : ∀ h, P.Holds h → ∀ v, h.lookup scope name = some v → P.value v :=
    fun _ hh _ hv => hh.lookup hv
  refine (get (Q := fun o => ∀ v, o = some v → P.value v) hread).bind fun o ho => ?_
  cases o with
  | some v => exact pure (ho v rfl)
  | none => exact raiseError (by decide) _

/-- A name is changed where it is bound, so no name is added. -/
theorem writeName (scope : Nat) (name : String) (hv : P.value v) :
    P.Runs A soft (writeName scope name v) fun _ => True := by
  intro s hs
  show P.Meets _ ((Hantec.writeName scope name v).run s)
  unfold Hantec.writeName
  have hask : (Proc.ask fun h => .ok (h.resolve scope name)).run s =
      .ret (s.heap.resolve scope name) s := Proc.run_ask s rfl
  rw [Proc.run_bind, hask, Step.bind_ret]
  cases hr : s.heap.resolve scope name with
  | some owner =>
    have hs' := hs.withHeap (hs.heap.define owner name hv)
    exact .ret (.result hs' ⟨Heap.adds_define_of_resolve hr v, Nat.le_refl _⟩ trivial)
  | none => exact raiseError (Q := fun _ => True) (by decide) _ s hs

theorem loadSource (path : String) :
    P.Runs A soft (loadSource path)
      fun source => ∃ w w', P.config.loader.load path w = (w', .ok source) := by
  have hwait : Proc.Abides P soft True true (awaitLoader path) := .awaitLoader path
  show P.Runs A soft (awaitLoader path >>= _) _
  refine hwait.runs.bind fun _ _ => ?_
  refine config.bind fun c hc => settleTrace.bind fun _ _ => ?_
  subst hc
  refine Runs.bind (Q := fun r => ∃ w w', P.config.loader.load path w = (w', r))
    (onWorld fun w => ⟨w, _, rfl⟩) fun r hr => ?_
  obtain ⟨w, w', hload⟩ := hr
  rcases r with (d | f) | source
  · refine Runs.bind (Q := P.value) (onHeap fun h hh => ?_) fun v hv => raise hv
    obtain ⟨hv, hh'⟩ := holds_build Lawful.plain d (Lawful.thrown path w w' d hload) hh
    have haloof := Heap.aloof_build d
    exact ⟨hv, hh', .of_scopes_eq (haloof.scopes h) (haloof.grows h)⟩
  · exact raiseError (by decide) _
  · exact pure ⟨w, w', hload⟩

theorem loadModule (path : String) : P.Runs A soft (loadModule path) P.config.Loads := by
  refine (traceLine 1 _).bind fun _ _ => (loadSource path).bind fun source hsource => ?_
  refine config.bind fun c _ => ?_
  split
  · exact raiseError (by decide) _
  · split
    · rename_i module hparse
      obtain ⟨w, w', hload⟩ := hsource
      exact pure ⟨path, source, w, w', hload, hparse⟩
    · exact raiseError (by decide) _

end Runs

/-! ## Programs -/

/-- The names that a statement may bring to scopes if it is run in this one. -/
def stmtAdds (P : Policy) (stmt : Stmt) (scope : Nat) : Nat → String → Prop :=
  fun q x => q = scope ∧ stmt.Declares P.config.Loads x

/-- The names that statements may bring to scopes if they are run in this one. -/
def stmtsAdd (P : Policy) (stmts : List Stmt) (scope : Nat) : Nat → String → Prop :=
  fun q x => q = scope ∧ ∃ s ∈ stmts, s.Declares P.config.Loads x

/-- The signals that can leave the statements. -/
def stmtsSignal (P : Policy) (stmts : List Stmt) (σ : Signal) : Prop :=
  ∃ s ∈ stmts, s.Signals P.config.Loads σ

theorem Allows.mono {S S' : Signal → Prop} (hS : ∀ σ, S σ → S' σ) {o : Outcome}
    (ho : P.Allows S o) : P.Allows S' o := by
  cases o with
  | normal => trivial
  | returned v => exact ⟨hS _ ho.1, ho.2⟩
  | broke | continued => exact hS _ ho

namespace Runs

section Inner

variable {S : Signal → Prop} {body : List Stmt}
  (hbody : ∀ scope, P.Runs (P.stmtsAdd body scope) soft (execAll scope body)
    (P.Allows (P.stmtsSignal body)))
  (hS : ∀ s ∈ body, ∀ σ, s.Signals P.config.Loads σ → S σ)
include hbody hS

theorem execAll_new (new : Nat) :
    P.Runs (fun q _ => q = new) soft (execAll new body) (P.Allows S) := by
  refine (hbody new).mono (fun _ _ hx => hx.1) fun o ho => ho.mono ?_
  rintro σ ⟨s, hs, hσ⟩
  exact hS s hs σ hσ

/-- Statements that are run in a new scope bring no names to the scopes that there are. -/
theorem execInner (scope : Nat) : P.Runs A soft (execInner scope body) (P.Allows S) :=
  inner scope (execAll_new hbody hS)

theorem execHandler (scope : Nat) (name : Option String) {v : Value} (hv : P.value v) :
    P.Runs A soft (execHandler scope name body v) (P.Allows S) := by
  refine inner scope fun new => ?_
  have hrest := execAll_new hbody hS new
  cases name with
  | none => exact (pure (Q := fun _ => True) trivial).bind fun _ _ => hrest
  | some x => exact (define rfl hv).bind fun _ _ => hrest

end Inner

variable {scope : Nat} {line : Int}

/-- A statement ends as what it does ends; a failure may get a line. -/
theorem stmt {form : Form} {Q : Outcome → Prop} (hform : P.Runs A soft (form.exec scope) Q) :
    P.Runs A soft ((Stmt.mk line form).exec scope) Q := by
  rw [exec_mk]
  refine (traceLine 4 _).bind fun _ _ => hform.attempt.bind fun r hr => ?_
  cases r with
  | ok o => exact pure hr
  | error f =>
    refine failWith ?_
    rcases f with ⟨v, _ | n⟩ | f | code | _
    · exact hr
    all_goals exact hr

theorem circuit {init : Option Stmt} {test step : Option Expr} {body : Stmt}
    (hinit : ∀ s, init = some s → ∀ scope, P.Runs (P.stmtAdds s scope) soft (s.exec scope)
      fun _ => True)
    (htask : ∀ scope, P.Accepts (.loop test step body scope)) :
    P.Runs A soft ((Form.circuit init test step body).exec scope)
      (P.Allows (Stmt.Signals P.config.Loads ⟨line, .circuit init test step body⟩)) := by
  rw [Form.exec.eq_def]
  refine inner scope fun new => ?_
  have hloop : P.Runs (fun q _ => q = new) soft (.perform (.loop test step body new))
      (P.Allows (Stmt.Signals P.config.Loads ⟨line, .circuit init test step body⟩)) := by
    refine (perform (htask new) fun q x hx => hx.1).mono (fun _ _ hx => hx) fun o ho => ho.mono ?_
    rintro σ ⟨rfl, hσ⟩
    exact .circuit hσ
  cases init with
  | none => exact hloop
  | some s =>
    exact ((hinit s rfl new).mono (fun _ _ hx => hx.1) fun _ h => h).bind fun _ _ => hloop

theorem attemptForm {body : List Stmt} {handler finalizer : Option (List Stmt)}
    (name : Option String)
    (hbody : ∀ scope, P.Runs (P.stmtsAdd body scope) soft (execAll scope body)
      (P.Allows (P.stmtsSignal body)))
    (hhandler : ∀ ss, handler = some ss → ∀ scope,
      P.Runs (P.stmtsAdd ss scope) soft (execAll scope ss) (P.Allows (P.stmtsSignal ss)))
    (hfinalizer : ∀ ss, finalizer = some ss → ∀ scope,
      P.Runs (P.stmtsAdd ss scope) soft (execAll scope ss) (P.Allows (P.stmtsSignal ss))) :
    P.Runs A soft ((Form.attempt body name handler finalizer).exec scope)
      (P.Allows (Stmt.Signals P.config.Loads ⟨line, .attempt body name handler finalizer⟩)) := by
  rw [exec_attempt]
  let S := Stmt.Signals P.config.Loads ⟨line, .attempt body name handler finalizer⟩
  have hfirst : P.Runs A soft (Hantec.execInner scope body) (P.Allows S) :=
    execInner hbody (fun _ hs _ hσ => .body hs hσ) scope
  refine hfirst.attempt.bind fun r hr => ?_
  refine Runs.bind (Q := Result P soft (P.Allows S)) ?_ fun pending hpending => ?_
  · cases handler with
    | none => exact pure hr
    | some ss =>
      refine recover hr fun v hv => ?_
      exact execHandler (hhandler ss rfl) (fun _ hs _ hσ => .handler hs hσ) scope name hv
  · cases finalizer with
    | none => exact ofResult hpending
    | some ss =>
      refine finalize hpending ?_
      exact execInner (hfinalizer ss rfl) (fun _ hs _ hσ => .finalizer hs hσ) scope

variable [P.Lawful]

theorem binary {l r : Expr} (op : BinaryOp) (hl : P.Runs A soft (l.eval scope) P.value)
    (hr : P.Runs A soft (r.eval scope) P.value) :
    P.Runs A soft ((Expr.binary op l r).eval scope) P.value := by
  rw [Expr.eval]
  refine hl.bind fun left hleft => ?_
  split
  · refine (scopeless (.isTruthy hleft)).bind fun b _ => ?_
    split
    · exact hr
    · exact pure hleft
  · refine (scopeless (.isTruthy hleft)).bind fun b _ => ?_
    split
    · exact pure hleft
    · exact hr
  · split
    · exact hr
    · exact pure hleft
  · exact hr.bind fun right hright => scopeless (.binaryOp _ hleft hright)

theorem declare {init : Option Expr} (name : String)
    (hinit : ∀ e, init = some e → P.Runs A soft (e.eval scope) P.value) (hA : A scope name)
    {S : Signal → Prop} : P.Runs A soft ((Form.declare name init).exec scope) (P.Allows S) := by
  rw [exec_declare]
  have hvalue : P.Runs A soft (init.elim (Pure.pure .null) (·.eval scope)) P.value := by
    cases init with
    | none => exact pure (Lawful.plain _ trivial)
    | some e => exact hinit e rfl
  refine hvalue.bind fun v hv => (define hA hv).bind fun _ _ => ?_
  refine (trace 2 fun h hh => ?_).bind fun _ _ => pure trivial
  exact (Grants.toText hh hv).bind fun _ _ => trivial

theorem cond {test : Expr} {yes : Stmt} {no : Option Stmt} {S : Signal → Prop}
    (htest : P.Runs A soft (test.eval scope) P.value)
    (hyes : P.Runs A soft (yes.exec scope) (P.Allows S))
    (hno : ∀ s, no = some s → P.Runs A soft (s.exec scope) (P.Allows S)) :
    P.Runs A soft ((Form.cond test yes no).exec scope) (P.Allows S) := by
  rw [Form.exec.eq_def]
  refine htest.bind fun v hv => (scopeless (.isTruthy hv)).bind fun truth _ => ?_
  refine (trace 3 fun h hh => ?_).bind fun _ _ => ?_
  · exact (Grants.toText hh hv).bind fun _ _ => trivial
  · cases truth with
    | true => exact hyes
    | false =>
      cases no with
      | none => exact pure trivial
      | some s => exact hno s rfl

theorem load {path : Expr} (hpath : P.Runs A soft (path.eval scope) P.value)
    (hA : ∀ x, Stmt.Declares P.config.Loads ⟨line, .load path⟩ x → A scope x) :
    P.Runs A soft ((Form.load path).exec scope)
      (P.Allows (Stmt.Signals P.config.Loads ⟨line, .load path⟩)) := by
  rw [Form.exec.eq_def]
  refine config.bind fun c _ => ?_
  split
  · exact raiseError (by decide) _
  · refine hpath.bind fun v hv => ?_
    split
    · refine (loadModule _).bind fun module hmodule => ?_
      have htask : P.Accepts (.module module scope) := Lawful.modules module hmodule
      refine (perform htask ?_).mono (fun _ _ hx => hx) fun o ho => ho.mono ?_
      · rintro q x ⟨rfl, s, hs, hx⟩
        exact hA x (.load hmodule hs hx)
      · rintro σ ⟨s, hs, hσ⟩
        exact .load hmodule hs hσ
    · exact (scopeless (.typeName hv)).bind fun _ _ => raiseError (by decide) _

end Runs

mutual

theorem eval_runs [P.Lawful] : (e : Expr) → e.Obeys P.rules → ∀ {A : Nat → String → Prop}
    (scope : Nat), P.Runs A soft (e.eval scope) P.value
  | .constant c, _, _, _ => by
    rw [Expr.eval]
    cases c <;> exact .pure (Lawful.plain _ trivial)
  | .compound place t, he, _, _ => by
    rw [Expr.eval]
    exact .scopeless (.literal place he)
  | .variable name, _, _, scope => by
    rw [Expr.eval]
    exact .readName scope name
  | .assign name e, he, _, scope => by
    rw [Expr.eval]
    refine (eval_runs e he scope).bind fun v hv => ?_
    exact (Runs.writeName scope name hv).bind fun _ _ => .pure hv
  | .unary op e, he, _, scope => by
    rw [Expr.eval]
    exact (eval_runs e he scope).bind fun v hv => .scopeless (.unaryOp op hv)
  | .binary op l r, he, _, scope => .binary op (eval_runs l he.1 scope) (eval_runs r he.2 scope)
  | .call c args, he, _, scope => by
    rw [Expr.eval]
    refine (eval_runs c he.1 scope).bind fun f hf => ?_
    exact (evalAll_runs args he.2 scope).bind fun vs hvs => .scopeless (.callValue hf hvs)
  | .step name op, _, _, scope => by
    rw [Expr.eval]
    refine (Runs.readName scope name).bind fun v hv => ?_
    refine (Runs.scopeless (.toNumber hv)).bind fun x _ => ?_
    exact (Runs.writeName scope name (Lawful.plain (.num _) trivial)).bind fun _ _ => .pure hv
  | .member e name, he, _, scope => by
    rw [Expr.eval]
    refine (eval_runs e he scope).bind fun v hv => ?_
    split
    · exact .raiseError (by decide) _
    · exact .scopeless (.member _ name)
  | .function params body, he, _, scope => by
    rw [Expr.eval]
    exact .newClosure he
  | .misplaced t, he, _, _ => by
    rw [Expr.eval]
    exact .fault (.inl he)
  | .unlisted t, he, _, _ => by
    rw [Expr.eval]
    exact .fault (.inl he)

theorem evalAll_runs [P.Lawful] : (es : List Expr) → exprsObey P.rules es →
    ∀ {A : Nat → String → Prop} (scope : Nat),
      P.Runs A soft (evalAll scope es) fun vs => ∀ v ∈ vs, P.value v
  | [], _, _, _ => by
    rw [evalAll]
    exact .pure fun _ hv => (List.not_mem_nil hv).elim
  | e :: es, he, _, scope => by
    rw [evalAll]
    refine (eval_runs e he.1 scope).bind fun v hv => ?_
    refine (evalAll_runs es he.2 scope).bind fun vs hvs => ?_
    exact .pure (List.forall_mem_cons.mpr ⟨hv, hvs⟩)

theorem optionalEval_runs [P.Lawful] : (o : Option Expr) → optionalExprObeys P.rules o →
    ∀ e, o = some e → ∀ {A : Nat → String → Prop} (scope : Nat),
      P.Runs A soft (e.eval scope) P.value
  | none, _, _, h => nomatch h
  | some e, he, _, rfl => eval_runs e he

theorem exec_runs [P.Lawful] : (s : Stmt) → s.Obeys P.rules → ∀ scope,
    P.Runs (P.stmtAdds s scope) soft (s.exec scope) (P.Allows (s.Signals P.config.Loads))
  | .mk line form, hs, scope => .stmt (form_runs form hs line scope)

theorem form_runs [P.Lawful] : (f : Form) → f.Obeys P.rules → ∀ line scope,
    P.Runs (P.stmtAdds ⟨line, f⟩ scope) soft (f.exec scope)
      (P.Allows (Stmt.Signals P.config.Loads ⟨line, f⟩))
  | .expr e, hf, _, scope => by
    rw [Form.exec]
    exact (eval_runs e hf scope).bind fun _ _ => .pure trivial
  | .declare name init, hf, line, scope =>
    .declare name (fun e he => optionalEval_runs init hf e he scope) ⟨rfl, .declare line name init⟩
  | .block body, hf, _, scope => by
    rw [Form.exec]
    exact .execInner (execAll_runs body hf) (fun _ hs _ hσ => .block hs hσ) scope
  | .cond test yes no, hf, line, scope => by
    refine .cond (eval_runs test hf.1 scope) ?_ fun s hs => ?_
    · refine (exec_runs yes hf.2.1 scope).mono (fun q x hx => ⟨hx.1, .yes hx.2⟩) fun o ho => ?_
      exact ho.mono fun σ hσ => .yes hσ
    · subst hs
      refine (optionalExec_runs (some s) hf.2.2 s rfl scope).mono
        (fun q x hx => ⟨hx.1, .no hx.2⟩) fun o ho => ?_
      exact ho.mono fun σ hσ => .no hσ
  | .loop test body, hf, line, scope => by
    rw [Form.exec]
    have htask : P.Accepts (.loop (some test) none body scope) := ⟨hf.1, trivial, hf.2⟩
    refine (Runs.perform htask fun q x hx => ⟨hx.1, .loop hx.2⟩).mono (fun _ _ hx => hx) ?_
    intro o ho
    refine ho.mono ?_
    rintro σ ⟨rfl, hσ⟩
    exact .loop hσ
  | .circuit init test step body, hf, line, scope => by
    refine .circuit (fun s hs scope => ?_) fun _ => hf.2
    exact (optionalExec_runs init hf.1 s hs scope).mono (fun _ _ hx => hx) fun _ _ => trivial
  | .define name params body, hf, line, scope => by
    rw [Form.exec]
    have hbody : P.Body (Closure.mk name params body scope).body := hf
    refine (Runs.newClosure hbody).bind fun f hfn => ?_
    refine (Runs.define ⟨rfl, .define line name params body⟩ hfn).bind fun _ _ => ?_
    exact (Runs.traceLine 2 _).bind fun _ _ => .pure trivial
  | .ret value, hf, line, scope => by
    rw [Form.exec.eq_def]
    cases value with
    | none => exact .pure ⟨.ret line none, Lawful.plain _ trivial⟩
    | some e =>
      refine (optionalEval_runs (some e) hf e rfl scope).bind fun v hv => ?_
      exact .pure ⟨.ret line (some e), hv⟩
  | .load path, hf, line, scope => .load (eval_runs path hf scope) fun _ hx => ⟨rfl, hx⟩
  | .attempt body name handler finalizer, hf, line, scope =>
    .attemptForm name (execAll_runs body hf.1) (optionalExecAll_runs handler hf.2.1)
      (optionalExecAll_runs finalizer hf.2.2)
  | .leave, _, line, _ => by
    rw [Form.exec]
    exact .pure (Stmt.Signals.leave line)
  | .skip, _, line, _ => by
    rw [Form.exec]
    exact .pure (Stmt.Signals.skip line)
  | .misplaced t, hf, _, _ => by
    rw [Form.exec]
    exact .fault (.inl hf)
  | .unlisted t, hf, _, _ => by
    rw [Form.exec]
    exact .fault (.inl hf)

theorem optionalExec_runs [P.Lawful] : (o : Option Stmt) → optionalStmtObeys P.rules o →
    ∀ s, o = some s → ∀ scope,
      P.Runs (P.stmtAdds s scope) soft (s.exec scope) (P.Allows (s.Signals P.config.Loads))
  | none, _, _, h => nomatch h
  | some s, hs, _, rfl => exec_runs s hs

theorem execAll_runs [P.Lawful] : (ss : List Stmt) → stmtsObey P.rules ss → ∀ scope,
    P.Runs (P.stmtsAdd ss scope) soft (execAll scope ss) (P.Allows (P.stmtsSignal ss))
  | [], _, _ => by
    rw [execAll]
    exact .pure trivial
  | s :: ss, hss, scope => by
    rw [execAll_cons]
    have hfirst := (exec_runs s hss.1 scope).mono (A := P.stmtsAdd (s :: ss) scope)
      (fun _ _ hx => ⟨hx.1, s, by simp, hx.2⟩) (fun _ ho => ho)
    refine hfirst.bind fun o ho => ?_
    have hout : P.Allows (P.stmtsSignal (s :: ss)) o :=
      ho.mono fun σ hσ => ⟨s, by simp, hσ⟩
    cases o with
    | returned v | broke | continued => exact .pure hout
    | normal =>
      refine (execAll_runs ss hss.2 scope).mono ?_ fun o ho => ho.mono ?_
      · rintro q x ⟨rfl, t, ht, hx⟩
        exact ⟨rfl, t, by simp [ht], hx⟩
      · rintro σ ⟨t, ht, hσ⟩
        exact ⟨t, by simp [ht], hσ⟩

theorem optionalExecAll_runs [P.Lawful] : (o : Option (List Stmt)) →
    optionalStmtsObey P.rules o → ∀ ss, o = some ss → ∀ scope,
      P.Runs (P.stmtsAdd ss scope) soft (execAll scope ss) (P.Allows (P.stmtsSignal ss))
  | none, _, _, h => nomatch h
  | some ss, hss, _, rfl => execAll_runs ss hss

end

end Policy

end Hantec
