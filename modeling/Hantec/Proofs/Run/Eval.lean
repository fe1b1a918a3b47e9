import Hantec.Proofs.Grammar.Lines
import Hantec.Proofs.Run.Accord

/-!
# Evaluation in accord

A program and the same program with imports written out or with other lines are evaluated in accord.
The parts of a program are taken one by one; the only step that is not the same in both runs is
where the first one loads a module whose statements the second program has in place. A failure
inside the module keeps the line that it has there, as every statement of a module has a line.
-/

namespace Hantec

variable {ω α β : Type}

/-! ## Failures with a line -/

/-- A failure that keeps its line, if it has one at all. -/
def Failure.Settled (f : Failure) : Prop := ∀ line, f.atLine line = f

theorem Failure.settled_atLine (f : Failure) {line : Int} (hline : line ≠ 0) :
    (f.atLine line).Settled := by
  intro other
  rcases f with ⟨v, _ | n⟩ | f | code | _
  · simp [Failure.atLine, hline]
  all_goals rfl

namespace Step

/-- Fails with nothing but such failures. -/
inductive FailsOnly (P : Failure → Prop) : Step α → Prop where
  | ret (a : α) (s : State) : FailsOnly P (.ret a s)
  | fail {f : Failure} (s : State) : P f → FailsOnly P (.fail f s)
  | sub {t : Task} {s : State} {k : Except Failure Outcome → State → Step α} :
      (∀ r s, FailsOnly P (k r s)) → FailsOnly P (.sub t s k)
  | wait {d : Delay} {s : State} {k : State → Step α} :
      (∀ s, FailsOnly P (k s)) → FailsOnly P (.wait d s k)

variable {P : Failure → Prop} {c : Step α}

theorem FailsOnly.bind (h : c.FailsOnly P) {f : α → State → Step β}
    (hf : ∀ a s, (f a s).FailsOnly P) : (c.bind f).FailsOnly P := by
  induction h with
  | ret a s => exact hf a s
  | fail s he => exact .fail s he
  | sub _ ih => exact .sub ih
  | wait _ ih => exact .wait ih

theorem failsOnly_andThen (c : Step α) {f : Except Failure α → State → Step β}
    (hf : ∀ r s, (f r s).FailsOnly P) : (c.andThen f).FailsOnly P := by
  induction c with
  | ret a s => exact hf _ s
  | fail e s => exact hf _ s
  | sub t s k ih => exact .sub ih
  | wait d s k ih => exact .wait ih

/-- Only the results matter if the failures are passed on. -/
theorem FailsOnly.andThen_eq_bind (h : c.FailsOnly P) {f : Except Failure α → State → Step β}
    (hf : ∀ e s, P e → f (.error e) s = .fail e s) :
    c.andThen f = c.bind fun a s => f (.ok a) s := by
  induction h with
  | ret a s => rfl
  | fail s he => exact hf _ s he
  | sub _ ih => exact congrArg _ (funext fun r => funext fun s => ih r s)
  | wait _ ih => exact congrArg _ (funext fun s => ih s)

end Step

theorem exec_failsOnly_settled {stmt : Stmt} (hline : stmt.line ≠ 0) (scope : Nat) (s : State) :
    ((stmt.exec scope).run s).FailsOnly Failure.Settled := by
  obtain ⟨line, form⟩ := stmt
  rw [exec_mk, Proc.run_bind]
  refine Step.FailsOnly.bind ?_ fun _ s => ?_
  · unfold Proc.run Proc.trace
    split <;> exact .ret _ _
  · rw [Proc.run_attempt_bind]
    refine Step.failsOnly_andThen _ fun r s => ?_
    cases r with
    | ok o => exact .ret o s
    | error f => exact .fail s (f.settled_atLine hline)

theorem execAll_failsOnly_settled {ss : List Stmt} (hlines : ∀ s ∈ ss, s.line ≠ 0)
    (scope : Nat) (s : State) : ((execAll scope ss).run s).FailsOnly Failure.Settled := by
  induction ss generalizing s with
  | nil =>
    rw [execAll]
    exact .ret _ s
  | cons stmt ss ih =>
    rw [execAll_cons, Proc.run_bind]
    refine (exec_failsOnly_settled (hlines stmt (by simp)) scope s).bind fun o s => ?_
    cases o with
    | normal => exact ih (fun s hs => hlines s (by simp [hs])) s
    | returned _ | broke | continued => exact .ret _ s

theorem Form.kindName_relined (f : Form) (φ : Int → Int) :
    (f.relined φ).kindName = f.kindName := by
  cases f <;> rfl

theorem Inlined.kindName {modules : String → List Stmt → Prop} {f f' : Form}
    (h : Inlined modules .form f f') : f'.kindName = f.kindName := by
  cases h <;> rfl

/-! ## Imports -/

section Imports

variable {s : State} {name : String} {module : List Stmt}

theorem Config.Provides.isAbsent {c : Config} (h : c.Provides name module) (w : World) :
    c.loader.isAbsent = false := by
  obtain ⟨-, -, source, hload, -⟩ := h
  cases hl : c.loader with
  | absent =>
    have := hload w
    simp [hl, Loader.load] at this
  | _ => rfl

theorem run_loadSource {source : String} (htraced : s.traced = none)
    (hwaits : s.config.loader.waits name = [])
    (h : ∀ w, s.config.loader.load name w = (w, .ok source)) :
    (loadSource name).run s = .ret source s := by
  simp [loadSource, hwaits, Proc.waitAll, Proc.run_settleTrace htraced, h]

theorem run_loadModule (hsilent : s.config.traceLevel = 0) (htraced : s.traced = none)
    (h : s.config.Provides name module) : (loadModule name).run s = .ret module s := by
  obtain ⟨hcompiles, hwaits, source, hload, hparse⟩ := h
  simp [loadModule, Proc.run_trace hsilent, run_loadSource htraced hwaits hload, hcompiles, hparse]

/-- The import of a module is the task of running it. -/
theorem run_exec_importOf (hsilent : s.config.traceLevel = 0) (htraced : s.traced = none)
    (h : s.config.Provides name module) (line : Int) (scope : Nat) :
    ((importOf line name).exec scope).run s =
      .sub (.module module scope) s fun r => (closeAt line r).run := by
  have hform : ((Form.load (.constant (.str name))).exec scope).run s =
      .sub (.module module scope) s fun r => (Proc.ofResult r).run := by
    simp [Form.exec, Expr.eval, Constant.toValue, h.isAbsent s.world,
      run_loadModule hsilent htraced h, Proc.perform]
  rw [importOf, exec_mk, Proc.run_bind, Proc.run_trace hsilent (by decide), Step.bind_ret,
    Proc.run_attempt_bind, hform, Step.andThen_sub]
  congr 1
  funext r s
  cases r <;> rfl

theorem execAll_append (scope : Nat) (ss ss' : List Stmt) :
    execAll scope (ss ++ ss') = execAll scope ss >>= goOn scope ss' := by
  induction ss with
  | nil =>
    rw [List.nil_append, execAll]
    rfl
  | cons stmt ss ih =>
    rw [List.cons_append, execAll_cons, execAll_cons]
    funext s
    refine Eq.trans ?_ (Step.bind_assoc _ _ _).symm
    refine congrArg _ (funext fun o => ?_)
    cases o with
    | normal => exact ih
    | returned _ | broke | continued => rfl

end Imports

/-! ## Parts of programs -/

namespace Accord

open Scoping.Lawful (view_of_home views_of_far)

variable {A : Accord ω} {w : ω} {q q' : Nat}

variable (A) in
/-- Two parts of programs that do the same wherever names are seen or bound alike. -/
def Parts : (x : Part) → x.Tree → x.Tree → Prop
  | .expr, e, e' => ∀ w q q', A.views w q q' → A.Procs A.Breaks w (e.eval q) (e'.eval q')
  | .exprs, es, es' =>
    ∀ w q q', A.views w q q' → A.Procs A.Breaks w (evalAll q es) (evalAll q' es')
  | .optionalExpr, e, e' => Option.Rel (fun e e' =>
    ∀ w q q', A.views w q q' → A.Procs A.Breaks w (e.eval q) (e'.eval q')) e e'
  | .stmt, s, s' => ∀ w q q', A.homes w q q' → A.Procs A.Breaks w (s.exec q) (s'.exec q')
  | .form, f, f' => ∀ w q q', A.homes w q q' → A.Procs A.Breaks w (f.exec q) (f'.exec q')
  | .stmts, ss, ss' =>
    ∀ w q q', A.homes w q q' → A.Procs A.Breaks w (execAll q ss) (execAll q' ss')
  | .optionalStmt, s, s' => Option.Rel (fun s s' =>
    ∀ w q q', A.homes w q q' → A.Procs A.Breaks w (s.exec q) (s'.exec q')) s s'
  | .optionalStmts, ss, ss' => Option.Rel (fun ss ss' =>
    ∀ w q q', A.homes w q q' → A.Procs A.Breaks w (execAll q ss) (execAll q' ss')) ss ss'

variable [A.Lawful]

namespace Procs

theorem closeAt {φ : Int → Int} (hφ : A.Relines φ) (line : Int) {r r' : Except Failure Outcome}
    (hr : A.Results r r') : A.Procs A.Breaks w (closeAt line r) (closeAt (φ line) r') := by
  cases hr with
  | ok o => exact pure o
  | error hf => exact failWith (seen_atLine hf hφ line)

/-- A statement does the same if its form does. -/
theorem exec_mk {φ : Int → Int} (hφ : A.Relines φ) (line : Int) {form form' : Form}
    (hkind : form'.kindName = form.kindName)
    (hform : A.Procs A.Breaks w (form.exec q) (form'.exec q')) :
    A.Procs A.Breaks w ((Stmt.mk line form).exec q) ((Stmt.mk (φ line) form').exec q') := by
  have hline : A.config.traceLevel = 0 ∨ φ line = line := by
    cases hkeeps : A.keepsLines with
    | true => exact .inr (congrFun (hφ hkeeps) line)
    | false => exact .inl (Lawful.silent hkeeps)
  rw [Hantec.exec_mk, Hantec.exec_mk, hkind]
  refine bind (traceLine (by decide) (hline.imp_right fun h => by rw [h])) fun _ => ?_
  refine hform.attemptBind (fun r r' => closeAt hφ line) fun e s he => ⟨e, s, ?_, he⟩
  cases e with
  | raised v n => exact absurd trivial he.1
  | _ => rfl

theorem execInner {body body' : List Stmt} (hbody : A.Parts .stmts body body')
    (hq : A.views w q q') : A.Procs A.Breaks w (execInner q body) (execInner q' body') :=
  inner hq fun v n n' _ => hbody v n n'

theorem execHandler {body body' : List Stmt} (hbody : A.Parts .stmts body body')
    (hq : A.views w q q') (name : Option String) (a : Value) :
    A.Procs A.Breaks w (execHandler q name body a) (execHandler q' name body' a) := by
  refine inner hq fun v n n' _ hn => ?_
  cases name with
  | none => exact (pure ()).bind fun _ => hbody v n n' hn
  | some x => exact (define hn x a).bind fun _ => hbody v n n' hn

theorem conclude {finalizer finalizer' : Option (List Stmt)}
    (hf : A.Parts .optionalStmts finalizer finalizer') (hq : A.views w q q')
    {r r' : Except Failure Outcome} (hr : A.Results r r') :
    A.Procs A.Breaks w (conclude q finalizer r) (conclude q' finalizer' r') := by
  cases hf with
  | none => exact ofResult hr
  | some hf =>
    have hend := (execInner hf hq).bind fun o => show A.Procs A.Breaks w (settleWith r o)
        (settleWith r' o) by
      cases o with
      | normal => exact ofResult hr
      | returned _ | broke | continued => exact pure _
    cases hr with
    | ok o => exact hend
    | error he =>
      rcases seen_cases he with rfl | ⟨a, line, line', rfl, rfl⟩
      · rename_i e
        cases e with
        | raised a line => exact hend
        | _ => exact failWith rfl
      · exact hend

/-- A protected block does the same wherever the same names are seen. -/
theorem protect {body body' : List Stmt}
    {handler handler' finalizer finalizer' : Option (List Stmt)} (name : Option String)
    (hbody : A.Parts .stmts body body') (hhandler : A.Parts .optionalStmts handler handler')
    (hfinalizer : A.Parts .optionalStmts finalizer finalizer') (hq : A.views w q q') :
    A.Procs A.Breaks w ((Form.attempt body name handler finalizer).exec q)
      ((Form.attempt body' name handler' finalizer').exec q') := by
  rw [exec_attempt_eq, exec_attempt_eq]
  refine (execInner hbody hq).attemptBind (fun r r' hr => ?_) fun e s he => ⟨e, s, ?_, he⟩
  · cases hhandler with
    | none => exact conclude hfinalizer hq hr
    | some hhandler =>
      have hcaught (a : Value) := (execHandler hhandler hq name a).attemptBind
        (fun _ _ => conclude hfinalizer hq)
        fun e s he => ⟨e, s, run_conclude_of_not_isRaised he.1 q finalizer s, he⟩
      cases hr with
      | ok o => exact conclude hfinalizer hq (.ok o)
      | error he =>
        rcases seen_cases he with rfl | ⟨a, line, line', rfl, rfl⟩
        · rename_i e
          cases e with
          | raised a line => exact hcaught a
          | _ => exact conclude hfinalizer hq (.error rfl)
        · exact hcaught a
  · rw [Proc.run_bind, run_rescue_of_not_isRaised he.1, Step.bind_ret,
      run_conclude_of_not_isRaised he.1]

/-- An import and the statements of the module in its place. -/
theorem writeOut {name : String} {module module' ss ss' : List Stmt} (line : Int)
    (hm : A.modules name module) (hmodule : A.Parts .stmts module module')
    (hss : A.Parts .stmts ss ss') (hq : A.homes w q q') :
    A.Procs A.Breaks w (execAll q (importOf line name :: ss)) (execAll q' (module' ++ ss')) := by
  intro v s s' hv hs
  obtain ⟨hsilent, hprovides, htraced⟩ := Lawful.provided hm
  rw [← hs.config] at hsilent hprovides
  obtain ⟨-, source, -, hparse⟩ := hprovides.2
  -- The statements of the module fail only with a line of their own.
  have hfails := execAll_failsOnly_settled (line_ne_zero_of_parseProgram hparse) q s
  have hclosed : ∀ e s, Failure.Settled e →
      ((Hantec.closeAt line (.error e)).run s).bind (fun o => (goOn q ss o).run) = .fail e s := by
    intro e s he
    simp [Hantec.closeAt, he line]
  show A.Steps A.Breaks v ((execAll q (importOf line name :: ss)).run s)
    ((execAll q' (module' ++ ss')).run s')
  rw [execAll_cons, execAll_append, Proc.run_bind, Proc.run_bind,
    run_exec_importOf hsilent (htraced v s s' hs.outside) hprovides, Step.bind_sub]
  refine .inline hm ?_
  show A.Steps A.Breaks v (((execAll q module).run s).andThen _) _
  rw [hfails.andThen_eq_bind hclosed]
  refine (hmodule w q q' hq v s s' hv hs).bind fun o u s s' hu hs => ?_
  cases o with
  | normal => exact hss w q q' hq u s s' (Scoping.Lawful.far_trans hv hu) hs
  | returned _ | broke | continued => exact .ret _ (Scoping.Lawful.near_refl u) hs

/-! ## Programs -/

theorem binary {l l' r r' : Expr} (op : BinaryOp) (hl : A.Parts .expr l l')
    (hr : A.Parts .expr r r') : A.Parts .expr (.binary op l r) (.binary op l' r') := by
  intro w q q' hq
  rw [Expr.eval, Expr.eval]
  refine (hl w q q' hq).bind fun left => ?_
  split
  · refine (scopeless (.isTruthy trivial)).bind fun b => ?_
    split
    · exact hr w q q' hq
    · exact pure _
  · refine (scopeless (.isTruthy trivial)).bind fun b => ?_
    split
    · exact pure _
    · exact hr w q q' hq
  · split
    · exact hr w q q' hq
    · exact pure _
  · exact (hr w q q' hq).bind fun right => scopeless (.binaryOp _ trivial trivial)

theorem cond {test test' : Expr} {yes yes' : Stmt} {no no' : Option Stmt}
    (htest : A.Parts .expr test test') (hyes : A.Parts .stmt yes yes')
    (hno : A.Parts .optionalStmt no no') :
    A.Parts .form (.cond test yes no) (.cond test' yes' no') := by
  intro w q q' hq
  rw [Form.exec.eq_def, Form.exec.eq_def]
  refine (htest w q q' (view_of_home hq)).bind fun a => ?_
  refine (scopeless (.isTruthy trivial)).bind fun truth => ?_
  refine (traceText (by decide) _ a).bind fun _ => ?_
  cases truth with
  | true => exact hyes w q q' hq
  | false =>
    cases hno with
    | none => exact pure _
    | some hno => exact hno w q q' hq

theorem declare {init init' : Option Expr} (name : String)
    (hinit : A.Parts .optionalExpr init init') :
    A.Parts .form (.declare name init) (.declare name init') := by
  intro w q q' hq
  have hvalue : A.Procs A.Breaks w (init.elim (Pure.pure .null) (·.eval q))
      (init'.elim (Pure.pure .null) (·.eval q')) := by
    cases hinit with
    | none => exact pure _
    | some hinit => exact hinit w q q' (view_of_home hq)
  rw [exec_declare, exec_declare]
  refine hvalue.bind fun a => (define hq name a).bind fun _ => ?_
  exact (traceText (by decide) _ a).bind fun _ => pure _

theorem circuit {init init' : Option Stmt} {test test' step step' : Option Expr}
    {body body' : Stmt} (hinit : A.Parts .optionalStmt init init')
    (htest : A.Same .optionalExpr test test') (hstep : A.Same .optionalExpr step step')
    (hbody : A.Same .stmt body body') :
    A.Parts .form (.circuit init test step body) (.circuit init' test' step' body') := by
  intro w q q' hq
  rw [Form.exec.eq_def, Form.exec.eq_def]
  refine inner (view_of_home hq) fun v n n' _ hn => ?_
  have hloop : A.Procs A.Breaks v _ _ := perform (.loop ⟨hn, htest, hstep, hbody⟩)
  cases hinit with
  | none => exact hloop
  | some hinit => exact (hinit v n n' hn).bind fun _ => hloop

theorem ret {value value' : Option Expr} (hvalue : A.Parts .optionalExpr value value') :
    A.Parts .form (.ret value) (.ret value') := by
  intro w q q' hq
  cases hvalue with
  | none =>
    rw [Form.exec, Form.exec]
    exact pure _
  | some hvalue =>
    rw [Form.exec, Form.exec]
    exact (hvalue w q q' (view_of_home hq)).bind fun _ => pure _

theorem load {path path' : Expr} (hpath : A.Parts .expr path path') :
    A.Parts .form (.load path) (.load path') := by
  intro w q q' hq
  rw [Form.exec, Form.exec]
  refine withConfig ?_
  rw [show A.config'.loader = A.config.loader from rfl]
  split
  · exact raiseError _ _
  · refine (hpath w q q' (view_of_home hq)).bind fun a => ?_
    split
    · refine (scopeless (.loadModule _)).bind fun p => perform (.module hq ?_)
      exact .ofInlined (.reflStmts p)
    · exact (scopeless (.typeName trivial)).bind fun _ => raiseError _ _

/-- A program does the same with imports written out and with other lines. -/
theorem ofInlined {φ : Int → Int} (hφ : A.Relines φ) {x : Part} {a b : x.Tree}
    (h : Inlined A.modules x a b) : A.Parts x a (x.relined φ b) := by
  induction h with
    ((try intro w q q' hq)
     try simp only [Part.relined, Expr.relined, relinedItems, Form.relined])
  | constant c =>
    simp only [Expr.eval]
    exact pure _
  | compound place t =>
    simp only [Expr.eval]
    exact onHeap (Heap.aloof_literal place t)
  | named name =>
    simp only [Expr.eval]
    exact readName hq name
  | assign name _ ih =>
    simp only [Expr.eval]
    exact (ih w q q' hq).bind fun a => (writeName hq name a).bind fun _ => pure a
  | unary op _ ih =>
    simp only [Expr.eval]
    exact (ih w q q' hq).bind fun a => scopeless (.unaryOp op trivial)
  | binary op _ _ ihl ihr => exact binary op ihl ihr w q q' hq
  | call _ _ ihc ihargs =>
    simp only [Expr.eval]
    refine (ihc w q q' hq).bind fun f => (ihargs w q q' hq).bind fun as => ?_
    exact scopeless (.callValue trivial fun _ _ => trivial)
  | step name op =>
    simp only [Expr.eval]
    refine (readName hq name).bind fun a => (scopeless (.toNumber trivial)).bind fun x => ?_
    exact (writeName hq name _).bind fun _ => pure a
  | member name _ ih =>
    simp only [Expr.eval]
    refine (ih w q q' hq).bind fun a => ?_
    split
    · exact raiseError _ _
    · exact scopeless (.member _ name)
  | function params hbody =>
    simp only [Expr.eval]
    exact makeClosure hq ⟨_, φ, hbody, hφ, rfl⟩ "<anon>" params
  | misplacedExpr t | unlistedExpr t =>
    simp only [Expr.eval]
    exact failWith rfl
  | noExprs =>
    simp only [evalAll]
    exact pure _
  | nextExpr _ _ ihe ihes =>
    simp only [evalAll]
    exact (ihe w q q' hq).bind fun a => (ihes w q q' hq).bind fun as => pure _
  | noExpr | noStmt | absentStmts => exact .none
  | someExpr _ ih | someStmt _ ih | presentStmts _ ih => exact .some ih
  | stmt line hform ih =>
    exact exec_mk hφ line ((Form.kindName_relined _ φ).trans hform.kindName) (ih w q q' hq)
  | expr _ ih =>
    simp only [Form.exec]
    exact (ih w q q' (view_of_home hq)).bind fun _ => pure _
  | declare name _ ih => exact declare name ih w q q' hq
  | block _ ih =>
    simp only [Form.exec]
    exact execInner ih (view_of_home hq)
  | cond _ _ _ ihtest ihyes ihno => exact cond ihtest ihyes ihno w q q' hq
  | loop htest hbody =>
    simp only [Form.exec]
    exact perform (.loop ⟨hq, ⟨_, φ, .someExpr htest, hφ, rfl⟩, .ofInlined .noExpr,
      ⟨_, φ, hbody, hφ, rfl⟩⟩)
  | circuit _ htest hstep hbody ih =>
    exact circuit ih ⟨_, φ, htest, hφ, rfl⟩ ⟨_, φ, hstep, hφ, rfl⟩ ⟨_, φ, hbody, hφ, rfl⟩ w q q' hq
  | define name params hbody =>
    simp only [Form.exec]
    refine (makeClosure (view_of_home hq) ⟨_, φ, hbody, hφ, rfl⟩ name params).bind fun f => ?_
    refine (Procs.define hq name f).bind fun _ => ?_
    exact (note (by decide) fun _ _ _ => rfl).bind fun _ => pure _
  | ret _ ih => exact ret ih w q q' hq
  | load _ ih => exact load ih w q q' hq
  | attempt name _ _ _ ihbody ihhandler ihfinalizer =>
    exact protect name ihbody ihhandler ihfinalizer (view_of_home hq)
  | leave | skip =>
    simp only [Form.exec]
    exact pure _
  | misplacedStmt t | unlistedStmts t =>
    simp only [Form.exec]
    exact failWith rfl
  | noStmts =>
    simp only [relinedBody, execAll]
    exact pure _
  | nextStmt _ _ ihs ihss =>
    simp only [relinedBody, execAll_cons]
    refine (ihs w q q' hq).bind fun o => ?_
    cases o with
    | normal => exact ihss w q q' hq
    | returned _ | broke | continued => exact pure _
  | writeOut line hm _ _ ihmodule ihss =>
    rw [relinedBody_append]
    exact writeOut line hm ihmodule ihss hq

end Procs

theorem Same.parts {x : Part} {a b : x.Tree} (h : A.Same x a b) : A.Parts x a b := by
  obtain ⟨c, φ, hc, hφ, rfl⟩ := h
  exact Procs.ofInlined hφ hc

end Accord

end Hantec
