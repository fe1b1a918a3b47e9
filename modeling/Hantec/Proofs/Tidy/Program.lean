import Hantec.Proofs.Tidy.Contract

/-!
# Tidy programs keep to their contract

By recursion on the program, all its parts keep to the contract of tidy programs under a policy.
The bodies of functions and modules are tidy as well, so tasks keep to it, and so does every run of
a tidy program. All that such a run begins is begun in a tidy state of the policy.
-/

namespace Hantec

namespace Contract

variable {C : Contract} {d q : Nat} {s : State}

theorem begins_expr {e : Expr} {R : Except Failure Value → State → Prop}
    (h : C.Meets d (.script (e.script q) s) R) : C.begins (.expr e q) s := by
  rw [Expr.script.eq_def] at h
  exact h.1

theorem begins_stmt {x : Stmt} {R : Except Failure Outcome → State → Prop}
    (h : C.Meets d (.script (x.script q) s) R) : C.begins (.stmt x q) s := by
  obtain ⟨line, form⟩ := x
  rw [Stmt.script] at h
  exact h.1

end Contract

namespace Policy

variable {P : Policy} {d q : Nat}

/-! ## Parts -/

namespace Follows

variable [P.Lawful]

theorem fault {α : Type} {f : Fault} (hf : P.fault f) {Q : α → Prop} :
    P.Follows d q (.run (Proc.fault f)) Q :=
  calm (.fault (.inl hf)) (.failWith fun _ _ h => by cases h)

theorem trace (level : Nat) {line : Heap → Except Trouble String}
    (hline : ∀ h, P.Holds h → P.Grants hard (fun _ => True) (line h)) :
    P.Follows d q (.run (Proc.trace level line)) fun _ => True :=
  calm (.trace level hline) (.trace level line)

theorem traceLine (level : Nat) (line : Heap → String) :
    P.Follows d q (.run (Proc.trace level fun h => .ok (line h))) fun _ => True :=
  trace level fun _ _ => trivial

theorem readName (name : String) : P.Follows d q (.run (readName q name)) P.value :=
  calm (.readName q name) (.readName q name)

theorem isTruthy {v : Value} (hv : P.value v) :
    P.Follows d q (.run (Proc.isTruthy v)) fun _ => True :=
  scopeless (.scopeless (.isTruthy hv)) (.isTruthy trivial)

theorem refusePath {v : Value} (hv : P.value v) {Q : Outcome → Prop} :
    P.Follows d q (.run (refusePath v)) Q :=
  scopeless ((Runs.scopeless (.typeName hv)).bind fun _ _ => .raiseError (by decide) _)
    ((Proc.Abides.typeName trivial).bind fun _ _ => .raiseError (by decide) _)

theorem memberOf (v : Value) (name : String) :
    P.Follows d q (.run (memberOf v name)) P.value := by
  unfold Hantec.memberOf
  split
  · exact raiseError (by decide) _
  · exact scopeless (.scopeless (.member _ name)) (.member _ name)

theorem decideBranch {v : Value} (hv : P.value v) :
    P.Follows d q (.run (decideBranch v)) fun _ => True := by
  have htrace (line : String → String) : P.Runs (fun _ _ => True) hard
      (Proc.trace 3 fun h => do return line (← h.toText v)) fun _ => True :=
    .trace 3 fun h hh => (Grants.toText hh hv).bind fun _ _ => trivial
  have htruthy : Proc.Scopeless True true (Proc.isTruthy v) := .isTruthy trivial
  refine calm ((Runs.scopeless (.isTruthy hv)).bind fun b _ => (htrace _).bind fun _ _ =>
    .pure trivial) ?_
  exact htruthy.isCalm.bind fun _ => .bind (.trace _ _) fun _ => .pure _

theorem declared {name : String} (hname : IsFree name) {v : Value} (hv : P.value v) :
    P.Follows d q (.bind (.run (Proc.modifyHeap (·.define q name v))) fun _ =>
      .bind (.run (Proc.trace 2 fun h => do return s!"let {name} = " ++ (← h.toText v))) fun _ =>
        .run (Pure.pure .normal)) (P.Allows fun _ => True) := by
  have htrace : P.Follows d q
      (.run (Proc.trace 2 fun h => do return s!"let {name} = " ++ (← h.toText v))) fun _ => True :=
    trace 2 fun h hh => (Grants.toText hh hv).bind fun _ _ => trivial
  exact (define q hname hv).bind fun _ _ => htrace.bind fun _ _ => pure trivial

/-- A module binds free names only, since it was read. -/
theorem loadModule (path : String) :
    P.Follows d q (.bind (.run (loadModule path)) fun module =>
      .run (Proc.perform (.module module q))) (P.Allows fun _ => True) := by
  refine Follows.bind (scopeless (.loadModule path) (.loadModule path)) fun module hloads => ?_
  refine perform (t := .module module q) (Lawful.modules module hloads) fun h hq => ⟨hq, ?_⟩
  obtain ⟨_, _, _, _, -, hparse⟩ := hloads
  exact tidy_of_parseProgram hparse

end Follows

mutual

theorem follows_expr [P.Lawful] : (e : Expr) → e.Obeys P.rules → e.IsTidy → ∀ q,
    P.Follows d q (e.script q) P.value
  | .constant c, ho, ht, q => by
    rw [Expr.script]
    refine .expr ho ht (.pure ?_)
    cases c <;> exact Lawful.plain _ trivial
  | .compound place t, ho, ht, q => by
    rw [Expr.script]
    exact .expr ho ht (.scopeless (.scopeless (.literal place ho))
      (.literal place ((allowsAll_any _).literal t)))
  | .variable name, ho, ht, q => by
    rw [Expr.script]
    exact .expr ho ht (.readName name)
  | .assign name e, ho, ht, q => by
    rw [Expr.script]
    refine .expr ho ht ((follows_expr e ho ht.2 q).bind fun v hv => ?_)
    exact (Follows.writeName q ht.1 hv).bind fun _ _ => .pure hv
  | .unary op e, ho, ht, q => by
    rw [Expr.script]
    refine .expr ho ht ((follows_expr e ho ht q).bind fun v hv => ?_)
    exact .scopeless (.scopeless (.unaryOp op hv)) (.unaryOp op trivial)
  | .binary op l r, ho, ht, q => by
    rw [Expr.script]
    refine .expr ho ht ((follows_expr l ho.1 ht.1 q).bind fun left hleft => ?_)
    have hright := follows_expr r ho.2 ht.2 q
    cases op with
    | and | or =>
      refine (Follows.isTruthy hleft).bind fun b _ => ?_
      cases b
      · first | exact hright | exact .pure hleft
      · first | exact hright | exact .pure hleft
    | nullish =>
      cases left
      case null => exact hright
      all_goals exact .pure hleft
    | _ =>
      refine hright.bind fun v hv => ?_
      exact .scopeless (.scopeless (.binaryOp _ hleft hv)) (.binaryOp _ trivial trivial)
  | .call c args, ho, ht, q => by
    rw [Expr.script]
    refine .expr ho ht ((follows_expr c ho.1 ht.1 q).bind fun f hf => ?_)
    refine (follows_items args ho.2 ht.2 q).bind fun vs hvs => ?_
    exact .scopeless (.scopeless (.callValue hf hvs)) (.callValue trivial fun _ _ => trivial)
  | .step name op, ho, ht, q => by
    rw [Expr.script]
    refine .expr ho ht ((Follows.readName name).bind fun v hv => ?_)
    refine Follows.bind (.scopeless (.scopeless (.toNumber hv)) (.toNumber trivial)) fun x _ => ?_
    refine (Follows.writeName q ht ?_).bind fun _ _ => .pure hv
    exact Lawful.plain _ trivial
  | .member e name, ho, ht, q => by
    rw [Expr.script]
    exact .expr ho ht ((follows_expr e ho ht q).bind fun v _ => .memberOf v name)
  | .function params body, ho, ht, q => by
    rw [Expr.script]
    exact .expr ho ht (.makeClosure ho ht.1 ht.2 rfl)
  | .misplaced t, ho, ht, q | .unlisted t, ho, ht, q => by
    rw [Expr.script]
    exact .expr ho ht (.fault ho)

theorem follows_items [P.Lawful] : (es : List Expr) → exprsObey P.rules es → exprsTidy es → ∀ q,
    P.Follows d q (itemsScript q es) fun vs => ∀ v ∈ vs, P.value v
  | [], _, _, q => by
    rw [itemsScript]
    exact .pure nofun
  | e :: es, ho, ht, q => by
    rw [itemsScript]
    refine (follows_expr e ho.1 ht.1 q).bind fun v hv => ?_
    refine (follows_items es ho.2 ht.2 q).bind fun vs hvs => ?_
    exact .pure (List.forall_mem_cons.2 ⟨hv, hvs⟩)

theorem follows_stmt [P.Lawful] : (x : Stmt) → x.Obeys P.rules → x.IsTidy → ∀ q,
    P.Follows d q (x.script q) (P.Allows fun _ => True)
  | .mk line form, ho, ht, q => by
    rw [Stmt.script]
    refine .stmt ho ht ((Follows.traceLine 4 _).bind fun _ _ => ?_)
    exact (follows_form form ho ht.2 q).within ht.1

theorem follows_form [P.Lawful] : (f : Form) → f.Obeys P.rules → f.IsTidy → ∀ q,
    P.Follows d q (f.script q) (P.Allows fun _ => True)
  | .expr e, ho, ht, q => by
    rw [Form.script]
    exact (follows_expr e ho ht q).bind fun _ _ => .pure trivial
  | .declare name none, ho, ht, q => by
    rw [Form.script]
    exact Follows.bind (.pure (Lawful.plain .null trivial)) fun v hv => .declared ht.1 hv
  | .declare name (some e), ho, ht, q => by
    rw [Form.script]
    exact (follows_expr e ho ht.2 q).bind fun v hv => .declared ht.1 hv
  | .block body, ho, ht, q => by
    rw [Form.script]
    exact .inner fun new => follows_body body ho ht new
  | .cond test yes none, ho, ht, q => by
    rw [Form.script.eq_def]
    refine (follows_expr test ho.1 ht.1 q).bind fun v hv => (Follows.decideBranch hv).bind ?_
    rintro (_ | _) _
    · exact .pure trivial
    · exact follows_stmt yes ho.2.1 ht.2.1 q
  | .cond test yes (some no), ho, ht, q => by
    rw [Form.script.eq_def]
    refine (follows_expr test ho.1 ht.1 q).bind fun v hv => (Follows.decideBranch hv).bind ?_
    rintro (_ | _) _
    · exact follows_stmt no ho.2.2 ht.2.2 q
    · exact follows_stmt yes ho.2.1 ht.2.1 q
  | .loop test body, ho, ht, q => by
    rw [Form.script]
    exact .perform ⟨ho.1, trivial, ho.2⟩ fun h hq => ⟨hq, ht.1, trivial, ht.2⟩
  | .circuit none test step body, ho, ht, q => by
    rw [Form.script.eq_def]
    exact .inner fun new => .perform ho.2 fun h hq => ⟨hq, ht.2⟩
  | .circuit (some init) test step body, ho, ht, q => by
    rw [Form.script.eq_def]
    refine .inner fun new => (follows_stmt init ho.1 ht.1 new).bind fun _ _ => ?_
    exact .perform ho.2 fun h hq => ⟨hq, ht.2⟩
  | .define name params body, ho, ht, q => by
    rw [Form.script]
    refine Follows.bind (.makeClosure ho ht.2.1 ht.2.2 rfl) fun f hf => ?_
    refine (Follows.define q ht.1 hf).bind fun _ _ => ?_
    exact (Follows.traceLine 2 _).bind fun _ _ => .pure trivial
  | .ret none, ho, ht, q => by
    rw [Form.script]
    exact .pure ⟨trivial, Lawful.plain _ trivial⟩
  | .ret (some e), ho, ht, q => by
    rw [Form.script]
    exact (follows_expr e ho ht q).bind fun v hv => .pure ⟨trivial, hv⟩
  | .load e, ho, ht, q => by
    rw [Form.script]
    refine Follows.bind (.calm .config .config) fun config _ => ?_
    split
    · exact .raiseError (by decide) _
    · refine (follows_expr e ho ht q).bind fun v hv => ?_
      split
      · exact .loadModule _
      · exact .refusePath hv
  | .attempt body name handler finalizer, ho, ht, q => by
    rw [Form.script.eq_def]
    have hfirst : P.Follows d q
        (.bind (.run (innerScope q)) fun inner => bodyScript inner body) (P.Allows fun _ => True) :=
      .inner fun new => follows_body body ho.1 ht.1 new
    have hhandled := Follows.handled hfirst ht.2.1 (follows_optional handler ho.2.1 ht.2.2.1)
    cases finalizer with
    | none => exact hhandled
    | some f => exact hhandled.ensure (.inner fun new => follows_body f ho.2.2 ht.2.2.2 new)
  | .leave, _, _, q | .skip, _, _, q => by
    rw [Form.script]
    exact .pure trivial
  | .misplaced t, ho, _, q | .unlisted t, ho, _, q => by
    rw [Form.script]
    exact .fault ho

theorem follows_body [P.Lawful] : (ss : List Stmt) → stmtsObey P.rules ss → stmtsTidy ss → ∀ q,
    P.Follows d q (bodyScript q ss) (P.Allows fun _ => True)
  | [], _, _, q => by
    rw [bodyScript]
    exact .pure trivial
  | s :: ss, ho, ht, q => by
    rw [bodyScript]
    refine (follows_stmt s ho.1 ht.1 q).bind fun o hallowed => ?_
    cases o with
    | normal => exact follows_body ss ho.2 ht.2 q
    | returned | broke | continued => exact .pure hallowed

theorem follows_optional [P.Lawful] : (o : Option (List Stmt)) → optionalStmtsObey P.rules o →
    optionalStmtsTidy o → ∀ ss, o = some ss → ∀ q,
    P.Follows d q (bodyScript q ss) (P.Allows fun _ => True)
  | none, _, _, _, h => nomatch h
  | some ss, ho, ht, _, rfl => follows_body ss ho ht

end

/-! ## Tasks -/

theorem follows_call {c : Closure} [P.Lenient] (hbody : P.Body c.body) {n : Nat}
    (htidy : c.IsTidy n) {args : List Value} (hargs : ∀ v ∈ args, P.value v) :
    P.Follows d c.scope (c.script args) (P.Allows fun _ => True) := by
  have hnull : P.value .null := Lawful.plain _ trivial
  refine .inner fun new => Follows.bind (Q := fun _ => True) ?_ fun _ _ => ?_
  · exact .onHeap (f := fun h => ((), bindParams new c.params args h)) fun h hh ht _ =>
      ⟨trivial, holds_bindParams hnull hargs hh, ht.bindParams new htidy.params args⟩
  · refine (follows_body c.body hbody.2 htidy.body new).bind fun o ho => ?_
    cases o with
    | normal => exact .pure ⟨trivial, hnull⟩
    | returned v => exact .pure ho
    | broke | continued =>
      exact .calm (.raiseErrorValue fun id => Lenient.control id _) (.raiseError _ _)

theorem follows_turn [P.Lawful] {test step : Option Expr} {body : Stmt}
    (hobeys : P.Accepts (.loop test step body q))
    (htidy : optionalExprTidy test ∧ optionalExprTidy step ∧ body.IsTidy) :
    P.Follows d q (turnScript test step body q) (P.Allows fun _ => True) := by
  obtain ⟨hotest, hostep, hobody⟩ := hobeys
  obtain ⟨httest, htstep, htbody⟩ := htidy
  have hstep : P.Follows d q (stepScript step q) (P.Allows fun _ => True) := by
    cases step with
    | none => exact .pure trivial
    | some e => exact (follows_expr e hostep htstep q).bind fun _ _ => .pure trivial
  have hloop : P.Follows d q (loopScript step body q) (P.Allows fun _ => True) := by
    refine (follows_stmt body hobody htbody q).bind fun o ho => ?_
    cases o with
    | broke => exact .pure trivial
    | returned v => exact .pure ho
    | normal | continued => exact hstep
  cases test with
  | none => exact hloop
  | some e =>
    refine (follows_expr e hotest httest q).bind fun v hv => (Follows.isTruthy hv).bind ?_
    rintro (_ | _) _
    · exact .pure trivial
    · exact hloop

theorem follows_program [P.Lenient] {program : List Stmt} (hobeys : stmtsObey P.rules program)
    (htidy : stmtsTidy program) :
    P.Follows d 0 (programScript program) (P.Allows fun _ => True) := by
  refine (Follows.traceLine 1 _).bind fun _ _ => ?_
  refine (follows_body program hobeys htidy 0).bind fun o _ => ?_
  cases o with
  | normal => exact .pure trivial
  | returned | broke | continued =>
    exact .calm (.raiseErrorValue fun id => Lenient.control id _) (.raiseError _ _)

/-- All tasks keep to the contract. -/
theorem lawful_contract [P.Lenient] : P.contract.Lawful where
  line _ h := h
  call {d f args s} h := by
    obtain ⟨hs, hargs, -⟩ := h
    have hends : P.contract.ScriptMeets d (f.script args) s
        (P.Finishes (P.Allows fun _ => True) s) := by
      cases f with
      | closure r =>
        have hnil : P.Body [] := ⟨Lawful.empty, trivial⟩
        have hclosure := hs.tidy.closure r
        refine ⟨.ret ⟨fun c hc => ?_, nofun⟩, .ret _ _⟩
        obtain rfl := Except.ok.inj hc
        exact follows_call (hs.admits.heap.closure hnil r) hclosure hargs s hs hclosure.scope
      | builtin b =>
        have hruns : P.Runs (fun _ _ => True) hard (do return .returned (← b.call args))
            (P.Allows fun _ => True) :=
          (Runs.builtinCall b hargs).bind fun v hv => .pure ⟨trivial, hv⟩
        exact Follows.calm hruns ((Proc.IsCalm.builtinCall b args).bind fun _ => .pure _) s hs
          hs.tidy.root
    refine hends.mono fun r s' h' => ⟨fun _ => h'.tidies, fun _ e s'' he => ?_⟩
    cases he
    exact h'.tidies.trans (h'.tidies.tidy.ofSame ⟨rfl, rfl⟩)
  tooDeep {f args s} h e s' he := by
    cases he
    exact h.1.tidy.ofSame ⟨rfl, rfl⟩
  module h := by
    obtain ⟨hs, hobeys, hq, htidy⟩ := h
    exact (follows_body _ hobeys htidy _ _ hs hq).mono fun _ _ h' => h'.tidies
  moduleTooDeep h := h.1.tidy.refl
  turn h := by
    obtain ⟨hs, hobeys, hq, htidy⟩ := h
    refine (follows_turn hobeys htidy _ hs hq).mono fun r s' h' => ⟨fun _ => ?_, fun _ => h'.tidies⟩
    refine ⟨⟨h'.welcomes, hobeys, h'.tidies.lt_size hq, htidy⟩, fun _ _ h'' => ?_⟩
    exact h'.tidies.trans h''

/-! ## Runs -/

section Runs

variable [P.Lenient] {s s' : State} (hs : P.Welcomes s) {program : List Stmt}
  (hobeys : stmtsObey P.rules program) (htidy : stmtsTidy program)

include hs hobeys htidy

theorem Welcomes.meets : P.contract.Meets 0 (.script (programScript program) s)
    (P.Finishes (P.Allows fun _ => True) s) :=
  follows_program hobeys htidy s hs hs.tidy.root

variable {ls : List Int}

/-- An expression that is begun in the course of a run. -/
theorem Welcomes.of_enters_expr {e : Expr}
    (h : Enters 0 [] (.script (programScript program) s) d ls (.script (e.script q) s')) :
    P.Welcomes s' ∧ ∀ r s'', ComesTo d (.script (e.script q) s') r s'' →
      P.Finishes P.value s' r s'' := by
  obtain ⟨R, hmeets⟩ := lawful_contract.of_enters h (hs.meets hobeys htidy)
  obtain ⟨hs', hobeys', hq, htidy'⟩ := Contract.begins_expr hmeets
  exact ⟨hs', fun r s'' hr =>
    lawful_contract.of_comesTo hr (follows_expr e hobeys' htidy' q s' hs' hq)⟩

/-- A statement that is begun in the course of a run, in a scope that is there. -/
theorem Welcomes.of_enters_stmt {x : Stmt}
    (h : Enters 0 [] (.script (programScript program) s) d ls (.script (x.script q) s')) :
    P.Welcomes s' ∧ q < s'.heap.scopes.size ∧
      ∀ r s'', ComesTo d (.script (x.script q) s') r s'' →
        P.Finishes (P.Allows fun _ => True) s' r s'' := by
  obtain ⟨R, hmeets⟩ := lawful_contract.of_enters h (hs.meets hobeys htidy)
  obtain ⟨hs', hobeys', hq, htidy'⟩ := Contract.begins_stmt hmeets
  exact ⟨hs', hq, fun r s'' hr =>
    lawful_contract.of_comesTo hr (follows_stmt x hobeys' htidy' q s' hs' hq)⟩

/-- A task that is begun in the course of a run. -/
theorem Welcomes.of_enters_task {t : Task}
    (h : Enters 0 [] (.script (programScript program) s) d ls (.task t s')) :
    P.Welcomes s' ∧ P.Accepts t ∧ ∀ r s'', ComesTo d (.task t s') r s'' →
      P.TaskEnds t s' r s'' ∧ s'.heap.Tidies s''.heap := by
  obtain ⟨R, hacc, -⟩ := lawful_contract.of_enters h (hs.meets hobeys htidy)
  refine ⟨hacc.1, hacc.2.1, fun r s'' hr => ⟨taskEnds_of_comesTo hr hacc.2.1 hacc.1.admits, ?_⟩⟩
  exact lawful_contract.of_comesTo (R := fun _ s'' => s'.heap.Tidies s''.heap) hr
    ⟨hacc, fun _ _ h => h⟩

end Runs

/-- What a calm procedure comes to when it is run alone. -/
theorem Runs.ends_of_comesTo [P.Lenient] {α : Type} {A : Nat → String → Prop}
    {soft : Fault → Prop} {Q : α → Prop} {p : Proc α} (hp : P.Runs A soft p Q) (hcalm : p.IsCalm)
    {s s' : State} (hs : P.Welcomes s) {r : Except Failure α}
    (h : ComesTo d (.script (.run p) s) r s') : P.Ends A soft Q s r s' :=
  lawful_contract.of_comesTo (comesTo_run_iff.1 h)
    (stepMeets_of_calm (hp s hs.admits) (hcalm s) hs.tidy fun _ _ hr _ => hr)

end Policy

/-- A state that a session can be in: a fresh one, or the one after a program was read and run. In
between, the trace may be written out, and the world may change. -/
inductive State.InSession : State → Prop where
  | start {c : Config} {w : World} {s : State} : State.start c w = .ok s → InSession s
  | run {s s' : State} {source : String} {p : List Stmt} {r : Except Failure Outcome} :
      InSession s → parseProgram source = .ok p →
      (Machine.start (programProc p) s).EndsWith r s' → InSession s'
  | settle {s : State} : InSession s → InSession s.settle
  | elsewhere {s : State} (w : World) : InSession s → InSession { s with world := w }

open Policy

theorem welcomes_any {s : State} (hs : s.heap.IsTidy) : (any s.config).Welcomes s :=
  ⟨admits_any s, hs⟩

theorem meets_any {s : State} (hs : s.heap.IsTidy) {source : String} {p : List Stmt}
    (hp : parseProgram source = .ok p) :
    (any s.config).contract.Meets 0 (.script (programScript p) s)
      ((any s.config).Finishes ((any s.config).Allows fun _ => True) s) :=
  (welcomes_any hs).meets (stmts_obey (allowsAll_any s.config) p) (tidy_of_parseProgram hp)

/-- The heap of a session is tidy at any time between two programs. -/
theorem State.InSession.isTidy {s : State} (h : s.InSession) : s.heap.IsTidy := by
  induction h with
  | start hs =>
    rw [(State.of_start hs).2]
    exact Heap.isTidy_initial
  | run _ hp hend ih =>
    exact (lawful_contract.of_comesTo (endsWith_program_iff.1 hend) (meets_any ih hp)).tidies.tidy
  | @settle s _ ih =>
    rw [s.heap_settle]
    exact ih
  | elsewhere w _ ih => exact ih

end Hantec
