import Hantec.Proofs.ErrorLines
import Hantec.Proofs.Import.Depth

/-!
# What printing means

A print statement is a call of a name like any other. It still prints, whatever the program binds:
no name that is spelled as a keyword is ever bound, in any session, so the name is always that of
the builtin that prints. The only way to keep such a statement from printing a value that can be
displayed is to have used up all calls that may be open.
-/

namespace Hantec

def printStmt (line : Int) (e : Expr) : Stmt := .mk line (.expr (.call (.variable printer) [e]))

/-- The printer is a global name and stands for the builtin that prints. No other name that is
spelled as a keyword is bound anywhere. -/
structure Heap.KeepsPrinter (h : Heap) : Prop where
  global : ∃ scope, h.scopes[0]? = some scope ∧ scope.vars.get? printer = some printValue
  keywords : ∀ (q : Nat) (scope : Scope) (x : String), h.scopes[q]? = some scope →
    keyword? x ≠ none → scope.vars.get? x = if q = 0 ∧ x = printer then some printValue else none

theorem Heap.IsTidy.keepsPrinter {h : Heap} (hh : h.IsTidy) : h.KeepsPrinter where
  global := by
    obtain ⟨scope, hscope⟩ : ∃ scope, h.scopes[0]? = some scope :=
      ⟨_, Array.getElem?_eq_getElem hh.root⟩
    exact ⟨scope, hscope, (hh.scopes 0 scope hscope).names printer (by decide)⟩
  keywords q scope x hscope hx := (hh.scopes q scope hscope).names x hx

/-- How printing can end with so many calls open, after the expression has come to a result: the
value is displayed and nothing else happens, or printing fails and the world stays as it is. -/
inductive PrintEnds (d : Nat) (line : Int) (s : State) :
    Except Failure Value → Except Failure Outcome → State → Prop where
  | failed (f : Failure) : PrintEnds d line s (.error f) (.error (f.atLine line)) s
  | printed {v : Value} {text : String} {s' : State} :
      d < Machine.depthLimit → s.heap.display v = .ok text → s'.config = s.config →
      s'.heap = s.heap → s'.world = s.world.print (text ++ "\n") →
      PrintEnds d line s (.ok v) (.ok .normal) s'
  | refused {v : Value} {f : Failure} {s' : State} :
      ¬ (d < Machine.depthLimit ∧ ∃ text, s.heap.display v = .ok text) → s'.world = s.world →
      PrintEnds d line s (.ok v) (.error f) s'

/-! ## The builtin -/

section Builtin

variable {d : Nat} {s s' : State} {v : Value}

theorem run_print_of_display {text : String} (hv : s.heap.display v = .ok text) :
    (Builtin.call (.core .print) [v]).run s =
      .ret .null { s with world := s.world.print (text ++ "\n") } := by
  have hask : (Proc.ask (·.display v)).run s = .ret text s := Proc.run_ask s hv
  have hrun : (CoreFn.run .print [v]).run s =
      .ret .null { s with world := s.world.print (text ++ "\n") } := by
    simp [CoreFn.run, argument, hask, Proc.print]
  rw [Builtin.call, Proc.run_attempt_bind]
  show ((CoreFn.run .print [v]).run s).andThen _ = _
  rw [hrun]
  rfl

theorem run_print_of_trouble {t : Trouble} (hv : s.heap.display v = .error t) :
    (Builtin.call (.core .print) [v]).run s =
      ((Builtin.core .print).failWith t.toFailure : Proc Value).run s := by
  have hask : (Proc.ask (·.display v)).run s = .fail t.toFailure s := Proc.run_ask_error s hv
  have hrun : (CoreFn.run .print [v]).run s = .fail t.toFailure s := by
    simp [CoreFn.run, argument, hask]
  rw [Builtin.call, Proc.run_attempt_bind]
  show ((CoreFn.run .print [v]).run s).andThen _ = _
  rw [hrun]
  rfl

/-- A builtin that fails leaves the world as it is. -/
theorem exists_run_failWith (b : Builtin) (f : Failure) :
    ∃ e s', (b.failWith f : Proc Value).run s = .fail e s' ∧ s'.world = s.world := by
  unfold Builtin.failWith
  split
  · split
    · exact ⟨_, _, rfl, rfl⟩
    · exact ⟨_, _, rfl, rfl⟩
  · exact ⟨_, _, rfl, rfl⟩

/-- How a call of the builtin can end. -/
inductive PrintCallEnds (d : Nat) (s : State) (v : Value) : Except Failure Outcome → State → Prop
    where
  | printed {text : String} : d < Machine.depthLimit → s.heap.display v = .ok text →
      PrintCallEnds d s v (.ok (.returned .null)) { s with world := s.world.print (text ++ "\n") }
  | refused {f : Failure} {s' : State} :
      ¬ (d < Machine.depthLimit ∧ ∃ text, s.heap.display v = .ok text) → s'.world = s.world →
      PrintCallEnds d s v (.error f) s'

def printTask (v : Value) : Task := .call (.builtin (.core .print)) [v]

theorem run_printBody_of_display {text : String} (hv : s.heap.display v = .ok text) :
    (do return Outcome.returned (← Builtin.call (.core .print) [v]) : Proc Outcome).run s =
      .ret (.returned .null) { s with world := s.world.print (text ++ "\n") } := by
  rw [Proc.run_bind, run_print_of_display hv]
  rfl

theorem exists_run_printBody {t : Trouble} (hv : s.heap.display v = .error t) :
    ∃ e s₁, (do return Outcome.returned (← Builtin.call (.core .print) [v]) : Proc Outcome).run s =
      .fail e s₁ ∧ s₁.world = s.world := by
  obtain ⟨e, s₁, hrun, hworld⟩ := exists_run_failWith (s := s) (.core .print) t.toFailure
  refine ⟨e, s₁, ?_, hworld⟩
  rw [Proc.run_bind, run_print_of_trouble hv, hrun]
  rfl

theorem printCallEnds_of_comesTo {r : Except Failure Outcome}
    (h : ComesTo d (.task (printTask v) s) r s') : PrintCallEnds d s v r s' := by
  -- The body of the builtin prints, or fails and leaves the world as it is.
  have hbody {r : Except Failure Outcome} {s₁ : State}
      (h : ComesTo (d + 1) (.script (Callable.script (.builtin (.core .print)) [v]) s) r s₁) :
      (∃ text, s.heap.display v = .ok text ∧ r = .ok (.returned .null) ∧
        s₁ = { s with world := s.world.print (text ++ "\n") }) ∨
      (∀ text, s.heap.display v ≠ .ok text) ∧ s₁.world = s.world ∧ ∃ e, r = .error e := by
    rw [Callable.script, comesTo_run_iff] at h
    cases hv : s.heap.display v with
    | ok text =>
      rw [run_printBody_of_display hv] at h
      exact .inl ⟨text, rfl, comesTo_ret_iff.1 h⟩
    | error t =>
      obtain ⟨e, s₂, hrun, hworld⟩ := exists_run_printBody hv
      rw [hrun] at h
      obtain ⟨rfl, rfl⟩ := comesTo_fail_iff.1 h
      exact .inr ⟨nofun, hworld, e, rfl⟩
  cases h with
  | call hd h _ =>
    obtain ⟨text, hv, rfl, rfl⟩ | ⟨hv, hworld, e, rfl⟩ := hbody h
    · exact .printed hd hv
    · exact .refused (fun hd => hv _ hd.2.choose_spec) hworld
  | overflow hd h hraise =>
    obtain ⟨-, -, hr, -⟩ | ⟨hv, hworld, -⟩ := hbody h
    · cases hr
    · obtain ⟨rfl, rfl⟩ := comesTo_fail_iff.1 hraise
      exact .refused (fun hd => hv _ hd.2.choose_spec) hworld
  | tooDeep hd hraise =>
    obtain ⟨rfl, rfl⟩ := comesTo_fail_iff.1 hraise
    exact .refused (fun h => hd h.1) rfl

/-- A call of the builtin comes to an end. -/
theorem exists_comesTo_printTask (d : Nat) (v : Value) (s : State) :
    ∃ r s', ComesTo d (.task (printTask v) s) r s' := by
  by_cases hd : d < Machine.depthLimit
  · obtain ⟨r, s₁, hbody⟩ : ∃ r s₁, ComesTo (d + 1)
        (.script (Callable.script (.builtin (.core .print)) [v]) s) r s₁ := by
      simp only [Callable.script, comesTo_run_iff]
      cases hv : s.heap.display v with
      | ok text =>
        rw [run_printBody_of_display hv]
        exact ⟨_, _, .ret _ _⟩
      | error t =>
        obtain ⟨e, s₁, hrun, -⟩ := exists_run_printBody hv
        rw [hrun]
        exact ⟨_, _, .fail _ _⟩
    by_cases hr : r = .error .overflow
    · subst hr
      exact ⟨_, _, .overflow hd hbody (.fail _ _)⟩
    · exact ⟨_, _, .call hd hbody hr⟩
  · exact ⟨_, _, .tooDeep hd (.fail _ _)⟩

end Builtin

/-! ## The statement -/

section Statement

variable {d q : Nat} {s s' : State} {e : Expr} {v : Value} {line : Int}

/-- A call of a callable that takes so many arguments leaves at most a line in the trace before it
asks for the task. -/
theorem exists_run_callValue {c : Callable} {args : List Value}
    (harity : s.heap.callableArity c = some args.length) :
    ∃ text, (callValue (.fn c) args).run s = .sub (.call c args) (s.noted 3 text) fun r s =>
      ((Proc.ofResult r).run s).bind fun o => .ret o.value := by
  refine ⟨s!"call {s.heap.callableText c} with {args.length} arguments", ?_⟩
  have hask : (Proc.ask fun h => .ok (h.callableArity c)).run s = .ret (some args.length) s :=
    Proc.run_ask s (congrArg Except.ok harity)
  simp only [callValue, callable, Proc.run_bind, Proc.run_pure, Step.bind_ret, hask,
    bne_self_eq_false, Bool.false_eq_true, if_false, Proc.run_note]
  rfl

theorem comesTo_variable_iff {name : String} (hs : s.heap.lookup q name = some v)
    {r : Except Failure Value} :
    ComesTo d (.script (Expr.script q (.variable name)) s) r s' ↔ r = .ok v ∧ s' = s := by
  rw [Expr.script, comesTo_site_iff]
  exact comesTo_run_ret_iff (by simp [readName, Proc.run_ask, hs])

theorem comesTo_items_nil_iff {r : Except Failure (List Value)} :
    ComesTo d (.script (itemsScript q []) s) r s' ↔ r = .ok [] ∧ s' = s := by
  rw [itemsScript]
  exact comesTo_run_ret_iff rfl

theorem comesTo_items_one_iff {r : Except Failure (List Value)} :
    ComesTo d (.script (itemsScript q [e]) s) r s' ↔
      ∃ r₁, r = r₁.map ([·]) ∧ ComesTo d (.script (e.script q) s) r₁ s' := by
  rw [itemsScript, comesTo_bind_iff]
  constructor
  · rintro (⟨v, s₁, he, h⟩ | ⟨f, rfl, he⟩)
    · obtain ⟨vs, s₂, hnil, hpure⟩ | ⟨f, -, hnil⟩ := comesTo_bind_iff.1 h
      · obtain ⟨hvs, rfl⟩ := comesTo_items_nil_iff.1 hnil
        obtain rfl := Except.ok.inj hvs
        obtain ⟨rfl, rfl⟩ := (comesTo_run_ret_iff rfl).1 hpure
        exact ⟨.ok v, rfl, he⟩
      · cases (comesTo_items_nil_iff.1 hnil).1
    · exact ⟨.error f, rfl, he⟩
  · rintro ⟨r₁, rfl, he⟩
    cases r₁ with
    | error f => exact .inr ⟨f, rfl, he⟩
    | ok v =>
      exact .inl ⟨v, s', he, .next (comesTo_items_nil_iff.2 ⟨rfl, rfl⟩) (.run (.ret _ _))⟩

/-- A print statement evaluates its expression and then calls the printer. -/
theorem comesTo_printExpr_iff (hs : s.heap.lookup q printer = some printValue)
    {r : Except Failure Value} :
    ComesTo d (.script (Expr.script q (.call (.variable printer) [e])) s) r s' ↔
      (∃ f, r = .error f ∧ ComesTo d (.script (e.script q) s) (.error f) s') ∨
      ∃ v s₁, ComesTo d (.script (e.script q) s) (.ok v) s₁ ∧
        ComesTo d (.step ((callValue printValue [v]).run s₁)) r s' := by
  rw [Expr.script, comesTo_site_iff, comesTo_bind_iff]
  constructor
  · rintro (⟨f, s₀, hf, h⟩ | ⟨f, -, hf⟩)
    · obtain ⟨hprinter, rfl⟩ := (comesTo_variable_iff hs).1 hf
      obtain rfl := Except.ok.inj hprinter
      obtain ⟨vs, s₁, hvs, hcall⟩ | ⟨f, rfl, hvs⟩ := comesTo_bind_iff.1 h
      · obtain ⟨r₁, hr, he⟩ := comesTo_items_one_iff.1 hvs
        cases r₁ with
        | error f => cases hr
        | ok v =>
          obtain rfl := Except.ok.inj hr
          exact .inr ⟨v, s₁, he, comesTo_run_iff.1 hcall⟩
      · obtain ⟨r₁, hr, he⟩ := comesTo_items_one_iff.1 hvs
        cases r₁ with
        | error f' =>
          obtain rfl := Except.error.inj hr
          exact .inl ⟨f, rfl, he⟩
        | ok v => cases hr
    · cases ((comesTo_variable_iff hs).1 hf).1
  · have hprinter := (comesTo_variable_iff (d := d) hs).2 ⟨rfl, rfl⟩
    rintro (⟨f, rfl, he⟩ | ⟨v, s₁, he, h⟩)
    · exact .inl ⟨_, _, hprinter, .stop (comesTo_items_one_iff.2 ⟨.error f, rfl, he⟩)⟩
    · refine .inl ⟨_, _, hprinter, .next (comesTo_items_one_iff.2 ⟨.ok v, rfl, he⟩) ?_⟩
      exact comesTo_run_iff.2 h

/-- A statement that is an expression comes to an end when the expression does. -/
theorem comesTo_exprForm_iff {r : Except Failure Outcome} :
    ComesTo d (.script (Form.script q (.expr e)) s) r s' ↔
      ∃ r₁, r = r₁.map (fun _ => .normal) ∧ ComesTo d (.script (e.script q) s) r₁ s' := by
  rw [Form.script, comesTo_bind_iff]
  constructor
  · rintro (⟨v, s₁, hv, hpure⟩ | ⟨f, rfl, hf⟩)
    · obtain ⟨rfl, rfl⟩ := (comesTo_run_ret_iff rfl).1 hpure
      exact ⟨.ok v, rfl, hv⟩
    · exact ⟨.error f, rfl, hf⟩
  · rintro ⟨r₁, rfl, h⟩
    cases r₁ with
    | ok v => exact .inl ⟨v, s', h, .run (.ret _ _)⟩
    | error f => exact .inr ⟨f, rfl, h⟩

/-- A call of the printer comes to what its task comes to. -/
theorem exists_comesTo_callPrinter_iff (d : Nat) (s : State) (v : Value) :
    ∃ text, ∀ r s', ComesTo d (.step ((callValue printValue [v]).run s)) r s' ↔
      ∃ r₁, r = r₁.map Outcome.value ∧ ComesTo d (.task (printTask v) (s.noted 3 text)) r₁ s' := by
  have harity : s.heap.callableArity (.builtin (.core .print)) = some [v].length := rfl
  obtain ⟨text, hrun⟩ := exists_run_callValue harity
  refine ⟨text, fun r s' => ?_⟩
  rw [printValue, hrun, comesTo_sub_iff]
  constructor
  · rintro ⟨r₁, s₁, htask, h⟩
    cases r₁ with
    | ok o =>
      obtain ⟨rfl, rfl⟩ := comesTo_ret_iff.1 h
      exact ⟨_, rfl, htask⟩
    | error f =>
      obtain ⟨rfl, rfl⟩ := comesTo_fail_iff.1 h
      exact ⟨_, rfl, htask⟩
  · rintro ⟨r₁, rfl, htask⟩
    refine ⟨r₁, s', htask, ?_⟩
    cases r₁ with
    | ok o => exact .ret _ _
    | error f => exact .fail _ _

theorem PrintCallEnds.printEnds {v : Value} {text : String} {r : Except Failure Outcome}
    (h : PrintCallEnds d (s.noted 3 text) v r s') (line : Int) :
    PrintEnds d line s (.ok v) (((r.map Outcome.value).map fun _ => .normal).mapError (·.atLine line))
      s' := by
  cases h with
  | printed hd hv =>
    rw [State.heap_noted] at hv
    exact .printed hd hv (s.config_noted _ _) (s.heap_noted _ _)
      (congrArg (World.print · _) (s.world_noted _ _))
  | refused hno hworld =>
    rw [State.heap_noted] at hno
    exact .refused hno (hworld.trans (s.world_noted _ _))

/-- A print statement ends as printing the value of its expression does. -/
theorem printEnds_of_comesTo (hs : s.heap.lookup q printer = some printValue)
    {r : Except Failure Outcome}
    (h : ComesTo d (.script ((printStmt line e).script q) s) r s') :
    ∃ r₁ s₁, ComesTo d (.script (e.script q) ((printStmt line e).begun s)) r₁ s₁ ∧
      PrintEnds d line s₁ r₁ r s' := by
  rw [← Stmt.heap_begun s (printStmt line e)] at hs
  obtain ⟨_, rfl, hform⟩ := comesTo_stmt_iff.1 h
  obtain ⟨r₁, rfl, hexpr⟩ := comesTo_exprForm_iff.1 hform
  obtain ⟨f, rfl, he⟩ | ⟨v, s₁, he, hcall⟩ := (comesTo_printExpr_iff hs).1 hexpr
  · exact ⟨.error f, s', he, .failed f⟩
  · obtain ⟨text, hiff⟩ := exists_comesTo_callPrinter_iff d s₁ v
    obtain ⟨r₂, rfl, htask⟩ := (hiff r₁ s').1 hcall
    exact ⟨.ok v, s₁, he, (printCallEnds_of_comesTo htask).printEnds line⟩

/-- A print statement comes to an end if its expression does. -/
theorem exists_comesTo_printStmt (hs : s.heap.lookup q printer = some printValue)
    {r₁ : Except Failure Value} {s₁ : State}
    (h : ComesTo d (.script (e.script q) ((printStmt line e).begun s)) r₁ s₁) :
    ∃ r s', ComesTo d (.script ((printStmt line e).script q) s) r s' ∧
      PrintEnds d line s₁ r₁ r s' := by
  rw [← Stmt.heap_begun s (printStmt line e)] at hs
  have hstmt {r : Except Failure Value} {s' : State}
      (h : ComesTo d (.script (Expr.script q (.call (.variable printer) [e]))
        ((printStmt line e).begun s)) r s') :
      ComesTo d (.script ((printStmt line e).script q) s)
        ((r.map fun _ => .normal).mapError (·.atLine line)) s' :=
    comesTo_stmt_iff.2 ⟨_, rfl, comesTo_exprForm_iff.2 ⟨r, rfl, h⟩⟩
  cases r₁ with
  | error f => exact ⟨_, s₁, hstmt ((comesTo_printExpr_iff hs).2 (.inl ⟨f, rfl, h⟩)), .failed f⟩
  | ok v =>
    obtain ⟨text, hiff⟩ := exists_comesTo_callPrinter_iff d s₁ v
    obtain ⟨r₂, s', htask⟩ := exists_comesTo_printTask d v (s₁.noted 3 text)
    have hcall := (hiff _ s').2 ⟨r₂, rfl, htask⟩
    refine ⟨_, s', hstmt ((comesTo_printExpr_iff hs).2 (.inr ⟨v, s₁, h, hcall⟩)), ?_⟩
    exact (printCallEnds_of_comesTo htask).printEnds line

end Statement

/-! ## Coming to a statement -/

section Entering

variable {d q : Nat} {ls : List Int} {s s₁ : State} {x : Stmt} {xs : List Stmt}

/-- A program begins its statements. -/
theorem enters_body (hs : s.config.traceLevel = 0) (p : List Stmt) :
    Enters d ls (.script (programScript p) s) d ls (.script (bodyScript 0 p) s) := by
  have hnoted (text : String) : s.noted 1 text = s := if_pos (hs ▸ Nat.one_pos)
  have hnote : ComesTo d (.script (.run (Proc.trace 1 fun _ =>
      .ok s!"run {p.length} statements")) s) (.ok ()) s :=
    comesTo_note_iff.2 ⟨rfl, (hnoted _).symm⟩
  exact (Begins.next hnote).enters.trans Begins.first.enters

theorem enters_first :
    Enters d ls (.script (bodyScript q (x :: xs)) s) d ls (.script (x.script q) s) := by
  rw [bodyScript]
  exact Begins.first.enters

theorem enters_rest (h : ComesTo d (.script (x.script q) s) (.ok .normal) s₁) :
    Enters d ls (.script (bodyScript q (x :: xs)) s) d ls (.script (bodyScript q xs) s₁) := by
  rw [bodyScript]
  exact (Begins.next h).enters

/-- A call of a function without parameters by its name begins the task of calling it. -/
theorem enters_call (hs : s.config.traceLevel = 0) {name : String} {r : Nat}
    (hname : s.heap.lookup q name = some (.fn (.closure r)))
    (hparams : (s.heap.closure r).params = []) (line : Int) :
    Enters d ls (.script (Stmt.script q (.mk line (.expr (.call (.variable name) [])))) s)
      d (line :: ls) (.task (.call (.closure r) []) s) := by
  have hnoted (text : String) : s.noted 4 text = s := if_pos (hs ▸ Nat.succ_pos 3)
  have hnote (text : String) :
      ComesTo d (.script (.run (Proc.trace 4 fun _ => .ok text)) s) (.ok ()) s :=
    comesTo_note_iff.2 ⟨rfl, (hnoted _).symm⟩
  have hvariable := (comesTo_variable_iff (d := d) hname).2 ⟨rfl, rfl⟩
  have hitems := (comesTo_items_nil_iff (d := d) (q := q) (s := s)).2 ⟨rfl, rfl⟩
  have harity : s.heap.callableArity (.closure r) = some 0 := by simp [Heap.callableArity, hparams]
  have hcall : Enters d (line :: ls) (.script (.run (callValue (.fn (.closure r)) [])) s)
      d (line :: ls) (.task (.call (.closure r) []) s) := by
    refine Begins.run.enters.trans ?_
    show Enters d _ (.step ((callValue (.fn (.closure r)) []).run s)) d _ _
    rw [run_callValue hs harity]
    exact Begins.task.enters
  have hexpr : Enters d (line :: ls) (.script (Expr.script q (.call (.variable name) [])) s)
      d (line :: ls) (.task (.call (.closure r) []) s) := by
    rw [Expr.script]
    exact Begins.site.enters.trans ((Begins.next hvariable).enters.trans
      ((Begins.next hitems).enters.trans hcall))
  rw [Stmt.script, Form.script]
  exact Begins.site.enters.trans ((Begins.next (hnote _)).enters.trans
    (Begins.within.enters.trans (Begins.first.enters.trans hexpr)))

/-- The task of calling a function without parameters begins the body in a new scope. -/
theorem enters_function (hd : d < Machine.depthLimit) {r : Nat} {body : List Stmt}
    (hr : s.heap.closure r = ⟨"f", [], body, 0⟩) (ls : List Int) :
    Enters d ls (.task (.call (.closure r) []) s) (d + 1) ls
      (.script (bodyScript s.heap.scopes.size body)
        { s with heap := (s.heap.newScope (some 0)).2 }) := by
  have hclosure : ComesTo (d + 1) (.script (.run (Proc.ask fun h => .ok (h.closure r))) s)
      (.ok ⟨"f", [], body, 0⟩) s := by
    have hask : (Proc.ask fun h => .ok (h.closure r)).run s = .ret ⟨"f", [], body, 0⟩ s :=
      Proc.run_ask s (congrArg Except.ok hr)
    rw [comesTo_run_iff, hask]
    exact .ret _ _
  have hscope : ComesTo (d + 1) (.script (.run (innerScope 0)) s) (.ok s.heap.scopes.size)
      { s with heap := (s.heap.newScope (some 0)).2 } := .run (.ret _ _)
  have hparams : ComesTo (d + 1) (.script (.run (Proc.modifyHeap (bindParams s.heap.scopes.size
      [] []))) { s with heap := (s.heap.newScope (some 0)).2 }) (.ok ())
      { s with heap := (s.heap.newScope (some 0)).2 } := .run (.ret _ _)
  refine (Begins.call hd).enters.trans ((Begins.next hclosure).enters.trans ?_)
  exact (Begins.next hscope).enters.trans ((Begins.next hparams).enters.trans Begins.first.enters)

end Entering

def printText : Stmt := printStmt 1 (.constant (.str "x"))

section Text

variable {d q : Nat} {s s' : State}

theorem comesTo_text_iff {u : Except Failure Value} :
    ComesTo d (.script (Expr.script q (.constant (.str "x"))) s) u s' ↔
      u = .ok (.str "x") ∧ s' = s := by
  rw [Expr.script, comesTo_site_iff]
  exact comesTo_run_ret_iff rfl

theorem display_text (h : Heap) : h.display (.str "x") = .ok "x" := by
  simp [Heap.display, Heap.displayWithin]

end Text

/-! ## Print statements of a program -/

open Policy

/-- In a run of a program that was read, in any session, the printer is the builtin that prints
whenever a part of the program or a task is begun and whenever it has ended, and no other name that
is spelled as a keyword is bound. A print statement evaluates its expression once, fails if that
fails, and otherwise displays the value and nothing else, if it can be displayed and not all calls
that may be open are used up. -/
theorem printer_never_rebound {s : State} (hs : s.InSession) {source : String} {p : List Stmt}
    (hp : parseProgram source = .ok p) :
    (∀ d ls (e : Expr) q s', Enters 0 [] (.script (programScript p) s) d ls
        (.script (e.script q) s') → s'.heap.KeepsPrinter ∧
      ∀ r s'', ComesTo d (.script (e.script q) s') r s'' → s''.heap.KeepsPrinter) ∧
    (∀ d ls (x : Stmt) q s', Enters 0 [] (.script (programScript p) s) d ls
        (.script (x.script q) s') → s'.heap.KeepsPrinter ∧
      ∀ r s'', ComesTo d (.script (x.script q) s') r s'' → s''.heap.KeepsPrinter) ∧
    (∀ d ls t s', Enters 0 [] (.script (programScript p) s) d ls (.task t s') →
      s'.heap.KeepsPrinter ∧
      ∀ r s'', ComesTo d (.task t s') r s'' → s''.heap.KeepsPrinter) ∧
    ∀ d ls line e q s', Enters 0 [] (.script (programScript p) s) d ls
        (.script ((printStmt line e).script q) s') →
      (∀ r s'', ComesTo d (.script ((printStmt line e).script q) s') r s'' →
        ∃ r₁ s₁, ComesTo d (.script (e.script q) ((printStmt line e).begun s')) r₁ s₁ ∧
          PrintEnds d line s₁ r₁ r s'') ∧
      ∀ r₁ s₁, ComesTo d (.script (e.script q) ((printStmt line e).begun s')) r₁ s₁ →
        ∃ r s'', ComesTo d (.script ((printStmt line e).script q) s') r s'' ∧
          PrintEnds d line s₁ r₁ r s'' := by
  have hwelcomes := welcomes_any hs.isTidy
  have hobeys := stmts_obey (allowsAll_any s.config) p
  have htidy := tidy_of_parseProgram hp
  refine ⟨?_, ?_, ?_, ?_⟩
  · intro d ls e q s' henter
    obtain ⟨hs', hends⟩ := hwelcomes.of_enters_expr hobeys htidy henter
    exact ⟨hs'.tidy.keepsPrinter, fun r s'' hr => (hends r s'' hr).tidies.tidy.keepsPrinter⟩
  · intro d ls x q s' henter
    obtain ⟨hs', -, hends⟩ := hwelcomes.of_enters_stmt hobeys htidy henter
    exact ⟨hs'.tidy.keepsPrinter, fun r s'' hr => (hends r s'' hr).tidies.tidy.keepsPrinter⟩
  · intro d ls t s' henter
    obtain ⟨hs', -, hends⟩ := hwelcomes.of_enters_task hobeys htidy henter
    exact ⟨hs'.tidy.keepsPrinter, fun r s'' hr => (hends r s'' hr).2.tidy.keepsPrinter⟩
  · intro d ls line e q s' henter
    obtain ⟨hs', hq, -⟩ := hwelcomes.of_enters_stmt hobeys htidy henter
    have hprinter := hs'.tidy.lookup_printer hq
    exact ⟨fun r s'' => printEnds_of_comesTo hprinter,
      fun r₁ s₁ => exists_comesTo_printStmt hprinter⟩

theorem printer_never_rebound_text :
    parseProgram "vyblij(\"x\") piča" = .ok [printText] ∧
      Enters 0 [] (.script (programScript [printText]) State.bare) 0 []
        (.script (printText.script 0) State.bare) ∧
      ∃ s, ComesTo 0 (.script (printText.script 0) State.bare) (.ok .normal) s ∧
        s.heap = State.bare.heap ∧ s.world = State.bare.world.print "x\n" := by
  have hparse : parseProgram "vyblij(\"x\") piča" = .ok [printText] := by cbv
  have hsession : State.bare.InSession :=
    .start (c := State.bare.config) (w := State.bare.world) rfl
  have henter : Enters 0 [] (.script (programScript [printText]) State.bare) 0 []
      (.script (printText.script 0) State.bare) := (enters_body rfl _).trans enters_first
  obtain ⟨-, -, -, hprints⟩ := printer_never_rebound hsession hparse
  obtain ⟨-, hends⟩ := hprints 0 [] 1 (.constant (.str "x")) 0 State.bare henter
  obtain ⟨r, s, hs, hend⟩ := hends _ _ (comesTo_text_iff.2 ⟨rfl, rfl⟩)
  refine ⟨hparse, henter, s, ?_⟩
  cases hend with
  | printed _ htext _ hheap hworld =>
    obtain rfl := Except.ok.inj ((display_text _).symm.trans htext)
    exact ⟨hs, hheap, hworld⟩
  | refused hno _ => exact absurd ⟨by decide, "x", display_text _⟩ hno

/-! ## A statement that prints nothing -/

/-- A run where the global name `f` is that of a function that prints a text and calls itself. -/
structure Printing (r : Nat) (vars : Dict Value) (s : State) : Prop where
  silent : s.config.traceLevel = 0
  globals : s.heap.Global vars
  function : vars.get? "f" = some (.fn (.closure r))
  builtin : vars.get? printer = some printValue
  closure : s.heap.closure r = ⟨"f", [], [printText, recurse], 0⟩

section Printing

variable {d q r : Nat} {vars : Dict Value} {s s' : State}

theorem Printing.newScope (h : Printing r vars s) :
    Printing r vars { s with heap := (s.heap.newScope (some 0)).2 } :=
  { h with globals := h.globals.newScope _ }

/-- While not all calls are used up, the text is printed and the run goes on. -/
theorem Printing.prints (h : Printing r vars s) (hq : s.heap.IsBare q)
    (hd : d < Machine.depthLimit) :
    ∃ s', ComesTo d (.script (printText.script q) s) (.ok .normal) s' ∧ Printing r vars s' ∧
      s'.heap.IsBare q := by
  have hprinter := (h.globals.lookup_bare hq Hantec.printer).trans h.builtin
  obtain ⟨u, s', hprint, hends⟩ :=
    exists_comesTo_printStmt hprinter (comesTo_text_iff.2 ⟨rfl, rfl⟩)
  refine ⟨s', ?_⟩
  cases hends with
  | printed _ _ hconfig hheap _ =>
    rw [Stmt.config_begun] at hconfig
    rw [Stmt.heap_begun] at hheap
    refine ⟨hprint, ?_, hheap ▸ hq⟩
    exact ⟨hconfig ▸ h.silent, hheap ▸ h.globals, h.function, h.builtin, hheap ▸ h.closure⟩
  | refused hno _ => exact absurd ⟨hd, "x", display_text _⟩ hno

/-- Until the last call that may be open, each call leads to another one. -/
theorem Printing.descends (h : Printing r vars s) (hd : d + 1 < Machine.depthLimit)
    (ls : List Int) :
    ∃ ls' s', Enters d ls (.task (.call (.closure r) []) s) (d + 1) ls'
      (.task (.call (.closure r) []) s') ∧ Printing r vars s' := by
  have hbare := h.globals.isBare_newScope
  obtain ⟨s', hprint, hs', hbare'⟩ := h.newScope.prints hbare hd
  have hcall := (hs'.globals.lookup_bare hbare' "f").trans hs'.function
  have hparams := congrArg Closure.params hs'.closure
  refine ⟨1 :: ls, s', ?_, hs'⟩
  refine (enters_function (Nat.lt_of_succ_lt hd) h.closure ls).trans ?_
  exact (enters_rest hprint).trans (enters_first.trans (enters_call hs'.silent hcall hparams 1))

/-- The induction is on the number of calls to come. -/
theorem Printing.reaches (n : Nat) (h : Printing r vars s) (hd : d + n < Machine.depthLimit)
    (ls : List Int) :
    ∃ ls' s', Enters d ls (.task (.call (.closure r) []) s) (d + n) ls'
      (.task (.call (.closure r) []) s') ∧ Printing r vars s' := by
  induction n generalizing d ls s with
  | zero => exact ⟨ls, s, .refl, h⟩
  | succ n ih =>
    obtain ⟨ls₁, s₁, henter, hs₁⟩ := h.descends (d := d) (by omega) ls
    obtain ⟨ls', s', henter', hs'⟩ := ih (d := d + 1) hs₁ (by omega) ls₁
    rw [Nat.add_right_comm d 1 n] at henter'
    exact ⟨ls', s', henter.trans henter', hs'⟩

/-- When all calls are used up, the text is not printed. -/
theorem Printing.silences (h : Printing r vars s) (hq : s.heap.IsBare q) {u : Except Failure Outcome}
    (hprint : ComesTo Machine.depthLimit (.script (printText.script q) s) u s') :
    u ≠ .ok .normal ∧ s'.world = s.world := by
  have hprinter := (h.globals.lookup_bare hq Hantec.printer).trans h.builtin
  obtain ⟨u₁, s₁, htext, hends⟩ := printEnds_of_comesTo hprinter hprint
  obtain ⟨rfl, rfl⟩ := comesTo_text_iff.1 htext
  cases hends with
  | printed hd => exact absurd hd (Nat.lt_irrefl _)
  | refused _ hworld => exact ⟨nofun, hworld.trans (Stmt.world_begun s _)⟩

end Printing

/-- The definition of the function and a call of it. -/
def printForever : List Stmt := [.mk 1 (.define "f" [] [printText, recurse]), recurse]

/-- The value of the name after the definition. -/
def printingValue : Value := .fn (.closure Heap.initial.closures.size)

/-- The state after the definition. -/
def printingState : State :=
  { State.bare with
    heap := (Heap.initial.newClosure ⟨"f", [], [printText, recurse], 0⟩).2.define 0 "f"
      printingValue }

theorem printing_printingState :
    Printing Heap.initial.closures.size (Deep.names.put "f" printingValue) printingState where
  silent := rfl
  globals := Deep.global_names.define "f" printingValue
  function := by simp [Dict.get?_put, printingValue]
  builtin := by
    rw [Dict.get?_put, if_neg (by decide)]
    exact Deep.get?_printer
  closure := by simp [printingState, Heap.closure, Heap.define, Heap.newClosure]

theorem comesTo_printingState : ComesTo 0 (.script
    (Stmt.script 0 (.mk 1 (.define "f" [] [printText, recurse]))) State.bare) (.ok .normal)
    printingState := by
  refine comesTo_stmt_iff.2 ⟨.ok .normal, rfl, ?_⟩
  rw [Form.script]
  exact .next (a := printingValue) (.run (.ret _ _)) (.next (a := ()) (.run (.ret _ _))
    (.next (a := ()) (comesTo_note_iff.2 ⟨rfl, rfl⟩) (.run (.ret _ _))))

/-- The program comes to a call of the function. -/
theorem enters_printForever : Enters 0 [] (.script (programScript printForever) State.bare) 0 [1]
    (.task (.call (.closure Heap.initial.closures.size) []) printingState) := by
  have hs := printing_printingState
  have hcall := (hs.globals.lookup "f").trans hs.function
  have hparams := congrArg Closure.params hs.closure
  exact (enters_body rfl printForever).trans ((enters_rest comesTo_printingState).trans
    (enters_first.trans (enters_call hs.silent hcall hparams 1)))

/-- A print statement is reached when all calls that may be open are used up. Its value can be
displayed, but it is not. -/
theorem print_beyond_limit :
    ∃ p, parseProgram "rob f() \x7b vyblij(\"x\") piča f() piča \x7d f() piča" = .ok p ∧
      ∃ d ls line e q s v text s₁, Enters 0 [] (.script (programScript p) State.bare) d ls
          (.script ((printStmt line e).script q) s) ∧
        ComesTo d (.script (e.script q) ((printStmt line e).begun s)) (.ok v) s₁ ∧
        s₁.heap.display v = .ok text ∧
        ∀ r s', ComesTo d (.script ((printStmt line e).script q) s) r s' →
          r ≠ .ok .normal ∧ s'.world = s.world := by
  refine ⟨printForever, ?_, ?_⟩
  · cbv
  · have hs := printing_printingState
    obtain ⟨n, hn⟩ : ∃ n, Machine.depthLimit = 0 + n + 1 := ⟨1999, rfl⟩
    have hlt : 0 + n < Machine.depthLimit := by omega
    obtain ⟨ls, s₁, hdescent, hs₁⟩ := hs.reaches n hlt [1]
    have hlast := enters_function hlt hs₁.closure ls
    rw [← hn] at hlast
    refine ⟨_, ls, 1, .constant (.str "x"), _, _, .str "x", "x", _,
      (enters_printForever.trans (hdescent.trans hlast)).trans enters_first, comesTo_text_iff.2 ⟨rfl, rfl⟩,
      display_text _, fun u s' hprint => ?_⟩
    exact hs₁.newScope.silences hs₁.globals.isBare_newScope hprint

end Hantec
