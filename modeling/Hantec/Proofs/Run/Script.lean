import Hantec.Proofs.Run.Eval
import Hantec.Session

/-!
# Scripts

A procedure is a function, so it does not show which parts of a program it runs, and in which
order. A script does: it keeps the expressions and statements, what comes after what, the lines of
the statements, and what is handled or cleaned up where. What lies between two parts of the program
is left as a procedure. Every part of a program has a script, and running the script is evaluating
the part.
-/

namespace Hantec

variable {α β : Type}

/-- An expression or a statement that is run in a scope. -/
inductive Site where
  | expr (e : Expr) (scope : Nat)
  | stmt (s : Stmt) (scope : Nat)

inductive Script : Type → Type 1 where
  /-- What runs no part of the program, but for its tasks. -/
  | run {α : Type} (p : Proc α) : Script α
  | bind {α β : Type} (c : Script α) (f : α → Script β) : Script β
  /-- What an expression or a statement does. -/
  | site {α : Type} (x : Site) (c : Script α) : Script α
  /-- What is done on behalf of a statement with a line. -/
  | within (line : Int) (c : Script Outcome) : Script Outcome
  | guard (c : Script Outcome) (handler : Value → Script Outcome) : Script Outcome
  | ensure (c finalizer : Script Outcome) : Script Outcome

/-- Runs a script. -/
def Script.proc : {α : Type} → Script α → Proc α
  | _, .run p => p
  | _, .bind c f => c.proc >>= fun a => (f a).proc
  | _, .site _ c => c.proc
  | _, .within line c => c.proc.attempt >>= closeAt line
  | _, .guard c handler =>
    c.proc.attempt >>= fun r => recover r (fun v => (handler v).proc) >>= Proc.ofResult
  | _, .ensure c finalizer => c.proc.attempt >>= fun r => finalize r finalizer.proc

/-! ## What lies between the parts -/

def memberOf (v : Value) (name : String) : Proc Value :=
  match v with
  | .null => Proc.raiseError "TypeError" s!"cannot read member '{name}' of null"
  | v => member v name

/-- What is added to a number by a step. -/
def StepOp.apply (x : Float) : StepOp → Float
  | .increment => x + 1
  | .decrement => x + -1

/-- Binds the value that a handler has caught, if the handler has a name for it. -/
def bindCaught (scope : Nat) (name : Option String) (v : Value) : Proc Unit :=
  name.elim (pure ()) fun x => Proc.modifyHeap (·.define scope x v)

def definitionLine (name : String) (params : List String) : String :=
  let list := ", ".intercalate params
  s!"define function {name}({list})"

/-- The error of a path that is no text. -/
def refusePath (v : Value) : Proc Outcome := do
  let type ← Proc.typeName v
  Proc.raiseError "TypeError" s!"'vokno' expects a string path, got {type}"

/-- Which branch a condition takes. -/
def decideBranch (v : Value) : Proc Bool := do
  let truth ← Proc.isTruthy v
  Proc.trace 3 fun h => do
    let text ← h.toText v
    let word := if truth then "True" else "False"
    return s!"if condition {text} -> {word}"
  return truth

/-- What a call comes to after its body. -/
def endCall : Outcome → Proc Outcome
  | .normal => pure (.returned .null)
  | .returned v => pure (.returned v)
  | o => raiseStray o

/-- What a program comes to after its statements. -/
def endProgram : Outcome → Proc Outcome
  | .normal => pure .normal
  | o => raiseStray o

/-! ## The parts of a program -/

mutual

def Expr.script (scope : Nat) (e : Expr) : Script Value :=
  .site (.expr e scope) <| match e with
    | .constant c => .run (pure c.toValue)
    | .compound place t => .run (Proc.onHeap (·.literal place t))
    | .variable name => .run (readName scope name)
    | .assign name e =>
      .bind (e.script scope) fun v => .bind (.run (writeName scope name v)) fun _ => .run (pure v)
    | .unary op e => .bind (e.script scope) fun v => .run (unaryOp op v)
    | .binary op l r =>
      .bind (l.script scope) fun left =>
        match op with
        | .and =>
          .bind (.run (Proc.isTruthy left)) fun b =>
            if b then r.script scope else .run (pure left)
        | .or =>
          .bind (.run (Proc.isTruthy left)) fun b =>
            if b then .run (pure left) else r.script scope
        | .nullish =>
          match left with
          | .null => r.script scope
          | left => .run (pure left)
        | op => .bind (r.script scope) fun right => .run (binaryOp op left right)
    | .call c args =>
      .bind (c.script scope) fun f => .bind (itemsScript scope args) fun vs => .run (callValue f vs)
    | .step name op =>
      .bind (.run (readName scope name)) fun v => .bind (.run (Proc.toNumber v)) fun x =>
        .bind (.run (writeName scope name (.num (StepOp.apply x op)))) fun _ => .run (pure v)
    | .member e name => .bind (e.script scope) fun v => .run (memberOf v name)
    | .function params body => .run (makeClosure ⟨"<anon>", params, body, scope⟩)
    | .misplaced t => .run (Proc.fault (.misplacedExpr t))
    | .unlisted t => .run (Proc.fault (.notIterable t))

def itemsScript (scope : Nat) : List Expr → Script (List Value)
  | [] => .run (pure [])
  | e :: es =>
    .bind (e.script scope) fun v => .bind (itemsScript scope es) fun vs => .run (pure (v :: vs))

def Stmt.script (scope : Nat) : Stmt → Script Outcome
  | .mk line form =>
    .site (.stmt (.mk line form) scope) <|
      .bind (.run (Proc.trace 4 fun _ => .ok s!"line {line}: {form.kindName}")) fun _ =>
        .within line (form.script scope)

def Form.script (scope : Nat) : Form → Script Outcome
  | .expr e => .bind (e.script scope) fun _ => .run (pure .normal)
  | .declare name init =>
    .bind (match init with
      | some e => e.script scope
      | none => .run (pure .null)) fun v =>
      .bind (.run (Proc.modifyHeap (·.define scope name v))) fun _ =>
        .bind (.run (Proc.trace 2 fun h => do return s!"let {name} = " ++ (← h.toText v))) fun _ =>
          .run (pure .normal)
  | .block body => .bind (.run (innerScope scope)) fun inner => bodyScript inner body
  | .cond test yes no =>
    .bind (test.script scope) fun v => .bind (.run (decideBranch v)) fun truth =>
      if truth then yes.script scope
      else
        match no with
        | some s => s.script scope
        | none => .run (pure .normal)
  | .loop test body => .run (Proc.perform (.loop (some test) none body scope))
  | .circuit init test step body =>
    .bind (.run (innerScope scope)) fun inner =>
      match init with
      | some s => .bind (s.script inner) fun _ => .run (Proc.perform (.loop test step body inner))
      | none => .run (Proc.perform (.loop test step body inner))
  | .define name params body =>
    .bind (.run (makeClosure ⟨name, params, body, scope⟩)) fun f =>
      .bind (.run (Proc.modifyHeap (·.define scope name f))) fun _ =>
        .bind (.run (Proc.trace 2 fun _ => .ok (definitionLine name params))) fun _ =>
          .run (pure .normal)
  | .ret e =>
    match e with
    | some e => .bind (e.script scope) fun v => .run (pure (.returned v))
    | none => .run (pure (.returned .null))
  | .load e =>
    .bind (.run Proc.config) fun config =>
      if config.loader.isAbsent then
        .run (Proc.raiseError "ImportError" "imports are unavailable: no loader configured")
      else
        .bind (e.script scope) fun v =>
          match v with
          | .str path =>
            .bind (.run (loadModule path)) fun module =>
              .run (Proc.perform (.module module scope))
          | v => .run (refusePath v)
  | .attempt body name handler finalizer =>
    let first := .bind (.run (innerScope scope)) fun inner => bodyScript inner body
    let handled := match handler with
      | some h => .guard first fun v =>
        .bind (.run (innerScope scope)) fun inner =>
          .bind (.run (bindCaught inner name v)) fun _ => bodyScript inner h
      | none => first
    match finalizer with
    | some f => .ensure handled (.bind (.run (innerScope scope)) fun inner => bodyScript inner f)
    | none => handled
  | .leave => .run (pure .broke)
  | .skip => .run (pure .continued)
  | .misplaced t => .run (Proc.fault (.misplacedStmt t))
  | .unlisted t => .run (Proc.fault (.notIterable t))

def bodyScript (scope : Nat) : List Stmt → Script Outcome
  | [] => .run (pure .normal)
  | s :: ss =>
    .bind (s.script scope) fun o =>
      match o with
      | .normal => bodyScript scope ss
      | o => .run (pure o)

end

/-! ## Running the parts -/

theorem Proc.attempt_ofResult (p : Proc α) : p.attempt >>= Proc.ofResult = p := by
  funext s
  show (p.attempt >>= Proc.ofResult).run s = p.run s
  rw [Proc.run_attempt_bind, Proc.andThen_ofResult]

/-- What goes on after a guarded script goes on after its handler. -/
theorem Script.attempt_guard (c : Script Outcome) (handler : Value → Script Outcome)
    (g : Except Failure Outcome → Proc α) :
    (Script.guard c handler).proc.attempt >>= g =
      c.proc.attempt >>= fun r => recover r (fun v => (handler v).proc) >>= g := by
  funext s
  show ((Script.guard c handler).proc.attempt >>= g).run s = (c.proc.attempt >>= _).run s
  rw [Proc.run_attempt_bind, Script.proc, Proc.run_attempt_bind, Proc.run_attempt_bind,
    Step.andThen_andThen]
  congr 1
  funext r s
  have hresult (r : Except Failure Outcome) (s : State) :
      ((Proc.ofResult r).run s).andThen (fun r => (g r).run) = (g r).run s := by
    cases r <;> rfl
  have hpass (r : Except Failure Outcome) (s : State) :
      ((pure r >>= Proc.ofResult : Proc Outcome).run s).andThen (fun r => (g r).run) =
        (pure r >>= g : Proc α).run s := hresult r s
  cases r with
  | ok o => exact hpass _ s
  | error e =>
    cases e with
    | raised v line =>
      rw [recover, Proc.run_attempt_bind, Proc.run_attempt_bind, Step.andThen_andThen]
      congr 1
      funext r s
      exact hresult r s
    | fault | exit | overflow => exact hpass _ s

theorem Proc.bind_assoc {γ : Type} (p : Proc α) (f : α → Proc β) (g : β → Proc γ) :
    (p >>= f) >>= g = p >>= fun a => f a >>= g :=
  funext fun _ => Step.bind_assoc _ _ _

theorem Script.proc_ite (b : Prop) [Decidable b] (c d : Script α) :
    (if b then c else d).proc = if b then c.proc else d.proc := by
  split <;> rfl

/-- The branches of a condition, which is traced before one of them is taken. -/
theorem proc_branches (v : Value) (yes no : Script Outcome) :
    (Script.bind (.run (decideBranch v)) fun truth => if truth then yes else no).proc = (do
      let truth ← Proc.isTruthy v
      Proc.trace 3 fun h => do
        let text ← h.toText v
        let word := if truth then "True" else "False"
        return s!"if condition {text} -> {word}"
      if truth then yes.proc else no.proc) := by
  have hnext (truth : Bool) : (if truth then yes else no).proc =
      if truth then yes.proc else no.proc := Script.proc_ite _ _ _
  show decideBranch v >>= (fun truth => (if truth then yes else no).proc) = _
  simp only [hnext]
  exact (Proc.bind_assoc _ _ _).trans
    (congrArg (Proc.isTruthy v >>= ·) (funext fun truth => Proc.bind_assoc _ _ _))

section Blocks

variable {scope : Nat} {body : List Stmt}
  (hbody : ∀ inner, (bodyScript inner body).proc = execAll inner body)

include hbody

theorem proc_innerScript :
    (Script.bind (.run (innerScope scope)) fun inner => bodyScript inner body).proc =
      execInner scope body :=
  congrArg (innerScope scope >>= ·) (funext hbody)

theorem proc_handlerScript (name : Option String) (v : Value) :
    (Script.bind (.run (innerScope scope)) fun inner =>
      .bind (.run (bindCaught inner name v)) fun _ => bodyScript inner body).proc =
      execHandler scope name body v :=
  congrArg (innerScope scope >>= ·) (funext fun inner =>
    congrArg (bindCaught inner name v >>= ·) (funext fun _ => hbody inner))

end Blocks

mutual

theorem Expr.proc_script (scope : Nat) : (e : Expr) → (e.script scope).proc = e.eval scope
  | .constant c | .compound _ _ | .variable _ | .step _ _ | .function _ _ | .misplaced _
  | .unlisted _ => by
    rw [Expr.script, Expr.eval]
    rfl
  | .assign name e => by
    rw [Expr.script, Expr.eval, ← e.proc_script scope]
    rfl
  | .unary op e => by
    rw [Expr.script, Expr.eval, ← e.proc_script scope]
    rfl
  | .binary op l r => by
    rw [Expr.script, Expr.eval, ← l.proc_script scope, ← r.proc_script scope]
    refine congrArg ((l.script scope).proc >>= ·) (funext fun left => ?_)
    cases op with
    | and | or =>
      refine congrArg (Proc.isTruthy left >>= ·) (funext fun b => ?_)
      cases b <;> rfl
    | nullish => cases left <;> rfl
    | _ => rfl
  | .call c args => by
    rw [Expr.script, Expr.eval, ← c.proc_script scope, ← proc_itemsScript scope args]
    rfl
  | .member e name => by
    rw [Expr.script, Expr.eval, ← e.proc_script scope]
    refine congrArg ((e.script scope).proc >>= ·) (funext fun v => ?_)
    cases v <;> rfl

theorem proc_itemsScript (scope : Nat) :
    (es : List Expr) → (itemsScript scope es).proc = evalAll scope es
  | [] => by
    rw [itemsScript, evalAll]
    rfl
  | e :: es => by
    rw [itemsScript, evalAll, ← e.proc_script scope, ← proc_itemsScript scope es]
    rfl

theorem Stmt.proc_script (scope : Nat) : (s : Stmt) → (s.script scope).proc = s.exec scope
  | .mk line form => by
    rw [Stmt.script, exec_mk, ← form.proc_script scope]
    rfl

theorem Form.proc_script (scope : Nat) : (f : Form) → (f.script scope).proc = f.exec scope
  | .expr e => by
    rw [Form.script, Form.exec, ← e.proc_script scope]
    rfl
  | .declare name (some e) => by
    rw [Form.script, exec_declare, Option.elim, ← e.proc_script scope]
    rfl
  | .declare name none => by
    rw [Form.script, exec_declare]
    rfl
  | .block body => by
    rw [Form.script, Form.exec]
    simp only [← proc_bodyScript]
    rfl
  | .cond test yes none => by
    rw [Form.script.eq_def, Form.exec.eq_def]
    dsimp only
    rw [← test.proc_script scope, ← yes.proc_script scope]
    refine congrArg ((test.script scope).proc >>= ·) (funext fun v => ?_)
    exact proc_branches v _ _
  | .cond test yes (some no) => by
    rw [Form.script.eq_def, Form.exec.eq_def]
    dsimp only
    rw [← test.proc_script scope, ← yes.proc_script scope, ← no.proc_script scope]
    refine congrArg ((test.script scope).proc >>= ·) (funext fun v => ?_)
    exact proc_branches v _ _
  | .loop _ _ | .leave | .skip | .misplaced _ | .unlisted _ => by
    rw [Form.script, Form.exec]
    rfl
  | .circuit none test step body => by
    rw [Form.script.eq_def, Form.exec.eq_def]
    rfl
  | .circuit (some s) test step body => by
    rw [Form.script.eq_def, Form.exec.eq_def]
    simp only [← s.proc_script]
    rfl
  | .define _ _ _ => by
    rw [Form.script, Form.exec]
    rfl
  | .ret (some e) => by
    rw [Form.script, Form.exec, ← e.proc_script scope]
    rfl
  | .ret none => by
    rw [Form.script, Form.exec]
    rfl
  | .load e => by
    rw [Form.script, Form.exec, ← e.proc_script scope]
    refine congrArg (Proc.config >>= ·) (funext fun config => ?_)
    rw [Script.proc_ite]
    refine congrArg (ite _ _) (congrArg ((e.script scope).proc >>= ·) (funext fun v => ?_))
    cases v <;> rfl
  | .attempt body name handler finalizer => by
    have hinner (body : List Stmt)
        (hbody : ∀ inner, (bodyScript inner body).proc = execAll inner body) :
        (Script.bind (.run (innerScope scope)) fun inner => bodyScript inner body).proc =
          execInner scope body :=
      proc_innerScript hbody
    have hfirst := hinner body fun inner => proc_bodyScript inner body
    rw [Form.script.eq_def, exec_attempt, ← hfirst]
    cases handler with
    | none =>
      cases finalizer with
      | none => exact (Proc.attempt_ofResult _).symm
      | some f =>
        simp only [Option.elim_some, ← hinner f fun inner => proc_bodyScript inner f]
        rfl
    | some h =>
      have hhandler : (fun v => _) = execHandler scope name h :=
        funext (proc_handlerScript (fun inner => proc_bodyScript inner h) name)
      simp only [Option.elim_some, ← hhandler]
      cases finalizer with
      | none => rfl
      | some f =>
        simp only [Option.elim_some, ← hinner f fun inner => proc_bodyScript inner f]
        exact Script.attempt_guard _ _ _

theorem proc_bodyScript (scope : Nat) :
    (ss : List Stmt) → (bodyScript scope ss).proc = execAll scope ss
  | [] => by
    rw [bodyScript, execAll]
    rfl
  | s :: ss => by
    rw [bodyScript, execAll, ← s.proc_script scope, ← proc_bodyScript scope ss]
    refine congrArg ((s.script scope).proc >>= ·) (funext fun o => ?_)
    cases o <;> rfl

end

/-! ## Tasks and programs -/

/-- What a call of a function does. -/
def Closure.script (c : Closure) (args : List Value) : Script Outcome :=
  .bind (.run (innerScope c.scope)) fun scope =>
    .bind (.run (Proc.modifyHeap (bindParams scope c.params args))) fun _ =>
      .bind (bodyScript scope c.body) fun o => .run (endCall o)

def Callable.script (f : Callable) (args : List Value) : Script Outcome :=
  match f with
  | .closure r => .bind (.run (Proc.ask fun h => .ok (h.closure r))) fun c => c.script args
  | .builtin b => .run (do return .returned (← b.call args))

/-- What the step of a loop does. -/
def stepScript (step : Option Expr) (scope : Nat) : Script Outcome :=
  match step with
  | some e => .bind (e.script scope) fun _ => .run (pure .continued)
  | none => .run (pure .continued)

def loopScript (step : Option Expr) (body : Stmt) (scope : Nat) : Script Outcome :=
  .bind (body.script scope) fun o =>
    match o with
    | .broke => .run (pure .normal)
    | .returned v => .run (pure (.returned v))
    | .normal | .continued => stepScript step scope

/-- What one turn of a loop does. -/
def turnScript (test step : Option Expr) (body : Stmt) (scope : Nat) : Script Outcome :=
  match test with
  | some e =>
    .bind (e.script scope) fun v => .bind (.run (Proc.isTruthy v)) fun b =>
      if b then loopScript step body scope else .run (pure .normal)
  | none => loopScript step body scope

/-- What a program does. -/
def programScript (program : List Stmt) : Script Outcome :=
  .bind (.run (Proc.trace 1 fun _ => .ok s!"run {program.length} statements")) fun _ =>
    .bind (bodyScript 0 program) fun o => .run (endProgram o)

theorem Closure.proc_script (c : Closure) (args : List Value) :
    (c.script args).proc = c.call args := by
  rw [Closure.call]
  simp only [← proc_bodyScript]
  refine congrArg (innerScope c.scope >>= ·) (funext fun scope => ?_)
  refine congrArg (Proc.modifyHeap _ >>= ·) (funext fun _ => ?_)
  refine congrArg ((bodyScript scope c.body).proc >>= ·) (funext fun o => ?_)
  cases o <;> rfl

theorem Callable.proc_script (f : Callable) (args : List Value) :
    (f.script args).proc = f.call args := by
  cases f with
  | closure r =>
    exact congrArg (Proc.ask _ >>= ·) (funext fun c => c.proc_script args)
  | builtin b => rfl

theorem proc_loopScript (step : Option Expr) (body : Stmt) (scope : Nat) :
    (loopScript step body scope).proc = loopBody step body scope := by
  have hstep : (stepScript step scope).proc = loopStep step scope := by
    cases step with
    | none => rfl
    | some e =>
      rw [stepScript, loopStep, ← e.proc_script scope]
      rfl
  rw [loopBody, ← body.proc_script scope, ← hstep]
  refine congrArg ((body.script scope).proc >>= ·) (funext fun o => ?_)
  cases o <;> rfl

theorem proc_turnScript (test step : Option Expr) (body : Stmt) (scope : Nat) :
    (turnScript test step body scope).proc = loopTurn test step body scope := by
  rw [loopTurn.eq_def, ← proc_loopScript]
  cases test with
  | none => rfl
  | some e =>
    dsimp only
    rw [← e.proc_script scope]
    refine congrArg ((e.script scope).proc >>= ·) (funext fun v => ?_)
    refine congrArg (Proc.isTruthy v >>= ·) (funext fun b => ?_)
    exact Script.proc_ite _ _ _

theorem proc_programScript (program : List Stmt) :
    (programScript program).proc = programProc program := by
  rw [programProc, ← proc_bodyScript]
  refine congrArg (Proc.trace 1 _ >>= ·) (funext fun _ => ?_)
  refine congrArg ((bodyScript 0 program).proc >>= ·) (funext fun o => ?_)
  cases o <;> rfl

end Hantec
