import Hantec.Program.Parser
import Hantec.Run.Step

/-!
# Evaluation

What the expressions and statements of a program do, by recursion on the program. Calls, loops
and modules become tasks.
-/

namespace Hantec

/-- Runs what a call or a module needs, and takes its outcome. -/
def Proc.perform (t : Task) : Proc Outcome := do Proc.ofResult (← Proc.task t)

/-- The value that a call returns. -/
def Outcome.value : Outcome → Value
  | .returned v => v
  | _ => .null

/-- The value that has to be callable. -/
def callable (v : Value) : Proc Callable :=
  match v with
  | .fn f => pure f
  | v => do
    let type ← Proc.typeName v
    Proc.raiseError "TypeError" s!"only functions can be called, got {type}"

/-- Calls a value without a look at the number of arguments. -/
def invoke (v : Value) (args : List Value) : Proc Value := do
  let f ← callable v
  return (← Proc.perform (.call f args)).value

/-- Calls a value as a call expression does. -/
def callValue (v : Value) (args : List Value) : Proc Value := do
  let f ← callable v
  let arity ← Proc.ask fun h => .ok (h.callableArity f)
  match arity with
  | some n =>
    if n != args.length then
      let name ← Proc.ask fun h => .ok (h.callableName f)
      Proc.raiseError "ArityError" s!"{name}: expected {n} arguments, got {args.length}"
  | none => pure ()
  Proc.trace 3 fun h => .ok s!"call {h.callableText f} with {args.length} arguments"
  return (← Proc.perform (.call f args)).value

def readName (scope : Nat) (name : String) : Proc Value := do
  match ← Proc.ask fun h => .ok (h.lookup scope name) with
  | some v => return v
  | none => Proc.raiseError "NameError" s!"unknown variable '{name}'"

def writeName (scope : Nat) (name : String) (v : Value) : Proc Unit := do
  match ← Proc.ask fun h => .ok (h.resolve scope name) with
  | some owner => Proc.modifyHeap (·.define owner name v)
  | none => Proc.raiseError "NameError" s!"unknown variable '{name}'"

def Constant.toValue : Constant → Value
  | .null => .null
  | .bool b => .bool b
  | .num x => .num x
  | .str s => .str s

/-- The operators that compare or compute with numbers. -/
def numberOp (op : BinaryOp) (a b : Float) : Proc Value :=
  match op with
  | .sub => pure (.num (a - b))
  | .mul => pure (.num (a * b))
  | .div => pure (.num (a / b))
  | .mod => pure (.num (Number.modulo a b))
  | .pow => pure (.num (Number.power a b))
  | .lt => pure (.bool (a < b))
  | .le => pure (.bool (a ≤ b))
  | .gt => pure (.bool (a > b))
  | .ge => pure (.bool (a ≥ b))
  | op => Proc.raiseError "TypeError" s!"unknown operator {op.text}"

def Value.isText : Value → Bool
  | .str _ => true
  | _ => false

/-- The operators that look at both operands. -/
def binaryOp (op : BinaryOp) (left right : Value) : Proc Value :=
  match op with
  | .add =>
    if left.isText || right.isText then do
      let l ← Proc.toText left
      return .str (l ++ (← Proc.toText right))
    else do
      let a ← Proc.toNumber left
      return .num (a + (← Proc.toNumber right))
  | .eq => pure (.bool (left.strictEq right))
  | .ne => pure (.bool !(left.strictEq right))
  | op => do
    let a ← Proc.toNumber left
    numberOp op a (← Proc.toNumber right)

def unaryOp (op : UnaryOp) (v : Value) : Proc Value :=
  match op with
  | .not => do return .bool !(← Proc.isTruthy v)
  | .neg => do return .num (-(← Proc.toNumber v))
  | .other text => Proc.raiseError "TypeError" s!"unsupported unary operator {text}"

/-- The member of a value that is not null. -/
def member (target : Value) (name : String) : Proc Value :=
  match target with
  | .obj r => Proc.ask fun h => .ok (((h.object r).get? name).getD .null)
  | .arr r =>
    if name = "length" then Proc.ask fun h => .ok (.num (Float.ofNat (h.array r).size))
    else pure .null
  | .str s => pure (if name = "length" then .num (Float.ofNat s.length) else .null)
  | .err _ n m =>
    pure (if name = "name" then .str n else if name = "message" then .str m else .null)
  | _ => pure .null

/-- Gives a raised value the line of a statement, unless it has one already. -/
def Failure.atLine (line : Int) : Failure → Failure
  | .raised v none => .raised v (if line = 0 then none else some line)
  | f => f

def innerScope (scope : Nat) : Proc Nat := Proc.onHeap (·.newScope (some scope))

/-- Goes on with a handler if a value was raised. -/
def recover (r : Except Failure Outcome) (handler : Value → Proc Outcome) :
    Proc (Except Failure Outcome) :=
  match r with
  | .error (.raised v _) => Proc.attempt (handler v)
  | r => pure r

/-- Goes on with a finalizer, unless there is a failure that no script can catch. If it does not end
normally, it replaces what is pending. -/
def finalize (pending : Except Failure Outcome) (finalizer : Proc Outcome) : Proc Outcome :=
  match pending with
  | .ok _ | .error (.raised _ _) => do
    match ← finalizer with
    | .normal => Proc.ofResult pending
    | o => return o
  | .error e => Proc.failWith e

def Form.kindName : Form → String
  | .expr _ => "ExprStmt"
  | .declare _ _ => "Let"
  | .block _ => "Block"
  | .cond _ _ _ => "If"
  | .loop _ _ => "While"
  | .circuit _ _ _ _ => "For"
  | .define _ _ _ => "FunctionDecl"
  | .ret _ => "Return"
  | .load _ => "Import"
  | .attempt _ _ _ _ => "Try"
  | .leave => "Break"
  | .skip => "Continue"
  | .misplaced t | .unlisted t => t.shape

/-- The source of a module, once the loader answers. -/
def loadSource (path : String) : Proc String := do
  Proc.waitAll ((← Proc.config).loader.waits path)
  let config ← Proc.config
  Proc.settleTrace
  match ← Proc.onWorld fun w => let (w, r) := config.loader.load path w; (r, w) with
  | .ok source => return source
  | .error (.thrown d) => Proc.raise (← Proc.onHeap (·.build d))
  | .error (.fault f) => Proc.raiseError "ImportError" s!"cannot load '{path}': {f.message}"

/-- The statements of a module, which are compiled each time. -/
def loadModule (path : String) : Proc (List Stmt) := do
  Proc.trace 1 fun _ => .ok s!"import {path}"
  let source ← loadSource path
  if !(← Proc.config).compiles then
    Proc.raiseError "ImportError" "no compile function configured"
  else
    match parseProgram source with
    | .ok p => return p
    | .error e => Proc.raiseError "SyntaxError" s!"{path}: {e.message}"

/-- A new function. -/
def makeClosure (c : Closure) : Proc Value :=
  Proc.onHeap fun h => (.fn (.closure (h.newClosure c).1), (h.newClosure c).2)

mutual

/-- The value of an expression in a scope. -/
def Expr.eval (scope : Nat) : Expr → Proc Value
  | .constant c => pure c.toValue
  | .compound place t => Proc.onHeap (·.literal place t)
  | .variable name => readName scope name
  | .assign name e => do
    let v ← e.eval scope
    writeName scope name v
    return v
  | .unary op e => do unaryOp op (← e.eval scope)
  | .binary op l r => do
    let left ← l.eval scope
    match op with
    | .and => if ← Proc.isTruthy left then r.eval scope else return left
    | .or => if ← Proc.isTruthy left then return left else r.eval scope
    | .nullish =>
      match left with
      | .null => r.eval scope
      | left => return left
    | op => binaryOp op left (← r.eval scope)
  | .call c args => do
    let f ← c.eval scope
    callValue f (← evalAll scope args)
  | .step name op => do
    let v ← readName scope name
    let x ← Proc.toNumber v
    writeName scope name (.num (match op with | .increment => x + 1 | .decrement => x + -1))
    return v
  | .member e name => do
    match ← e.eval scope with
    | .null => Proc.raiseError "TypeError" s!"cannot read member '{name}' of null"
    | v => member v name
  | .function params body => makeClosure ⟨"<anon>", params, body, scope⟩
  | .misplaced t => Proc.fault (.misplacedExpr t)
  | .unlisted t => Proc.fault (.notIterable t)

/-- The values of expressions, from left to right. -/
def evalAll (scope : Nat) : List Expr → Proc (List Value)
  | [] => pure []
  | e :: es => do
    let v ← e.eval scope
    return v :: (← evalAll scope es)

/-- Runs a statement in a scope. -/
def Stmt.exec (scope : Nat) : Stmt → Proc Outcome
  | .mk line form => do
    Proc.trace 4 fun _ => .ok s!"line {line}: {form.kindName}"
    match ← Proc.attempt (form.exec scope) with
    | .ok o => return o
    | .error f => Proc.failWith (f.atLine line)

/-- Runs what a statement does. -/
def Form.exec (scope : Nat) : Form → Proc Outcome
  | .expr e => do
    let _ ← e.eval scope
    return .normal
  | .declare name init => do
    let v ← match init with
      | some e => e.eval scope
      | none => pure .null
    Proc.modifyHeap (·.define scope name v)
    Proc.trace 2 fun h => do return s!"let {name} = " ++ (← h.toText v)
    return .normal
  | .block body => do execAll (← innerScope scope) body
  | .cond test yes no => do
    let v ← test.eval scope
    let truth ← Proc.isTruthy v
    Proc.trace 3 fun h => do
      let text ← h.toText v
      let word := if truth then "True" else "False"
      return s!"if condition {text} -> {word}"
    if truth then yes.exec scope
    else
      match no with
      | some s => s.exec scope
      | none => return .normal
  | .loop test body => Proc.perform (.loop (some test) none body scope)
  | .circuit init test step body => do
    let inner ← innerScope scope
    match init with
    | some s => let _ ← s.exec inner
    | none => pure ()
    Proc.perform (.loop test step body inner)
  | .define name params body => do
    let f ← makeClosure ⟨name, params, body, scope⟩
    Proc.modifyHeap (·.define scope name f)
    Proc.trace 2 fun _ =>
      let list := ", ".intercalate params
      .ok s!"define function {name}({list})"
    return .normal
  | .ret e => do
    match e with
    | some e => return .returned (← e.eval scope)
    | none => return .returned .null
  | .load e => do
    if (← Proc.config).loader.isAbsent then
      Proc.raiseError "ImportError" "imports are unavailable: no loader configured"
    else
      match ← e.eval scope with
      | .str path => do Proc.perform (.module (← loadModule path) scope)
      | v => do
        let type ← Proc.typeName v
        Proc.raiseError "TypeError" s!"'vokno' expects a string path, got {type}"
  | .attempt body name handler finalizer => do
    let first ← Proc.attempt (do execAll (← innerScope scope) body)
    let pending ← match handler with
      | some h => recover first fun v => do
        let inner ← innerScope scope
        match name with
        | some x => Proc.modifyHeap (·.define inner x v)
        | none => pure ()
        execAll inner h
      | none => pure first
    match finalizer with
    | some f => finalize pending (do execAll (← innerScope scope) f)
    | none => Proc.ofResult pending
  | .leave => pure .broke
  | .skip => pure .continued
  | .misplaced t => Proc.fault (.misplacedStmt t)
  | .unlisted t => Proc.fault (.notIterable t)

/-- Runs statements up to the first one that does not end normally. -/
def execAll (scope : Nat) : List Stmt → Proc Outcome
  | [] => pure .normal
  | s :: ss => do
    match ← s.exec scope with
    | .normal => execAll scope ss
    | o => return o

end

end Hantec
