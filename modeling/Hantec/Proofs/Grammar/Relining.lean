import Hantec.Proofs.Print

/-!
# Programs with other lines
-/

namespace Hantec

/-! ## Other lines -/

mutual

/-- An expression with every line in it changed. -/
def Expr.relined (φ : Int → Int) : Expr → Expr
  | .assign n e => .assign n (e.relined φ)
  | .unary op e => .unary op (e.relined φ)
  | .binary op a b => .binary op (a.relined φ) (b.relined φ)
  | .call f args => .call (f.relined φ) (relinedItems φ args)
  | .member e n => .member (e.relined φ) n
  | .function ps body => .function ps (relinedBody φ body)
  | e => e

def relinedItems (φ : Int → Int) : List Expr → List Expr
  | [] => []
  | e :: es => e.relined φ :: relinedItems φ es

def relinedExpr? (φ : Int → Int) : Option Expr → Option Expr
  | none => none
  | some e => some (e.relined φ)

def Stmt.relined (φ : Int → Int) : Stmt → Stmt
  | .mk line f => .mk (φ line) (f.relined φ)

def Form.relined (φ : Int → Int) : Form → Form
  | .expr e => .expr (e.relined φ)
  | .declare n init => .declare n (relinedExpr? φ init)
  | .block body => .block (relinedBody φ body)
  | .cond e yes no => .cond (e.relined φ) (yes.relined φ) (relinedStmt? φ no)
  | .loop e s => .loop (e.relined φ) (s.relined φ)
  | .circuit init test step s =>
    .circuit (relinedStmt? φ init) (relinedExpr? φ test) (relinedExpr? φ step) (s.relined φ)
  | .define n ps body => .define n ps (relinedBody φ body)
  | .ret e => .ret (relinedExpr? φ e)
  | .load e => .load (e.relined φ)
  | .attempt body n handler finalizer =>
    .attempt (relinedBody φ body) n (relinedBody? φ handler) (relinedBody? φ finalizer)
  | f => f

def relinedStmt? (φ : Int → Int) : Option Stmt → Option Stmt
  | none => none
  | some s => some (s.relined φ)

/-- Statements with every line in them changed. -/
def relinedBody (φ : Int → Int) : List Stmt → List Stmt
  | [] => []
  | s :: ss => s.relined φ :: relinedBody φ ss

def relinedBody? (φ : Int → Int) : Option (List Stmt) → Option (List Stmt)
  | none => none
  | some body => some (relinedBody φ body)

end

attribute [simp] Expr.relined relinedItems relinedExpr? Stmt.relined Form.relined relinedStmt?
  relinedBody relinedBody?

/-- The name and the statements of a handler with every line in them changed. -/
def relinedHandler (φ : Int → Int) (handler : Option String × Option (List Stmt)) :
    Option String × Option (List Stmt) :=
  (handler.1, relinedBody? φ handler.2)

mutual

/-- Whatever lines it had, with the line zero everywhere a program is the one without its lines. -/
theorem Expr.relined_zero (φ : Int → Int) :
    (e : Expr) → (e.relined φ).relined (fun _ => 0) = e.unlined
  | .assign _ e | .unary _ e | .member e _ => by simp [e.relined_zero φ]
  | .binary _ a b => by simp [a.relined_zero φ, b.relined_zero φ]
  | .call f args => by simp [f.relined_zero φ, relinedItems_zero φ args]
  | .function _ body => by simp [unlinedBody_of_relined φ body]
  | .constant _ | .compound .. | .variable _ | .step .. | .misplaced _ | .unlisted _ => by simp

theorem relinedItems_zero (φ : Int → Int) :
    (es : List Expr) → relinedItems (fun _ => 0) (relinedItems φ es) = unlinedItems es
  | [] => rfl
  | e :: es => by simp [e.relined_zero φ, relinedItems_zero φ es]

theorem relinedExpr?_zero (φ : Int → Int) :
    (e : Option Expr) → relinedExpr? (fun _ => 0) (relinedExpr? φ e) = unlinedExpr? e
  | none => rfl
  | some e => by simp [e.relined_zero φ]

theorem Stmt.relined_zero (φ : Int → Int) :
    (s : Stmt) → (s.relined φ).relined (fun _ => 0) = s.unlined
  | .mk _ f => by simp [f.relined_zero φ]

theorem Form.relined_zero (φ : Int → Int) :
    (f : Form) → (f.relined φ).relined (fun _ => 0) = f.unlined
  | .expr e | .load e => by simp [e.relined_zero φ]
  | .declare _ e | .ret e => by simp [relinedExpr?_zero φ e]
  | .block body | .define _ _ body => by simp [unlinedBody_of_relined φ body]
  | .cond e yes no => by simp [e.relined_zero φ, yes.relined_zero φ, relinedStmt?_zero φ no]
  | .loop e s => by simp [e.relined_zero φ, s.relined_zero φ]
  | .circuit init test step s => by
    simp [relinedStmt?_zero φ init, relinedExpr?_zero φ test, relinedExpr?_zero φ step,
      s.relined_zero φ]
  | .attempt body _ handler finalizer => by
    simp [unlinedBody_of_relined φ body, relinedBody?_zero φ handler, relinedBody?_zero φ finalizer]
  | .leave | .skip | .misplaced _ | .unlisted _ => by simp

theorem relinedStmt?_zero (φ : Int → Int) :
    (s : Option Stmt) → relinedStmt? (fun _ => 0) (relinedStmt? φ s) = unlinedStmt? s
  | none => rfl
  | some s => by simp [s.relined_zero φ]

theorem unlinedBody_of_relined (φ : Int → Int) :
    (ss : List Stmt) → relinedBody (fun _ => 0) (relinedBody φ ss) = unlinedBody ss
  | [] => rfl
  | s :: ss => by simp [s.relined_zero φ, unlinedBody_of_relined φ ss]

theorem relinedBody?_zero (φ : Int → Int) :
    (ss : Option (List Stmt)) → relinedBody? (fun _ => 0) (relinedBody? φ ss) = unlinedBody? ss
  | none => rfl
  | some body => by simp [unlinedBody_of_relined φ body]

end

mutual

theorem Expr.relined_id : (e : Expr) → e.relined id = e
  | .assign _ e | .unary _ e | .member e _ => by simp [e.relined_id]
  | .binary _ a b => by simp [a.relined_id, b.relined_id]
  | .call f args => by simp [f.relined_id, relinedItems_id args]
  | .function _ body => by simp [relinedBody_id body]
  | .constant _ | .compound .. | .variable _ | .step .. | .misplaced _ | .unlisted _ => by simp

theorem relinedItems_id : (es : List Expr) → relinedItems id es = es
  | [] => rfl
  | e :: es => by simp [e.relined_id, relinedItems_id es]

theorem relinedExpr?_id : (e : Option Expr) → relinedExpr? id e = e
  | none => rfl
  | some e => by simp [e.relined_id]

theorem Stmt.relined_id : (s : Stmt) → s.relined id = s
  | .mk _ f => by simp [f.relined_id]

theorem Form.relined_id : (f : Form) → f.relined id = f
  | .expr e | .load e => by simp [e.relined_id]
  | .declare _ e | .ret e => by simp [relinedExpr?_id e]
  | .block body | .define _ _ body => by simp [relinedBody_id body]
  | .cond e yes no => by simp [e.relined_id, yes.relined_id, relinedStmt?_id no]
  | .loop e s => by simp [e.relined_id, s.relined_id]
  | .circuit init test step s => by
    simp [relinedStmt?_id init, relinedExpr?_id test, relinedExpr?_id step, s.relined_id]
  | .attempt body _ handler finalizer => by
    simp [relinedBody_id body, relinedBody?_id handler, relinedBody?_id finalizer]
  | .leave | .skip | .misplaced _ | .unlisted _ => by simp

theorem relinedStmt?_id : (s : Option Stmt) → relinedStmt? id s = s
  | none => rfl
  | some s => by simp [s.relined_id]

/-- With its own lines, a program is the same. -/
theorem relinedBody_id : (ss : List Stmt) → relinedBody id ss = ss
  | [] => rfl
  | s :: ss => by simp [s.relined_id, relinedBody_id ss]

theorem relinedBody?_id : (body : Option (List Stmt)) → relinedBody? id body = body
  | none => rfl
  | some body => by simp [relinedBody_id body]

end

/-- Without its lines, a program has the line zero everywhere. -/
theorem relinedBody_zero (ss : List Stmt) : relinedBody (fun _ => 0) ss = unlinedBody ss := by
  have hzero := unlinedBody_of_relined id ss
  rwa [relinedBody_id] at hzero

theorem length_relinedBody (φ : Int → Int) (ss : List Stmt) :
    (relinedBody φ ss).length = ss.length := by
  induction ss with
  | nil => rfl
  | cons s ss ih => simp [ih]

theorem relinedBody_append (φ : Int → Int) (ss ss' : List Stmt) :
    relinedBody φ (ss ++ ss') = relinedBody φ ss ++ relinedBody φ ss' := by
  induction ss with
  | nil => rfl
  | cons s ss ih => simp [ih]

theorem relined_assigned (φ : Int → Int) (name : String) (op : Option BinaryOp) (e : Expr) :
    (assigned name op e).relined φ = assigned name op (e.relined φ) := by
  cases op <;> simp [assigned]

end Hantec
