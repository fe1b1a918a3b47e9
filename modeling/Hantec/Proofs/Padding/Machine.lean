import Hantec.Proofs.Padding
import Hantec.Proofs.Run.Ends

/-!
# Runs among scopes that bind nothing

A program does the same in both runs. An expression has to be evaluated where the same names are
seen, and a statement, which may bind names, where the same names are bound. A block binds names in
a scope of its own, so it is enough that the same names are seen around it. So programs can end in
the same ways, in states that belong together.
-/

namespace Hantec

namespace Accord.Procs

variable {ω : Type} {A : Accord ω} [A.Lawful] {w : ω} {q q' : Nat}

theorem eval (e : Expr) (hq : A.views w q q') : A.Procs A.Breaks w (e.eval q) (e.eval q') :=
  Same.parts (.ofInlined (.reflExpr e)) w q q' hq

theorem exec (s : Stmt) (hq : A.homes w q q') : A.Procs A.Breaks w (s.exec q) (s.exec q') :=
  Same.parts (.ofInlined (.reflStmt s)) w q q' hq

theorem execAll (ss : List Stmt) (hq : A.homes w q q') :
    A.Procs A.Breaks w (execAll q ss) (execAll q' ss) :=
  Same.parts (.ofInlined (.reflStmts ss)) w q q' hq

theorem execBody (body : List Stmt) (hq : A.views w q q') :
    A.Procs A.Breaks w (Hantec.execInner q body) (Hantec.execInner q' body) :=
  execInner (Same.parts (.ofInlined (.reflStmts body))) hq

/-- A block does the same wherever the same names are seen. -/
theorem execBlock (line : Int) (body : List Stmt) (hq : A.views w q q') :
    A.Procs A.Breaks w ((Stmt.mk line (.block body)).exec q)
      ((Stmt.mk line (.block body)).exec q') := by
  have hlines : A.Relines id := fun _ => rfl
  refine exec_mk hlines line rfl ?_
  rw [Form.exec, Form.exec]
  exact execBody body hq

theorem execAttempt (body : List Stmt) (name : Option String)
    (handler finalizer : Option (List Stmt)) (hq : A.views w q q') :
    A.Procs A.Breaks w ((Form.attempt body name handler finalizer).exec q)
      ((Form.attempt body name handler finalizer).exec q') :=
  protect name (Same.parts (.ofInlined (.reflStmts body)))
    (Same.parts (.ofInlined (.reflOptionalStmts handler)))
    (Same.parts (.ofInlined (.reflOptionalStmts finalizer))) hq

end Accord.Procs

namespace Padding

variable {c : Config} {bound : Nat} {P : Pairing}

variable (c bound P) in
/-- Machines that do the same, where at least these scopes belong together. -/
def MachinesFrom (m m' : Machine) : Prop := ∃ Q, P ≤ Q ∧ (c.padding bound).Machines Q m m'

variable (c bound P) in
def StatesFrom (s s' : State) : Prop := ∃ Q, P ≤ Q ∧ (c.padding bound).States Q s s'

theorem fitting (m : Machine) : (c.padding bound).Fitting m := fun _ _ =>
  ⟨by rintro ⟨_, _, ⟨⟩⟩, fun _ _ _ _ _ _ _ _ hf => admits (.inr hf),
    fun h => absurd h (Nat.lt_irrefl _)⟩

/-- Machines that do the same move alike. -/
theorem lockstep [(c.padding bound).Lawful] :
    Machine.Lockstep (MachinesFrom c bound P) (StatesFrom c bound P) := by
  rintro m m' ⟨Q, hQ, h⟩
  have hnext := h.next (fun _ _ => id) (fitting m)
  generalize m.next = p at hnext ⊢
  generalize m'.next = p' at hnext ⊢
  cases hnext with
  | running hR hm => exact .running ⟨_, Pairing.le_trans hQ hR, hm⟩
  | waiting d hR hs hresume =>
    refine .waiting d fun w => ⟨_, Pairing.le_trans hQ hR, ?_⟩
    exact hresume _ _ _ (Pairing.le_refl _) (elsewhere hs w)
  | done hR hr hs =>
    rw [hr.eq rfl]
    exact .done _ ⟨_, Pairing.le_trans hQ hR, hs⟩

end Padding

end Hantec
