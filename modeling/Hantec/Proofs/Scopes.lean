import Hantec.Proofs.Policy.Machine

/-!
# Scopes in runs

What a run does to the scopes that there are. Whatever an expression or a statement calls, loads or
raises, a scope that was there before has the same outer scope afterwards and has lost no name. A
name comes only to the scope of a statement, and only if the statement declares it outside of all
blocks, loop heads and parts of an attempt. So what is declared inside of these is not seen from
outside.
-/

namespace Hantec

/-! ## Names that come to a scope -/

/-- The names that a statement brings to its own scope. -/
def Form.Brings (modules : List Stmt → Prop) : Form → String → Prop
  | .declare name _ => fun x => x = name
  | .define name _ _ => fun x => x = name
  | .cond _ yes no => fun x => yes.Declares modules x ∨ ∃ s ∈ no, s.Declares modules x
  | .loop _ body => fun x => body.Declares modules x
  | .load _ => fun x => ∃ module, modules module ∧ ∃ s ∈ module, s.Declares modules x
  | _ => fun _ => False

theorem Stmt.declares_iff {modules : List Stmt → Prop} {line : Int} {form : Form} {x : String} :
    Stmt.Declares modules ⟨line, form⟩ x ↔ form.Brings modules x := by
  constructor
  · intro h
    cases h with
    | declare | define => rfl
    | yes h => exact .inl h
    | no h => exact .inr ⟨_, rfl, h⟩
    | loop h => exact h
    | load hm hs h => exact ⟨_, hm, _, hs, h⟩
  · intro h
    cases form with
    | declare name init =>
      obtain rfl : x = name := h
      exact .declare line x init
    | define name params body =>
      obtain rfl : x = name := h
      exact .define line x params body
    | cond test yes no =>
      rcases h with h | ⟨s, hs, h⟩
      · exact .yes h
      · obtain rfl : no = some s := hs
        exact .no h
    | loop test body => exact .loop h
    | load path =>
      obtain ⟨module, hm, s, hs, h⟩ := h
      exact .load hm hs h
    | _ => exact h.elim

/-! ## Names that are seen from a scope -/

namespace Heap

/-- The outer scope of every scope exists. -/
def Formed (h : Heap) : Prop :=
  ∀ (q : Nat) (s : Scope) (p : Nat), h.scopes[q]? = some s → s.parent = some p →
    p < h.scopes.size

/-- From the scopes of the first heap, every name is seen in the same scope as before. -/
def SeenAlike (h h' : Heap) : Prop :=
  h.Formed → ∀ (q : Nat) (x : String), q < h.scopes.size → h'.resolve q x = h.resolve q x

/-- Where no names come, nothing else is seen. -/
theorem Adds.seenAlike {A : Nat → String → Prop} {h h' : Heap} (hA : h.Adds A h')
    (hnone : ∀ q x, ¬A q x) : h.SeenAlike h' := by
  intro hformed q x hq
  unfold resolve
  generalize q + 1 = n
  induction n generalizing q with
  | zero => rfl
  | succ n ih =>
    obtain ⟨s, hs⟩ : ∃ s, h.scopes[q]? = some s := ⟨_, Array.getElem?_eq_getElem hq⟩
    obtain ⟨s', hs', hadds⟩ := hA q s hs
    have hnames : s'.vars.contains x = s.vars.contains x := by
      rw [Bool.eq_iff_iff]
      exact ⟨fun hx => (hadds.added x hx).resolve_right (hnone q x), hadds.kept x⟩
    rw [resolveWithin, resolveWithin, hs, hs']
    dsimp only
    rw [hnames, hadds.parent]
    split
    · rfl
    · cases hp : s.parent with
      | none => rfl
      | some p => exact ih p (hformed q s p hs hp)

end Heap

/-! ## Runs -/

def Expr.evaluation (scope : Nat) (e : Expr) : Proc Outcome := do
  return .returned (← e.eval scope)

theorem adds_of_evaluation {s s' : State} {scope depth : Nat} {e : Expr}
    {r : Except Failure Outcome}
    (hend : Machine.EndsWith ⟨e.evaluation scope s, [], depth⟩ r s') :
    s.heap.Adds Heap.noNames s'.heap := by
  have hobeys := e.obeys (Policy.allowsAll_any s.config)
  have hruns : (Policy.any s.config).Runs Heap.noNames Policy.hard (e.evaluation scope)
      fun _ => True :=
    (Policy.eval_runs e hobeys scope).bind fun _ _ => .pure trivial
  exact (hruns.ends (Policy.admits_any s) hend).grows.adds

theorem adds_of_exec {s s' : State} {scope depth : Nat} {stmt : Stmt}
    {r : Except Failure Outcome}
    (hend : Machine.EndsWith ⟨stmt.exec scope s, [], depth⟩ r s') :
    s.heap.Adds (fun q x => q = scope ∧ stmt.Declares s.config.Loads x) s'.heap := by
  have hobeys := stmt.obeys (Policy.allowsAll_any s.config)
  exact ((Policy.exec_runs stmt hobeys scope).ends (Policy.admits_any s) hend).grows.adds

/-- However an expression or a statement ends, the scopes that there were keep their names and
their outer scopes. Only its own scope gets names, namely those that the statement brings. Where it
brings none, every name is seen in the same scope as before from all scopes that there were. -/
theorem scopes_framed (s s' : State) (scope depth : Nat) (r : Except Failure Outcome) :
    (∀ e : Expr, Machine.EndsWith ⟨e.evaluation scope s, [], depth⟩ r s' →
      s.heap.Adds Heap.noNames s'.heap ∧ s.heap.SeenAlike s'.heap) ∧
    ∀ line form, Machine.EndsWith ⟨(Stmt.mk line form).exec scope s, [], depth⟩ r s' →
      s.heap.Adds (fun q x => q = scope ∧ form.Brings s.config.Loads x) s'.heap ∧
      ((∀ x, ¬form.Brings s.config.Loads x) → s.heap.SeenAlike s'.heap) := by
  refine ⟨fun e hend => ?_, fun line form hend => ?_⟩
  · have hadds := adds_of_evaluation hend
    exact ⟨hadds, hadds.seenAlike fun _ _ hx => hx⟩
  · have hadds : s.heap.Adds (fun q x => q = scope ∧ form.Brings s.config.Loads x) s'.heap :=
      (adds_of_exec hend).mono fun _ _ _ hx => ⟨hx.1, Stmt.declares_iff.mp hx.2⟩
    exact ⟨hadds, fun hnone => hadds.seenAlike fun _ x hx => hnone x hx.2⟩

/-- A state with one scope, where one name is bound. -/
def oneScope : State :=
  ⟨⟨.absent, true, 0, false, []⟩,
    { Heap.empty with scopes := #[⟨none, Dict.empty.put "y" .null⟩] },
    ⟨#[], ⟨[], []⟩, ⟨[], []⟩, [], 0, 0⟩, none, false⟩

/-- A block that binds a name and then fails. -/
def failingBlock : Form := .block [.mk 1 (.declare "x" none), .mk 2 (.expr (.variable "z"))]

theorem failingBlock_ends :
    ∃ f s', Machine.EndsWith ⟨(Stmt.mk 1 failingBlock).exec 0 oneScope, [], 0⟩ (.error f) s' :=
  ⟨_, _, _, .refl _, rfl⟩

theorem scopes_framed_failing_block :
    ∃ f s', Machine.EndsWith ⟨(Stmt.mk 1 failingBlock).exec 0 oneScope, [], 0⟩ (.error f) s' ∧
      oneScope.heap.Formed ∧
      oneScope.heap.Adds (fun q x => q = 0 ∧ failingBlock.Brings oneScope.config.Loads x) s'.heap ∧
      ∀ x, s'.heap.resolve 0 x = oneScope.heap.resolve 0 x := by
  obtain ⟨f, s', hend⟩ := failingBlock_ends
  have hformed : oneScope.heap.Formed := by
    intro q s p hq hp
    obtain ⟨hlt, rfl⟩ := Array.getElem?_eq_some_iff.mp hq
    obtain rfl : q = 0 := Nat.lt_one_iff.mp hlt
    cases hp
  obtain ⟨hadds, hseen⟩ := (scopes_framed oneScope s' 0 0 (.error f)).2 1 failingBlock hend
  exact ⟨f, s', hend, hformed, hadds, fun x => hseen (fun _ h => h) hformed 0 x (by decide)⟩

end Hantec
