import Hantec.Proofs.Policy.Eval

/-!
# Builtins under a policy

A builtin takes values that may be around to a value that may be, and touches no scope. The faults
that it comes to become errors, so a call of a builtin brings up no fault of its own.
-/

namespace Hantec

theorem Fault.errorName?_ne (f : Fault) : f.errorName? ≠ some "ControlError" := by
  fun_cases Fault.errorName? f with
  | case3 e => split <;> decide
  | _ => decide

namespace Policy

variable {P : Policy} {A : Nat → String → Prop} {α : Type}

/-- A soft fault becomes an error, and no fault is left. -/
theorem Runs.builtinFailWith [P.Lawful] {Q : α → Prop} (b : Builtin) {e : Failure}
    (he : P.Tolerates Fault.IsSoft e) : P.Runs A hard (b.failWith e) Q := by
  unfold Builtin.failWith
  split
  · rename_i f
    split
    · rename_i name hname
      refine raiseError (fun h => ?_) _
      subst h
      exact f.errorName?_ne hname
    · rename_i hname
      refine fault (.inl (he.resolve_right fun hsoft => ?_))
      have hnamed := hsoft.named
      rw [hname] at hnamed
      cases hnamed
  · rename_i hfault
    refine failWith ?_
    cases e with
    | fault f => exact absurd rfl (hfault f)
    | raised | exit | overflow => exact he

/-- What is taken into the language satisfies `Q` and touches no scope, or its fault may end a
run. -/
def Adopts (P : Policy) (Q : α → Prop) (h : Heap) : Except Fault (α × Heap) → Prop
  | .ok p => Q p.1 ∧ P.Holds p.2 ∧ p.2.scopes = h.scopes
  | .error f => P.fault f

/-- A value that can be taken into the language. -/
structure TakesIn (P : Policy) (v : Value) : Prop where
  adopts : ∀ h : Heap, P.Holds h → P.Adopts P.value h (h.adopt v)

/-- Values that can be taken into the language one after another. -/
structure TakesInAll (P : Policy) (vs : List Value) : Prop where
  adopts : ∀ h : Heap, P.Holds h → P.Adopts (fun ws => ∀ w ∈ ws, P.value w) h (h.adoptAll vs)

theorem takesIn_int [P.Lawful] (id : Nat) (n : Int) : P.TakesIn (.int id n) := by
  refine ⟨fun h hh => ?_⟩
  rw [Heap.adopt.eq_def]
  dsimp only
  cases Number.ofInt? n with
  | some x => exact ⟨Lawful.plain _ trivial, hh, rfl⟩
  | none => exact Lawful.tooLarge

theorem takesIn_tuple [P.Lawful] {vs : List Value} (hvs : P.TakesInAll vs) :
    P.TakesIn (.tuple vs) := by
  refine ⟨fun h hh => ?_⟩
  have hall := hvs.adopts h hh
  rw [Heap.adopt.eq_def]
  dsimp only
  cases hr : h.adoptAll vs with
  | error f => exact (hr ▸ hall :)
  | ok p =>
    rw [hr] at hall
    exact ⟨Lawful.plain _ trivial, hall.2.1.newArray hall.1, hall.2.2⟩

theorem takesInAll_cons {v : Value} {vs : List Value} (hv : P.TakesIn v)
    (hvs : P.TakesInAll vs) : P.TakesInAll (v :: vs) := by
  refine ⟨fun h hh => ?_⟩
  have hfirst := hv.adopts h hh
  rw [Heap.adoptAll]
  cases hr : h.adopt v with
  | error f => exact (hr ▸ hfirst :)
  | ok p =>
    rw [hr] at hfirst
    have hrest := hvs.adopts p.2 hfirst.2.1
    simp only [bind, Except.bind]
    cases hq : p.2.adoptAll vs with
    | error f => exact (hq ▸ hrest :)
    | ok q =>
      rw [hq] at hrest
      exact ⟨List.forall_mem_cons.mpr ⟨hfirst.1, hrest.1⟩, hrest.2.1,
        hrest.2.2.trans hfirst.2.2⟩

mutual

theorem takesIn [P.Lawful] : (v : Value) → P.value v → P.TakesIn v
  | .int id n, _ => takesIn_int id n
  | .tuple vs, hv => takesIn_tuple (takesInAll vs (Lawful.tuple vs hv))
  | .node id k, hv => ⟨fun _ _ => Lawful.foreign (.node id k) k.name hv rfl⟩
  | .null, hv | .bool _, hv | .num _, hv | .str _, hv | .arr _, hv | .obj _, hv
  | .err _ _ _, hv | .fn _, hv => ⟨fun _ hh => ⟨hv, hh, rfl⟩⟩

theorem takesInAll [P.Lawful] : (vs : List Value) → (∀ v ∈ vs, P.value v) → P.TakesInAll vs
  | [], _ => ⟨fun _ hh => ⟨List.forall_mem_nil _, hh, rfl⟩⟩
  | v :: vs, hvs =>
    takesInAll_cons (takesIn v (hvs v (by simp))) (takesInAll vs fun w hw => hvs w (by simp [hw]))

end

namespace Runs

variable [P.Lawful]

theorem builtinAdopt {v : Value} (hv : P.value v) : P.Runs A hard (Builtin.adopt v) P.value := by
  intro s hs
  have hadopt := (takesIn v hv).adopts s.heap hs.heap
  show P.Meets _ (Builtin.adopt v s)
  unfold Builtin.adopt
  cases hr : s.heap.adopt v with
  | error f => exact .fail (.failure hs (.refl _) (.inl (hr ▸ hadopt :)))
  | ok p =>
    obtain ⟨hw, hh, hscopes⟩ : P.value p.1 ∧ P.Holds p.2 ∧ p.2.scopes = s.heap.scopes :=
      (hr ▸ hadopt :)
    have hgrows : s.heap.Grows A p.2 := .of_scopes_eq hscopes (s.heap.kept_of_adopt v p hr).1
    exact .ret (.result (hs.withHeap hh) hgrows hw)

/-- A call of a builtin brings up no fault of its own. -/
theorem builtinCall (b : Builtin) {args : List Value} (hargs : ∀ v ∈ args, P.value v) :
    P.Runs A hard (b.call args) P.value := by
  have hrun : (b.run args).Works P (b.isChancy = true) true := .builtinRun b hargs
  refine hrun.runs.attempt.bind fun r hr => ?_
  cases r with
  | ok v => exact builtinAdopt hr
  | error e => exact builtinFailWith b hr

end Runs

end Policy

end Hantec
