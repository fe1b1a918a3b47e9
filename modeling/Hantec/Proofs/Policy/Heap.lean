import Hantec.Value.Coerce

/-!
# What heaps hold

Two views of a heap that all runs respect. The first one is what it holds: every value in it and
every body of a function satisfies a given predicate. The second one compares it with a later heap:
the scopes that were there keep their names and their outer scopes, and only certain names come
to certain scopes.
-/

namespace Hantec

variable {α : Type}

/-! ## Values in dictionaries -/

theorem mem_putEntry {k : String} {v : α} {es : List (String × α)} {e : String × α}
    (h : e ∈ putEntry k v es) : e = (k, v) ∨ e ∈ es := by
  induction es with
  | nil => simpa [putEntry] using h
  | cons d es ih =>
    rw [putEntry] at h
    split at h
    · exact (List.mem_cons.mp h).imp_right (List.mem_cons_of_mem _)
    · rcases List.mem_cons.mp h with rfl | h
      · exact .inr (by simp)
      · exact (ih h).imp_right (List.mem_cons_of_mem _)

namespace Dict

/-- Every value of the dictionary satisfies the predicate. -/
def All (V : α → Prop) (d : Dict α) : Prop := ∀ e ∈ d.entries, V e.2

variable {V : α → Prop} {d : Dict α}

theorem All.empty : (Dict.empty : Dict α).All V := fun _ h => nomatch h

theorem All.put (hd : d.All V) (k : String) {v : α} (hv : V v) : (d.put k v).All V := by
  intro e he
  rcases mem_putEntry he with rfl | he
  · exact hv
  · exact hd e he

theorem All.putAll (hd : d.All V) {es : List (String × α)} (hes : ∀ e ∈ es, V e.2) :
    (d.putAll es).All V := by
  induction es generalizing d with
  | nil => exact hd
  | cons e es ih =>
    rw [List.forall_mem_cons] at hes
    exact ih (hd.put e.1 hes.1) hes.2

theorem All.ofList {es : List (String × α)} (hes : ∀ e ∈ es, V e.2) : (Dict.ofList es).All V :=
  All.empty.putAll hes

theorem All.get? (hd : d.All V) {k : String} {v : α} (h : d.get? k = some v) : V v := by
  obtain ⟨before, after, hsplit, -⟩ := List.lookup_eq_some_iff.mp h
  exact hd (k, v) (by simp [hsplit])

theorem All.getD (hd : d.All V) (k : String) {v : α} (hv : V v) : V ((d.get? k).getD v) := by
  cases h : d.get? k with
  | none => exact hv
  | some w => exact hd.get? h

theorem All.values (hd : d.All V) : ∀ v ∈ d.values, V v := by
  intro v hv
  obtain ⟨e, he, rfl⟩ := List.mem_map.mp hv
  exact hd e he

theorem contains_put (d : Dict α) (k x : String) (v : α) :
    (d.put k v).contains x = true ↔ x = k ∨ d.contains x = true := by
  rw [contains, get?_put]
  split
  · simp [*]
  · simp [*, contains]

end Dict

/-! ## Values in heaps -/

section Cells

variable {α : Type} {p : α → Prop} {xs : Array α}

theorem getElem?_push_of_some {i : Nat} {x : α} (h : xs[i]? = some x) (y : α) :
    (xs.push y)[i]? = some x := by
  rw [Array.getElem?_push, if_neg (Nat.ne_of_lt (Array.getElem?_eq_some_iff.1 h).1), h]

variable (h : ∀ (i : Nat) x, xs[i]? = some x → p x)

include h

theorem of_getD {y : α} (hy : p y) (i : Nat) : p (xs.getD i y) := by
  rw [Array.getD_eq_getD_getElem?]
  cases hx : xs[i]? with
  | none => exact hy
  | some x => exact h i x hx

theorem forall_push {y : α} (hy : p y) : ∀ (i : Nat) x, (xs.push y)[i]? = some x → p x := by
  intro i x hx
  rw [Array.getElem?_push] at hx
  split at hx
  · exact Option.some.inj hx ▸ hy
  · exact h i x hx

theorem forall_modify (k : Nat) {f : α → α} (hf : ∀ x, p x → p (f x)) :
    ∀ (i : Nat) x, (xs.modify k f)[i]? = some x → p x := by
  intro i x hx
  rw [Array.getElem?_modify] at hx
  split at hx
  · obtain ⟨y, hy, rfl⟩ := Option.map_eq_some_iff.1 hx
    exact hf y (h i y hy)
  · exact h i x hx

end Cells

/-- A value that programs can make, apart from errors. -/
def Value.IsPlain : Value → Prop
  | .err _ _ _ | .int _ _ | .tuple _ | .node _ _ => False
  | _ => True

namespace Heap

/-- Every value that the heap holds satisfies `V`, and every body of a function `B`. -/
structure Holds (V : Value → Prop) (B : List Stmt → Prop) (h : Heap) : Prop where
  arrays : ∀ (r : Nat) (items : Array Value), h.arrays[r]? = some items →
    ∀ v ∈ items.toList, V v
  objects : ∀ (r : Nat) (d : Dict Value), h.objects[r]? = some d → d.All V
  scopes : ∀ (q : Nat) (s : Scope), h.scopes[q]? = some s → s.vars.All V
  literals : ∀ e ∈ h.literals, V e.2
  closures : ∀ (r : Nat) (c : Closure), h.closures[r]? = some c → B c.body

namespace Holds

variable {V : Value → Prop} {B : List Stmt → Prop} {h : Heap} (hh : h.Holds V B)

include hh

theorem array (r : Nat) : ∀ v ∈ (h.array r).toList, V v :=
  of_getD hh.arrays (fun _ hv => (List.not_mem_nil hv).elim) r

theorem object (r : Nat) : (h.object r).All V := of_getD hh.objects .empty r

theorem closure (hnil : B []) (r : Nat) : B (h.closure r).body :=
  of_getD (p := fun c : Closure => B c.body) hh.closures hnil r

theorem lookup {scope : Nat} {x : String} {v : Value} (h' : h.lookup scope x = some v) : V v := by
  obtain ⟨q, -, hv⟩ := Option.bind_eq_some_iff.mp h'
  exact (of_getD (p := fun s : Scope => s.vars.All V) hh.scopes Dict.All.empty q).get? hv

theorem mono {V' : Value → Prop} {B' : List Stmt → Prop} (hV : ∀ v, V v → V' v)
    (hB : ∀ body, B body → B' body) : h.Holds V' B' where
  arrays r items hr v hv := hV v (hh.arrays r items hr v hv)
  objects r d hr e he := hV e.2 (hh.objects r d hr e he)
  scopes q s hq e he := hV e.2 (hh.scopes q s hq e he)
  literals e he := hV e.2 (hh.literals e he)
  closures r c hr := hB c.body (hh.closures r c hr)

theorem newArray {items : Array Value} (hitems : ∀ v ∈ items.toList, V v) :
    (h.newArray items).2.Holds V B :=
  { hh with arrays := forall_push hh.arrays hitems }

theorem setArray (r : Nat) {items : Array Value} (hitems : ∀ v ∈ items.toList, V v) :
    (h.setArray r items).Holds V B := by
  refine { hh with arrays := fun q xs hq => ?_ }
  rw [Heap.setArray, Array.getElem?_setIfInBounds] at hq
  split at hq
  · split at hq
    · cases hq
      exact hitems
    · cases hq
  · exact hh.arrays q xs hq

theorem updateArray (r : Nat) {f : Array Value → Array Value}
    (hf : ∀ items, (∀ v ∈ items.toList, V v) → ∀ v ∈ (f items).toList, V v) :
    (h.updateArray r f).Holds V B :=
  { hh with arrays := forall_modify hh.arrays r hf }

theorem newObject {d : Dict Value} (hd : d.All V) : (h.newObject d).2.Holds V B :=
  { hh with objects := forall_push hh.objects hd }

theorem putMember (r : Nat) (k : String) {v : Value} (hv : V v) :
    (h.putMember r k v).Holds V B :=
  { hh with objects := forall_modify hh.objects r fun _ hd => hd.put k hv }

theorem newClosure {c : Closure} (hc : B c.body) : (h.newClosure c).2.Holds V B :=
  { hh with closures := forall_push hh.closures hc }

theorem newScope (parent : Option Nat) : (h.newScope parent).2.Holds V B :=
  { hh with scopes := forall_push hh.scopes Dict.All.empty }

theorem define (scope : Nat) (name : String) {v : Value} (hv : V v) :
    (h.define scope name v).Holds V B :=
  { hh with scopes := forall_modify hh.scopes scope fun _ hs => hs.put name hv }

theorem newError (name message : String) : (h.newError name message).2.Holds V B :=
  { hh with }

end Holds

section Initial

variable {V : Value → Prop} {B : List Stmt → Prop} (hplain : ∀ v : Value, v.IsPlain → V v)

include hplain

theorem Holds.installSpace {h : Heap} (hh : h.Holds V B) (space : String)
    (members : List (String × Builtin)) : (h.installSpace space members).Holds V B := by
  refine (hh.newObject (.ofList fun e he => ?_)).define 0 space (hplain _ trivial)
  obtain ⟨p, -, rfl⟩ := List.mem_map.mp he
  exact hplain _ trivial

/-- A fresh run starts with builtins only. -/
theorem holds_initial : Heap.initial.Holds V B := by
  have hempty : Heap.empty.Holds V B :=
    { arrays := fun r items hr => by simp [empty] at hr
      objects := fun r d hr => by simp [empty] at hr
      scopes := fun q s hq => by simp [empty] at hq
      literals := fun e he => by simp [empty] at he
      closures := fun r c hr => by simp [empty] at hr }
  unfold Heap.initial
  refine List.foldlRecOn _ _ (List.foldlRecOn _ _ (hempty.newScope none) ?_) ?_
  · intro h hh e _
    exact hh.define 0 e.1 (hplain _ trivial)
  · intro h hh e _
    exact hh.installSpace hplain e.1 e.2

end Initial

end Heap

/-! ## Names in scopes -/

/-- The scope has become the second one: no name has gone, and only such names have come. -/
structure Scope.Adds (N : String → Prop) (s s' : Scope) : Prop where
  parent : s'.parent = s.parent
  kept : ∀ x, s.vars.contains x = true → s'.vars.contains x = true
  added : ∀ x, s'.vars.contains x = true → s.vars.contains x = true ∨ N x

namespace Heap

/-- Every scope of the first heap is there in the second one, with no more names than those that
`A` lets come to it. -/
def Adds (A : Nat → String → Prop) (h h' : Heap) : Prop :=
  ∀ (q : Nat) (s : Scope), h.scopes[q]? = some s → ∃ s', h'.scopes[q]? = some s' ∧ s.Adds (A q) s'

def noNames : Nat → String → Prop := fun _ _ => False

variable {A A' : Nat → String → Prop} {h h₁ h' : Heap}

theorem Adds.of_scopes_eq (hs : h'.scopes = h.scopes) : h.Adds A h' := fun _ s hq =>
  ⟨s, hs ▸ hq, rfl, fun _ hx => hx, fun _ hx => .inl hx⟩

theorem Adds.refl (h : Heap) : h.Adds A h := of_scopes_eq rfl

/-- What comes to scopes that were not there at first does not matter. -/
theorem Adds.trans (hA : h.Adds A h₁) (hA' : h₁.Adds A' h')
    (hsub : ∀ q x, q < h.scopes.size → A' q x → A q x) : h.Adds A h' := by
  intro q s hq
  obtain ⟨s₁, hq₁, hs₁⟩ := hA q s hq
  obtain ⟨s', hq', hs'⟩ := hA' q s₁ hq₁
  have hlt : q < h.scopes.size := (Array.getElem?_eq_some_iff.mp hq).1
  refine ⟨s', hq', hs'.parent.trans hs₁.parent, fun x hx => hs'.kept x (hs₁.kept x hx), ?_⟩
  intro x hx
  rcases hs'.added x hx with hx | hx
  · exact hs₁.added x hx
  · exact .inr (hsub q x hlt hx)

theorem Adds.mono (hA : h.Adds A' h') (hsub : ∀ q x, q < h.scopes.size → A' q x → A q x) :
    h.Adds A h' :=
  (Adds.refl h).trans hA hsub

theorem adds_newScope (h : Heap) (parent : Option Nat) : h.Adds A (h.newScope parent).2 :=
  fun _ s hq => ⟨s, getElem?_push_of_some hq _, rfl, fun _ hx => hx, fun _ hx => .inl hx⟩

theorem adds_define (h : Heap) (scope : Nat) (name : String) (v : Value) :
    h.Adds (fun q x => q = scope ∧ x = name) (h.define scope name v) := by
  intro q s hq
  rw [define, Array.getElem?_modify]
  split
  · rename_i heq
    refine ⟨⟨s.parent, s.vars.put name v⟩, by rw [hq]; rfl, rfl, fun x hx => ?_, fun x hx => ?_⟩
    · exact (s.vars.contains_put name x v).mpr (.inr hx)
    · exact ((s.vars.contains_put name x v).mp hx).symm.imp_right fun hx => ⟨heq.symm, hx⟩
  · exact ⟨s, hq, rfl, fun _ hx => hx, fun _ hx => .inl hx⟩

theorem contains_of_resolveWithin {name : String} {n scope owner : Nat}
    (hr : h.resolveWithin name n scope = some owner) :
    ∃ s, h.scopes[owner]? = some s ∧ s.vars.contains name = true := by
  fun_induction Heap.resolveWithin h name n scope with
  | case1 | case2 | case4 => cases hr
  | case3 n scope s hs hx =>
    cases hr
    exact ⟨s, hs, hx⟩
  | case5 n scope s hs hx p hp ih => exact ih hr

/-- A name that is bound already is not added by binding it again. -/
theorem adds_define_of_resolve {scope owner : Nat} {name : String}
    (hr : h.resolve scope name = some owner) (v : Value) :
    h.Adds A (h.define owner name v) := by
  obtain ⟨s, hs, hx⟩ := contains_of_resolveWithin hr
  intro q t hq
  obtain ⟨t', hq', ht⟩ := adds_define h owner name v q t hq
  refine ⟨t', hq', ht.parent, ht.kept, fun x hx' => ?_⟩
  rcases ht.added x hx' with hx' | ⟨rfl, rfl⟩
  · exact .inl hx'
  · obtain rfl : t = s := Option.some.inj (hq.symm.trans hs)
    exact .inl hx

/-- The second heap has no fewer arrays, and no more names in the scopes of the first one than those
that `A` lets come to them. -/
structure Grows (A : Nat → String → Prop) (h h' : Heap) : Prop where
  adds : h.Adds A h'
  arrays : h.arrays.size ≤ h'.arrays.size

namespace Grows

theorem of_scopes_eq (hs : h'.scopes = h.scopes) (ha : h.arrays.size ≤ h'.arrays.size) :
    h.Grows A h' :=
  ⟨.of_scopes_eq hs, ha⟩

theorem refl (h : Heap) : h.Grows A h := ⟨.refl h, Nat.le_refl _⟩

theorem trans (hA : h.Grows A h₁) (hA' : h₁.Grows A' h')
    (hsub : ∀ q x, q < h.scopes.size → A' q x → A q x) : h.Grows A h' :=
  ⟨hA.adds.trans hA'.adds hsub, Nat.le_trans hA.arrays hA'.arrays⟩

theorem mono (hA : h.Grows A' h') (hsub : ∀ q x, q < h.scopes.size → A' q x → A q x) :
    h.Grows A h' :=
  ⟨hA.adds.mono hsub, hA.arrays⟩

end Grows

end Heap

end Hantec
