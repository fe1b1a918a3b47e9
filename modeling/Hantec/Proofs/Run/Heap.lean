import Hantec.Proofs.Inline
import Hantec.Value.Coerce

/-!
# Heaps that differ in scopes and functions

Two heaps are alike if they differ at most in the bodies of their functions, where imports may be
written out. No text or number that is read off a heap depends on scopes or on the bodies of
functions, and most changes of a heap leave both alone.
-/

namespace Hantec

variable {modules : String → List Stmt → Prop} {α : Type}

structure Closure.Alike (modules : String → List Stmt → Prop) (c c' : Closure) : Prop where
  name : c'.name = c.name
  params : c'.params = c.params
  scope : c'.scope = c.scope
  body : Inlined modules .stmts c.body c'.body

/-- The function with another body. -/
def Closure.withBody (c : Closure) (body : List Stmt) : Closure :=
  ⟨c.name, c.params, body, c.scope⟩

namespace Heap

def withClosures (h : Heap) (cs : Array Closure) : Heap := { h with closures := cs }

structure Alike (modules : String → List Stmt → Prop) (h h' : Heap) : Prop where
  rest : h' = h.withClosures h'.closures
  size : h'.closures.size = h.closures.size
  closure : ∀ r, (h.closure r).Alike modules (h'.closure r)

/-! ## Changes -/

def withCode (h : Heap) (cs : Array Closure) (ss : Array Scope) : Heap :=
  { h with closures := cs, scopes := ss }

/-- A change that neither looks at functions and scopes nor touches them, and removes no array. -/
structure Aloof (f : Heap → α × Heap) : Prop where
  apart : ∀ h cs ss, f (h.withCode cs ss) = ((f h).1, (f h).2.withCode cs ss)
  grows : ∀ h, h.arrays.size ≤ (f h).2.arrays.size

namespace Aloof

variable {f : Heap → α × Heap} (hf : Aloof f)

include hf

theorem scopes (h : Heap) : (f h).2.scopes = h.scopes :=
  congrArg (fun x => x.2.scopes) (hf.apart h h.closures h.scopes)

theorem closures (h : Heap) : (f h).2.closures = h.closures :=
  congrArg (fun x => x.2.closures) (hf.apart h h.closures h.scopes)

end Aloof

theorem aloof_newError (name message : String) : Aloof (·.newError name message) :=
  ⟨fun _ _ _ => rfl, fun _ => Nat.le_refl _⟩

theorem aloof_newArray (items : Array Value) : Aloof (·.newArray items) :=
  ⟨fun _ _ _ => rfl, fun h => by simp [newArray]⟩

theorem aloof_newObject (d : Dict Value) : Aloof (·.newObject d) :=
  ⟨fun _ _ _ => rfl, fun _ => Nat.le_refl _⟩

theorem aloof_setArray (r : Nat) (items : Array Value) :
    Aloof fun h => ((), h.setArray r items) :=
  ⟨fun _ _ _ => rfl, fun h => by simp [setArray]⟩

theorem aloof_updateArray (r : Nat) (f : Array Value → Array Value) :
    Aloof fun h => ((), h.updateArray r f) :=
  ⟨fun _ _ _ => rfl, fun h => by simp [updateArray]⟩

theorem aloof_putMember (r : Nat) (k : String) (v : Value) :
    Aloof fun h => ((), h.putMember r k v) :=
  ⟨fun _ _ _ => rfl, fun _ => Nat.le_refl _⟩

mutual

theorem aloof_build : (d : Datum) → Aloof (·.build d)
  | .null | .bool _ | .num _ | .str _ | .error _ _ | .builtin _ | .int _ =>
    ⟨fun _ _ _ => rfl, fun _ => Nat.le_refl _⟩
  | .list ds =>
    ⟨fun h cs ss => by
      simp only [build, (aloof_buildAll ds).apart h cs ss]
      rfl,
    fun h => Nat.le_trans ((aloof_buildAll ds).grows h) ((aloof_newArray _).grows _)⟩
  | .tuple ds =>
    ⟨fun h cs ss => by simp only [build, (aloof_buildAll ds).apart h cs ss],
      (aloof_buildAll ds).grows⟩
  | .record es =>
    ⟨fun h cs ss => by
      simp only [build, (aloof_buildEntries es).apart h cs ss]
      rfl, (aloof_buildEntries es).grows⟩

theorem aloof_buildAll : (ds : List Datum) → Aloof (·.buildAll ds)
  | [] => ⟨fun _ _ _ => rfl, fun _ => Nat.le_refl _⟩
  | d :: ds =>
    ⟨fun h cs ss => by
      simp only [buildAll, (aloof_build d).apart h cs ss, (aloof_buildAll ds).apart _ cs ss],
    fun h => Nat.le_trans ((aloof_build d).grows h) ((aloof_buildAll ds).grows _)⟩

theorem aloof_buildEntries : (es : List (String × Datum)) → Aloof (·.buildEntries es)
  | [] => ⟨fun _ _ _ => rfl, fun _ => Nat.le_refl _⟩
  | (k, d) :: es =>
    ⟨fun h cs ss => by
      simp only [buildEntries, (aloof_build d).apart h cs ss,
        (aloof_buildEntries es).apart _ cs ss],
    fun h => Nat.le_trans ((aloof_build d).grows h) ((aloof_buildEntries es).grows _)⟩

end

mutual

theorem aloof_buildTree : (t : Tree) → Aloof (·.buildTree t)
  | .null | .node _ _ | .bool _ | .int _ | .num _ | .str _ =>
    ⟨fun _ _ _ => rfl, fun _ => Nat.le_refl _⟩
  | .list ts =>
    ⟨fun h cs ss => by
      simp only [buildTree, (aloof_buildTrees ts).apart h cs ss]
      rfl,
    fun h => Nat.le_trans ((aloof_buildTrees ts).grows h) ((aloof_newArray _).grows _)⟩

theorem aloof_buildTrees : (ts : List Tree) → Aloof (·.buildTrees ts)
  | [] => ⟨fun _ _ _ => rfl, fun _ => Nat.le_refl _⟩
  | t :: ts =>
    ⟨fun h cs ss => by
      simp only [buildTrees, (aloof_buildTree t).apart h cs ss, (aloof_buildTrees ts).apart _ cs ss],
    fun h => Nat.le_trans ((aloof_buildTree t).grows h) ((aloof_buildTrees ts).grows _)⟩

end

theorem aloof_literal (place : List Nat) (t : Tree) : Aloof (·.literal place t) := by
  constructor
  · intro h cs ss
    simp only [literal, (aloof_buildTree t).apart h cs ss]
    rw [show (h.withCode cs ss).literals = h.literals from rfl]
    cases h.literals.lookup place <;> rfl
  · intro h
    unfold literal
    split
    · exact Nat.le_refl _
    · exact (aloof_buildTree t).grows h

/-- The value as taken into the language, or why it cannot be. -/
def adopted (v : Value) (h : Heap) : Except Fault Value × Heap :=
  match h.adopt v with
  | .ok (w, h) => (.ok w, h)
  | .error f => (.error f, h)

mutual

theorem adopt_withCode (h : Heap) (cs : Array Closure) (ss : Array Scope) :
    (v : Value) → (h.withCode cs ss).adopt v = (h.adopt v).map fun p => (p.1, p.2.withCode cs ss)
  | .int _ n => by
    rw [adopt.eq_def, adopt.eq_def]
    dsimp only
    cases Number.ofInt? n <;> rfl
  | .tuple vs => by
    rw [adopt.eq_def, adopt.eq_def]
    dsimp only
    rw [adoptAll_withCode h cs ss vs]
    cases h.adoptAll vs <;> rfl
  | .node _ _ | .null | .bool _ | .num _ | .str _ | .arr _ | .obj _ | .err _ _ _ | .fn _ => rfl

theorem adoptAll_withCode (h : Heap) (cs : Array Closure) (ss : Array Scope) :
    (vs : List Value) →
      (h.withCode cs ss).adoptAll vs = (h.adoptAll vs).map fun p => (p.1, p.2.withCode cs ss)
  | [] => rfl
  | v :: vs => by
    simp only [adoptAll, adopt_withCode h cs ss v]
    cases h.adopt v with
    | error f => rfl
    | ok p =>
      obtain ⟨w, k⟩ := p
      simp only [Except.map, bind, Except.bind, adoptAll_withCode k cs ss vs]
      cases k.adoptAll vs <;> rfl

end

mutual

theorem kept_of_adopt (h : Heap) : (v : Value) → ∀ p, h.adopt v = .ok p →
    h.arrays.size ≤ p.2.arrays.size ∧ p.2.objects = h.objects
  | .int _ n => by
    rw [adopt.eq_def]
    dsimp only
    cases Number.ofInt? n with
    | some x => rintro _ ⟨⟩; exact ⟨Nat.le_refl _, rfl⟩
    | none => nofun
  | .tuple vs => by
    rw [adopt.eq_def]
    dsimp only
    cases hvs : h.adoptAll vs with
    | error f => nofun
    | ok q =>
      rintro _ ⟨⟩
      obtain ⟨hsize, hobjects⟩ := kept_of_adoptAll h vs q hvs
      exact ⟨Nat.le_trans hsize ((aloof_newArray _).grows _), hobjects⟩
  | .node _ _ => nofun
  | .null | .bool _ | .num _ | .str _ | .arr _ | .obj _ | .err _ _ _ | .fn _ => by
    rintro _ ⟨⟩
    exact ⟨Nat.le_refl _, rfl⟩

theorem kept_of_adoptAll (h : Heap) : (vs : List Value) → ∀ p, h.adoptAll vs = .ok p →
    h.arrays.size ≤ p.2.arrays.size ∧ p.2.objects = h.objects
  | [] => by
    rintro _ ⟨⟩
    exact ⟨Nat.le_refl _, rfl⟩
  | v :: vs => by
    rw [adoptAll]
    cases hv : h.adopt v with
    | error f => nofun
    | ok p =>
      simp only [bind, Except.bind]
      cases hvs : p.2.adoptAll vs with
      | error f => nofun
      | ok q =>
        rintro _ ⟨⟩
        obtain ⟨hsize, hobjects⟩ := kept_of_adopt h v p hv
        obtain ⟨hsize', hobjects'⟩ := kept_of_adoptAll p.2 vs q hvs
        exact ⟨Nat.le_trans hsize hsize', hobjects'.trans hobjects⟩

end

theorem aloof_adopted (v : Value) : Aloof (adopted v) := by
  constructor
  · intro h cs ss
    simp only [adopted, adopt_withCode]
    cases h.adopt v <;> rfl
  · intro h
    unfold adopted
    cases hr : h.adopt v with
    | error f => exact Nat.le_refl _
    | ok p => exact (kept_of_adopt h v p hr).1

/-! ## Readings -/

/-- The heaps differ at most in their scopes and in the bodies and scopes of functions. -/
structure Resembles (h h' : Heap) : Prop where
  rest : h' = h.withCode h'.closures h'.scopes
  closure : ∀ r, (h'.closure r).name = (h.closure r).name ∧
    (h'.closure r).params = (h.closure r).params

/-- The text of a value depends on arrays and on the texts of functions only. -/
theorem textWithin_congr {h h' : Heap} (harrays : h'.arrays = h.arrays)
    (hcallable : ∀ f, h'.callableText f = h.callableText f) (n : Nat) (v : Value) :
    h'.textWithin n v = h.textWithin n v := by
  induction n generalizing v with
  | zero => cases v <;> simp only [Heap.textWithin, hcallable]
  | succ n ih => cases v <;> simp only [Heap.textWithin, hcallable, Heap.array, harrays, ih]

section Readings

variable {h h' : Heap} (hh : h.Resembles h')

include hh

theorem Resembles.arrays : h'.arrays = h.arrays := by rw [hh.rest]; rfl

theorem Resembles.objects : h'.objects = h.objects := by rw [hh.rest]; rfl

theorem Resembles.array (r : Nat) : h'.array r = h.array r := by rw [hh.rest]; rfl

theorem Resembles.object (r : Nat) : h'.object r = h.object r := by rw [hh.rest]; rfl

theorem Resembles.callableName (f : Callable) : h'.callableName f = h.callableName f := by
  cases f with
  | closure r => exact (hh.closure r).1
  | builtin b => rfl

theorem Resembles.callableArity (f : Callable) : h'.callableArity f = h.callableArity f := by
  cases f with
  | closure r => simp only [Heap.callableArity, (hh.closure r).2]
  | builtin b => rfl

theorem Resembles.callableText (f : Callable) : h'.callableText f = h.callableText f := by
  cases f with
  | closure r => simp only [Heap.callableText, (hh.closure r).1]
  | builtin b => rfl

theorem Resembles.textWithin (n : Nat) (v : Value) : h'.textWithin n v = h.textWithin n v :=
  textWithin_congr hh.arrays hh.callableText n v

theorem Resembles.toText (v : Value) : h'.toText v = h.toText v := by
  simp only [Heap.toText, hh.textWithin, hh.arrays]

theorem Resembles.toNumber (v : Value) : h'.toNumber v = h.toNumber v := by
  cases v <;> simp only [Heap.toNumber, hh.toText]

theorem Resembles.toIndex (v : Value) : h'.toIndex v = h.toIndex v := by
  simp only [Heap.toIndex, hh.toNumber]

theorem Resembles.displayWithin (n : Nat) (nested : Bool) (v : Value) :
    h'.displayWithin n nested v = h.displayWithin n nested v := by
  induction n generalizing nested v with
  | zero => cases v <;> simp only [Heap.displayWithin, hh.toText]
  | succ n ih =>
    have hnested : h'.displayWithin n true = h.displayWithin n true := funext (ih true)
    cases v <;> simp only [Heap.displayWithin, hh.toText, hh.array, hh.object, hnested]

theorem Resembles.display (v : Value) : h'.display v = h.display v := by
  simp only [Heap.display, hh.displayWithin, hh.arrays, hh.objects]

theorem Resembles.pairEntries (vs : List Value) : h'.pairEntries vs = h.pairEntries vs := by
  fun_induction Heap.pairEntries h vs <;> simp_all only [Heap.pairEntries, hh.toText]

end Readings

theorem resolve_congr {h h' : Heap} (hscopes : h'.scopes = h.scopes) (scope : Nat) (name : String) :
    h'.resolve scope name = h.resolve scope name := by
  have hwithin (n scope : Nat) : h'.resolveWithin name n scope = h.resolveWithin name n scope := by
    induction n generalizing scope with
    | zero => rfl
    | succ n ih => simp only [Heap.resolveWithin, hscopes, ih]
  exact hwithin _ _

theorem closure_newClosure (h : Heap) (c : Closure) (r : Nat) :
    (h.newClosure c).2.closure r = if r = h.closures.size then c else h.closure r := by
  simp only [closure, newClosure, Array.getD_eq_getD_getElem?, Array.getElem?_push]
  split <;> rfl

end Heap

end Hantec
