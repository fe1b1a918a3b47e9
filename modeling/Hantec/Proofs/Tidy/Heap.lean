import Hantec.Proofs.Grammar.Tidy
import Hantec.Proofs.Run.Calm

/-!
# Tidy heaps

A heap is tidy if its scopes form a tree with the global scope as its root, and no scope binds a
name that is spelled as a keyword, except that the global scope binds the printer. Whoever binds
such names only that can be bound keeps the heap tidy. From every scope of a tidy heap, the printer
is seen to be the builtin that prints.
-/

namespace Hantec

def printValue : Value := .fn (.builtin (.core .print))

/-- The function can be called where there are `n` scopes, and its call binds free names only. -/
structure Closure.IsTidy (n : Nat) (c : Closure) : Prop where
  scope : c.scope < n
  params : ∀ p ∈ c.params, IsFree p
  body : stmtsTidy c.body

/-- The scope with the number `q` binds free names only, apart from the printer. -/
structure Scope.IsTidy (q : Nat) (s : Scope) : Prop where
  root : q = 0 → s.parent = none
  parent : q ≠ 0 → ∃ p < q, s.parent = some p
  names : ∀ x, ¬ IsFree x → s.vars.get? x = if q = 0 ∧ x = printer then some printValue else none

namespace Heap

structure IsTidy (h : Heap) : Prop where
  root : 0 < h.scopes.size
  scopes : ∀ (q : Nat) (s : Scope), h.scopes[q]? = some s → s.IsTidy q
  closures : ∀ (r : Nat) (c : Closure), h.closures[r]? = some c → c.IsTidy h.scopes.size

variable {h h' : Heap}

/-- A heap that is tidy and has at least the scopes of an earlier one. -/
structure Tidies (h h' : Heap) : Prop where
  tidy : h'.IsTidy
  grows : h.scopes.size ≤ h'.scopes.size

theorem Tidies.trans {h'' : Heap} (hh : h.Tidies h') (hh' : h'.Tidies h'') : h.Tidies h'' :=
  ⟨hh'.tidy, Nat.le_trans hh.grows hh'.grows⟩

theorem Tidies.lt_size (hh : h.Tidies h') {q : Nat} (hq : q < h.scopes.size) :
    q < h'.scopes.size :=
  Nat.lt_of_lt_of_le hq hh.grows

namespace IsTidy

variable (hh : h.IsTidy)

include hh

theorem refl : h.Tidies h := ⟨hh, Nat.le_refl _⟩

theorem ofSame (hs : h.SameScopes h') : h.Tidies h' where
  tidy :=
    { root := hs.scopes ▸ hh.root
      scopes := hs.scopes ▸ hh.scopes
      closures := hs.scopes ▸ hs.closures ▸ hh.closures }
  grows := Nat.le_of_eq (congrArg Array.size hs.scopes.symm)

theorem closure (r : Nat) : (h.closure r).IsTidy h.scopes.size := by
  refine of_getD hh.closures ?_ r
  exact ⟨hh.root, nofun, trivial⟩

theorem newScope {parent : Nat} (hparent : parent < h.scopes.size) :
    h.Tidies (h.newScope (some parent)).2 := by
  have hsize : (h.newScope (some parent)).2.scopes.size = h.scopes.size + 1 := by
    simp [Heap.newScope]
  refine ⟨⟨by omega, fun q s hq => ?_, fun r c hr => ?_⟩, by omega⟩
  · simp only [Heap.newScope, Array.getElem?_push] at hq
    split at hq
    case isTrue hq' =>
      -- The new scope is inside of another one and binds nothing.
      obtain rfl := Option.some.inj hq
      have hroot := hh.root
      refine ⟨fun h0 => by omega, fun _ => ⟨parent, by omega, rfl⟩, fun x _ => ?_⟩
      rw [if_neg fun h0 => by omega]
      rfl
    case isFalse => exact hh.scopes q s hq
  · have hc := hh.closures r c hr
    exact ⟨by have := hc.scope; omega, hc.params, hc.body⟩

theorem define (scope : Nat) {name : String} (hname : IsFree name) (v : Value) :
    h.Tidies (h.define scope name v) := by
  have hsize : (h.define scope name v).scopes.size = h.scopes.size := by simp [Heap.define]
  refine ⟨⟨hsize ▸ hh.root, fun q s hq => ?_, hsize ▸ hh.closures⟩, Nat.le_of_eq hsize.symm⟩
  simp only [Heap.define, Array.getElem?_modify] at hq
  split at hq
  case isTrue =>
    obtain ⟨s₀, hs₀, rfl⟩ := Option.map_eq_some_iff.1 hq
    have hs := hh.scopes q s₀ hs₀
    refine ⟨hs.root, hs.parent, fun x hx => ?_⟩
    rw [Dict.get?_put, if_neg fun (heq : x = name) => hx (heq ▸ hname)]
    exact hs.names x hx
  case isFalse => exact hh.scopes q s hq

theorem newClosure {c : Closure} (hc : c.IsTidy h.scopes.size) : h.Tidies (h.newClosure c).2 :=
  ⟨⟨hh.root, hh.scopes, forall_push hh.closures hc⟩, Nat.le_refl _⟩

theorem bindParams (scope : Nat) {params : List String} (hparams : ∀ p ∈ params, IsFree p)
    (args : List Value) : h.Tidies (bindParams scope params args h) := by
  induction params generalizing h args with
  | nil => exact hh.refl
  | cons p ps ih =>
    cases args with
    | nil =>
      have hfirst := hh.define scope (hparams p (.head _)) .null
      exact hfirst.trans (ih hfirst.tidy (fun p hp => hparams p (.tail _ hp)) [])
    | cons v vs =>
      have hfirst := hh.define scope (hparams p (.head _)) v
      exact hfirst.trans (ih hfirst.tidy (fun p hp => hparams p (.tail _ hp)) vs)

/-- From every scope the printer is found in the global one. -/
theorem resolveWithin_printer (n : Nat) {q : Nat} (hq : q < h.scopes.size) (hn : q ≤ n) :
    h.resolveWithin printer (n + 1) q = some 0 := by
  induction n generalizing q with
  | zero =>
    obtain rfl : q = 0 := by omega
    obtain ⟨s, hs⟩ : ∃ s, h.scopes[0]? = some s := ⟨_, Array.getElem?_eq_getElem hq⟩
    have hprinter := (hh.scopes 0 s hs).names printer (by decide)
    rw [resolveWithin, hs]
    simp [Dict.contains, hprinter]
  | succ n ih =>
    obtain ⟨s, hs⟩ : ∃ s, h.scopes[q]? = some s := ⟨_, Array.getElem?_eq_getElem hq⟩
    have hprinter := (hh.scopes q s hs).names printer (by decide)
    rw [resolveWithin, hs]
    by_cases hq0 : q = 0
    · simp [Dict.contains, hprinter, hq0]
    · obtain ⟨p, hp, hparent⟩ := (hh.scopes q s hs).parent hq0
      simp only [Dict.contains, hprinter, hq0, hparent, false_and, if_false, Option.isSome_none]
      exact ih (by omega) (by omega)

theorem lookup_printer {q : Nat} (hq : q < h.scopes.size) :
    h.lookup q printer = some printValue := by
  obtain ⟨s, hs⟩ : ∃ s, h.scopes[0]? = some s := ⟨_, Array.getElem?_eq_getElem hh.root⟩
  have hprinter := (hh.scopes 0 s hs).names printer (by decide)
  rw [lookup, resolve, hh.resolveWithin_printer q hq (Nat.le_refl q), Option.bind_some,
    Array.getD_eq_getD_getElem?, hs]
  simpa using hprinter

end IsTidy

/-- A fresh run starts with a tidy heap. -/
theorem isTidy_initial : Heap.initial.IsTidy := by
  have hnames : ∀ x ∈ (Heap.initial.scopes.getD 0 default).vars.keys,
      x = printer ∨ IsFree x := by decide +kernel
  have hone : Heap.initial.scopes.size = 1 := by decide
  have hnone : Heap.initial.closures.size = 0 := by decide
  refine ⟨by omega, fun q s hq => ?_, fun r c hr => ?_⟩
  · obtain ⟨hlt, hs⟩ := Array.getElem?_eq_some_iff.1 hq
    obtain rfl : q = 0 := by omega
    obtain rfl : Heap.initial.scopes.getD 0 default = s := by
      rw [Array.getD_eq_getD_getElem?, hq, Option.getD_some]
    refine ⟨fun _ => rfl, fun h0 => absurd rfl h0, fun x hx => ?_⟩
    by_cases hprinter : x = printer
    · subst hprinter
      rfl
    · rw [if_neg fun h0 => hprinter h0.2]
      refine List.lookup_eq_none_iff.2 fun e he => bne_iff_ne.2 ?_
      rintro rfl
      exact hx ((hnames e.1 (List.mem_map_of_mem he)).resolve_left hprinter)
  · obtain ⟨hlt, -⟩ := Array.getElem?_eq_some_iff.1 hr
    omega

end Heap

end Hantec
