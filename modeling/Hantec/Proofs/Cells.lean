import Hantec.Proofs.Padding.Ends
import Hantec.Session
import Mathlib.Logic.Relation

/-!
# The cells of scopes

A name in a scope is a cell. In every state that a run can come to, each scope has a smaller number
than those inside of it, so there are no cycles among the scopes and the search for a name ends.
What is written from a scope goes to the cell of the nearest scope that binds the name, and it is
seen from those scopes only whose search comes to that cell.
-/

namespace Hantec

open Relation

namespace Heap

variable {h h' : Heap} {e f p q : Nat} {x y : String} {v : Value}

/-- What a scope itself binds a name to. -/
def cell (h : Heap) (q : Nat) (x : String) : Option Value := h.scopes[q]?.bind (·.vars.get? x)

def outer (h : Heap) (q : Nat) : Option Nat := h.scopes[q]?.bind (·.parent)

/-- The first scope is directly inside of the second one. -/
def IsInside (h : Heap) (q p : Nat) : Prop := h.outer q = some p

/-- From a scope outwards, one comes to another scope before any scope that binds the name. -/
inductive Sees (h : Heap) (x : String) : Nat → Nat → Prop where
  | here (q : Nat) : Sees h x q q
  | outwards {e p q : Nat} : h.cell e x = none → h.IsInside e p → Sees h x p q → Sees h x e q

/-- The second scope is the nearest one from the first one outwards that binds the name. -/
structure IsNearest (h : Heap) (x : String) (e q : Nat) : Prop where
  sees : h.Sees x e q
  binds : (h.cell q x).isSome

theorem IsNearest.lt_size (hq : h.IsNearest x e q) : q < h.scopes.size := by
  obtain ⟨w, hw⟩ := Option.isSome_iff_exists.1 hq.binds
  obtain ⟨t, ht, -⟩ := Option.bind_eq_some_iff.1 hw
  exact (Array.getElem?_eq_some_iff.1 ht).1

/-- The second heap has a value in a cell and is like the first one otherwise. -/
structure Puts (h : Heap) (q : Nat) (x : String) (v : Value) (h' : Heap) : Prop where
  rest : h' = { h with scopes := h'.scopes }
  outer : ∀ p, h'.outer p = h.outer p
  cells : ∀ p y, h'.cell p y = if p = q ∧ y = x then some v else h.cell p y

/-- Only from the scopes `W`, the second heap shows a value as that of the name. All else is seen as
in the first one. -/
structure Reveals (h : Heap) (W : Nat → Prop) (x : String) (v : Value) (h' : Heap) : Prop where
  seen : ∀ f, W f → h'.lookup f x = some v
  hidden : ∀ f, ¬ W f → h'.lookup f x = h.lookup f x
  others : ∀ f y, y ≠ x → h'.lookup f y = h.lookup f y

/-- Every scope is inside of one with a smaller number. -/
def Descends (h : Heap) : Prop := ∀ e p, h.IsInside e p → p < e

theorem Nested.descends (hh : h.Nested) : h.Descends := by
  intro e p hp
  obtain ⟨t, ht, hparent⟩ := Option.bind_eq_some_iff.1 hp
  exact hh.parent ht hparent

theorem sees_iff :
    h.Sees x e q ↔ e = q ∨ h.cell e x = none ∧ ∃ p, h.outer e = some p ∧ h.Sees x p q := by
  constructor
  · intro hsees
    cases hsees with
    | here => exact .inl rfl
    | outwards hcell hp hsees => exact .inr ⟨hcell, _, hp, hsees⟩
  · rintro (rfl | ⟨hcell, p, hp, hsees⟩)
    · exact .here e
    · exact .outwards hcell hp hsees

/-! ## The search for a name -/

theorem resolveWithin_succ (h : Heap) (x : String) (n e : Nat) :
    h.resolveWithin x (n + 1) e =
      if (h.cell e x).isSome then some e else (h.outer e).bind (h.resolveWithin x n) := by
  rw [resolveWithin, cell, outer]
  cases h.scopes[e]? with
  | none => rfl
  | some t =>
    obtain ⟨parent, vars⟩ := t
    cases parent <;> rfl

theorem lookup_eq_bind (h : Heap) (e : Nat) (x : String) :
    h.lookup e x = (h.resolve e x).bind (h.cell · x) := by
  unfold lookup cell
  congr
  funext q
  rw [Array.getD_eq_getD_getElem?]
  cases h.scopes[q]? <;> rfl

namespace Descends

variable (hh : h.Descends)

include hh

theorem acyclic (q : Nat) : ¬ TransGen h.IsInside q q := by
  have hlt : ∀ {p o : Nat}, TransGen h.IsInside p o → o < p := by
    intro p o hpath
    induction hpath with
    | single hp => exact hh _ _ hp
    | tail _ hp ih => exact Nat.lt_trans (hh _ _ hp) ih
  exact fun hcycle => Nat.lt_irrefl q (hlt hcycle)

/-- The search has ended before its steps are used up. -/
theorem resolveWithin_eq (x : String) {n m : Nat} (hn : e < n) (hm : e < m) :
    h.resolveWithin x n e = h.resolveWithin x m e := by
  induction n generalizing e m with
  | zero => omega
  | succ n ih =>
    obtain ⟨m, rfl⟩ : ∃ k, m = k + 1 := ⟨m - 1, by omega⟩
    rw [resolveWithin_succ, resolveWithin_succ]
    cases houter : h.outer e with
    | none => rfl
    | some p =>
      have hlt := hh _ _ houter
      rw [Option.bind_some, Option.bind_some, ih (m := m) (by omega) (by omega)]

theorem resolve_eq (e : Nat) (x : String) :
    h.resolve e x =
      if (h.cell e x).isSome then some e else (h.outer e).bind (h.resolve · x) := by
  rw [resolve, resolveWithin_succ]
  cases houter : h.outer e with
  | none => rfl
  | some p => rw [Option.bind_some, Option.bind_some,
      hh.resolveWithin_eq x (hh _ _ houter) (Nat.lt_succ_self p), resolve]

theorem lookup_eq (e : Nat) (x : String) :
    h.lookup e x = (h.cell e x).or ((h.outer e).bind (h.lookup · x)) := by
  rw [lookup_eq_bind, hh.resolve_eq]
  cases hcell : h.cell e x with
  | some w => exact hcell
  | none =>
    cases h.outer e with
    | none => rfl
    | some p => exact (lookup_eq_bind h p x).symm

/-- The search finds the nearest scope that binds the name. -/
theorem resolve_eq_some_iff : h.resolve e x = some q ↔ h.IsNearest x e q := by
  induction e using Nat.strongRecOn with
  | ind e ih =>
    rw [hh.resolve_eq]
    cases hcell : h.cell e x with
    | some w =>
      refine ⟨?_, fun hq => ?_⟩
      · rintro ⟨⟩
        exact ⟨.here _, by simp [hcell]⟩
      · obtain rfl | ⟨hnone, -⟩ := sees_iff.1 hq.sees
        · rfl
        · simp [hcell] at hnone
    | none =>
      have hne : h.IsNearest x e q → e ≠ q := fun hq heq => by simpa [← heq, hcell] using hq.binds
      cases houter : h.outer e with
      | none =>
        refine ⟨nofun, fun hq => ?_⟩
        obtain heq | ⟨-, p, hp, -⟩ := sees_iff.1 hq.sees
        · exact absurd heq (hne hq)
        · simp [houter] at hp
      | some p =>
        refine (ih p (hh _ _ houter)).trans ⟨fun hq => ?_, fun hq => ⟨?_, hq.binds⟩⟩
        · exact ⟨.outwards hcell houter hq.sees, hq.binds⟩
        · obtain heq | ⟨-, o, ho, hsees⟩ := sees_iff.1 hq.sees
          · exact absurd heq (hne hq)
          · obtain rfl := Option.some.inj (houter.symm.trans ho)
            exact hsees

/-- The search finds nothing if no scope from there outwards binds the name. -/
theorem resolve_eq_none_iff :
    h.resolve e x = none ↔ ∀ q, ReflTransGen h.IsInside e q → h.cell q x = none := by
  induction e using Nat.strongRecOn with
  | ind e ih =>
    rw [hh.resolve_eq]
    cases hcell : h.cell e x with
    | some w => exact ⟨nofun, fun hchain => by simpa [hcell] using hchain e .refl⟩
    | none =>
      cases houter : h.outer e with
      | none =>
        refine ⟨fun _ q hpath => ?_, fun _ => rfl⟩
        obtain rfl | ⟨p, hp, -⟩ := hpath.cases_head
        · exact hcell
        · exact absurd (houter.symm.trans hp) nofun
      | some p =>
        refine (ih p (hh _ _ houter)).trans ⟨fun hchain q hpath => ?_, fun hchain q hpath => ?_⟩
        · obtain rfl | ⟨o, ho, hpath⟩ := hpath.cases_head
          · exact hcell
          · obtain rfl := Option.some.inj (houter.symm.trans ho)
            exact hchain q hpath
        · exact hchain q (.head houter hpath)

end Descends

/-! ## A value in a cell -/

theorem puts_define (hq : q < h.scopes.size) (x : String) (v : Value) :
    h.Puts q x v (h.define q x v) where
  rest := rfl
  outer p := by
    rw [outer, outer, define, Array.getElem?_modify]
    split
    · cases h.scopes[p]? <;> rfl
    · rfl
  cells p y := by
    rw [cell, cell, define, Array.getElem?_modify]
    by_cases hp : q = p
    · obtain ⟨t, ht⟩ : ∃ t, h.scopes[p]? = some t := ⟨_, Array.getElem?_eq_getElem (hp ▸ hq)⟩
      rw [if_pos hp, ht, Option.map_some, Option.bind_some, Option.bind_some, Dict.get?_put]
      simp [hp]
    · rw [if_neg hp, if_neg fun hpq => hp hpq.1.symm]

namespace Puts

variable (hput : h.Puts q x v h')

include hput

theorem descends (hh : h.Descends) : h'.Descends := fun e p hp =>
  hh e p ((hput.outer e).symm.trans hp)

/-- Another name is seen as before from everywhere. -/
theorem lookup_of_ne (hh : h.Descends) (hy : y ≠ x) (f : Nat) : h'.lookup f y = h.lookup f y := by
  induction f using Nat.strongRecOn with
  | ind f ih =>
    rw [(hput.descends hh).lookup_eq, hh.lookup_eq, hput.outer, hput.cells,
      if_neg fun hp => hy hp.2]
    cases houter : h.outer f with
    | none => rfl
    | some p => exact congrArg _ (ih p (hh _ _ houter))

/-- The new value is seen from where one comes to the cell before any other one of the name. -/
theorem lookup_of_sees (hh : h.Descends) (hsees : h.Sees x f q) : h'.lookup f x = some v := by
  induction hsees with
  | here q => rw [(hput.descends hh).lookup_eq, hput.cells, if_pos ⟨rfl, rfl⟩, Option.some_or]
  | @outwards e p q hcell hp _ ih =>
    rw [(hput.descends hh).lookup_eq, hput.cells, hput.outer, show h.outer e = some p from hp]
    split
    · rfl
    · rw [hcell, Option.none_or, Option.bind_some, ih hput]

/-- From everywhere else, the name is seen as before. -/
theorem lookup_of_not_sees (hh : h.Descends) (hsees : ¬ h.Sees x f q) :
    h'.lookup f x = h.lookup f x := by
  induction f using Nat.strongRecOn with
  | ind f ih =>
    obtain ⟨hne, hrest⟩ := not_or.1 (mt sees_iff.2 hsees)
    rw [(hput.descends hh).lookup_eq, hh.lookup_eq, hput.outer, hput.cells,
      if_neg fun hp => hne hp.1]
    cases hcell : h.cell f x with
    | some w => rfl
    | none =>
      cases houter : h.outer f with
      | none => rfl
      | some p => exact ih p (hh _ _ houter) fun hsees => hrest ⟨hcell, p, houter, hsees⟩

theorem reveals (hh : h.Descends) : h.Reveals (h.Sees x · q) x v h' where
  seen _ := hput.lookup_of_sees hh
  hidden _ := hput.lookup_of_not_sees hh
  others f _ hy := hput.lookup_of_ne hh hy f

end Puts

end Heap

/-! ## States of runs -/

def Step.state {α : Type} : Step α → State
  | .ret _ s | .fail _ s | .sub _ s _ | .wait _ s _ => s

/-- A state that a session can come to: a fresh one, one in the course of a program and one at its
end. In between, the trace may be written out, and the world may change. -/
inductive State.Arises : State → Prop where
  | start {c : Config} {w : World} {s : State} : State.start c w = .ok s → Arises s
  | during {s : State} {p : List Stmt} {m : Machine} :
      Arises s → (Machine.start (programProc p) s).Leads m → Arises m.current.state
  | ended {s s' : State} {p : List Stmt} {r : Except Failure Outcome} :
      Arises s → (Machine.start (programProc p) s).EndsWith r s' → Arises s'
  | settle {s : State} : Arises s → Arises s.settle
  | elsewhere {s : State} (w : World) : Arises s → Arises { s with world := w }

/-- A machine that goes as itself still does later on. -/
theorem Machine.Lockstep.of_leads {R : Machine → Machine → Prop} {E : State → State → Prop}
    (h : Lockstep R E) {m m' : Machine} (hm : R m m) (hleads : m.Leads m') : R m' m' := by
  induction hleads with
  | refl m => exact hm
  | @move m _ _ hnext _ ih =>
    have hmatch := h m m hm
    rw [hnext] at hmatch
    cases hmatch with
    | running hm => exact ih hm
  | @wake m _ _ _ _ w hnext _ ih =>
    have hmatch := h m m hm
    rw [hnext] at hmatch
    cases hmatch with
    | waiting _ hm => exact ih (hm w)

namespace Padding

variable {c : Config} {bound : Nat} {P : Pairing}

theorem nested {s s' : State} (hs : (c.padding bound).States P s s') : s.heap.Nested where
  parent {q t p} ht hp := by
    obtain ⟨q', hq⟩ := hs.heap.scopes.total q (Array.getElem?_eq_some_iff.1 ht).1
    obtain ⟨t₁, t', ht₁, -, hpads⟩ := hs.heap.scopes.home hq
    obtain rfl := Option.some.inj (ht.symm.trans ht₁)
    obtain ⟨hnone, -⟩ | ⟨o, -, ho, -, hlt, -⟩ := hpads.parent
    · simp [hnone] at hp
    · obtain rfl := Option.some.inj (hp.symm.trans ho)
      exact hlt
  closure r := (hs.heap.scopes.view_lt_size (hs.heap.closure r).scope).1

theorem exists_states {m m' : Machine} (h : (c.padding bound).Machines P m m') :
    ∃ Q s', P ≤ Q ∧ (c.padding bound).States Q m.current.state s' := by
  cases h with
  | @mk _ _ pads _ _ _ _ hsteps hpads =>
    cases pads with
    | nil =>
      cases hsteps with
      | ret _ hQ hs | fail hQ _ hs | sub hQ _ hs _ | wait _ hQ hs _ => exact ⟨_, _, hQ, hs⟩
      | lost hlost => exact absurd hlost.1 (Nat.lt_irrefl _)
      | inline hmodule => exact hmodule.elim
    | cons pad _ =>
      obtain ⟨⟨_, _, hmodule⟩, -⟩ := hpads pad (List.mem_cons_self ..)
      exact hmodule.elim

end Padding

namespace State

variable {s : State}

/-- A state with nested scopes, of which the first one is there. -/
structure IsNested (s : State) : Prop where
  nested : s.heap.Nested
  root : 0 < s.heap.scopes.size

variable (hs : s.IsNested)

include hs

/-- Every program keeps the scopes nested all the time. -/
theorem IsNested.run (p : List Stmt) :
    (∀ m, (Machine.start (programProc p) s).Leads m → m.current.state.IsNested) ∧
      ∀ r s', (Machine.start (programProc p) s).EndsWith r s' → s'.IsNested := by
  let A := s.config.padding (s.config.traceLevel + 1)
  let P := Pairing.below s.heap.scopes.size
  have : A.Lawful := Padding.lawful (.inl (Nat.lt_succ_self _))
  have hroot : P.homes 0 0 := ⟨rfl, hs.root⟩
  have hkeeps : ∀ {Q : Pairing} {t t' : State}, P ≤ Q → A.States Q t t' → t.IsNested :=
    fun hQ ht => ⟨Padding.nested ht, (ht.heap.scopes.lt_size (hQ.homes hroot)).1⟩
  have hprogram : A.Procs A.Breaks P (programProc p) (programProc p) :=
    .program (.ofInlined (.reflStmts p)) hroot
  have hstart : Padding.MachinesFrom s.config _ P (Machine.start (programProc p) s)
      (Machine.start (programProc p) s) :=
    ⟨P, P.le_refl, hprogram.machines (Padding.states hs.nested _) .nil (.inl rfl)⟩
  constructor
  · intro m hleads
    obtain ⟨Q, hQ, hm⟩ := Padding.lockstep.of_leads hstart hleads
    obtain ⟨R, s', hR, hs'⟩ := Padding.exists_states hm
    exact hkeeps (Pairing.le_trans hQ hR) hs'
  · intro r s' hend
    obtain ⟨t, -, Q, hQ, ht⟩ := Padding.lockstep.endsWith hstart hend
    exact hkeeps hQ ht

end State

theorem State.Arises.isNested {s : State} (hs : s.Arises) : s.IsNested := by
  induction hs with
  | start hs =>
    have hheap := (State.of_start hs).2
    exact ⟨hheap ▸ Heap.isTidy_initial.nested, hheap ▸ Heap.isTidy_initial.root⟩
  | during _ hleads ih => exact (ih.run _).1 _ hleads
  | ended _ hend ih => exact (ih.run _).2 _ _ hend
  | @settle s _ ih => exact ⟨s.heap_settle ▸ ih.nested, s.heap_settle ▸ ih.root⟩
  | elsewhere w _ ih => exact ⟨ih.nested, ih.root⟩

/-! ## Reading and writing names -/

theorem run_readName_eq_ret_iff {s : State} {f : Nat} {y : String} {w : Value} :
    (readName f y).run s = .ret w s ↔ s.heap.lookup f y = some w := by
  have hask : (Proc.ask fun h => .ok (h.lookup f y)).run s = .ret (s.heap.lookup f y) s :=
    Proc.run_ask s rfl
  rw [readName, Proc.run_bind, hask, Step.bind_ret]
  cases s.heap.lookup f y with
  | some v => exact ⟨fun h => by cases h; rfl, fun h => by cases h; rfl⟩
  | none => exact ⟨nofun, nofun⟩

theorem run_writeName (s : State) (e : Nat) (x : String) (v : Value) :
    (writeName e x v).run s = ((s.heap.resolve e x).elim
      (Proc.raiseError "NameError" s!"unknown variable '{x}'")
      fun q => Proc.modifyHeap (·.define q x v)).run s := by
  have hask : (Proc.ask fun h => .ok (h.resolve e x)).run s = .ret (s.heap.resolve e x) s :=
    Proc.run_ask s rfl
  rw [writeName, Proc.run_bind, hask, Step.bind_ret]
  cases s.heap.resolve e x <;> rfl

/-- In every state that a session can come to, there are no cycles among the scopes. So the search
for a name ends, and it finds the nearest scope that binds the name if there is one. A name that no
scope binds cannot be written: that fails, and only a number is used up for the error. Otherwise
the cell of the nearest scope is written and nothing else. The value is seen from the scopes whose
search comes to that scope. A declaration puts a value into the cell of its own scope, and it is
seen from the scopes that come there before any other scope that binds the name. -/
theorem cells_of_arises {s : State} (hs : s.Arises) :
    (∀ q, ¬ TransGen s.heap.IsInside q q) ∧
    (∀ e x, (∀ n, e < n → s.heap.resolveWithin x n e = s.heap.resolve e x) ∧
      (∀ q, s.heap.resolve e x = some q ↔ s.heap.IsNearest x e q) ∧
      (s.heap.resolve e x = none ↔
        ∀ q, ReflTransGen s.heap.IsInside e q → s.heap.cell q x = none)) ∧
    (∀ h f y w, (readName f y).run { s with heap := h } = .ret w { s with heap := h } ↔
      h.lookup f y = some w) ∧
    ∀ e x v,
      (s.heap.resolve e x = none → (writeName e x v).run s =
        .fail (.raised (.err s.heap.nextId "NameError" s!"unknown variable '{x}'") none)
          { s with heap := { s.heap with nextId := s.heap.nextId + 1 } }) ∧
      (∀ q, s.heap.resolve e x = some q → ∃ h',
        (writeName e x v).run s = .ret () { s with heap := h' } ∧ s.heap.Puts q x v h' ∧
          s.heap.Reveals (s.heap.resolve · x = some q) x v h') ∧
      (e < s.heap.scopes.size → ∃ h',
        (Proc.modifyHeap (·.define e x v)).run s = .ret () { s with heap := h' } ∧
          s.heap.Puts e x v h' ∧ s.heap.Reveals (s.heap.Sees x · e) x v h') := by
  have hh := hs.isNested.nested.descends
  refine ⟨hh.acyclic, fun e x => ⟨fun n hn => hh.resolveWithin_eq x hn (Nat.lt_succ_self e),
    fun q => hh.resolve_eq_some_iff, hh.resolve_eq_none_iff⟩,
    fun h f y w => run_readName_eq_ret_iff, fun e x v => ⟨fun hnone => ?_, fun q hq => ?_, ?_⟩⟩
  · rw [run_writeName, hnone]
    rfl
  · have hnearest := hh.resolve_eq_some_iff.1 hq
    have hput := Heap.puts_define hnearest.lt_size x v
    have hsees : (s.heap.resolve · x = some q) = (s.heap.Sees x · q) := by
      funext f
      exact propext (hh.resolve_eq_some_iff.trans ⟨fun h => h.sees, fun h => ⟨h, hnearest.binds⟩⟩)
    refine ⟨_, ?_, hput, hsees ▸ hput.reveals hh⟩
    rw [run_writeName, hq]
    rfl
  · intro he
    have hput := Heap.puts_define he x v
    exact ⟨_, rfl, hput, hput.reveals hh⟩

/-- A program that binds a name in the global scope and another one in a block. -/
def blockInside : List Stmt :=
  [.mk 1 (.declare "x" none), .mk 2 (.block [.mk 2 (.declare "y" none)])]

def State.afterBlock : State := (programProc blockInside State.bare).state

theorem cells_of_arises_inside :
    State.afterBlock.Arises ∧ State.afterBlock.heap.resolve 1 "x" = some 0 ∧
      ∃ h', (writeName 1 "x" (.bool true)).run State.afterBlock =
          .ret () { State.afterBlock with heap := h' } ∧
        h'.lookup 0 "x" = some (.bool true) ∧ h'.lookup 1 "y" = some .null := by
  have harises : State.afterBlock.Arises :=
    .during (s := State.bare) (p := blockInside)
      (.start (c := State.bare.config) (w := State.bare.world) rfl) (.refl _)
  have hresolve : State.afterBlock.heap.resolve 1 "x" = some 0 := by decide +kernel
  obtain ⟨-, -, -, hwrites⟩ := cells_of_arises harises
  obtain ⟨h', hrun, -, hreveals⟩ := (hwrites 1 "x" (.bool true)).2.1 0 hresolve
  refine ⟨harises, hresolve, h', hrun, hreveals.seen 0 (by decide +kernel), ?_⟩
  rw [hreveals.others 1 "y" (by decide)]
  rfl

end Hantec
