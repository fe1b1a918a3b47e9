import Hantec.Proofs.Tracing

/-!
# Scopes that bind nothing

A run in which there are further scopes that bind nothing goes as the run without them. The scopes
of the two runs have other numbers, and scopes belong together if they have the same names or if the
same names are seen from them. As a run goes on, more scopes belong together, and none part again.
The runs may trace other statements, as long as scripts cannot read the trace.
-/

namespace Hantec

variable {α β : Type}

/-- Which scopes of a heap belong to which scopes of another one. -/
structure Pairing where
  /-- The scopes bind the same names. -/
  homes : Nat → Nat → Prop
  /-- The same names are seen from the scopes. -/
  views : Nat → Nat → Prop
  home_view : ∀ {q q' : Nat}, homes q q' → views q q'

namespace Pairing

/-- Whatever belongs together still does. -/
structure Grows (P Q : Pairing) : Prop where
  homes : ∀ {q q' : Nat}, P.homes q q' → Q.homes q q'
  views : ∀ {q q' : Nat}, P.views q q' → Q.views q q'

instance : LE Pairing := ⟨Grows⟩

protected theorem le_refl (P : Pairing) : P ≤ P := ⟨id, id⟩

protected theorem le_trans {P Q R : Pairing} (h : P ≤ Q) (h' : Q ≤ R) : P ≤ R :=
  ⟨fun hq => h'.homes (h.homes hq), fun hq => h'.views (h.views hq)⟩

/-- Every scope below a bound belongs to itself. -/
def below (n : Nat) : Pairing := ⟨fun q q' => q' = q ∧ q < n, fun q q' => q' = q ∧ q < n, id⟩

/-- Two more scopes bind the same names. -/
def addHome (P : Pairing) (n n' : Nat) : Pairing where
  homes q q' := P.homes q q' ∨ q = n ∧ q' = n'
  views q q' := P.views q q' ∨ q = n ∧ q' = n'
  home_view h := h.imp_left P.home_view

theorem le_addHome (P : Pairing) (n n' : Nat) : P ≤ P.addHome n n' := ⟨.inl, .inl⟩

theorem homes_addHome (P : Pairing) (n n' : Nat) : (P.addHome n n').homes n n' := .inr ⟨rfl, rfl⟩

/-- The same names are seen from two more scopes. -/
def addView (P : Pairing) (n n' : Nat) : Pairing where
  homes := P.homes
  views q q' := P.views q q' ∨ q = n ∧ q' = n'
  home_view h := .inl (P.home_view h)

theorem le_addView (P : Pairing) (n n' : Nat) : P ≤ P.addView n n' := ⟨id, .inl⟩

theorem views_addView (P : Pairing) (n n' : Nat) : (P.addView n n').views n n' := .inr ⟨rfl, rfl⟩

end Pairing

/-- Scopes with numbers that bind the same names, as all scopes outside of them do. -/
structure Scope.Pads (P : Pairing) (q q' : Nat) (t t' : Scope) : Prop where
  vars : t'.vars = t.vars
  parent : t.parent = none ∧ t'.parent = none ∨
    ∃ p p', t.parent = some p ∧ t'.parent = some p' ∧ p < q ∧ p' < q' ∧ P.views p p'

theorem Scope.Pads.mono {P Q : Pairing} {q q' : Nat} {t t' : Scope} (ht : t.Pads P q q' t')
    (hPQ : P ≤ Q) : t.Pads Q q q' t' where
  vars := ht.vars
  parent := ht.parent.imp_right fun ⟨p, p', hp, hp', hlt, hlt', hview⟩ =>
    ⟨p, p', hp, hp', hlt, hlt', hPQ.views hview⟩

/-- The second scopes are the first ones with further scopes that bind nothing. -/
structure Pairing.Scopes (P : Pairing) (ss ss' : Array Scope) : Prop where
  home : ∀ {q q'}, P.homes q q' → ∃ t t', ss[q]? = some t ∧ ss'[q']? = some t' ∧ t.Pads P q q' t'
  total : ∀ q < ss.size, ∃ q', P.homes q q'
  unique : ∀ {q q' p p'}, P.homes q q' → P.homes p p' → (p = q ↔ p' = q')
  /-- A scope that binds nothing stands between a view and what is seen. -/
  view : ∀ {q q'}, P.views q q' → P.homes q q' ∨
    ∃ p', ss'[q']? = some ⟨some p', .empty⟩ ∧ p' < q' ∧ P.views q p' ∧ ∀ p, ¬ P.homes p q'

namespace Pairing.Scopes

variable {P Q : Pairing} {ss ss' : Array Scope} {h h' : Heap} {q q' : Nat}

theorem lt_size (hss : P.Scopes ss ss') (hq : P.homes q q') : q < ss.size ∧ q' < ss'.size := by
  obtain ⟨t, t', ht, ht', -⟩ := hss.home hq
  exact ⟨(Array.getElem?_eq_some_iff.1 ht).1, (Array.getElem?_eq_some_iff.1 ht').1⟩

theorem view_lt_size (hss : P.Scopes ss ss') (hq : P.views q q') :
    q < ss.size ∧ q' < ss'.size := by
  induction q' using Nat.strongRecOn with
  | ind q' ih =>
    obtain hq | ⟨p', hp', hlt, hview, -⟩ := hss.view hq
    · exact hss.lt_size hq
    · exact ⟨(ih p' hlt hview).1, (Array.getElem?_eq_some_iff.1 hp').1⟩

/-! ## Changes -/

/-- Binds a name in two scopes with the same names. -/
theorem define (hss : P.Scopes h.scopes h'.scopes) (hq : P.homes q q') (x : String) (v : Value) :
    P.Scopes (h.define q x v).scopes (h'.define q' x v).scopes where
  home {p p'} hp := by
    obtain ⟨t, t', ht, ht', htt⟩ := hss.home hp
    have hsame : q = p ↔ q' = p' := hss.unique hp hq
    simp only [Heap.define, Array.getElem?_modify, ht, ht']
    by_cases hpq : q = p
    · rw [if_pos hpq, if_pos (hsame.1 hpq)]
      exact ⟨_, _, rfl, rfl, congrArg (·.put x v) htt.vars, htt.parent⟩
    · rw [if_neg hpq, if_neg (mt hsame.2 hpq)]
      exact ⟨t, t', rfl, rfl, htt⟩
  total p hp := hss.total p (Array.size_modify ▸ hp)
  unique := hss.unique
  view {p p'} hp := by
    obtain hp | ⟨o', ho', hlt, hview, hnone⟩ := hss.view hp
    · exact .inl hp
    · refine .inr ⟨o', ?_, hlt, hview, hnone⟩
      have hne : q' ≠ p' := fun heq => hnone q (heq ▸ hq)
      rw [Heap.define, Array.getElem?_modify, if_neg hne]
      exact ho'

/-- New scopes inside of scopes from which the same names are seen. -/
theorem push (hss : P.Scopes ss ss') (hq : P.views q q') :
    (P.addHome ss.size ss'.size).Scopes (ss.push ⟨some q, .empty⟩)
      (ss'.push ⟨some q', .empty⟩) where
  home {p p'} hp := by
    obtain hp | ⟨rfl, rfl⟩ := hp
    · obtain ⟨t, t', ht, ht', htt⟩ := hss.home hp
      exact ⟨t, t', getElem?_push_of_some ht _, getElem?_push_of_some ht' _,
        htt.mono (P.le_addHome _ _)⟩
    · obtain ⟨hlt, hlt'⟩ := hss.view_lt_size hq
      exact ⟨_, _, Array.getElem?_push_size, Array.getElem?_push_size, rfl,
        .inr ⟨q, q', rfl, rfl, hlt, hlt', .inl hq⟩⟩
  total p hp := by
    obtain hp | rfl := Nat.lt_succ_iff_lt_or_eq.1 (Array.size_push _ ▸ hp)
    · exact (hss.total p hp).imp fun _ => .inl
    · exact ⟨_, .inr ⟨rfl, rfl⟩⟩
  unique {p p' o o'} hp ho := by
    obtain hp | ⟨rfl, rfl⟩ := hp
    · have hlt := hss.lt_size hp
      obtain ho | ⟨rfl, rfl⟩ := ho
      · exact hss.unique hp ho
      · omega
    · obtain ho | ⟨rfl, rfl⟩ := ho
      · have hlt := hss.lt_size ho
        omega
      · exact ⟨fun _ => rfl, fun _ => rfl⟩
  view {p p'} hp := by
    obtain hp | hp := hp
    · obtain hp | ⟨o', ho', hlt, hview, hnone⟩ := hss.view hp
      · exact .inl (.inl hp)
      · have hlt' := (Array.getElem?_eq_some_iff.1 ho').1
        refine .inr ⟨o', getElem?_push_of_some ho' _, hlt, .inl hview, ?_⟩
        rintro o (ho | ⟨-, rfl⟩)
        · exact hnone o ho
        · exact Nat.lt_irrefl _ hlt'
    · exact .inl (.inr hp)

/-- A new scope among the second ones only. -/
theorem push_right (hss : P.Scopes ss ss') (hq : P.views q q') :
    (P.addView q ss'.size).Scopes ss (ss'.push ⟨some q', .empty⟩) where
  home {p p'} hp := by
    obtain ⟨t, t', ht, ht', htt⟩ := hss.home hp
    exact ⟨t, t', ht, getElem?_push_of_some ht' _, htt.mono (P.le_addView _ _)⟩
  total := hss.total
  unique := hss.unique
  view {p p'} hp := by
    obtain hp | ⟨rfl, rfl⟩ := hp
    · obtain hp | ⟨o', ho', hlt, hview, hnone⟩ := hss.view hp
      · exact .inl hp
      · exact .inr ⟨o', getElem?_push_of_some ho' _, hlt, .inl hview, hnone⟩
    · exact .inr ⟨q', Array.getElem?_push_size, (hss.view_lt_size hq).2, .inl hq,
        fun o ho => Nat.lt_irrefl _ (hss.lt_size ho).2⟩

/-! ## Names -/

/-- The scopes that bind a name belong together, if it is looked up where the same names are
seen. -/
theorem resolveWithin (hss : P.Scopes h.scopes h'.scopes) (x : String) {n n' : Nat}
    (hq : P.views q q') (hn : q < n) (hn' : q' < n') :
    Option.Rel P.homes (h.resolveWithin x n q) (h'.resolveWithin x n' q') := by
  -- The second lookup passes every scope that the first one passes.
  induction n' generalizing n q q' with
  | zero => omega
  | succ n' ih =>
    obtain hq | ⟨p', hp', hlt, hview, -⟩ := hss.view hq
    · obtain ⟨t, t', ht, ht', hvars, hparent⟩ := hss.home hq
      obtain ⟨n, rfl⟩ : ∃ m, n = m + 1 := ⟨n - 1, by omega⟩
      simp only [Heap.resolveWithin, ht, ht', hvars]
      split
      · exact .some hq
      · obtain ⟨hp, hp'⟩ | ⟨p, p', hp, hp', hlt, hlt', hview⟩ := hparent
        · rw [hp, hp']
          exact .none
        · rw [hp, hp']
          exact ih hview (by omega) (by omega)
    · simp only [Heap.resolveWithin, hp']
      exact ih hview hn (by omega)

theorem vars (hss : P.Scopes ss ss') (hq : P.homes q q') :
    (ss'.getD q' default).vars = (ss.getD q default).vars := by
  obtain ⟨t, t', ht, ht', htt⟩ := hss.home hq
  simp only [Array.getD_eq_getD_getElem?, ht, ht', Option.getD_some, htt.vars]

end Pairing.Scopes

/-- What is known of scopes if there are further ones that bind nothing. -/
def Scoping.padding : Scoping Pairing :=
  ⟨(· ≤ ·), (· ≤ ·), Pairing.homes, Pairing.views, Pairing.Scopes⟩

instance : Scoping.padding.Lawful where
  near_refl P := P.le_refl
  near_trans := Pairing.le_trans
  far_of_near h := h
  far_trans := Pairing.le_trans
  homes_of_far h := h.homes
  views_of_far h := h.views
  view_of_home {P _ _} := P.home_view
  vars hss hq := hss.vars hq
  resolve x hss hq := hss.resolveWithin x hq (Nat.lt_succ_self _) (Nat.lt_succ_self _)
  define x v hss hq := hss.define hq x v
  newScope {P h h' _ _} hss hq :=
    ⟨P.addHome h.scopes.size h'.scopes.size, P.le_addHome _ _, P.homes_addHome _ _, hss.push hq⟩

/-- Every scope is inside of one with a smaller number, and functions are in scopes that exist. -/
structure Heap.Nested (h : Heap) : Prop where
  parent : ∀ {q : Nat} {t : Scope} {p : Nat}, h.scopes[q]? = some t → t.parent = some p → p < q
  closure : ∀ r, (h.closure r).scope < h.scopes.size

theorem Heap.Nested.scopes {h : Heap} (hh : h.Nested) :
    (Pairing.below h.scopes.size).Scopes h.scopes h.scopes where
  home := by
    rintro _ q ⟨rfl, hq⟩
    obtain ⟨t, ht⟩ : ∃ t, h.scopes[q]? = some t := ⟨_, Array.getElem?_eq_getElem hq⟩
    refine ⟨t, t, ht, ht, rfl, ?_⟩
    cases hparent : t.parent with
    | none => exact .inl ⟨rfl, rfl⟩
    | some p =>
      have hp := hh.parent ht hparent
      exact .inr ⟨p, p, rfl, rfl, hp, hp, rfl, Nat.lt_trans hp hq⟩
  total q hq := ⟨q, rfl, hq⟩
  unique := by
    rintro q _ p _ ⟨rfl, -⟩ ⟨rfl, -⟩
    rfl
  view := .inl

/-! ## Two runs -/

/-- The scripts of a run cannot see which statements are traced. -/
def Config.HidesStatements (c : Config) : Prop :=
  c.traceLevel < 4 ∨ c.fileAccess = false ∧ c.LoadsOffDisk

/-- Two runs with the same settings, of which the second one has further scopes. Their traces may
differ from a level on. -/
def Config.padding (c : Config) (bound : Nat) : Accord Pairing :=
  ⟨.padding, c, c.traceLevel, true, fun _ _ => False, fun _ s s' => s.world.OffDisk s'.world ∧
    (c.traceLevel < bound → s'.world = s.world ∧ s'.traced = s.traced)⟩

namespace Padding

variable {c : Config} {bound : Nat} {P Q : Pairing} {s s' : State} {q q' : Nat}

/-- What is done to the worlds keeps them together if it does not look at the disks, or if the
worlds are equal. -/
theorem admits {f : World → α × World} (hf : c.traceLevel < bound ∨ World.IgnoresDisk f) :
    (c.padding bound).Admits f := by
  rintro P s s' ⟨hworld, hexact⟩
  by_cases hlevel : c.traceLevel < bound
  · obtain ⟨hworld, htraced⟩ := hexact hlevel
    rw [hworld]
    exact ⟨rfl, rfl, fun _ => ⟨rfl, htraced⟩⟩
  · obtain ⟨hsame, hworld⟩ := (hf.resolve_left hlevel).offDisk _ _ hworld
    exact ⟨hsame, hworld, fun h => absurd h hlevel⟩

theorem lawful (hhidden : c.traceLevel < bound ∨ c.fileAccess = false ∧ c.LoadsOffDisk) :
    (c.padding bound).Lawful where
  toLawful := inferInstanceAs Scoping.padding.Lawful
  level_le := Nat.le_refl _
  silent h := absurd h.symm Bool.false_ne_true
  provided hm := hm.elim
  outside_of_near _ h := h
  withHeap _ _ h := h
  print _ := admits (.inr fun _ _ => rfl)
  environment _ := admits (.inr fun _ _ => rfl)
  load path := admits (hhidden.imp_right fun h => h.2 path)
  files haccess _ := admits (.inl (hhidden.resolve_right fun h =>
    Bool.false_ne_true (h.1.symm.trans haccess)))
  settle {_ s s'} h := by
    obtain ⟨d, t, hd⟩ := Accord.exists_settle s
    obtain ⟨d', t', hd'⟩ := Accord.exists_settle s'
    have hexact : c.traceLevel < bound →
        s'.settle.world = s.settle.world ∧ s'.settle.traced = s.settle.traced := by
      intro hlevel
      obtain ⟨hworld, htraced⟩ := h.2 hlevel
      simp only [State.settle, hworld, htraced]
      cases s.traced with
      | none => exact ⟨hworld, htraced⟩
      | some t => exact ⟨rfl, rfl⟩
    rw [hd, hd'] at hexact ⊢
    exact ⟨h.1, hexact⟩
  trace line _ h := ⟨h.1, fun hlevel =>
    ⟨(h.2 hlevel).1, by simp only [State.trace, (h.2 hlevel).2]⟩⟩
  tear _ h := h
  traceFirst _ h := absurd h (Nat.lt_irrefl _)

/-- From one state, the two runs start alike. -/
theorem states (hheap : s.heap.Nested) (bound : Nat) :
    (s.config.padding bound).States (.below s.heap.scopes.size) s s where
  config := rfl
  config' := rfl
  heap := ⟨rfl, rfl, fun r => ⟨rfl, rfl, ⟨rfl, hheap.closure r⟩, .ofInlined (.reflStmts _)⟩,
    hheap.scopes⟩
  outside := ⟨rfl, fun _ => ⟨rfl, rfl⟩⟩

theorem elsewhere (hs : (c.padding bound).States P s s') (w : World) :
    (c.padding bound).States P { s with world := w } { s' with world := w } :=
  { hs with outside := ⟨rfl, fun h => ⟨rfl, (hs.outside.2 h).2⟩⟩ }

end Padding

end Hantec
