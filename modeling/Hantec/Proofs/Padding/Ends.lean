import Hantec.Proofs.Padding.Machine
import Hantec.Proofs.Text.Utf8
import Hantec.Proofs.Tidy.Heap

/-!
# Ends among scopes that bind nothing

Two procedures agree in two states if each can end in all ways in which the other one can, in states
that belong together. Procedures that do the same agree, and what is put together from procedures
that agree agrees again. Here the second run may also do things of its own that nothing shows: it
may enter a scope, it may trace other statements, and it may give a failure the line that it gets
later on anyway. So failures are compared by what becomes of them.
-/

namespace Hantec

variable {α β : Type} {P Q : Pairing} {d : Nat} {q q' : Nat} {s s' : State}
  {φ : Failure → Failure}

/-- The same results, as far as failures are seen by what becomes of them. -/
inductive SameEnd (φ : Failure → Failure) : Except Failure α → Except Failure α → Prop where
  | ok (a : α) : SameEnd φ (.ok a) (.ok a)
  | error {e e' : Failure} : φ e' = φ e → SameEnd φ (.error e) (.error e')

theorem SameEnd.refl (r : Except Failure α) : SameEnd φ r r := by
  cases r with
  | ok a => exact .ok a
  | error e => exact .error rfl

theorem SameEnd.symm {r r' : Except Failure α} (h : SameEnd φ r r') : SameEnd φ r' r := by
  cases h with
  | ok a => exact .ok a
  | error he => exact .error he.symm

theorem SameEnd.trans {r r₁ r' : Except Failure α} (h : SameEnd φ r r₁) (h' : SameEnd φ r₁ r') :
    SameEnd φ r r' := by
  cases h with
  | ok a => exact h'
  | error he =>
    cases h' with
    | error he' => exact .error (he'.trans he)

theorem SameEnd.eq {r r' : Except Failure α} (h : SameEnd id r r') : r' = r := by
  cases h with
  | ok a => rfl
  | error he => exact congrArg Except.error he

/-! ## One direction -/

section Follows

/-- Whatever the first of two works can come to, the second one can come to as well. -/
def Follows (S : Pairing → State → State → Prop) (φ : Failure → Failure) (d : Nat) (P : Pairing)
    (w w' : Work α) : Prop :=
  ∀ r t, ComesTo d w r t → ∃ Q r' t', P ≤ Q ∧ ComesTo d w' r' t' ∧ SameEnd φ r r' ∧ S Q t t'

variable {S : Pairing → State → State → Prop}

theorem Follows.weaken {w w' : Work α} (h : Follows S φ d Q w w') (hPQ : P ≤ Q) :
    Follows S φ d P w w' := by
  intro r t hw
  obtain ⟨R, r', t', hR, hw', hr, ht⟩ := h r t hw
  exact ⟨R, r', t', Pairing.le_trans hPQ hR, hw', hr, ht⟩

theorem follows_ret (hs : S P s s') (a : α) :
    Follows S φ d P (.step (.ret a s)) (.step (.ret a s')) := by
  intro r t h
  obtain ⟨rfl, rfl⟩ := comesTo_ret_iff.1 h
  exact ⟨P, _, s', P.le_refl, .ret a s', .ok a, hs⟩

theorem follows_fail (hs : S P s s') {f f' : Failure} (hf : φ f' = φ f) :
    Follows S φ d P (.step (.fail f s : Step α)) (.step (.fail f' s')) := by
  intro r t h
  obtain ⟨rfl, rfl⟩ := comesTo_fail_iff.1 h
  exact ⟨P, _, s', P.le_refl, .fail f' s', .error hf, hs⟩

theorem follows_wait {k k' : State → Step α} (delay : Delay)
    (h : ∀ w, Follows S φ d P (.step (k { s with world := w }))
      (.step (k' { s' with world := w }))) :
    Follows S φ d P (.step (.wait delay s k)) (.step (.wait delay s' k')) := by
  intro r t hc
  obtain ⟨w, hc⟩ := comesTo_wait_iff.1 hc
  obtain ⟨Q, r', t', hQ, hc', hr, ht⟩ := h w r t hc
  exact ⟨Q, r', t', hQ, .wait w hc', hr, ht⟩

theorem Follows.andThen {ψ : Failure → Failure} {c c' : Step α}
    {f f' : Except Failure α → State → Step β} (h : Follows S ψ d P (.step c) (.step c'))
    (hf : ∀ r r' Q t t', P ≤ Q → ComesTo d (.step c) r t → ComesTo d (.step c') r' t' →
      SameEnd ψ r r' → S Q t t' → Follows S φ d Q (.step (f r t)) (.step (f' r' t'))) :
    Follows S φ d P (.step (c.andThen f)) (.step (c'.andThen f')) := by
  intro r v hc
  obtain ⟨r₁, t, hc, hr⟩ := comesTo_andThen_iff.1 hc
  obtain ⟨Q, r₁', t', hQ, hc', hr₁, ht⟩ := h r₁ t hc
  obtain ⟨R, r', v', hR, hr', hsame, hv⟩ := hf r₁ r₁' Q t t' hQ hc hc' hr₁ ht r v hr
  exact ⟨R, r', v', Pairing.le_trans hQ hR, comesTo_andThen_iff.2 ⟨r₁', t', hc', hr'⟩, hsame, hv⟩

/-- A loop follows another one if its turns do. -/
theorem follows_loop {test test' step step' : Option Expr} {body body' : Stmt}
    (hturn : ∀ Q t t', P ≤ Q → S Q t t' →
      Follows S φ d Q (.step ((loopTurn test step body q).run t))
        (.step ((loopTurn test' step' body' q').run t'))) (hs : S P s s') :
    Follows S φ d P (.step ((Proc.perform (.loop test step body q)).run s))
      (.step ((Proc.perform (.loop test' step' body' q')).run s')) := by
  intro r u h
  obtain ⟨s₁, hlaps, hlast, hr⟩ := comesTo_loop_iff.1 (Proc.ends_perform_iff.1 h)
  suffices hloop : ∃ Q r' u', P ≤ Q ∧
      ComesTo d (.task (.loop test' step' body' q') s') r' u' ∧ SameEnd φ r r' ∧ S Q u u' by
    obtain ⟨Q, r', u', hQ, hend, hrest⟩ := hloop
    exact ⟨Q, r', u', hQ, Proc.ends_perform_iff.2 hend, hrest⟩
  clear h
  induction hlaps generalizing P s' with
  | refl s =>
    obtain ⟨Q, r', u', hQ, hlast', hsame, hu⟩ := hturn P s s' P.le_refl hs r u hlast
    refine ⟨Q, r', u', hQ, comesTo_loop_iff.2 ⟨s', .refl s', hlast', ?_⟩, hsame, hu⟩
    rintro rfl
    cases hsame
    exact hr rfl
  | cons hlap _ ih =>
    obtain ⟨Q, r₁, t', hQ, hlap', hsame, ht⟩ := hturn P _ s' P.le_refl hs _ _ hlap
    cases hsame
    obtain ⟨R, r', u', hR, hrest, hend, hu⟩ :=
      ih (fun R t t' hR => hturn R t t' (Pairing.le_trans hQ hR)) ht hlast
    obtain ⟨s₂, hlaps', hlast'⟩ := comesTo_loop_iff.1 hrest
    exact ⟨R, r', u', Pairing.le_trans hQ hR,
      comesTo_loop_iff.2 ⟨s₂, .cons hlap' hlaps', hlast'⟩, hend, hu⟩

end Follows

/-! ## Both directions -/

namespace Padding

variable {cfg : Config}

/-- Two states of runs that may trace other statements. -/
abbrev States (cfg : Config) : Pairing → State → State → Prop := (cfg.padding 4).States

/-- Whatever one of two works can come to, the other one can come to as well. -/
structure Agree (cfg : Config) (φ : Failure → Failure) (d : Nat) (P : Pairing) (w w' : Work α) :
    Prop where
  right : Follows (States cfg) φ d P w w'
  left : Follows (fun Q t' t => States cfg Q t t') φ d P w' w

theorem Agree.weaken {w w' : Work α} (h : Agree cfg φ d Q w w') (hPQ : P ≤ Q) :
    Agree cfg φ d P w w' :=
  ⟨h.right.weaken hPQ, h.left.weaken hPQ⟩

theorem Agree.congr_left {w w₁ w' : Work α} (h : Agree cfg φ d P w w')
    (hw : ∀ r t, ComesTo d w₁ r t ↔ ComesTo d w r t) : Agree cfg φ d P w₁ w' where
  right r t hw₁ := h.right r t ((hw r t).1 hw₁)
  left r' t' hw' := by
    obtain ⟨Q, r, t, hQ, hend, hr, ht⟩ := h.left r' t' hw'
    exact ⟨Q, r, t, hQ, (hw r t).2 hend, hr, ht⟩

theorem agree_ret (hs : States cfg P s s') (a : α) :
    Agree cfg φ d P (.step (.ret a s)) (.step (.ret a s')) :=
  ⟨follows_ret hs a, follows_ret (S := fun Q t' t => States cfg Q t t') hs a⟩

theorem agree_fail (hs : States cfg P s s') {f f' : Failure} (hf : φ f' = φ f) :
    Agree cfg φ d P (.step (.fail f s : Step α)) (.step (.fail f' s')) :=
  ⟨follows_fail hs hf, follows_fail (S := fun Q t' t => States cfg Q t t') hs hf.symm⟩

theorem agree_ofResult (hs : States cfg P s s') {r r' : Except Failure α} (hr : SameEnd φ r r') :
    Agree cfg φ d P (.step ((Proc.ofResult r).run s)) (.step ((Proc.ofResult r').run s')) := by
  cases hr with
  | ok a => exact agree_ret hs a
  | error he => exact agree_fail hs he

theorem Agree.andThen {ψ : Failure → Failure} {c c' : Step α}
    {f f' : Except Failure α → State → Step β} (h : Agree cfg ψ d P (.step c) (.step c'))
    (hf : ∀ r r' Q t t', P ≤ Q → ComesTo d (.step c) r t → SameEnd ψ r r' → States cfg Q t t' →
      Agree cfg φ d Q (.step (f r t)) (.step (f' r' t'))) :
    Agree cfg φ d P (.step (c.andThen f)) (.step (c'.andThen f')) where
  right := h.right.andThen fun r r' Q t t' hQ hr _ hsame ht => (hf r r' Q t t' hQ hr hsame ht).right
  left := h.left.andThen fun r' r Q t' t hQ _ hr hsame ht =>
    (hf r r' Q t t' hQ hr hsame.symm ht).left

theorem sub_eq_andThen (t : Task) (s : State) (k : Except Failure Outcome → State → Step α) :
    Step.sub t s k = ((Proc.perform t).run s).andThen k := by
  refine congrArg (Step.sub t s) (funext fun r => funext fun s => ?_)
  cases r <;> rfl

/-! ## Procedures put together -/

theorem Agree.attemptBind {ψ : Failure → Failure} {p p' : Proc α}
    {f f' : Except Failure α → Proc β} (h : Agree cfg ψ d P (.step (p.run s)) (.step (p'.run s')))
    (hf : ∀ r r' Q t t', P ≤ Q → SameEnd ψ r r' → States cfg Q t t' →
      Agree cfg φ d Q (.step ((f r).run t)) (.step ((f' r').run t'))) :
    Agree cfg φ d P (.step ((p.attempt >>= f).run s)) (.step ((p'.attempt >>= f').run s')) := by
  rw [Proc.run_attempt_bind, Proc.run_attempt_bind]
  exact h.andThen fun r r' Q t t' hQ _ => hf r r' Q t t' hQ

theorem Agree.bind {p p' : Proc α} {f f' : α → Proc β}
    (h : Agree cfg φ d P (.step (p.run s)) (.step (p'.run s')))
    (hf : ∀ a Q t t', P ≤ Q → p.Ends d s (.ok a) t → States cfg Q t t' →
      Agree cfg φ d Q (.step ((f a).run t)) (.step ((f' a).run t'))) :
    Agree cfg φ d P (.step ((p >>= f).run s)) (.step ((p' >>= f').run s')) := by
  rw [Proc.run_bind, Proc.run_bind, Step.bind_eq_andThen, Step.bind_eq_andThen]
  refine h.andThen fun r r' Q t t' hQ hr hsame ht => ?_
  cases hsame with
  | ok a => exact hf a Q t t' hQ hr ht
  | error he => exact agree_fail ht he

/-- Loops agree if their turns do. -/
theorem agree_loop {test test' step step' : Option Expr} {body body' : Stmt}
    (hturn : ∀ Q t t', P ≤ Q → States cfg Q t t' →
      Agree cfg φ d Q (.step ((loopTurn test step body q).run t))
        (.step ((loopTurn test' step' body' q').run t'))) (hs : States cfg P s s') :
    Agree cfg φ d P (.step ((Proc.perform (.loop test step body q)).run s))
      (.step ((Proc.perform (.loop test' step' body' q')).run s')) where
  right := follows_loop (fun Q t t' hQ ht => (hturn Q t t' hQ ht).right) hs
  left := follows_loop (fun Q t' t hQ ht => (hturn Q t t' hQ ht).left) hs

/-! ## What nothing shows -/

/-- The second run enters a scope of its own. -/
theorem agree_inner_right {w : Work α} {f' : Nat → Proc α} (hs : States cfg P s s')
    (hq : P.views q q')
    (hf : ∀ Q n' t', P ≤ Q → Q.views q n' → States cfg Q s t' →
      Agree cfg φ d Q w (.step ((f' n').run t'))) :
    Agree cfg φ d P w (.step ((innerScope q' >>= f').run s')) := by
  have hgrows := P.le_addView q s'.heap.scopes.size
  have ht : States cfg (P.addView q s'.heap.scopes.size) s
      { s' with heap := (s'.heap.newScope (some q')).2 } :=
    { hs with
      heap := {
        rest := by
          conv => lhs; rw [hs.heap.rest]
          rfl
        size := hs.heap.size
        closure := fun r => { hs.heap.closure r with
          scope := hgrows.views (hs.heap.closure r).scope }
        scopes := hs.heap.scopes.push_right hq } }
  exact (hf _ _ _ hgrows (P.views_addView _ _) ht).weaken hgrows

/-- The second run traces a statement of its own. -/
theorem agree_note_right {w : Work α} {line : Heap → String} {p' : Proc α}
    (hs : States cfg P s s')
    (hp : ∀ t', States cfg P s t' → Agree cfg φ d P w (.step (p'.run t'))) :
    Agree cfg φ d P w (.step ((Proc.trace 4 (fun h => .ok (line h)) >>= fun _ => p').run s')) := by
  obtain ⟨t, hrun, hquiet⟩ := Proc.exists_run_note 4 line s'
  rw [Proc.run_bind, hrun]
  have hexact := hs.outside.2
  refine hp _ { hs with outside := ⟨hs.outside.1, fun hlevel => ⟨(hexact hlevel).1, ?_⟩⟩ }
  rw [hquiet (hs.config' ▸ hlevel), (hexact hlevel).2]

/-- The two runs trace other statements. -/
theorem agree_note {line line' : Heap → String} {p p' : Proc α} (hs : States cfg P s s')
    (hp : ∀ t t', States cfg P t t' → Agree cfg φ d P (.step (p.run t)) (.step (p'.run t'))) :
    Agree cfg φ d P (.step ((Proc.trace 4 (fun h => .ok (line h)) >>= fun _ => p).run s))
      (.step ((Proc.trace 4 (fun h => .ok (line' h)) >>= fun _ => p').run s')) := by
  refine agree_note_right hs fun t' ht => ?_
  obtain ⟨t, hrun, hquiet⟩ := Proc.exists_run_note 4 line s
  rw [Proc.run_bind, hrun]
  have hexact := ht.outside.2
  refine hp _ _ { ht with outside := ⟨ht.outside.1, fun hlevel => ⟨(hexact hlevel).1, ?_⟩⟩ }
  rw [hquiet (hs.config ▸ hlevel), (hexact hlevel).2]

/-! ## Statements at a line -/

section Lines

variable {line : Int}

theorem atLine_atLine (f : Failure) (line : Int) : (f.atLine line).atLine line = f.atLine line := by
  rcases f with ⟨v, _ | n⟩ | f | code | _
  · by_cases hline : line = 0 <;> simp [Failure.atLine, hline]
  all_goals rfl

theorem ends_closeAt_iff {p : Proc Outcome} {r : Except Failure Outcome} :
    (p.attempt >>= closeAt line).Ends d s r s' ↔
      ∃ r₁, p.Ends d s r₁ s' ∧ r = r₁.mapError (·.atLine line) := by
  have hclose (r₁ : Except Failure Outcome) (s₁ : State) :
      (closeAt line r₁).Ends d s₁ r s' ↔ r = r₁.mapError (·.atLine line) ∧ s' = s₁ := by
    cases r₁ with
    | ok o => exact Proc.ends_pure_iff
    | error e => exact Proc.ends_failWith_iff
  simp only [Proc.ends_attempt_bind_iff, hclose]
  constructor
  · rintro ⟨r₁, s₁, hp, rfl, rfl⟩
    exact ⟨r₁, hp, rfl⟩
  · rintro ⟨r₁, hp, rfl⟩
    exact ⟨r₁, s', hp, rfl, rfl⟩

theorem sameEnd_mapError (r : Except Failure Outcome) :
    SameEnd (·.atLine line) r (r.mapError (·.atLine line)) := by
  cases r with
  | ok o => exact .ok o
  | error e => exact .error (atLine_atLine e line)

/-- The second run gives failures the line that they get later on. -/
theorem Agree.closed_right {w : Work Outcome} {p' : Proc Outcome}
    (h : Agree cfg (·.atLine line) d P w (.step (p'.run s'))) :
    Agree cfg (·.atLine line) d P w (.step ((p'.attempt >>= closeAt line).run s')) where
  right r t hw := by
    obtain ⟨Q, r', t', hQ, hp', hr, ht⟩ := h.right r t hw
    exact ⟨Q, _, t', hQ, ends_closeAt_iff.2 ⟨r', hp', rfl⟩, hr.trans (sameEnd_mapError r'), ht⟩
  left r' t' hclosed := by
    obtain ⟨r₁, hp', rfl⟩ := ends_closeAt_iff.1 hclosed
    obtain ⟨Q, r, t, hQ, hw, hr, ht⟩ := h.left r₁ t' hp'
    exact ⟨Q, r, t, hQ, hw, (sameEnd_mapError r₁).symm.trans hr, ht⟩

/-- Failures that get the same line are the same for the statement that they end. -/
theorem Agree.closed {p p' : Proc Outcome}
    (h : Agree cfg (·.atLine line) d P (.step (p.run s)) (.step (p'.run s'))) :
    Agree cfg φ d P (.step ((p.attempt >>= closeAt line).run s))
      (.step ((p'.attempt >>= closeAt line).run s')) := by
  refine h.attemptBind fun r r' Q t t' _ hr ht => ?_
  cases hr with
  | ok o => exact agree_ret ht o
  | error he => exact agree_fail ht (congrArg φ he)

/-- Statements at the same line agree if what they do agrees. -/
theorem agree_exec {form form' : Form} (hs : States cfg P s s')
    (hform : ∀ t t', States cfg P t t' →
      Agree cfg (·.atLine line) d P (.step ((form.exec q).run t))
        (.step ((form'.exec q').run t'))) :
    Agree cfg φ d P (.step (((Stmt.mk line form).exec q).run s))
      (.step (((Stmt.mk line form').exec q').run s')) := by
  rw [exec_mk, exec_mk]
  exact agree_note hs fun t t' ht => (hform t t' ht).closed

/-- The second run executes a statement where the first one does the same without it. -/
theorem agree_exec_right {w : Work Outcome} {form' : Form} (hs : States cfg P s s')
    (hform : ∀ t', States cfg P s t' →
      Agree cfg (·.atLine line) d P w (.step ((form'.exec q').run t'))) :
    Agree cfg (·.atLine line) d P w (.step (((Stmt.mk line form').exec q').run s')) := by
  rw [exec_mk]
  exact agree_note_right hs fun t' ht => (hform t' ht).closed_right

end Lines

/-! ## Steps that do the same -/

variable [(cfg.padding 4).Lawful]

/-- Procedures for tasks that do the same agree. -/
theorem agree_task {t t' : Task} (ht : (cfg.padding 4).Tasks P t t')
    (hs : States cfg P s s') :
    Agree cfg φ d P (.step ((Proc.perform t).run s)) (.step ((Proc.perform t').run s')) := by
  have hmachines : MachinesFrom cfg 4 P ⟨Proc.perform t s, [], d⟩ ⟨Proc.perform t' s', [], d⟩ :=
    ⟨P, P.le_refl, (Accord.Procs.perform ht).machines hs .nil (.inl rfl)⟩
  refine ⟨fun r u h => ?_, fun r u' h => ?_⟩
  · obtain ⟨u', hend, Q, hQ, hu⟩ := lockstep.endsWith hmachines (Proc.ends_iff_endsWith.1 h)
    exact ⟨Q, r, u', hQ, Proc.ends_iff_endsWith.2 hend, .refl r, hu⟩
  · obtain ⟨u, hend, Q, hQ, hu⟩ := lockstep.flip.endsWith hmachines (Proc.ends_iff_endsWith.1 h)
    exact ⟨Q, r, u, hQ, Proc.ends_iff_endsWith.2 hend, .refl r, hu⟩

/-- Steps that do the same agree. -/
theorem agree_steps {lost : Failure → State → Prop} (hlost : ∀ f s, ¬ lost f s) {c c' : Step α}
    (h : (cfg.padding 4).Steps lost P c c') : Agree cfg φ d P (.step c) (.step c') := by
  induction h with
  | ret a hQ hs => exact (agree_ret hs a).weaken hQ
  | fail hQ hf hs => exact (agree_fail hs (congrArg φ hf.symm)).weaken hQ
  | sub hQ ht hs _ ih =>
    rw [sub_eq_andThen, sub_eq_andThen]
    have htask : Agree cfg id d _ _ _ := agree_task ht hs
    refine (htask.andThen fun r r' R u u' hR _ hr hu => ?_).weaken hQ
    obtain rfl := hr.eq
    exact ih r' r' R u u' hR (.refl r') hu
  | wait delay hQ hs _ ih =>
    refine Agree.weaken ⟨follows_wait delay ?_, follows_wait delay ?_⟩ hQ
    · exact fun w => (ih _ _ _ (Pairing.le_refl _) (elsewhere hs w)).right
    · exact fun w => (ih _ _ _ (Pairing.le_refl _) (elsewhere hs w)).left
  | lost hf => exact absurd hf (hlost _ _)
  | inline hm => exact hm.elim

theorem agree_procs {p p' : Proc α}
    (h : (cfg.padding 4).Procs (cfg.padding 4).Breaks P p p')
    (hs : States cfg P s s') :
    Agree cfg φ d P (.step (p.run s)) (.step (p'.run s')) :=
  agree_steps (fun _ _ hlost => Nat.lt_irrefl _ hlost.2.1) (h P s s' P.le_refl hs)

/-- Goes on in a new scope in both runs. -/
theorem agree_inner {f f' : Nat → Proc α} (hs : States cfg P s s') (hq : P.views q q')
    (hf : ∀ Q n n' t t', P ≤ Q → Q.homes n n' → States cfg Q t t' →
      Agree cfg φ d Q (.step ((f n).run t)) (.step ((f' n').run t'))) :
    Agree cfg φ d P (.step ((innerScope q >>= f).run s))
      (.step ((innerScope q' >>= f').run s')) := by
  obtain ⟨Q, hQ, hn, hheap⟩ := hs.heap.newScope hq
  exact (hf Q _ _ _ _ hQ hn (hs.withHeap hQ hheap)).weaken hQ

end Padding

/-! ## States that nothing tells apart -/

/-- The same output and the same world, except that another trace may be on the disk if every
statement is traced. -/
structure State.ShowsSame (s s' : State) : Prop where
  config : s'.config = s.config
  world : s.world.OffDisk s'.world
  exact : s.config.traceLevel < 4 → s'.world = s.world ∧ s'.traced = s.traced

/-- There are the same arrays and objects, and no statements tell the states apart that are run in
one of the first `n` scopes: they end in the same ways, and what they show is the same. -/
structure State.Indistinguishable (n : Nat) (s s' : State) : Prop where
  shows : s.ShowsSame s'
  heap : s.heap.Resembles s'.heap
  right : ∀ q < n, ∀ d body r t, (execAll q body).Ends d s r t →
    ∃ t', (execAll q body).Ends d s' r t' ∧ t.ShowsSame t'
  left : ∀ q < n, ∀ d body r t', (execAll q body).Ends d s' r t' →
    ∃ t, (execAll q body).Ends d s r t ∧ t.ShowsSame t'

namespace Padding

variable {cfg : Config}

theorem showsSame (hs : States cfg P s s') : s.ShowsSame s' where
  config := hs.config'.trans hs.config.symm
  world := hs.outside.1
  exact := hs.config ▸ hs.outside.2

variable [(cfg.padding 4).Lawful]

theorem indistinguishable (hs : States cfg P s s') {n : Nat} (hn : ∀ q < n, P.homes q q) :
    s.Indistinguishable n s' where
  shows := showsSame hs
  heap := hs.heap.resembles
  right q hq d body r t h := by
    have hagree : Agree cfg id d P _ _ := agree_procs (.execAll body (hn q hq)) hs
    obtain ⟨Q, r', t', -, hend, hr, ht⟩ := hagree.right r t h
    obtain rfl := hr.eq
    exact ⟨t', hend, showsSame ht⟩
  left q hq d body r t' h := by
    have hagree : Agree cfg id d P _ _ := agree_procs (.execAll body (hn q hq)) hs
    obtain ⟨Q, r', t, -, hend, hr, ht⟩ := hagree.left r t' h
    obtain rfl := hr.eq
    exact ⟨t, hend, showsSame ht⟩

end Padding

/-- From a state, the statements end in the same ways and leave states that nothing tells apart in
the scopes that there were. -/
structure Stmt.Exchangeable (d q : Nat) (s : State) (x x' : Stmt) : Prop where
  right : ∀ r t, (x.exec q).Ends d s r t →
    ∃ t', (x'.exec q).Ends d s r t' ∧ t.Indistinguishable s.heap.scopes.size t'
  left : ∀ r t', (x'.exec q).Ends d s r t' →
    ∃ t, (x.exec q).Ends d s r t ∧ t.Indistinguishable s.heap.scopes.size t'

theorem Padding.Agree.exchangeable {cfg : Config} [(cfg.padding 4).Lawful] {x x' : Stmt}
    (h : Agree cfg id d (.below s.heap.scopes.size) (.step ((x.exec q).run s))
      (.step ((x'.exec q).run s))) : Stmt.Exchangeable d q s x x' where
  right r t hend := by
    obtain ⟨Q, r', t', hQ, hend', hr, ht⟩ := h.right r t hend
    obtain rfl := hr.eq
    exact ⟨t', hend', indistinguishable ht fun p hp => hQ.homes ⟨rfl, hp⟩⟩
  left r t' hend := by
    obtain ⟨Q, r', t, hQ, hend', hr, ht⟩ := h.left r t' hend
    obtain rfl := hr.eq
    exact ⟨t, hend', indistinguishable ht fun p hp => hQ.homes ⟨rfl, hp⟩⟩

/-- A tidy heap, such as that of any session, is nested. -/
theorem Heap.IsTidy.nested {h : Heap} (hh : h.IsTidy) : h.Nested where
  parent {q t p} ht hp := by
    by_cases hq : q = 0
    · rw [(hh.scopes q t ht).root hq] at hp
      cases hp
    · obtain ⟨o, ho, hparent⟩ := (hh.scopes q t ht).parent hq
      rw [hparent] at hp
      cases hp
      exact ho
  closure r := (hh.closure r).scope

/-! ## A trace in sight -/

/-- A session that traces every statement and may use files. -/
def State.watched : State :=
  ⟨⟨.absent, true, 4, true, []⟩, ⟨#[], #[], #[], #[⟨none, .empty⟩], 0, []⟩,
    ⟨#[], Disk.put ⟨[], []⟩ [Trace.file] (.file []), ⟨[], []⟩, [], 0, 0⟩, some .start, false⟩

/-- The session with lines that are still to be traced, the last one first. -/
def State.watchedWith (lines : List String) : State :=
  { watched with traced := some ⟨0, lines⟩ }

def Trace.text (lines : List String) : String :=
  lines.reverse.foldl (fun text line => text ++ line ++ "\n") ""

theorem State.nodes_settle_watchedWith (line : String) (lines : List String) :
    (watchedWith (line :: lines)).settle.world.disk.nodes =
      [([Trace.file], .file (Disk.overwrite [] 0 (Text.encodeUtf8 (Trace.text (line :: lines)))))] :=
  rfl

/-- Other texts in the trace make another disk. -/
theorem State.text_eq_of_settle {line line' : String} {lines lines' : List String}
    (h : (watchedWith (line :: lines)).settle.world.disk =
      (watchedWith (line' :: lines')).settle.world.disk) :
    Trace.text (line :: lines) = Trace.text (line' :: lines') := by
  have hnodes := congrArg Disk.nodes h
  rw [nodes_settle_watchedWith, nodes_settle_watchedWith] at hnodes
  have hbytes : Text.encodeUtf8 (Trace.text (line :: lines)) =
      Text.encodeUtf8 (Trace.text (line' :: lines')) := by
    simpa [Disk.overwrite] using hnodes
  have htext := congrArg Text.decodeUtf8 hbytes
  rw [Text.decodeUtf8_encodeUtf8, Text.decodeUtf8_encodeUtf8] at htext
  exact Except.ok.inj htext

end Hantec
