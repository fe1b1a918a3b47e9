import Hantec.Proofs.Run.Eval
import Hantec.Session

/-!
# Machines in accord

Two machines are in accord if their current steps are, together with all that waits for them. The
first machine may be inside of modules whose statements the second one has in place. Each of them
has a frame of its own on the stack of the first machine, a pad, which has no partner. The first
machine enters and leaves such modules on its own; all other moves are made by both machines. Where
the first machine traces more, this holds as long as it does not fail for a missing text.
-/

namespace Hantec

variable {ω : Type}

/-! ## Moves of one machine -/

namespace Machine

/-- The second machine comes after the first one in a run that is alone. -/
inductive Reaches : Machine → Machine → Prop where
  | refl (m : Machine) : Reaches m m
  | move {m m₁ m' : Machine} : m.next = .running m₁ → Reaches m₁ m' → Reaches m m'
  | wake {m m' : Machine} {d : Delay} {s : State} {resume : State → Machine} :
      m.next = .waiting d s resume → Reaches (resume { s with world := s.world.pass d }) m' →
      Reaches m m'

variable {m m₁ m' : Machine} {n : Nat}

theorem Reaches.trans (h : m.Reaches m₁) (h' : m₁.Reaches m') : m.Reaches m' := by
  induction h with
  | refl => exact h'
  | move hnext _ ih => exact .move hnext (ih h')
  | wake hnext _ ih => exact .wake hnext (ih h')

theorem advance_succ (h : m.next = .running m₁) (n : Nat) :
    m.advance (n + 1) = m₁.advance n := by
  rw [advance, h]

theorem advance_one : m.advance 1 = m.next := by
  cases h : m.next with
  | running m₁ => rw [advance_succ h, advance]
  | waiting d s resume => rw [advance, h]
  | done r s => rw [advance, h]

theorem exists_next_of_advance (h : m.advance (n + 1) = .running m') :
    ∃ m₁, m.next = .running m₁ ∧ m₁.advance n = .running m' := by
  cases hnext : m.next with
  | running m₁ => exact ⟨m₁, rfl, advance_succ hnext n ▸ h⟩
  | waiting d s resume => simp [advance, hnext] at h
  | done r s => simp [advance, hnext] at h

theorem advance_add (h : m.advance n = .running m₁) (k : Nat) :
    m.advance (n + k) = m₁.advance k := by
  induction n generalizing m with
  | zero =>
    cases h
    rw [Nat.zero_add]
  | succ n ih =>
    obtain ⟨m₂, hnext, h⟩ := exists_next_of_advance h
    rw [Nat.succ_add, advance_succ hnext, ih h]

theorem reaches_of_advance (h : m.advance n = .running m₁) (h' : m₁.Reaches m') :
    m.Reaches m' := by
  induction n generalizing m with
  | zero =>
    cases h
    exact h'
  | succ n ih =>
    obtain ⟨m₂, hnext, h⟩ := exists_next_of_advance h
    exact .move hnext (ih h)

theorem startTask_module {d : Nat} (h : d < depthLimit) (module : List Stmt) (scope : Nat)
    (s : State) (F : List Frame) :
    startTask (.module module scope) s F d = ⟨execAll scope module s, F, d + 1⟩ := by
  show Machine.mk ((enter d (execAll scope module)).run s) F (d + 1) = _
  rw [enter, if_pos h]
  rfl

/-- The machine does not fail at this point after a text was missing in its trace. -/
def Legible (m : Machine) : Prop := ∀ f s, m.current = .fail f s → s.torn = false

/-- No text is ever missing in the trace of the machine. -/
def StaysLegible (m : Machine) : Prop := ∀ m', m.Reaches m' → m'.Legible

end Machine

/-! ## Tasks -/

namespace Accord.Procs

open Scoping.Lawful (view_of_home)

variable {A : Accord ω} [A.Lawful] {w : ω} {q q' : Nat} {p p' : Proc Outcome}

theorem closureCall {c c' : Closure} (hc : A.Closures w c c') (args : List Value) :
    A.Procs A.Breaks w (c.call args) (c'.call args) := by
  unfold Closure.call
  rw [hc.params]
  refine inner hc.scope fun v n n' _ hn => (bindParams hn c.params args).bind fun _ => ?_
  refine (hc.body.parts v n n' hn).bind fun o => ?_
  cases o with
  | normal => exact pure _
  | returned a => exact pure _
  | broke | continued => exact raiseError _ _

theorem callableCall (f : Callable) (args : List Value)
    (hf : ∀ b, f = .builtin b → b.isChancy = true → A.AdmitsChance) :
    A.Procs A.Breaks w (f.call args) (f.call args) := by
  cases f with
  | closure r =>
    refine readBind (R := A.Closures) (fun _ _ _ _ hh => hh.closure r) fun v c c' _ hc => ?_
    exact closureCall hc args
  | builtin b => exact (builtinCall b args (hf b rfl)).bind fun a => pure _

/-- An overflow for a missing text is a failure of the first run that a handler can catch. -/
theorem catchOverflow (hp : A.Procs A.Breaks w p p') :
    A.Procs A.Lost w (catchOverflow p) (catchOverflow p') := by
  refine hp.attemptBind (fun r r' hr => ?_) fun e s he => ?_
  · cases hr with
    | ok o => exact pure o
    | error he =>
      rcases seen_cases he with rfl | ⟨a, line, line', rfl, rfl⟩
      · rename_i e
        cases e with
        | overflow => exact raiseError _ _
        | _ => exact failWith rfl
      · exact failWith he
  · cases e with
    | overflow => exact ⟨_, _, rfl, he.2⟩
    | _ => exact ⟨_, s, rfl, he.2⟩

theorem loopTurn {test test' step step' : Option Expr} {body body' : Stmt}
    (h : A.Loops w test step body q test' step' body' q') :
    A.Procs A.Breaks w (loopTurn test step body q) (loopTurn test' step' body' q') := by
  have hview := view_of_home h.scope
  have hlast : A.Procs A.Breaks w (loopStep step q) (loopStep step' q') := by
    have hparts := h.step.parts
    cases hparts with
    | none => exact pure _
    | some he => exact (he w q q' hview).bind fun _ => pure _
  have hrest : A.Procs A.Breaks w (loopBody step body q) (loopBody step' body' q') := by
    refine (h.body.parts w q q' h.scope).bind fun o => ?_
    cases o with
    | broke => exact pure _
    | returned a => exact pure _
    | normal => exact hlast
    | continued => exact hlast
  have hparts := h.test.parts
  cases hparts with
  | none => exact hrest
  | some he =>
    refine (he w q q' hview).bind fun a => (scopeless (.isTruthy trivial)).bind fun truth => ?_
    split
    · exact hrest
    · exact pure _

theorem program {ss ss' : List Stmt} (h : A.Same .stmts ss ss') (hroot : A.homes w 0 0) :
    A.Procs A.Breaks w (programProc ss) (programProc ss') := by
  have hlength : A.config.traceLevel = 0 ∨ ss'.length = ss.length := by
    obtain ⟨c, φ, hc, -, rfl⟩ := h
    by_cases hmodules : ∃ name module, A.modules name module
    · obtain ⟨_, _, hm⟩ := hmodules
      exact .inl (Lawful.provided hm).1
    · obtain rfl := hc.eq_of_no_modules fun name module hm => hmodules ⟨name, module, hm⟩
      exact .inr (length_relinedBody φ ss)
  refine bind (traceLine Nat.one_pos (hlength.imp_right fun h => by rw [h])) fun _ => ?_
  refine (h.parts w 0 0 hroot).bind fun o => ?_
  cases o with
  | normal => exact pure _
  | returned _ | broke | continued => exact raiseError _ _

end Accord.Procs

/-! ## Stacks -/

/-- What waits for a task. -/
abbrev Continuation := Except Failure Outcome → State → Step Outcome

/-- Goes on with what waits, the innermost first. -/
def Step.plug (c : Step Outcome) (pads : List (Nat × Continuation)) : Step Outcome :=
  pads.foldl (fun c pad => c.andThen pad.2) c

/-- The frames of modules that are written out in the second run. -/
def padFrames (pads : List (Nat × Continuation)) : List Frame :=
  pads.map fun pad => .resume pad.1 pad.2

namespace Step

variable (pads : List (Nat × Continuation))

theorem plug_andThen (c : Step Outcome) (k : Continuation) :
    (c.andThen k).plug pads = c.andThen fun r s => (k r s).plug pads := by
  induction pads generalizing k with
  | nil => rfl
  | cons pad pads ih =>
    show ((c.andThen k).andThen pad.2).plug pads = _
    rw [andThen_andThen, ih]
    rfl

theorem plug_sub (t : Task) (s : State) (k : Continuation) :
    (Step.sub t s k).plug pads = .sub t s fun r s => (k r s).plug pads := by
  induction pads generalizing k with
  | nil => rfl
  | cons pad pads ih => exact ih fun r s => (k r s).andThen pad.2

theorem plug_wait (d : Delay) (s : State) (k : State → Step Outcome) :
    (Step.wait d s k).plug pads = .wait d s fun s => (k s).plug pads := by
  induction pads generalizing k with
  | nil => rfl
  | cons pad pads ih => exact ih fun s => (k s).andThen pad.2

end Step

namespace Accord

open Scoping.Lawful (near_refl near_trans far_of_near far_trans)

variable (A : Accord ω)

/-- Some module may be written out. -/
def Splices : Prop := ∃ name module, A.modules name module

/-- The numbers of open calls and modules: the first run may have more of them. -/
def Depths (d d' : Nat) : Prop := d = d' ∨ (A.Splices ∧ d' ≤ d)

/-- Frames without a partner, where the second machine is at the given depth. -/
def Pads (d' : Nat) (pads : List (Nat × Continuation)) : Prop :=
  ∀ pad ∈ pads, A.Splices ∧ d' ≤ pad.1

/-- Two stacks that go on in accord. -/
inductive Frames (w : ω) : List Frame → List Frame → Prop where
  | nil : Frames w [] []
  | resume {d d' : Nat} {k k' : Continuation} {pads : List (Nat × Continuation)}
      {rest rest' : List Frame} :
      (∀ r r' v s s', A.far w v → A.Results r r' → A.States v s s' →
        A.Steps A.Lost v ((k r s).plug pads) (k' r' s')) →
      A.Pads d' pads → A.Depths d d' → Frames w rest rest' →
      Frames w (.resume d k :: (padFrames pads ++ rest)) (.resume d' k' :: rest')
  | again {test test' step step' : Option Expr} {body body' : Stmt} {q q' : Nat}
      {rest rest' : List Frame} :
      A.Loops w test step body q test' step' body' q' → Frames w rest rest' →
      Frames w (.again test step body q :: rest) (.again test' step' body' q' :: rest')

/-- Two machines that go on in accord. -/
inductive Machines : ω → Machine → Machine → Prop where
  | mk {w : ω} {c c' : Step Outcome} {pads : List (Nat × Continuation)} {rest rest' : List Frame}
      {d d' : Nat} :
      A.Steps A.Lost w (c.plug pads) c' → A.Pads d' pads → A.Frames w rest rest' →
      A.Depths d d' → Machines w ⟨c, padFrames pads ++ rest, d⟩ ⟨c', rest', d'⟩

/-- Two machines that have come to the same. -/
inductive Progresses (w : ω) : Progress → Progress → Prop where
  | running {v : ω} {m m' : Machine} :
      A.near w v → A.Machines v m m' → Progresses w (.running m) (.running m')
  | waiting {v : ω} {s s' : State} {resume resume' : State → Machine} (d : Delay) :
      A.near w v → A.States v s s' →
      (∀ u s s', A.far v u → A.States u s s' → A.Machines u (resume s) (resume' s')) →
      Progresses w (.waiting d s resume) (.waiting d s' resume')
  | done {v : ω} {r r' : Except Failure Outcome} {s s' : State} :
      A.near w v → A.Results r r' → A.States v s s' → Progresses w (.done r s) (.done r' s')

/-- What has to hold of a machine of the first run: if modules may be written out, then not too
many calls and modules are open, the builtins that are called do the same in both runs, and no text
is missing if the first run traces more. -/
structure Fits (m : Machine) : Prop where
  depth : A.Splices → m.depth ≤ Machine.depthLimit
  permits : ∀ b args s k, m.current = .sub (.call (.builtin b) args) s k →
    b.isChancy = true → A.AdmitsChance
  legible : A.level < A.config.traceLevel → m.Legible

/-- All machines of a run fit. -/
def Fitting (m : Machine) : Prop := ∀ m', m.Reaches m' → A.Fits m'

variable {A} {u v w : ω} {m m₁ : Machine} {n : Nat}

theorem Fitting.fits (h : A.Fitting m) : A.Fits m := h m (.refl m)

theorem Fitting.advance (h : A.Fitting m) (hn : m.advance n = .running m₁) : A.Fitting m₁ :=
  fun m' hm => h m' (Machine.reaches_of_advance hn hm)

theorem Fitting.move (h : A.Fitting m) (hnext : m.next = .running m₁) : A.Fitting m₁ :=
  fun m' hm => h m' (.move hnext hm)

theorem Depths.succ {d d' : Nat} (h : A.Depths d d') : A.Depths (d + 1) (d' + 1) := by
  obtain rfl | ⟨hs, hle⟩ := h
  · exact .inl rfl
  · exact .inr ⟨hs, Nat.succ_le_succ hle⟩

theorem Depths.le {d d' : Nat} (h : A.Depths d d') : d' ≤ d := by
  obtain rfl | ⟨-, hle⟩ := h
  · exact Nat.le_refl _
  · exact hle

/-- Two machines without pads. -/
theorem Machines.ofSteps {c c' : Step Outcome} (h : A.Steps A.Lost w c c') {F F' : List Frame}
    (hF : A.Frames w F F') {d d' : Nat} (hd : A.Depths d d') :
    A.Machines w ⟨c, F, d⟩ ⟨c', F', d'⟩ := by
  show A.Machines w ⟨c, padFrames [] ++ F, d⟩ _
  exact .mk h (fun _ hpad => nomatch hpad) hF hd

/-! ## The first machine on its own -/

/-- A step that is not done, or one that has nothing to go on with. -/
inductive Ready : Step Outcome → List (Nat × Continuation) → Prop where
  | sub (t : Task) (s : State) (k : Continuation) (pads : List (Nat × Continuation)) :
      Ready (.sub t s k) pads
  | wait (d : Delay) (s : State) (k : State → Step Outcome) (pads : List (Nat × Continuation)) :
      Ready (.wait d s k) pads
  | bare (c : Step Outcome) : Ready c []

variable (A) in
/-- The first machine gets on its own to a step that is ready, with which the step `x` goes on. -/
def GetsReady (rest : List Frame) (d' : Nat) (m : Machine) (x : Step Outcome) : Prop :=
  ∃ n c pads d, m.advance n = .running ⟨c, padFrames pads ++ rest, d⟩ ∧ c.plug pads = x ∧
    Ready c pads ∧ A.Pads d' pads ∧ A.Depths d d' ∧ (A.Splices ∨ n = 0)

theorem GetsReady.ofNext {rest : List Frame} {d' : Nat} {x : Step Outcome} (hs : A.Splices)
    (hnext : m.next = .running m₁) (h : A.GetsReady rest d' m₁ x) : A.GetsReady rest d' m x := by
  obtain ⟨n, c, pads, d, hn, hplug, hready, hpads, hd, -⟩ := h
  exact ⟨n + 1, c, pads, d, (Machine.advance_succ hnext n).trans hn, hplug, hready, hpads, hd,
    .inl hs⟩

/-- The first machine leaves modules that are done. -/
theorem getsReady {d' : Nat} (rest : List Frame) (pads : List (Nat × Continuation))
    (hpads : A.Pads d' pads) (c : Step Outcome) {d : Nat} (hd : A.Depths d d') :
    A.GetsReady rest d' ⟨c, padFrames pads ++ rest, d⟩ (c.plug pads) := by
  induction pads generalizing c d with
  | nil => exact ⟨0, c, [], d, rfl, rfl, .bare c, hpads, hd, .inr rfl⟩
  | cons pad pads ih =>
    obtain ⟨hs, hle⟩ := hpads pad (by simp)
    have hrest : A.Pads d' pads := fun p hp => hpads p (by simp [hp])
    have hdepth : A.Depths pad.1 d' := .inr ⟨hs, hle⟩
    cases c with
    | ret a s => exact .ofNext hs rfl (ih hrest (pad.2 (.ok a) s) hdepth)
    | fail e s => exact .ofNext hs rfl (ih hrest (pad.2 (.error e) s) hdepth)
    | sub t s k => exact ⟨0, _, _, d, rfl, rfl, .sub t s k _, hpads, hd, .inr rfl⟩
    | wait w s k => exact ⟨0, _, _, d, rfl, rfl, .wait w s k _, hpads, hd, .inr rfl⟩

namespace Ready

variable {c : Step Outcome} {pads : List (Nat × Continuation)} {s : State}

theorem eq_ret (h : Ready c pads) {a : Outcome} (hplug : c.plug pads = .ret a s) :
    c = .ret a s ∧ pads = [] := by
  cases h with
  | sub => simp [Step.plug_sub] at hplug
  | wait => simp [Step.plug_wait] at hplug
  | bare => exact ⟨hplug, rfl⟩

theorem eq_fail (h : Ready c pads) {e : Failure} (hplug : c.plug pads = .fail e s) :
    c = .fail e s ∧ pads = [] := by
  cases h with
  | sub => simp [Step.plug_sub] at hplug
  | wait => simp [Step.plug_wait] at hplug
  | bare => exact ⟨hplug, rfl⟩

theorem eq_sub (h : Ready c pads) {t : Task} {k : Continuation}
    (hplug : c.plug pads = .sub t s k) :
    ∃ k₁, c = .sub t s k₁ ∧ k = fun r s => (k₁ r s).plug pads := by
  cases h with
  | sub t s k₁ =>
    rw [Step.plug_sub] at hplug
    cases hplug
    exact ⟨k₁, rfl, rfl⟩
  | wait => simp [Step.plug_wait] at hplug
  | bare => exact ⟨k, hplug, rfl⟩

theorem eq_wait (h : Ready c pads) {d : Delay} {k : State → Step Outcome}
    (hplug : c.plug pads = .wait d s k) :
    ∃ k₁, c = .wait d s k₁ ∧ k = fun s => (k₁ s).plug pads := by
  cases h with
  | sub => simp [Step.plug_sub] at hplug
  | wait d s k₁ =>
    rw [Step.plug_wait] at hplug
    cases hplug
    exact ⟨k₁, rfl, rfl⟩
  | bare => exact ⟨k, hplug, rfl⟩

end Ready

variable (A) in
/-- After some moves on its own, the first machine makes the next move together with the second
one. -/
def CatchesUp (w : ω) (m m' : Machine) : Prop :=
  ∃ n m₁, m.advance n = .running m₁ ∧ A.Progresses w m₁.next m'.next ∧ (A.Splices ∨ n = 0)

theorem CatchesUp.ofAdvance {m' : Machine} (hs : A.Splices) (hn : m.advance n = .running m₁)
    (h : A.CatchesUp w m₁ m') : A.CatchesUp w m m' := by
  obtain ⟨k, m₂, hk, hnext, -⟩ := h
  exact ⟨n + k, m₂, (Machine.advance_add hn k).trans hk, hnext, .inl hs⟩

/-- The first machine enters a module that is written out in the second run. -/
theorem getsReady_module {module : List Stmt} {scope d d' : Nat} {s : State} {k : Continuation}
    {pads : List (Nat × Continuation)} (rest : List Frame) (hs : A.Splices)
    (hpads : A.Pads d' pads) (hd : A.Depths d d') (hlimit : d + 1 ≤ Machine.depthLimit) :
    A.GetsReady rest d'
      (Machine.startTask (.module module scope) s (.resume d k :: (padFrames pads ++ rest)) d)
      ((execAll scope module s).andThen fun r s => (k r s).plug pads) := by
  have hmore : A.Pads d' ((d, k) :: pads) := by
    intro pad hpad
    obtain rfl | hpad := List.mem_cons.1 hpad
    · exact ⟨hs, hd.le⟩
    · exact hpads pad hpad
  have hdepth : A.Depths (d + 1) d' := .inr ⟨hs, Nat.le_succ_of_le hd.le⟩
  rw [← Step.plug_andThen, Machine.startTask_module hlimit]
  exact getsReady rest ((d, k) :: pads) hmore (execAll scope module s) hdepth

/-! ## Moves of two machines -/

variable [A.Lawful]

theorem Frames.mono {F F' : List Frame} (hF : A.Frames w F F') (hv : A.far w v) :
    A.Frames v F F' := by
  induction hF with
  | nil => exact .nil
  | resume hk hpads hd _ ih =>
    exact .resume (fun r r' u s s' hu => hk r r' u s s' (far_trans hv hu)) hpads hd ih
  | again h _ ih => exact .again (h.mono hv) ih

theorem Progresses.weaken {p p' : Progress} (h : A.Progresses v p p') (hv : A.near w v) :
    A.Progresses w p p' := by
  cases h with
  | running hu hm => exact .running (near_trans hv hu) hm
  | waiting d hu hs hresume => exact .waiting d (near_trans hv hu) hs hresume
  | done hu hr hs => exact .done (near_trans hv hu) hr hs

/-- Two machines in the middle of procedures that do the same. -/
theorem Procs.machines {p p' : Proc Outcome} (hp : A.Procs A.Breaks w p p') {s s' : State}
    (hs : A.States w s s') {F F' : List Frame} (hF : A.Frames w F F') {d d' : Nat}
    (hd : A.Depths d d') : A.Machines w ⟨p s, F, d⟩ ⟨p' s', F', d'⟩ :=
  .ofSteps ((hp w s s' (far_refl w) hs).mono fun _ _ h => h.2) hF hd

/-- The same result is delivered to two stacks. -/
theorem Frames.deliver {F F' : List Frame} (hF : A.Frames w F F') (hv : A.near w v)
    {s s' : State} (hs : A.States v s s') {d d' : Nat} (hd : A.Depths d d')
    {r r' : Except Failure Outcome} (hr : A.Results r r') :
    A.Progresses w (Machine.deliver r s d F) (Machine.deliver r' s' d' F') := by
  have hfar := far_of_near hv
  induction hF with
  | nil => exact .done hv hr hs
  | resume hk hpads hdepths hrest =>
    exact .running hv (.mk (hk r r' v s s' hfar hr hs) hpads (hrest.mono hfar) hdepths)
  | again h hrest ih =>
    cases hr with
    | error he => exact ih
    | ok o =>
      cases o with
      | continued =>
        have hloop := h.mono hfar
        exact .running hv ((Procs.loopTurn hloop).machines hs (.again hloop (hrest.mono hfar)) hd)
      | normal | returned _ | broke => exact ih

/-- Both runs enter, or neither does. -/
theorem Depths.enter {d d' : Nat} (h : A.Depths d d')
    (hlimit : A.Splices → d + 1 ≤ Machine.depthLimit) {p p' : Proc Outcome}
    (hp : A.Procs A.Breaks w p p') :
    A.Procs A.Breaks w (Machine.enter d p) (Machine.enter d' p') := by
  unfold Machine.enter
  obtain rfl | ⟨hs, hle⟩ := h
  · split
    · exact hp
    · exact .failWith rfl
  · have hlt : d < Machine.depthLimit := hlimit hs
    rw [if_pos hlt, if_pos (Nat.lt_of_le_of_lt hle hlt)]
    exact hp

/-- Two tasks that do the same are started on two stacks. -/
theorem Tasks.start {t t' : Task} (ht : A.Tasks w t t') {s s' : State} (hs : A.States w s s')
    {F F' : List Frame} (hF : A.Frames w F F') {d d' : Nat} (hd : A.Depths d d')
    (hlimit : A.Splices → (Machine.startTask t s F d).depth ≤ Machine.depthLimit)
    (hpermits : ∀ b args, t = .call (.builtin b) args → b.isChancy = true → A.AdmitsChance) :
    A.Machines w (Machine.startTask t s F d) (Machine.startTask t' s' F' d') := by
  cases ht with
  | call f args =>
    have hcall : A.Procs A.Breaks w _ _ :=
      .callableCall f args fun b hb => hpermits b args (hb ▸ rfl)
    have hsteps := (hd.enter hlimit hcall).catchOverflow w s s' (far_refl w) hs
    exact .ofSteps hsteps hF hd.succ
  | loop h => exact (Procs.loopTurn h).machines hs (.again h hF) hd
  | module hq hbody =>
    exact (hd.enter hlimit (hbody.parts w _ _ hq)).machines hs hF hd.succ

/-- Whether the first machine still has to enter or leave modules or not, it catches up with the
second one. The induction is on what makes the current steps do the same: each module that is
entered is one that is inlined there. -/
theorem Steps.catchesUp {x c' : Step Outcome} (h : A.Steps A.Lost w x c') {d' : Nat}
    {rest rest' : List Frame} (hrest : A.Frames w rest rest')
    (hx : A.GetsReady rest d' m x) (hfit : A.Fitting m) :
    A.CatchesUp w m ⟨c', rest', d'⟩ := by
  induction h generalizing m with
  | ret a hv hs =>
    obtain ⟨n, c, pads, d, hn, hplug, hready, hpads, hd, hsplices⟩ := hx
    obtain ⟨rfl, rfl⟩ := hready.eq_ret hplug
    exact ⟨n, _, hn, hrest.deliver hv hs hd (.ok a), hsplices⟩
  | fail hv he hs =>
    obtain ⟨n, c, pads, d, hn, hplug, hready, hpads, hd, hsplices⟩ := hx
    obtain ⟨rfl, rfl⟩ := hready.eq_fail hplug
    exact ⟨n, _, hn, hrest.deliver hv hs hd (.error he), hsplices⟩
  | sub hv ht hs hk =>
    obtain ⟨n, c, pads, d, hn, hplug, hready, hpads, hd, hsplices⟩ := hx
    obtain ⟨k₁, rfl, rfl⟩ := hready.eq_sub hplug
    have hfit₁ := hfit.advance hn
    have hframes := Frames.resume hk hpads hd (hrest.mono (far_of_near hv))
    refine ⟨n, _, hn, .running hv (ht.start hs hframes hd (hfit₁.move rfl).fits.depth ?_), hsplices⟩
    rintro b args rfl
    exact hfit₁.fits.permits b args _ k₁ rfl
  | wait d hv hs hk =>
    obtain ⟨n, c, pads, depth, hn, hplug, hready, hpads, hd, hsplices⟩ := hx
    obtain ⟨k₁, rfl, rfl⟩ := hready.eq_wait hplug
    refine ⟨n, _, hn, .waiting d hv hs fun u s s' hu hs => ?_, hsplices⟩
    exact .mk (hk u s s' hu hs) hpads (hrest.mono (far_trans (far_of_near hv) hu)) hd
  | lost hf =>
    obtain ⟨n, c, pads, d, hn, hplug, hready, hpads, hd, hsplices⟩ := hx
    obtain ⟨rfl, rfl⟩ := hready.eq_fail hplug
    have hlegible := (hfit.advance hn).fits.legible hf.1 _ _ rfl
    exact absurd (hf.2.symm.trans hlegible) (by decide)
  | inline hm _ ih =>
    obtain ⟨n, c, pads, d, hn, hplug, hready, hpads, hd, -⟩ := hx
    obtain ⟨k₁, rfl, rfl⟩ := hready.eq_sub hplug
    have hs : A.Splices := ⟨_, _, hm⟩
    have hfit₁ := (hfit.advance hn).move rfl
    have hmoves := (Machine.advance_add hn 1).trans Machine.advance_one
    refine .ofAdvance hs hmoves (ih hrest ?_ hfit₁)
    exact getsReady_module rest hs hpads hd (hfit₁.fits.depth hs)

/-- Two machines in accord come to the same, as the first one catches up. -/
theorem Machines.catchesUp {m' : Machine} (h : A.Machines w m m') (hfit : A.Fitting m) :
    A.CatchesUp w m m' := by
  obtain ⟨hsteps, hpads, hrest, hd⟩ := h
  exact hsteps.catchesUp hrest (getsReady _ _ hpads _ hd) hfit

/-- If no module is written out, the two machines move together. -/
theorem Machines.next {m' : Machine} (hnone : ∀ name module, ¬ A.modules name module)
    (h : A.Machines w m m') (hfit : A.Fitting m) : A.Progresses w m.next m'.next := by
  obtain ⟨k, m₁, hk, hnext, ⟨name, module, hm⟩ | rfl⟩ := h.catchesUp hfit
  · exact absurd hm (hnone name module)
  · cases hk
    exact hnext

end Accord

end Hantec
