import Hantec.Proofs.Grammar.Relining
import Hantec.Proofs.Run.Builtins

/-!
# Runs in accord

Two runs are in accord if each does what the other one does, step by step. They may differ in the
numbers of scopes, in the lines of statements, in how much they trace and in what no script can see
of the world. Where the first run takes a module as a task of its own, the second one may have the
statements of the module in place. Only tracing can tell the runs apart: the text of a value may be
missing, and then only the run that traces more fails. What the relations of the scopes and of the
worlds have to respect is collected in `Scoping.Lawful` and `Accord.Lawful`, so that the theory
holds of all such relations at once.
-/

namespace Hantec

variable {ω α β : Type}

/-- In every world the loader has the source of a module at once, and it can be compiled. -/
def Config.Provides (c : Config) (name : String) (module : List Stmt) : Prop :=
  c.compiles = true ∧ c.loader.waits name = [] ∧ ∃ source,
    (∀ w, c.loader.load name w = (w, .ok source)) ∧ parseProgram source = .ok module

/-! ## Failures -/

namespace Failure

/-- The failure without the line of a raised value. -/
def unlined : Failure → Failure
  | .raised v _ => .raised v none
  | f => f

@[simp] theorem unlined_atLine (f : Failure) (line : Int) :
    (f.atLine line).unlined = f.unlined := by
  rcases f with ⟨v, _ | n⟩ | f | code | _ <;> rfl

end Failure

/-! ## Scopes of two runs -/

/-- What is known of the scopes of two runs. More may be known as the runs go on. -/
structure Scoping (ω : Type) where
  /-- What may be known after some steps. -/
  near : ω → ω → Prop
  /-- What may be known after tasks and waits. -/
  far : ω → ω → Prop
  /-- The scopes bind the same names. -/
  homes : ω → Nat → Nat → Prop
  /-- The same names are seen from the scopes. -/
  views : ω → Nat → Nat → Prop
  Scopes : ω → Array Scope → Array Scope → Prop

/-- What is known stays so, and scopes that belong together are used alike. -/
class Scoping.Lawful (S : Scoping ω) : Prop where
  near_refl (w : ω) : S.near w w
  near_trans {u v w : ω} : S.near u v → S.near v w → S.near u w
  far_of_near {v w : ω} : S.near v w → S.far v w
  far_trans {u v w : ω} : S.far u v → S.far v w → S.far u w
  homes_of_far {v w : ω} {q q' : Nat} : S.far v w → S.homes v q q' → S.homes w q q'
  views_of_far {v w : ω} {q q' : Nat} : S.far v w → S.views v q q' → S.views w q q'
  view_of_home {w : ω} {q q' : Nat} : S.homes w q q' → S.views w q q'
  vars {w : ω} {ss ss' : Array Scope} {q q' : Nat} : S.Scopes w ss ss' → S.homes w q q' →
    (ss'.getD q' default).vars = (ss.getD q default).vars
  resolve {w : ω} {h h' : Heap} {q q' : Nat} (x : String) : S.Scopes w h.scopes h'.scopes →
    S.views w q q' → Option.Rel (S.homes w) (h.resolve q x) (h'.resolve q' x)
  define {w : ω} {h h' : Heap} {q q' : Nat} (x : String) (v : Value) :
    S.Scopes w h.scopes h'.scopes → S.homes w q q' →
    S.Scopes w (h.define q x v).scopes (h'.define q' x v).scopes
  /-- New scopes belong together. -/
  newScope {w : ω} {h h' : Heap} {q q' : Nat} : S.Scopes w h.scopes h'.scopes → S.views w q q' →
    ∃ v, S.near w v ∧ S.homes v h.scopes.size h'.scopes.size ∧
      S.Scopes v (h.newScope (some q)).2.scopes (h'.newScope (some q')).2.scopes

/-- Every scope belongs to itself. -/
def Scoping.same (ω : Type) : Scoping ω :=
  ⟨Eq, fun _ _ => True, fun _ q q' => q' = q, fun _ q q' => q' = q, fun _ ss ss' => ss' = ss⟩

instance : (Scoping.same ω).Lawful where
  near_refl _ := rfl
  near_trans := Eq.trans
  far_of_near _ := trivial
  far_trans _ _ := trivial
  homes_of_far _ h := h
  views_of_far _ h := h
  view_of_home h := h
  vars := by
    rintro _ _ _ _ _ rfl rfl
    rfl
  resolve x := by
    rintro hscopes rfl
    rw [Heap.resolve_congr hscopes]
    cases Heap.resolve _ _ x with
    | none => exact .none
    | some p => exact .some rfl
  define {_ h h' _ _} x v := by
    rintro (hscopes : h'.scopes = h.scopes) rfl
    show (h'.define _ x v).scopes = (h.define _ x v).scopes
    rw [Heap.define, Heap.define, hscopes]
  newScope := by
    rintro w _ _ _ _ hscopes rfl
    exact ⟨w, rfl, congrArg Array.size hscopes,
      congrArg (fun ss : Array Scope => ss.push _) hscopes⟩

open Scoping.Lawful (near_refl near_trans far_of_near far_trans homes_of_far views_of_far)

/-! ## Two runs -/

/-- A part of a program with every line in it changed. -/
def Part.relined (φ : Int → Int) : (x : Part) → x.Tree → x.Tree
  | .expr, e => e.relined φ
  | .exprs, es => relinedItems φ es
  | .optionalExpr, e => relinedExpr? φ e
  | .stmt, s => s.relined φ
  | .form, f => f.relined φ
  | .stmts, ss => relinedBody φ ss
  | .optionalStmt, s => relinedStmt? φ s
  | .optionalStmts, ss => relinedBody? φ ss

theorem Part.relined_id (x : Part) (a : x.Tree) : x.relined id a = a := by
  cases x with
  | expr => exact Expr.relined_id a
  | exprs => exact relinedItems_id a
  | optionalExpr => exact relinedExpr?_id a
  | stmt => exact Stmt.relined_id a
  | form => exact Form.relined_id a
  | stmts => exact relinedBody_id a
  | optionalStmt => exact relinedStmt?_id a
  | optionalStmts => exact relinedBody?_id a

/-- A way in which two runs can be in accord. -/
structure Accord (ω : Type) extends Scoping ω where
  /-- The settings of the first run. -/
  config : Config
  /-- How much is traced in the second run. -/
  level : Nat
  /-- Whether the statements have the same lines in both runs. -/
  keepsLines : Bool
  /-- The modules that may be written out in the second run. -/
  modules : String → List Stmt → Prop
  /-- The worlds and the traces belong together. -/
  Outside : ω → State → State → Prop

namespace Accord

variable (A : Accord ω)

/-- The settings of the second run. -/
def config' : Config := { A.config with traceLevel := A.level }

/-- What both runs see of a failure. -/
def seen (f : Failure) : Failure := if A.keepsLines then f else f.unlined

/-- The lines of the second run may come from those of the first one in this way. -/
def Relines (φ : Int → Int) : Prop := A.keepsLines = true → φ = id

/-- The same part of a program, up to its lines and to imports that are written out. -/
def Same (x : Part) (a b : x.Tree) : Prop :=
  ∃ c φ, Inlined A.modules x a c ∧ A.Relines φ ∧ b = x.relined φ c

/-- A change of the world that has the same result in both runs. -/
def Admits (f : World → α × World) : Prop :=
  ∀ w s s', A.Outside w s s' → (f s'.world).1 = (f s.world).1 ∧
    A.Outside w { s with world := (f s.world).2 } { s' with world := (f s'.world).2 }

/-- Whatever does not look at the disk has the same result in both runs. -/
def AdmitsChance : Prop := ∀ {α : Type} {f : World → α × World}, World.IgnoresDisk f → A.Admits f

structure Closures (w : ω) (c c' : Closure) : Prop where
  name : c'.name = c.name
  params : c'.params = c.params
  scope : A.views w c.scope c'.scope
  body : A.Same .stmts c.body c'.body

structure Heaps (w : ω) (h h' : Heap) : Prop where
  rest : h' = h.withCode h'.closures h'.scopes
  size : h'.closures.size = h.closures.size
  closure : ∀ r, A.Closures w (h.closure r) (h'.closure r)
  scopes : A.Scopes w h.scopes h'.scopes

structure States (w : ω) (s s' : State) : Prop where
  config : s.config = A.config
  config' : s'.config = A.config'
  heap : A.Heaps w s.heap s'.heap
  outside : A.Outside w s s'

inductive Results : Except Failure α → Except Failure α → Prop where
  | ok (a : α) : Results (.ok a) (.ok a)
  | error {f f' : Failure} : A.seen f = A.seen f' → Results (.error f) (.error f')

/-- Two loops that do the same. -/
structure Loops (w : ω) (test step : Option Expr) (body : Stmt) (q : Nat)
    (test' step' : Option Expr) (body' : Stmt) (q' : Nat) : Prop where
  scope : A.homes w q q'
  test : A.Same .optionalExpr test test'
  step : A.Same .optionalExpr step step'
  body : A.Same .stmt body body'

/-- Two tasks that do the same. -/
inductive Tasks (w : ω) : Task → Task → Prop where
  | call (f : Callable) (args : List Value) : Tasks w (.call f args) (.call f args)
  | loop {test test' step step' : Option Expr} {body body' : Stmt} {q q' : Nat} :
      A.Loops w test step body q test' step' body' q' →
      Tasks w (.loop test step body q) (.loop test' step' body' q')
  | module {body body' : List Stmt} {q q' : Nat} :
      A.homes w q q' → A.Same .stmts body body' → Tasks w (.module body q) (.module body' q')

/-- Two steps that do the same. The first run may be lost, and then the second one is free. -/
inductive Steps (lost : Failure → State → Prop) : ω → Step α → Step α → Prop where
  | ret {w v : ω} {s s' : State} (a : α) :
      A.near w v → A.States v s s' → Steps lost w (.ret a s) (.ret a s')
  | fail {w v : ω} {f f' : Failure} {s s' : State} :
      A.near w v → A.seen f = A.seen f' → A.States v s s' →
      Steps lost w (.fail f s) (.fail f' s')
  | sub {w v : ω} {t t' : Task} {s s' : State} {k k' : Except Failure Outcome → State → Step α} :
      A.near w v → A.Tasks v t t' → A.States v s s' →
      (∀ r r' u s s', A.far v u → A.Results r r' → A.States u s s' →
        Steps lost u (k r s) (k' r' s')) →
      Steps lost w (.sub t s k) (.sub t' s' k')
  | wait {w v : ω} {s s' : State} {k k' : State → Step α} (d : Delay) :
      A.near w v → A.States v s s' →
      (∀ u s s', A.far v u → A.States u s s' → Steps lost u (k s) (k' s')) →
      Steps lost w (.wait d s k) (.wait d s' k')
  | lost {w : ω} {f : Failure} {s : State} {c' : Step α} : lost f s → Steps lost w (.fail f s) c'
  -- The first run takes the module as a task, the second one has its statements in place.
  | inline {w : ω} {name : String} {module : List Stmt} {scope : Nat} {s : State}
      {k : Except Failure Outcome → State → Step α} {c' : Step α} :
      A.modules name module → Steps lost w ((execAll scope module s).andThen k) c' →
      Steps lost w (.sub (.module module scope) s k) c'

/-- Two procedures that do the same in all states that belong together. -/
def Procs (lost : Failure → State → Prop) (w : ω) (p p' : Proc α) : Prop :=
  ∀ v s s', A.far w v → A.States v s s' → A.Steps lost v (p s) (p' s')

/-- The first run traces more, and a text was missing in its trace. -/
def Lost (_ : Failure) (s : State) : Prop := A.level < A.config.traceLevel ∧ s.torn = true

/-- A text was missing in the trace of the first run, and no handler can catch the failure. -/
def Breaks (f : Failure) (s : State) : Prop := ¬ f.IsRaised ∧ A.Lost f s

/-- The runs may differ only where no script can tell. -/
class Lawful (A : Accord ω) : Prop extends A.toScoping.Lawful where
  level_le : A.level ≤ A.config.traceLevel
  silent : A.keepsLines = false → A.config.traceLevel = 0
  provided {name : String} {module : List Stmt} : A.modules name module →
    A.config.traceLevel = 0 ∧ A.config.Provides name module ∧
      ∀ w s s', A.Outside w s s' → s.traced = none
  outside_of_near {v w : ω} {s s' : State} : A.near v w → A.Outside v s s' → A.Outside w s s'
  withHeap {w : ω} {s s' : State} (h h' : Heap) : A.Outside w s s' →
    A.Outside w { s with heap := h } { s' with heap := h' }
  print (text : String) : A.Admits fun w => ((), w.print text)
  environment {α : Type} (f : List (String × String) → α) :
    A.Admits fun w => (f w.environment, w)
  load (path : String) : A.Admits (A.config.loadFrom path)
  files {α : Type} : A.config.fileAccess = true → ∀ f : World → α × World, A.Admits f
  settle {w : ω} {s s' : State} : A.Outside w s s' → A.Outside w s.settle s'.settle
  trace {w : ω} {s s' : State} (line : String) : 0 < A.level → A.Outside w s s' →
    A.Outside w (s.trace line) (s'.trace line)
  tear {w : ω} {s s' : State} : 0 < A.level → A.Outside w s s' →
    A.Outside w s.tear s'.tear
  /-- The first run traces what the second one does not. -/
  traceFirst {w : ω} {s s' : State} (line : String) : A.level < A.config.traceLevel →
    A.Outside w s s' → A.Outside w (s.trace line) s'

variable {A} {u v w : ω} {s s' : State} {c c' : Step α} {p p' : Proc α} {q q' : Nat}
  {lost lost' : Failure → State → Prop}

/-! ## Failures and results -/

/-- Failures that are seen as the same one differ at most in the line of a raised value. -/
theorem seen_cases {f f' : Failure} (h : A.seen f = A.seen f') :
    f' = f ∨ ∃ v line line', f = .raised v line ∧ f' = .raised v line' := by
  unfold seen at h
  split at h
  · exact .inl h.symm
  · cases f <;> cases f' <;> simp_all [Failure.unlined]

theorem seen_atLine {f f' : Failure} {φ : Int → Int} (hf : A.seen f = A.seen f')
    (hφ : A.Relines φ) (line : Int) :
    A.seen (f.atLine line) = A.seen (f'.atLine (φ line)) := by
  unfold seen at *
  split
  · rename_i hkeeps
    simp_all [hφ hkeeps]
  · simp_all

theorem Results.refl (r : Except Failure α) : A.Results r r := by
  cases r with
  | ok a => exact .ok a
  | error f => exact .error rfl

/-- Runs that keep the lines have equal results. -/
theorem Results.eq {r r' : Except Failure α} (hr : A.Results r r')
    (hkeeps : A.keepsLines = true) : r' = r := by
  cases hr with
  | ok a => rfl
  | error hf =>
    simp only [seen, hkeeps, if_true] at hf
    rw [hf]

theorem Same.ofInlined {x : Part} {a b : x.Tree} (h : Inlined A.modules x a b) : A.Same x a b :=
  ⟨b, id, h, fun _ => rfl, (x.relined_id b).symm⟩

/-- Without modules that are written out, runs that keep the lines have the same programs. -/
theorem Same.eq {x : Part} {a b : x.Tree} (h : A.Same x a b) (hkeeps : A.keepsLines = true)
    (hnone : ∀ name module, ¬ A.modules name module) : b = a := by
  obtain ⟨c, φ, hc, hφ, rfl⟩ := h
  obtain rfl := hc.eq_of_no_modules hnone
  rw [hφ hkeeps, x.relined_id]

/-! ## Heaps, steps and procedures -/

variable {h h' : Heap}

theorem Heaps.resembles (hh : A.Heaps w h h') : h.Resembles h' where
  rest := hh.rest
  closure r := ⟨(hh.closure r).name, (hh.closure r).params⟩

theorem Heaps.aloof {f : Heap → α × Heap} (hf : Heap.Aloof f) (hh : A.Heaps w h h') :
    (f h').1 = (f h).1 ∧ A.Heaps w (f h).2 (f h').2 := by
  have hsame : f h' = ((f h).1, (f h).2.withCode h'.closures h'.scopes) := by
    rw [hh.rest]
    exact hf.apart h _ _
  rw [hsame]
  refine ⟨rfl, rfl, ?_, fun r => ?_, ?_⟩
  · rw [hf.closures]
    exact hh.size
  · have hr := hh.closure r
    rw [Heap.closure, ← hf.closures h] at hr
    exact hr
  · rw [hf.scopes]
    exact hh.scopes

theorem Heaps.newClosure (hh : A.Heaps w h h') {c c' : Closure} (hc : A.Closures w c c') :
    (h'.newClosure c').1 = (h.newClosure c).1 ∧
      A.Heaps w (h.newClosure c).2 (h'.newClosure c').2 := by
  refine ⟨hh.size, ?_, ?_, fun r => ?_, hh.scopes⟩
  · conv => lhs; rw [hh.rest]
    rfl
  · simp [Heap.newClosure, hh.size]
  · rw [Heap.closure_newClosure, Heap.closure_newClosure, hh.size]
    split
    · exact hc
    · exact hh.closure r

theorem Steps.mono (h : A.Steps lost w c c') (hlost : ∀ f s, lost f s → lost' f s) :
    A.Steps lost' w c c' := by
  induction h with
  | ret a hu hs => exact .ret a hu hs
  | fail hu hf hs => exact .fail hu hf hs
  | sub hu ht hs _ ih => exact .sub hu ht hs ih
  | wait d hu hs _ ih => exact .wait d hu hs ih
  | lost hf => exact .lost (hlost _ _ hf)
  | inline hm _ ih => exact .inline hm ih

/-- What depends on the settings has to be the same for those of the two runs. -/
theorem Procs.withConfig {f f' : Config → Proc α} (h : A.Procs lost w (f A.config) (f' A.config')) :
    A.Procs lost w (Proc.config >>= f) (Proc.config >>= f') := fun v s s' hv hs => by
  show A.Steps lost v (f s.config s) (f' s'.config s')
  rw [hs.config, hs.config']
  exact h v s s' hv hs

variable [A.Lawful]

theorem far_refl (w : ω) : A.far w w := far_of_near (near_refl w)

namespace Heaps

theorem withScopes (hh : A.Heaps w h h') (hv : A.far w v) {ss ss' : Array Scope}
    (hss : A.Scopes v ss ss') : A.Heaps v { h with scopes := ss } { h' with scopes := ss' } where
  rest := by
    conv => lhs; rw [hh.rest]
    rfl
  size := hh.size
  closure r := { hh.closure r with scope := views_of_far hv (hh.closure r).scope }
  scopes := hss

theorem define (hh : A.Heaps w h h') (hq : A.homes w q q') (x : String) (v : Value) :
    A.Heaps w (h.define q x v) (h'.define q' x v) :=
  hh.withScopes (far_refl w) (Scoping.Lawful.define x v hh.scopes hq)

theorem bindParams (hh : A.Heaps w h h') (hq : A.homes w q q') (params : List String)
    (args : List Value) :
    A.Heaps w (bindParams q params args h) (bindParams q' params args h') := by
  induction params generalizing args h h' with
  | nil => exact hh
  | cons x xs ih =>
    cases args with
    | nil => exact ih (hh.define hq x .null) []
    | cons v vs => exact ih (hh.define hq x v) vs

theorem newScope (hh : A.Heaps w h h') (hq : A.views w q q') :
    ∃ v, A.near w v ∧ A.homes v h.scopes.size h'.scopes.size ∧
      A.Heaps v (h.newScope (some q)).2 (h'.newScope (some q')).2 := by
  obtain ⟨v, hv, hn, hscopes⟩ := Scoping.Lawful.newScope hh.scopes hq
  exact ⟨v, hv, hn, hh.withScopes (far_of_near hv) hscopes⟩

theorem lookup (hh : A.Heaps w h h') (x : String) (hq : A.views w q q') :
    h'.lookup q' x = h.lookup q x := by
  have hresolve := Scoping.Lawful.resolve x hh.scopes hq
  unfold Heap.lookup
  generalize h.resolve q x = o at hresolve ⊢
  generalize h'.resolve q' x = o' at hresolve ⊢
  cases hresolve with
  | none => rfl
  | some hp => rw [Option.bind_some, Option.bind_some, Scoping.Lawful.vars hh.scopes hp]

end Heaps

theorem States.withHeap (hs : A.States w s s') (hv : A.near w v) {h h' : Heap}
    (hh : A.Heaps v h h') : A.States v { s with heap := h } { s' with heap := h' } :=
  { hs with
    heap := hh
    outside := Lawful.withHeap h h' (Lawful.outside_of_near hv hs.outside) }

theorem exists_settle (s : State) :
    ∃ d t, s.settle = { s with world := s.world.withDisk d, traced := t } := by
  unfold State.settle
  split
  · exact ⟨s.world.disk, s.traced, rfl⟩
  · exact ⟨_, _, rfl⟩

theorem States.settle (hs : A.States w s s') : A.States w s.settle s'.settle := by
  obtain ⟨d, t, hd⟩ := exists_settle s
  obtain ⟨d', t', hd'⟩ := exists_settle s'
  have houtside := Lawful.settle hs.outside
  rw [hd, hd'] at houtside ⊢
  exact { hs with outside := houtside }

/-! ## Steps -/

theorem Loops.mono {test test' step step' : Option Expr} {body body' : Stmt}
    (h : A.Loops w test step body q test' step' body' q') (hv : A.far w v) :
    A.Loops v test step body q test' step' body' q' :=
  { h with scope := homes_of_far hv h.scope }

theorem Tasks.mono {t t' : Task} (ht : A.Tasks w t t') (hv : A.far w v) : A.Tasks v t t' := by
  cases ht with
  | call f args => exact .call f args
  | loop h => exact .loop (h.mono hv)
  | module hq hbody => exact .module (homes_of_far hv hq) hbody

namespace Steps

theorem weaken (h : A.Steps lost v c c') (hv : A.near w v) : A.Steps lost w c c' := by
  induction h with
  | ret a hu hs => exact .ret a (near_trans hv hu) hs
  | fail hu hf hs => exact .fail (near_trans hv hu) hf hs
  | sub hu ht hs hk => exact .sub (near_trans hv hu) ht hs hk
  | wait d hu hs hk => exact .wait d (near_trans hv hu) hs hk
  | lost hf => exact .lost hf
  | inline hm _ ih => exact .inline hm (ih hv)

theorem andThen (h : A.Steps lost w c c') {f f' : Except Failure α → State → Step β}
    (hf : ∀ r r' v s s', A.far w v → A.Results r r' → A.States v s s' →
      A.Steps lost' v (f r s) (f' r' s'))
    (hlost : ∀ e s, lost e s → ∃ e' s', f (.error e) s = .fail e' s' ∧ lost' e' s') :
    A.Steps lost' w (c.andThen f) (c'.andThen f') := by
  induction h with
  | ret a hv hs => exact (hf _ _ _ _ _ (far_of_near hv) (.ok a) hs).weaken hv
  | fail hv he hs => exact (hf _ _ _ _ _ (far_of_near hv) (.error he) hs).weaken hv
  | sub hv ht hs _ ih =>
    refine .sub hv ht hs fun r r' u s s' hu hr hs => ih r r' u s s' hu hr hs ?_
    exact fun r r' x s s' hx => hf r r' x s s' (far_trans (far_trans (far_of_near hv) hu) hx)
  | wait d hv hs _ ih =>
    refine .wait d hv hs fun u s s' hu hs => ih u s s' hu hs fun r r' x s s' hx => ?_
    exact hf r r' x s s' (far_trans (far_trans (far_of_near hv) hu) hx)
  | lost he =>
    obtain ⟨e', s', hfail, he'⟩ := hlost _ _ he
    rw [Step.andThen_fail, hfail]
    exact .lost he'
  | inline hm _ ih =>
    have hsteps := ih hf
    rw [Step.andThen_andThen] at hsteps
    exact .inline hm hsteps

theorem bind (h : A.Steps lost w c c') {f f' : α → State → Step β}
    (hf : ∀ a v s s', A.far w v → A.States v s s' → A.Steps lost v (f a s) (f' a s')) :
    A.Steps lost w (c.bind f) (c'.bind f') := by
  rw [Step.bind_eq_andThen, Step.bind_eq_andThen]
  refine h.andThen (fun r r' v s s' hv hr hs => ?_) fun e s he => ⟨e, s, rfl, he⟩
  cases hr with
  | ok a => exact hf a v s s' hv hs
  | error he => exact .fail (near_refl v) he hs

end Steps

/-! ## Procedures -/

namespace Procs

theorem pure (a : α) : A.Procs lost w (pure a) (pure a) :=
  fun v _ _ _ hs => .ret a (near_refl v) hs

theorem bind {f f' : α → Proc β} (h : A.Procs lost w p p')
    (hf : ∀ a, A.Procs lost w (f a) (f' a)) : A.Procs lost w (p >>= f) (p' >>= f') :=
  fun v s s' hv hs =>
    (h v s s' hv hs).bind fun a u s s' hu hs => hf a u s s' (far_trans hv hu) hs

/-- Goes on after a result or a failure. Where the first run is lost, it has to stay so. -/
theorem attemptBind {f f' : Except Failure α → Proc β} (h : A.Procs lost w p p')
    (hf : ∀ r r', A.Results r r' → A.Procs lost' w (f r) (f' r'))
    (hlost : ∀ e s, lost e s → ∃ e' s', (f (.error e)).run s = .fail e' s' ∧ lost' e' s') :
    A.Procs lost' w (p.attempt >>= f) (p'.attempt >>= f') := fun v s s' hv hs => by
  show A.Steps lost' v ((p.attempt >>= f).run s) ((p'.attempt >>= f').run s')
  rw [Proc.run_attempt_bind, Proc.run_attempt_bind]
  refine (h v s s' hv hs).andThen (fun r r' u s s' hu hr hs => ?_) hlost
  exact hf r r' hr u s s' (far_trans hv hu) hs

theorem failWith {f f' : Failure} (hf : A.seen f = A.seen f') :
    A.Procs lost w (.failWith f : Proc α) (.failWith f') :=
  fun v _ _ _ hs => .fail (near_refl v) hf hs

theorem ofResult {r r' : Except Failure α} (hr : A.Results r r') :
    A.Procs lost w (.ofResult r) (.ofResult r') := by
  cases hr with
  | ok a => exact pure a
  | error hf => exact failWith hf

theorem onHeap {f : Heap → α × Heap} (hf : Heap.Aloof f) :
    A.Procs lost w (.onHeap f) (.onHeap f) := fun v s s' _ hs => by
  obtain ⟨hsame, hheap⟩ := hs.heap.aloof hf
  show A.Steps lost v (.ret (f s.heap).1 _) (.ret (f s'.heap).1 _)
  rw [hsame]
  exact .ret _ (near_refl v) (hs.withHeap (near_refl v) hheap)

theorem raiseError (name message : String) :
    A.Procs lost w (.raiseError name message : Proc α) (.raiseError name message) :=
  fun v s s' _ hs => by
    obtain ⟨hsame, hheap⟩ := hs.heap.aloof (Heap.aloof_newError name message)
    show A.Steps lost v (.fail (.raised (s.heap.newError name message).1 none) _)
      (.fail (.raised (s'.heap.newError name message).1 none) _)
    rw [hsame]
    exact .fail (near_refl v) rfl (hs.withHeap (near_refl v) hheap)

theorem onWorld {f : World → α × World} (hf : A.Admits f) :
    A.Procs lost w (.onWorld f) (.onWorld f) := fun v s s' _ hs => by
  obtain ⟨hsame, houtside⟩ := hf v s s' hs.outside
  show A.Steps lost v (.ret (f s.world).1 _) (.ret (f s'.world).1 _)
  rw [hsame]
  exact .ret _ (near_refl v) { hs with outside := houtside }

theorem ask {f : Heap → Except Trouble α} (hf : ∀ h h', h.Resembles h' → f h' = f h) :
    A.Procs lost w (.ask f) (.ask f) := fun v s s' _ hs => by
  show A.Steps lost v (Proc.ask f s) (Proc.ask f s')
  simp only [Proc.ask, hf _ _ hs.heap.resembles]
  cases f s.heap with
  | ok a => exact .ret a (near_refl v) hs
  | error t => exact .fail (near_refl v) rfl hs

/-- Goes on with what is read off the heaps, where it is not the same in both. -/
theorem readBind {R : ω → α → α → Prop} {f f' : Heap → α} {g g' : α → Proc β}
    (hf : ∀ v h h', A.far w v → A.Heaps v h h' → R v (f h) (f' h'))
    (hg : ∀ v a a', A.far w v → R v a a' → A.Procs lost v (g a) (g' a')) :
    A.Procs lost w (Proc.ask (fun h => .ok (f h)) >>= g) (Proc.ask (fun h => .ok (f' h)) >>= g') :=
  fun v s s' hv hs => hg v _ _ hv (hf v _ _ hv hs.heap) v s s' (far_refl v) hs

theorem perform {t t' : Task} (ht : A.Tasks w t t') :
    A.Procs lost w (.perform t) (.perform t') := fun v _ _ hv hs =>
  .sub (near_refl v) (ht.mono hv) hs fun _ _ u s s' _ hr hs =>
    ofResult (w := u) hr u s s' (far_refl u) hs

theorem wait (d : Delay) : A.Procs lost w (.wait d) (.wait d) := fun v _ _ _ hs =>
  .wait d (near_refl v) hs fun u _ _ _ hs => .ret () (near_refl u) hs

/-! ## Scopes and functions -/

/-- Goes on in a new scope in both runs. -/
theorem inner {f f' : Nat → Proc α} (hq : A.views w q q')
    (hf : ∀ v n n', A.far w v → A.homes v n n' → A.Procs lost v (f n) (f' n')) :
    A.Procs lost w (innerScope q >>= f) (innerScope q' >>= f') := fun v s s' hv hs => by
  obtain ⟨u, hu, hn, hheap⟩ := hs.heap.newScope (views_of_far hv hq)
  have hrest := hf u _ _ (far_trans hv (far_of_near hu)) hn
  exact (hrest u _ _ (far_refl u) (hs.withHeap hu hheap)).weaken hu

theorem define (hq : A.homes w q q') (x : String) (a : Value) :
    A.Procs lost w (.modifyHeap (·.define q x a)) (.modifyHeap (·.define q' x a)) :=
  fun v _ _ hv hs => by
    have hheap := hs.heap.define (homes_of_far hv hq) x a
    exact .ret () (near_refl v) (hs.withHeap (near_refl v) hheap)

theorem bindParams (hq : A.homes w q q') (params : List String) (args : List Value) :
    A.Procs lost w (.modifyHeap (bindParams q params args))
      (.modifyHeap (bindParams q' params args)) := fun v _ _ hv hs => by
  have hheap := hs.heap.bindParams (homes_of_far hv hq) params args
  exact .ret () (near_refl v) (hs.withHeap (near_refl v) hheap)

theorem makeClosure {body body' : List Stmt} (hq : A.views w q q')
    (hbody : A.Same .stmts body body') (name : String) (params : List String) :
    A.Procs lost w (makeClosure ⟨name, params, body, q⟩)
      (makeClosure ⟨name, params, body', q'⟩) := fun v s s' hv hs => by
  have hclosure : A.Closures v ⟨name, params, body, q⟩ ⟨name, params, body', q'⟩ :=
    ⟨rfl, rfl, views_of_far hv hq, hbody⟩
  obtain ⟨href, hheap⟩ := hs.heap.newClosure hclosure
  show A.Steps lost v (.ret (Value.fn (.closure _)) _) (.ret (Value.fn (.closure _)) _)
  rw [href]
  exact .ret _ (near_refl v) (hs.withHeap (near_refl v) hheap)

theorem readName (hq : A.views w q q') (x : String) :
    A.Procs lost w (readName q x) (readName q' x) := by
  refine readBind (R := fun _ o o' => o' = o)
    (fun v h h' hv hh => hh.lookup x (views_of_far hv hq)) fun v o o' _ ho => ?_
  subst ho
  cases o' with
  | some a => exact pure a
  | none => exact raiseError _ _

theorem writeName (hq : A.views w q q') (x : String) (a : Value) :
    A.Procs lost w (writeName q x a) (writeName q' x a) := by
  refine readBind (R := fun v => Option.Rel (A.homes v))
    (fun v h h' hv hh => Scoping.Lawful.resolve x hh.scopes (views_of_far hv hq))
    fun v o o' _ howner => ?_
  cases howner with
  | none => exact raiseError _ _
  | some howner => exact define howner x a

/-! ## Tracing -/

theorem settleTrace : A.Procs lost w .settleTrace .settleTrace :=
  fun v _ _ _ hs => .ret () (near_refl v) hs.settle

theorem note {level : Nat} (hlevel : 0 < level) {line line' : Heap → String}
    (hline : ∀ h h', h.Resembles h' → line' h' = line h) :
    A.Procs lost w (.trace level fun h => .ok (line h)) (.trace level fun h => .ok (line' h)) := by
  intro v s s' _ hs
  have hle : A.level ≤ A.config.traceLevel := Lawful.level_le
  simp only [Proc.trace, hs.config, hs.config', config', hline _ _ hs.heap.resembles]
  by_cases hfirst : A.config.traceLevel < level
  · rw [if_pos hfirst, if_pos (Nat.lt_of_le_of_lt hle hfirst)]
    exact .ret () (near_refl v) hs
  · rw [if_neg hfirst]
    by_cases hsecond : A.level < level
    · rw [if_pos hsecond]
      have houtside := Lawful.traceFirst (line s.heap) (by omega) hs.outside
      exact .ret () (near_refl v) { hs with outside := houtside }
    · rw [if_neg hsecond]
      have houtside := Lawful.trace (line s.heap) (by omega) hs.outside
      exact .ret () (near_refl v) { hs with outside := houtside }

/-- A line with the text of a value. If the text is missing, the runs fail as far as they trace. -/
theorem traceText {level : Nat} (hlevel : 0 < level) (line : String → String) (a : Value) :
    A.Procs A.Breaks w (.trace level fun h => do return line (← h.toText a))
      (.trace level fun h => do return line (← h.toText a)) := by
  intro v s s' hv hs
  have hsame := hs.heap.resembles.toText a
  cases htext : s.heap.toText a with
  | ok text =>
    have hrun (t : State) (ht : t.heap.toText a = .ok text) :
        Proc.trace level (fun h => do return line (← h.toText a)) t =
          Proc.trace level (fun _ => .ok (line text)) t := by
      simp only [Proc.trace, ht]
      rfl
    rw [hrun s htext, hrun s' (hsame.trans htext)]
    exact note hlevel (fun _ _ _ => rfl) v s s' hv hs
  | error t =>
    have hle : A.level ≤ A.config.traceLevel := Lawful.level_le
    have hraised : ¬ t.toFailure.IsRaised := by cases t <;> exact id
    simp only [Proc.trace, hs.config, hs.config', config', hsame, htext]
    by_cases hfirst : A.config.traceLevel < level
    · rw [if_pos hfirst, if_pos (Nat.lt_of_le_of_lt hle hfirst)]
      exact .ret () (near_refl v) hs
    · rw [if_neg hfirst]
      by_cases hsecond : A.level < level
      · exact .lost ⟨hraised, by omega, rfl⟩
      · rw [if_neg hsecond]
        have houtside := Lawful.tear (by omega) hs.outside
        exact .fail (near_refl v) rfl ⟨hs.config, hs.config', hs.heap, houtside⟩

/-- The lines of the trace may differ only where there is none. -/
theorem traceLine {level : Nat} (hlevel : 0 < level) {line line' : String}
    (hline : A.config.traceLevel = 0 ∨ line' = line) :
    A.Procs lost w (.trace level fun _ => .ok line) (.trace level fun _ => .ok line') := by
  obtain hsilent | rfl := hline
  · have hsilent' : A.level = 0 := Nat.le_zero.1 (hsilent ▸ Lawful.level_le)
    intro v s s' _ hs
    show A.Steps lost v ((Proc.trace level fun _ => .ok line).run s)
      ((Proc.trace level fun _ => .ok line').run s')
    rw [Proc.run_trace (hs.config ▸ hsilent) hlevel, Proc.run_trace (hs.config' ▸ hsilent') hlevel]
    exact .ret () (near_refl v) hs
  · exact note hlevel fun _ _ _ => rfl

/-! ## Procedures that leave scopes alone, and builtins -/

/-- What comes after the check of file access matters only if files may be used. -/
theorem afterFileAccess (h : A.config.fileAccess = true → A.Procs lost w p p') :
    A.Procs lost w (checkFileAccess >>= fun _ => p) (checkFileAccess >>= fun _ => p') := by
  intro v s s' hv hs
  cases haccess : A.config.fileAccess with
  | true =>
    have hcheck : A.Procs lost w checkFileAccess checkFileAccess := by
      refine withConfig ?_
      rw [config', haccess]
      exact settleTrace
    exact hcheck.bind (fun _ => h haccess) v s s' hv hs
  | false =>
    show A.Steps lost v (Proc.run _ s) (Proc.run _ s')
    rw [run_checkFileAccess_bind (hs.config ▸ haccess), run_checkFileAccess_bind
      (hs.config' ▸ haccess)]
    exact raiseError _ _ v s s' hv hs

/-- What leaves scopes alone does the same in both runs. -/
theorem ofScopeless [Holding α] {chance : Prop} {files : Bool} {p : Proc α}
    (hp : p.Scopeless chance files) (hchance : chance → A.AdmitsChance)
    (hfiles : files = true → A.config.fileAccess = true) : A.Procs lost w p p := by
  induction hp with
  | pure _ => exact pure _
  | bind _ _ ihp ihf => exact (ihp hfiles).bind fun a => ihf a (Holding.any a) hfiles
  | fault _ => exact failWith rfl
  | raise _ => exact failWith rfl
  | raiseErrorValue _ => exact raiseError _ _
  | exit code => exact failWith rfl
  | ask hf _ => exact ask hf
  | onHeap hf _ => exact onHeap hf
  | print text => exact onWorld (Lawful.print text)
  | environment _ => exact onWorld (Lawful.environment _)
  | byChance h hf _ => exact onWorld (hchance h hf)
  | withFiles _ => exact onWorld (Lawful.files (hfiles rfl) _)
  | whenAllowed _ ih => exact afterFileAccess fun haccess => ih fun _ => haccess
  | config hsame _ ih =>
    refine withConfig ?_
    rw [config', hsame A.config A.level]
    exact ih _ hfiles
  | fetchSource path => exact withConfig (settleTrace.bind fun _ => onWorld (Lawful.load path))
  | note line hlevel hline => exact note hlevel hline
  | call f _ => exact perform (.call f _)
  | wait _ => exact wait _

theorem scopeless [Holding α] (hp : p.Scopeless False false) : A.Procs lost w p p :=
  ofScopeless hp (fun h => h.elim) (by simp)

theorem builtinFailWith (b : Builtin) {e e' : Failure} (he : A.seen e = A.seen e') :
    A.Procs lost w (b.failWith e : Proc α) (b.failWith e') := by
  rcases seen_cases he with rfl | ⟨v, line, line', rfl, rfl⟩
  · unfold Builtin.failWith
    split
    · split
      · exact raiseError _ _
      · exact failWith rfl
    · exact failWith rfl
  · exact failWith he

theorem builtinCall (b : Builtin) (args : List Value)
    (hb : b.isChancy = true → A.AdmitsChance) : A.Procs lost w (b.call args) (b.call args) := by
  -- Nothing is lost inside of a builtin, as it does not trace.
  have hrun₀ : (b.run args).Scopeless (b.isChancy = true) false := .builtinRun b args
  have hrun : A.Procs (fun _ _ => False) w (b.run args) (b.run args) :=
    ofScopeless hrun₀ hb (by simp)
  refine hrun.attemptBind (fun r r' hr => ?_) fun _ _ h => h.elim
  cases hr with
  | error he => exact builtinFailWith b he
  | ok v => exact scopeless (.builtinAdopt v)

end Procs

/-! ## Runs with the same scopes -/

section Same

omit [A.Lawful]

variable (hsame : A.toScoping = .same ω)

include hsame

theorem Heaps.refl (h : Heap) : A.Heaps w h h where
  rest := rfl
  size := rfl
  closure r := ⟨rfl, rfl, by rw [hsame]; exact rfl, .ofInlined (.reflStmts _)⟩
  scopes := by rw [hsame]; exact rfl

theorem Closures.scope_eq {c c' : Closure} (hc : A.Closures w c c') : c'.scope = c.scope := by
  have hscope := hc.scope
  rwa [hsame] at hscope

theorem Heaps.rest_eq (hh : A.Heaps w h h') : h' = h.withClosures h'.closures := by
  have hscopes := hh.scopes
  rw [hsame] at hscopes
  have hrest := hh.rest
  rwa [show h'.scopes = h.scopes from hscopes] at hrest

theorem Heaps.ext_closure {f : Closure → Closure} (hh : A.Heaps w h h')
    (hf : ∀ c c', A.Closures w c c' → f c' = f c) :
    h'.withClosures (h'.closures.map f) = h.withClosures (h.closures.map f) := by
  have hclosures : h'.closures.map f = h.closures.map f := by
    refine Array.ext (by simpa using hh.size) fun r hr hr' => ?_
    have hr₁ : r < h.closures.size := by simpa using hr'
    have hr₁' : r < h'.closures.size := by simpa using hr
    simpa [Heap.closure, Array.getD, hr₁, hr₁'] using hf _ _ (hh.closure r)
  rw [hclosures, hh.rest_eq hsame]
  rfl

/-- Runs with the same programs have equal heaps. -/
theorem Heaps.eq (hh : A.Heaps w h h') (hkeeps : A.keepsLines = true)
    (hnone : ∀ name module, ¬ A.modules name module) : h' = h := by
  have hext := hh.ext_closure hsame (f := id) fun c c' hc => by
    have hbody := hc.body.eq hkeeps hnone
    have hscope := hc.scope_eq hsame
    obtain ⟨hname, hparams, -, -⟩ := hc
    cases c
    cases c'
    simp_all
  rw [Array.map_id, Array.map_id] at hext
  exact hext

end Same

/-! ## Runs that do not trace -/

section Silent

/-- Runs that do not trace, in worlds that are in a relation. -/
def silent (c : Config) (keepsLines : Bool) (modules : String → List Stmt → Prop)
    (worlds : ω → World → World → Prop) : Accord ω where
  toScoping := .same ω
  config := c
  level := c.traceLevel
  keepsLines := keepsLines
  modules := modules
  Outside w s s' := worlds w s.world s'.world ∧ s.traced = none ∧ s'.traced = none ∧
    s'.torn = s.torn

variable {c : Config} {keepsLines : Bool} {modules : String → List Stmt → Prop}
  {worlds : ω → World → World → Prop}

theorem admits_silent {f : World → α × World} (hf : ∀ w, Respects (worlds w) f) :
    (silent c keepsLines modules worlds).Admits f := by
  rintro w s s' ⟨hworld, htraced⟩
  obtain ⟨hsame, hworld⟩ := hf w _ _ hworld
  exact ⟨hsame, hworld, htraced⟩

theorem lawful_silent (hsilent : c.traceLevel = 0)
    (hprint : ∀ w text, Respects (worlds w) fun x => ((), x.print text))
    (henvironment : ∀ w x x', worlds w x x' → x'.environment = x.environment)
    (hload : ∀ w path, Respects (worlds w) (c.loadFrom path))
    (hfiles : c.fileAccess = true → ∀ w, worlds w = Eq)
    (hmodules : ∀ name module, modules name module → c.Provides name module) :
    (silent c keepsLines modules worlds).Lawful where
  toLawful := inferInstanceAs (Scoping.same ω).Lawful
  level_le := Nat.le_refl _
  silent _ := hsilent
  provided hm := ⟨hsilent, hmodules _ _ hm, fun _ _ _ h => h.2.1⟩
  outside_of_near := by
    rintro _ _ _ _ rfl h
    exact h
  withHeap _ _ h := h
  print text := admits_silent fun w => hprint w text
  environment f := admits_silent fun w x x' hx => ⟨by rw [henvironment w x x' hx], hx⟩
  load path := admits_silent fun w => hload w path
  files haccess f := admits_silent fun w => hfiles haccess w ▸ respects_eq f
  settle := by
    rintro w s s' ⟨hworld, htraced, htraced', htorn⟩
    simp only [State.settle, htraced, htraced']
    exact ⟨hworld, htraced, htraced', htorn⟩
  trace _ h := absurd hsilent (Nat.ne_of_gt h)
  tear h := absurd hsilent (Nat.ne_of_gt h)
  traceFirst _ h := absurd h (Nat.lt_irrefl _)

end Silent

end Accord

end Hantec
