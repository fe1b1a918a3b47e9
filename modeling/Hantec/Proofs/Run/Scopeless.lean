import Hantec.Proofs.Clock
import Hantec.Proofs.Policy.Basic
import Hantec.Proofs.Run.Proc

/-!
# Procedures that leave scopes alone

A procedure is scopeless if it is made of steps that look at no scope and no body of a function,
leave the scopes as they are, remove no array, fail without a line, and use files only where a
script may. All that builtins do is scopeless, and so is what evaluation does apart from running the
parts of a program, looking names up and binding them. Such a procedure may keep to a policy too:
from values that may be around it makes such values only, and the faults that it brings up are those
of the policy, or soft ones.
-/

namespace Hantec

variable {α β : Type}

namespace World

def withDisk (w : World) (d : Disk) : World := { w with disk := d }

/-- What neither looks at the disk nor touches it. -/
def IgnoresDisk (f : World → α × World) : Prop :=
  ∀ w d, f (w.withDisk d) = ((f w).1, (f w).2.withDisk d)

theorem ignoresDisk_readClock : IgnoresDisk readClock := fun _ _ => rfl

theorem ignoresDisk_random : IgnoresDisk random := fun _ _ => rfl

theorem ignoresDisk_randomHex (n : Nat) : IgnoresDisk (randomHex · n) := by
  induction n with
  | zero => exact fun _ _ => rfl
  | succ n ih =>
    intro w d
    simp only [randomHex, ignoresDisk_random w d, ih (random w).2 d]

theorem ignoresDisk_randomId : IgnoresDisk randomId := by
  intro w d
  simp only [randomId, ignoresDisk_randomHex _ _ d, ignoresDisk_random _ d]

end World

/-- What is done to worlds in a relation has the same result and keeps the relation. -/
def Respects (R : World → World → Prop) (f : World → α × World) : Prop :=
  ∀ w w', R w w' → (f w').1 = (f w).1 ∧ R (f w).2 (f w').2

theorem respects_eq (f : World → α × World) : Respects Eq f := by
  rintro w w' rfl
  exact ⟨rfl, rfl⟩

/-- What the loader does, with the result first. -/
def Config.loadFrom (c : Config) (path : String) (w : World) :
    Except LoadError String × World :=
  let (w, r) := c.loader.load path w
  (r, w)

/-- Asks the loader for a source, with the trace on the disk. -/
def fetchSource (path : String) : Proc (Except LoadError String) := do
  let config ← Proc.config
  Proc.settleTrace
  Proc.onWorld (config.loadFrom path)

/-- The source that the loader has, or what it throws. -/
def sourceOf (path : String) : Except LoadError String → Proc String
  | .ok source => pure source
  | .error (.thrown d) => do Proc.raise (← Proc.onHeap (·.build d))
  | .error (.fault f) => Proc.raiseError "ImportError" s!"cannot load '{path}': {f.message}"

/-- Waits until the loader answers. -/
def awaitLoader (path : String) : Proc Unit := do
  Proc.waitAll ((← Proc.config).loader.waits path)

theorem loadSource_eq (path : String) :
    loadSource path = awaitLoader path >>= fun _ => fetchSource path >>= sourceOf path := by
  funext s
  show Step.bind _ _ = Step.bind _ _
  rfl

/-- Whether a builtin depends on the clock or on chance. -/
def Builtin.isChancy : Builtin → Bool
  | .core .now | .math .random | .math .randomBetween | .time .now | .time .measure
  | .crypto .uuid => true
  | _ => false

/-- Without access to files, nothing comes after the check. -/
theorem run_checkFileAccess_bind {s : State} (h : s.config.fileAccess = false) (p : Proc α) :
    (checkFileAccess >>= fun _ => p).run s = (Proc.raiseError "CapabilityError"
      "filesystem access is disabled (run with --unsafe-fs)").run s := by
  simp [checkFileAccess, h]

/-- A fault that becomes an error value inside of a builtin, and that builtins come to by
themselves: not the one of a value from outside. -/
structure Fault.IsSoft (f : Fault) : Prop where
  named : f.errorName?.isSome = true
  ne_notAValue : ∀ shape, f ≠ .notAValue shape

/-- What a procedure can return, with the values in it. -/
class Holding (α : Type) where
  All : (Value → Prop) → α → Prop
  all : ∀ {V : Value → Prop}, (∀ v, V v) → ∀ a, All V a

namespace Holding

/-- Most data hold no values. -/
instance (priority := low) : Holding α := ⟨fun _ _ => True, fun _ _ => trivial⟩

instance : Holding Value := ⟨fun V v => V v, fun h v => h v⟩

instance : Holding Outcome := ⟨fun V o => V o.value, fun h o => h o.value⟩

instance [Holding α] : Holding (List α) := ⟨fun V as => ∀ a ∈ as, All V a, fun h _ a _ => all h a⟩

instance [Holding α] [Holding β] : Holding (α × β) :=
  ⟨fun V p => All V p.1 ∧ All V p.2, fun h p => ⟨all h p.1, all h p.2⟩⟩

instance : Holding (String × Value) := ⟨fun V e => V e.2, fun h e => h e.2⟩

instance : Holding (Dict Value) := ⟨fun V d => d.All V, fun h _ e _ => h e.2⟩

instance : Holding (Except LoadError String) :=
  ⟨fun V r => ∀ d, r = .error (.thrown d) → d.Fits V, fun h _ d _ => d.fits h⟩

/-- Nothing is asked of values by the policy that everything is in keeping with. -/
theorem any [Holding α] (a : α) : All Policy.free.value a := all (fun _ => trivial) a

end Holding

namespace Proc

/-- Made of steps that neither look at scopes and bodies of functions nor touch them, and that keep
to the policy. What depends on the clock or on chance is there only if `chance` holds, and what
depends on the disk only where files may be used: after a check, or anywhere if `files` says so. -/
inductive Abides (P : Policy) (soft : Fault → Prop) (chance : Prop) :
    Bool → {α : Type} → [Holding α] → Proc α → Prop where
  | pure {files : Bool} {α : Type} [Holding α] {a : α} :
      Holding.All P.value a → Abides P soft chance files (Pure.pure a : Proc α)
  | bind {files : Bool} {α β : Type} [Holding α] [Holding β] {p : Proc α} {f : α → Proc β} :
      Abides P soft chance files p →
      (∀ a, Holding.All P.value a → Abides P soft chance files (f a)) →
      Abides P soft chance files (p >>= f)
  | fault {files : Bool} {α : Type} [Holding α] {f : Fault} :
      P.fault f ∨ soft f → Abides P soft chance files (Proc.fault f : Proc α)
  | raise {files : Bool} {α : Type} [Holding α] {v : Value} :
      P.value v → Abides P soft chance files (Proc.raise v : Proc α)
  | raiseErrorValue {files : Bool} {α : Type} [Holding α] {name message : String} :
      (∀ id, P.value (.err id name message)) →
      Abides P soft chance files (Proc.raiseError name message : Proc α)
  | exit {files : Bool} {α : Type} [Holding α] (code : Int) :
      Abides P soft chance files (Proc.failWith (.exit code) : Proc α)
  | ask {files : Bool} {α : Type} [Holding α] {f : Heap → Except Trouble α} :
      (∀ h h', h.Resembles h' → f h' = f h) →
      (∀ h, P.Holds h → P.Grants soft (Holding.All P.value) (f h)) →
      Abides P soft chance files (Proc.ask f)
  | onHeap {files : Bool} {α : Type} [Holding α] {f : Heap → α × Heap} :
      Heap.Aloof f → (∀ h, P.Holds h → Holding.All P.value (f h).1 ∧ P.Holds (f h).2) →
      Abides P soft chance files (Proc.onHeap f)
  | print {files : Bool} (text : String) : Abides P soft chance files (Proc.print text)
  | environment {files : Bool} {α : Type} [Holding α] {f : List (String × String) → α} :
      (∀ env, Holding.All P.value (f env)) →
      Abides P soft chance files (Proc.onWorld fun w => (f w.environment, w))
  | byChance {files : Bool} {α : Type} [Holding α] {f : World → α × World} :
      chance → World.IgnoresDisk f → (∀ w, Holding.All P.value (f w).1) →
      Abides P soft chance files (Proc.onWorld f)
  | withFiles {α : Type} [Holding α] {f : World → α × World} :
      (∀ w, Holding.All P.value (f w).1) → Abides P soft chance true (Proc.onWorld f)
  | whenAllowed {files : Bool} {α : Type} [Holding α] {p : Proc α} :
      Abides P soft chance true p → Abides P soft chance files (checkFileAccess >>= fun _ => p)
  | config {files : Bool} {α : Type} [Holding α] {f : Config → Proc α} :
      (∀ c level, f { c with traceLevel := level } = f c) →
      (∀ c, Abides P soft chance files (f c)) → Abides P soft chance files (Proc.config >>= f)
  | fetchSource {files : Bool} (path : String) : Abides P soft chance files (fetchSource path)
  | note {files : Bool} {level : Nat} (line : Heap → String) :
      0 < level → (∀ h h', h.Resembles h' → line h' = line h) →
      Abides P soft chance files (Proc.trace level fun h => .ok (line h))
  | call {files : Bool} (f : Callable) {args : List Value} :
      (∀ v ∈ args, P.value v) → Abides P soft chance files (Proc.perform (.call f args))
  | wait {files : Bool} {d : Delay} : 0 ≤ d.length → Abides P soft chance files (Proc.wait d)

/-- What a builtin does by itself: it abides by the policy but for soft faults. -/
abbrev Works (P : Policy) (chance : Prop) (files : Bool) [Holding α] (p : Proc α) : Prop :=
  p.Abides P Fault.IsSoft chance files

/-- Made of steps that neither look at scopes and bodies of functions nor touch them. -/
abbrev Scopeless (chance : Prop) (files : Bool) [Holding α] (p : Proc α) : Prop :=
  p.Works .free chance files

namespace Abides

variable {P : Policy} {A : Nat → String → Prop} {soft : Fault → Prop} {chance : Prop}
  {files : Bool} [Holding α] [Holding β] {p : Proc α} {v : Value} {args : List Value}

theorem modifyHeap {f : Heap → Heap} (hf : Heap.Aloof fun h => ((), f h))
    (hh : ∀ h, P.Holds h → P.Holds (f h)) : Abides P soft chance files (.modifyHeap f) :=
  onHeap hf fun h hheap => ⟨trivial, hh h hheap⟩

/-- What can always be read off a heap. -/
theorem get {f : Heap → α} (hf : ∀ h h', h.Resembles h' → f h' = f h)
    (hall : ∀ h, P.Holds h → Holding.All P.value (f h)) :
    Abides P soft chance files (.ask fun h => .ok (f h)) :=
  ask (fun h h' hh => congrArg _ (hf h h' hh)) hall

theorem ofExcept {r : Except Fault α} (hok : ∀ a, r = .ok a → Holding.All P.value a)
    (herror : ∀ f, r = .error f → P.fault f ∨ soft f) :
    Abides P soft chance files (.ofExcept r) := by
  cases r with
  | ok a => exact pure (hok a rfl)
  | error f => exact fault (herror f rfl)

theorem performCall (f : Callable) (hargs : ∀ v ∈ args, P.value v) :
    Abides P soft chance files (do return (← Proc.perform (.call f args)).value) :=
  (call f hargs).bind fun _ ho => pure ho

theorem tracedCall (f : Callable) (hargs : ∀ v ∈ args, P.value v) :
    Abides P soft chance files (do
      Proc.trace 3 fun h => .ok s!"call {h.callableText f} with {args.length} arguments"
      return (← Proc.perform (.call f args)).value) := by
  refine (note _ (by decide) fun h h' hh => ?_).bind fun _ _ => performCall f hargs
  rw [hh.callableText]

theorem waitAll {ds : List Delay} (hds : ∀ d ∈ ds, 0 ≤ d.length) :
    Abides P soft chance files (Proc.waitAll ds) := by
  induction ds with
  | nil => exact pure trivial
  | cons d ds ih =>
    exact (wait (hds d (by simp))).bind fun _ _ => ih fun d hd => hds d (List.mem_cons_of_mem _ hd)

theorem awaitLoader (path : String) : Abides P soft chance files (awaitLoader path) :=
  config (fun _ _ => rfl) fun c => waitAll fun _ => c.loader.zero_le_of_mem_waits

variable [P.Lawful]

/-- What abides by a policy keeps to it and brings no names to any scope. -/
theorem runs (hp : p.Abides P soft chance files) : P.Runs A soft p (Holding.All P.value) := by
  induction hp with
  | pure ha => exact .pure ha
  | bind _ _ ihp ihf => exact ihp.bind ihf
  | fault hf => exact .fault hf
  | raise hv => exact .raise hv
  | raiseErrorValue hv => exact .raiseErrorValue hv
  | exit code => exact .failWith trivial
  | ask _ hf => exact .ask hf
  | onHeap haloof hf =>
    refine .onHeap fun h hh => ⟨(hf h hh).1, (hf h hh).2, ?_⟩
    exact .of_scopes_eq (haloof.scopes h) (haloof.grows h)
  | print text => exact .print text
  | environment hf => exact .onWorld fun w => hf w.environment
  | byChance _ _ hf => exact .onWorld hf
  | withFiles hf => exact .onWorld hf
  | whenAllowed _ ih =>
    refine Policy.Runs.bind (Q := fun _ => True) ?_ fun _ _ => ih
    refine Policy.Runs.config.bind fun c _ => ?_
    split
    · exact .settleTrace
    · exact .raiseError (by decide) _
  | config _ _ ih => exact Policy.Runs.config.bind fun c _ => ih c
  | fetchSource path =>
    refine Policy.Runs.config.bind fun c hc => Policy.Runs.settleTrace.bind fun _ _ => ?_
    subst hc
    refine .onWorld fun w d hd => Policy.Lawful.thrown path w (P.config.loadFrom path w).2 d ?_
    exact Prod.ext rfl hd
  | note line _ _ => exact .traceLine _ line
  | call f hargs =>
    refine (Policy.Runs.perform (t := .call f _) hargs fun _ _ hx => hx.elim).mono
      (fun _ _ hx => hx) fun o ho => ho.value
  | wait hd => exact .wait hd

/-- A value that programs can make. -/
theorem plain (hv : v.IsPlain) : Abides P soft chance files (Pure.pure v) :=
  pure (Policy.Lawful.plain v hv)

/-- What is returned is a value that programs can make. -/
theorem gives {f : α → Value} (hp : p.Abides P soft chance files) (hf : ∀ a, (f a).IsPlain) :
    Abides P soft chance files (p >>= fun a => Pure.pure (f a)) :=
  hp.bind fun a _ => plain (hf a)

theorem raiseError {name : String} (hname : name ≠ "ControlError") (message : String) :
    Abides P soft chance files (.raiseError name message : Proc α) :=
  raiseErrorValue fun id => Policy.Lawful.error id name message hname

theorem toText (hv : P.value v) : Abides P soft chance files (.toText v) :=
  ask (fun _ _ hh => hh.toText v) fun _ hh => .toText hh hv

theorem toNumber (hv : P.value v) : Abides P soft chance files (.toNumber v) :=
  ask (fun _ _ hh => hh.toNumber v) fun _ hh => .toNumber hh hv

theorem isTruthy (hv : P.value v) : Abides P soft chance files (.isTruthy v) := by
  refine ofExcept (fun _ _ => trivial) fun f hf => .inl ?_
  cases v <;> cases hf <;> exact Policy.Lawful.foreign _ _ hv rfl

theorem typeName (hv : P.value v) : Abides P soft chance files (.typeName v) := by
  refine ofExcept (fun _ _ => trivial) fun f hf => .inl ?_
  cases v
  case bool b => cases b <;> cases hf
  all_goals
    cases hf
    try exact Policy.Lawful.foreign _ _ hv rfl

theorem newArray {items : List Value} (hitems : ∀ v ∈ items, P.value v) :
    Abides P soft chance files (.newArray items) :=
  onHeap ⟨fun _ _ _ => rfl, (Heap.aloof_newArray _).grows⟩ fun _ hh =>
    ⟨Policy.Lawful.plain _ trivial, hh.newArray hitems⟩

theorem newObject {d : Dict Value} (hd : d.All P.value) :
    Abides P soft chance files (.newObject d) :=
  onHeap ⟨fun _ _ _ => rfl, (Heap.aloof_newObject _).grows⟩ fun _ hh =>
    ⟨Policy.Lawful.plain _ trivial, hh.newObject hd⟩

/-! ## The parts of evaluation -/

theorem literal (place : List Nat) {t : Tree} (ht : t.Fits P.value) :
    Abides P soft chance files (.onHeap (·.literal place t)) := by
  refine onHeap (Heap.aloof_literal place t) fun h hh => ?_
  unfold Heap.literal
  split
  · rename_i v hv
    obtain ⟨before, after, hsplit, -⟩ := List.lookup_eq_some_iff.mp hv
    exact ⟨hh.literals (place, v) (by simp [hsplit]), hh⟩
  · obtain ⟨hv, hh'⟩ := Policy.holds_buildTree Policy.Lawful.plain t ht hh
    exact ⟨hv, { hh' with literals := List.forall_mem_cons.mpr ⟨hv, hh'.literals⟩ }⟩

theorem callable (hv : P.value v) : Abides P soft chance files (callable v) := by
  unfold Hantec.callable
  split
  · exact pure trivial
  · exact (typeName hv).bind fun _ _ => raiseError (by decide) _

theorem invoke (hv : P.value v) (hargs : ∀ v ∈ args, P.value v) :
    Abides P soft chance files (invoke v args) :=
  (callable hv).bind fun f _ => performCall f hargs

theorem callValue (hv : P.value v) (hargs : ∀ v ∈ args, P.value v) :
    Abides P soft chance files (callValue v args) := by
  refine (callable hv).bind fun f _ => ?_
  refine (get (fun _ _ hh => hh.callableArity f) fun _ _ => trivial).bind fun arity _ => ?_
  cases arity with
  | none => exact tracedCall f hargs
  | some n =>
    dsimp only
    split
    · refine (get (fun _ _ hh => hh.callableName f) fun _ _ => trivial).bind fun name _ => ?_
      exact (raiseError (by decide) _).bind fun _ _ => tracedCall f hargs
    · exact tracedCall f hargs

theorem numberOp (op : BinaryOp) (a b : Float) : Abides P soft chance files (numberOp op a b) := by
  unfold Hantec.numberOp
  split
  case h_10 => exact raiseError (by decide) _
  all_goals exact plain trivial

theorem binaryOp (op : BinaryOp) {l r : Value} (hl : P.value l) (hr : P.value r) :
    Abides P soft chance files (binaryOp op l r) := by
  unfold Hantec.binaryOp
  split
  · split
    · exact (toText hl).bind fun _ _ => (toText hr).gives fun _ => trivial
    · exact (toNumber hl).bind fun _ _ => (toNumber hr).gives fun _ => trivial
  · exact plain trivial
  · exact plain trivial
  · exact (toNumber hl).bind fun a _ => (toNumber hr).bind fun b _ => numberOp _ a b

theorem unaryOp (op : UnaryOp) (hv : P.value v) : Abides P soft chance files (unaryOp op v) := by
  cases op with
  | not => exact (isTruthy hv).gives fun _ => trivial
  | neg => exact (toNumber hv).gives fun _ => trivial
  | other text => exact raiseError (by decide) _

theorem member (target : Value) (name : String) :
    Abides P soft chance files (member target name) := by
  unfold Hantec.member
  split
  case h_1 r =>
    refine get (fun _ _ hh => by rw [hh.object]) fun _ hh => ?_
    exact (hh.object _).getD name (Policy.Lawful.plain _ trivial)
  case h_2 r =>
    split
    · exact get (fun _ _ hh => by rw [hh.array]) fun _ _ => Policy.Lawful.plain _ trivial
    · exact plain trivial
  case h_3 =>
    refine plain ?_
    split <;> trivial
  case h_4 =>
    refine plain ?_
    split
    · trivial
    · split <;> trivial
  case h_5 => exact plain trivial

theorem loadSource (path : String) : Abides P soft chance files (loadSource path) := by
  rw [loadSource_eq]
  refine (awaitLoader path).bind fun _ _ => (fetchSource path).bind fun r hr => ?_
  rcases r with (d | f) | source
  · refine (onHeap (Heap.aloof_build d) fun h hh => ?_).bind fun v hv => raise hv
    exact Policy.holds_build Policy.Lawful.plain d (hr d rfl) hh
  · exact raiseError (by decide) _
  · exact pure trivial

theorem loadModule (path : String) : Abides P soft chance files (loadModule path) := by
  refine (note _ (by decide) fun _ _ _ => rfl).bind fun _ _ => ?_
  refine (loadSource path).bind fun source _ => config (fun _ _ => rfl) fun c => ?_
  split
  · exact raiseError (by decide) _
  · split
    · exact pure fun _ _ => trivial
    · exact raiseError (by decide) _

end Abides

end Proc

end Hantec
