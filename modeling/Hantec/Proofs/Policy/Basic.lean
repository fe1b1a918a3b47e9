import Hantec.Proofs.Clock
import Hantec.Proofs.Policy.Heap
import Hantec.Proofs.Policy.Static
import Hantec.Proofs.Run.Heap

/-!
# Policies

A policy says which values and functions may be around in a run and which faults may end it. A run
keeps to a policy if all its states hold such values only, whatever its tasks come to, as long as
these keep to the policy too. The same view of a run tells which names it brings to which scopes,
for how long it waits, and how it can end. What is shown here of the steps that all runs are made of
is used for whole runs later.
-/

namespace Hantec

variable {α β : Type}

mutual

/-- The values made from the tree satisfy the predicate, if all plain values do. -/
def Tree.Fits (V : Value → Prop) : Tree → Prop
  | .node k _ => ∀ id, V (.node id k)
  | .int n => ∀ id, V (.int id n)
  | .list ts => Tree.allFit V ts
  | _ => True

def Tree.allFit (V : Value → Prop) : List Tree → Prop
  | [] => True
  | t :: ts => t.Fits V ∧ Tree.allFit V ts

end

mutual

/-- The values made from the datum satisfy the predicate, if all plain values do. -/
def Datum.Fits (V : Value → Prop) : Datum → Prop
  | .error name message => ∀ id, V (.err id name message)
  | .int n => ∀ id, V (.int id n)
  | .list ds => Datum.allFit V ds
  | .tuple ds => Datum.allFit V ds ∧ ∀ vs, (∀ v ∈ vs, V v) → V (.tuple vs)
  | .record es => Datum.entriesFit V es
  | _ => True

def Datum.allFit (V : Value → Prop) : List Datum → Prop
  | [] => True
  | d :: ds => d.Fits V ∧ Datum.allFit V ds

def Datum.entriesFit (V : Value → Prop) : List (String × Datum) → Prop
  | [] => True
  | (_, d) :: es => d.Fits V ∧ Datum.entriesFit V es

end

mutual

/-- If numbers and nodes satisfy the predicate, all values made from trees do. -/
theorem Tree.fits {V : Value → Prop} (hnode : ∀ id k, V (.node id k))
    (hint : ∀ id n, V (.int id n)) : (t : Tree) → t.Fits V
  | .node k _ => fun id => hnode id k
  | .int n => fun id => hint id n
  | .list ts => Tree.all_fit hnode hint ts
  | .null | .bool _ | .num _ | .str _ => trivial

theorem Tree.all_fit {V : Value → Prop} (hnode : ∀ id k, V (.node id k))
    (hint : ∀ id n, V (.int id n)) : (ts : List Tree) → Tree.allFit V ts
  | [] => trivial
  | t :: ts => ⟨t.fits hnode hint, Tree.all_fit hnode hint ts⟩

end

mutual

theorem Datum.fits {V : Value → Prop} (hV : ∀ v, V v) : (d : Datum) → d.Fits V
  | .error _ _ | .int _ => fun _ => hV _
  | .list ds => Datum.all_fit hV ds
  | .tuple ds => ⟨Datum.all_fit hV ds, fun _ _ => hV _⟩
  | .record es => Datum.entries_fit hV es
  | .null | .bool _ | .num _ | .str _ | .builtin _ => trivial

theorem Datum.all_fit {V : Value → Prop} (hV : ∀ v, V v) : (ds : List Datum) → Datum.allFit V ds
  | [] => trivial
  | d :: ds => ⟨d.fits hV, Datum.all_fit hV ds⟩

theorem Datum.entries_fit {V : Value → Prop} (hV : ∀ v, V v) :
    (es : List (String × Datum)) → Datum.entriesFit V es
  | [] => trivial
  | (_, d) :: es => ⟨d.fits hV, Datum.entries_fit hV es⟩

end

namespace State

theorem config_settle (s : State) : s.settle.config = s.config := by
  unfold settle
  split <;> rfl

theorem heap_settle (s : State) : s.settle.heap = s.heap := by
  unfold settle
  split <;> rfl

/-- A fresh run starts with its configuration and with builtins only. -/
theorem of_start {c : Config} {w : World} {s : State} (hs : State.start c w = .ok s) :
    s.config = c ∧ s.heap = .initial := by
  unfold State.start at hs
  split at hs
  · cases hs
    exact ⟨rfl, rfl⟩
  · cases hd : w.disk.writeBytes Trace.file [] with
    | error e => simp [hd, bind, Except.bind] at hs
    | ok disk =>
      simp only [hd, bind, Except.bind, pure, Except.pure, Except.ok.injEq] at hs
      subst hs
      exact ⟨rfl, rfl⟩

end State

structure Policy where
  config : Config
  /-- The values that may be around. -/
  value : Value → Prop
  /-- The faults that may end a run. -/
  fault : Fault → Prop
  /-- The bodies that functions may have. -/
  body : List Stmt → Prop

namespace Policy

variable (P : Policy)

/-- The signals that can leave the statements are such that a function can have them as its
body: a return, or another one if its error may be around. -/
def Tame (body : List Stmt) : Prop :=
  ∀ s ∈ body, ∀ σ, s.Signals P.config.Loads σ →
    σ = .returned ∨ ∀ id message, P.value (.err id "ControlError" message)

def rules : Rules := ⟨Tree.Fits P.value, P.fault, P.body⟩

/-- The body of a function that may be around. -/
def Body (body : List Stmt) : Prop := P.body body ∧ stmtsObey P.rules body

def Holds (h : Heap) : Prop := h.Holds P.value P.Body

/-- A state of a run that keeps to the policy. -/
structure Admits (s : State) : Prop where
  config : s.config = P.config
  heap : P.Holds s.heap

/-- A failure that may come up where the faults in `soft` may come up too. -/
def Tolerates (soft : Fault → Prop) : Failure → Prop
  | .raised v _ => P.value v
  | .fault f => P.fault f ∨ soft f
  | .exit _ | .overflow => True

def Allows (S : Signal → Prop) : Outcome → Prop
  | .normal => True
  | .returned v => S .returned ∧ P.value v
  | .broke => S .broke
  | .continued => S .continued

/-- What the values, the functions, the loader and the modules of a run have to be like. -/
class Lawful (P : Policy) : Prop where
  plain : ∀ v : Value, v.IsPlain → P.value v
  error : ∀ id name message, name ≠ "ControlError" → P.value (.err id name message)
  tuple : ∀ vs, P.value (.tuple vs) → ∀ v ∈ vs, P.value v
  foreign : ∀ (v : Value) shape, P.value v → v.foreign? = some shape → P.fault (.notAValue shape)
  tooLarge : P.fault .tooLarge
  empty : P.body []
  tame : ∀ body, P.body body → P.Tame body
  thrown : ∀ path w w' d, P.config.loader.load path w = (w', .error (.thrown d)) → d.Fits P.value
  modules : ∀ module, P.config.Loads module → stmtsObey P.rules module

end Policy

/-! ## Values made from trees -/

namespace Policy

variable {V : Value → Prop} {B : List Stmt → Prop}

mutual

theorem holds_buildTree (hplain : ∀ v : Value, v.IsPlain → V v) :
    (t : Tree) → t.Fits V → ∀ {h : Heap}, h.Holds V B →
      V (h.buildTree t).1 ∧ (h.buildTree t).2.Holds V B
  | .null, _, _, hh | .bool _, _, _, hh | .num _, _, _, hh | .str _, _, _, hh =>
    ⟨hplain _ trivial, hh⟩
  | .node _ _, ht, _, hh | .int _, ht, _, hh => ⟨ht _, { hh with }⟩
  | .list ts, ht, _, hh => by
    obtain ⟨hvs, hh'⟩ := holds_buildTrees hplain ts ht hh
    exact ⟨hplain _ trivial, hh'.newArray hvs⟩

theorem holds_buildTrees (hplain : ∀ v : Value, v.IsPlain → V v) :
    (ts : List Tree) → Tree.allFit V ts → ∀ {h : Heap}, h.Holds V B →
      (∀ v ∈ (h.buildTrees ts).1, V v) ∧ (h.buildTrees ts).2.Holds V B
  | [], _, _, hh => ⟨fun _ hv => (List.not_mem_nil hv).elim, hh⟩
  | t :: ts, ht, _, hh => by
    obtain ⟨hv, hh'⟩ := holds_buildTree hplain t ht.1 hh
    obtain ⟨hvs, hh''⟩ := holds_buildTrees hplain ts ht.2 hh'
    exact ⟨List.forall_mem_cons.mpr ⟨hv, hvs⟩, hh''⟩

end

mutual

theorem holds_build (hplain : ∀ v : Value, v.IsPlain → V v) :
    (d : Datum) → d.Fits V → ∀ {h : Heap}, h.Holds V B →
      V (h.build d).1 ∧ (h.build d).2.Holds V B
  | .null, _, _, hh | .bool _, _, _, hh | .num _, _, _, hh | .str _, _, _, hh
  | .builtin _, _, _, hh => ⟨hplain _ trivial, hh⟩
  | .error _ _, hd, _, hh | .int _, hd, _, hh => ⟨hd _, { hh with }⟩
  | .list ds, hd, _, hh => by
    obtain ⟨hvs, hh'⟩ := holds_buildAll hplain ds hd hh
    exact ⟨hplain _ trivial, hh'.newArray hvs⟩
  | .tuple ds, hd, _, hh => by
    obtain ⟨hvs, hh'⟩ := holds_buildAll hplain ds hd.1 hh
    exact ⟨hd.2 _ hvs, hh'⟩
  | .record es, hd, _, hh => by
    obtain ⟨hvs, hh'⟩ := holds_buildEntries hplain es hd hh
    exact ⟨hplain _ trivial, hh'.newObject (.ofList hvs)⟩

theorem holds_buildAll (hplain : ∀ v : Value, v.IsPlain → V v) :
    (ds : List Datum) → Datum.allFit V ds → ∀ {h : Heap}, h.Holds V B →
      (∀ v ∈ (h.buildAll ds).1, V v) ∧ (h.buildAll ds).2.Holds V B
  | [], _, _, hh => ⟨fun _ hv => (List.not_mem_nil hv).elim, hh⟩
  | d :: ds, hd, _, hh => by
    obtain ⟨hv, hh'⟩ := holds_build hplain d hd.1 hh
    obtain ⟨hvs, hh''⟩ := holds_buildAll hplain ds hd.2 hh'
    exact ⟨List.forall_mem_cons.mpr ⟨hv, hvs⟩, hh''⟩

theorem holds_buildEntries (hplain : ∀ v : Value, v.IsPlain → V v) :
    (es : List (String × Datum)) → Datum.entriesFit V es → ∀ {h : Heap}, h.Holds V B →
      (∀ e ∈ (h.buildEntries es).1, V e.2) ∧ (h.buildEntries es).2.Holds V B
  | [], _, _, hh => ⟨fun _ hv => (List.not_mem_nil hv).elim, hh⟩
  | (_, d) :: es, hd, _, hh => by
    obtain ⟨hv, hh'⟩ := holds_build hplain d hd.1 hh
    obtain ⟨hvs, hh''⟩ := holds_buildEntries hplain es hd.2 hh'
    exact ⟨List.forall_mem_cons.mpr ⟨hv, hvs⟩, hh''⟩

end

end Policy

/-! ## Tasks -/

namespace Task

/-- The names that a task may bring to scopes. -/
def adds (modules : List Stmt → Prop) : Task → Nat → String → Prop
  | .call _ _ => Heap.noNames
  | .loop _ _ body scope => fun q x => q = scope ∧ body.Declares modules x
  | .module body scope => fun q x => q = scope ∧ ∃ s ∈ body, s.Declares modules x

/-- The signals that a task may end with. -/
def Signals (modules : List Stmt → Prop) : Task → Signal → Prop
  | .call _ _ => fun σ => σ = .returned
  | .loop _ _ body _ => fun σ => σ = .returned ∧ body.Signals modules .returned
  | .module body _ => fun σ => ∃ s ∈ body, s.Signals modules σ

end Task

namespace Policy

variable (P : Policy)

/-- A task that may be started. -/
def Accepts : Task → Prop
  | .call _ args => ∀ v ∈ args, P.value v
  | .loop test step body _ =>
    optionalExprObeys P.rules test ∧ optionalExprObeys P.rules step ∧ body.Obeys P.rules
  | .module body _ => stmtsObey P.rules body

/-- How what was begun in the state `s` may end: no array has gone, names have come only where `A`
lets them, and a result satisfies `Q`. -/
structure Ends (A : Nat → String → Prop) (soft : Fault → Prop) (Q : α → Prop) (s : State)
    (r : Except Failure α) (s' : State) : Prop where
  admits : P.Admits s'
  grows : s.heap.Grows A s'.heap
  ok : ∀ a, r = .ok a → Q a
  error : ∀ f, r = .error f → P.Tolerates soft f

def hard : Fault → Prop := fun _ => False

/-- How a task may end that was started in the state `s`. -/
def TaskEnds (t : Task) : State → Except Failure Outcome → State → Prop :=
  P.Ends (t.adds P.config.Loads) hard (P.Allows (t.Signals P.config.Loads))

/-- A step that keeps to the policy and ends as `Q` says, whatever its tasks come to and whatever
becomes of the world while it waits. -/
inductive Meets (Q : Except Failure α → State → Prop) : Step α → Prop where
  | ret {a : α} {s : State} : Q (.ok a) s → Meets Q (.ret a s)
  | fail {f : Failure} {s : State} : Q (.error f) s → Meets Q (.fail f s)
  | sub {t : Task} {s : State} {k : Except Failure Outcome → State → Step α} :
      P.Accepts t → P.Admits s → (∀ r s', P.TaskEnds t s r s' → Meets Q (k r s')) →
      Meets Q (.sub t s k)
  | wait {d : Delay} {s : State} {k : State → Step α} :
      0 ≤ d.length → (∀ w, Meets Q (k { s with world := w })) → Meets Q (.wait d s k)

/-- A procedure that keeps to the policy. -/
def Runs (A : Nat → String → Prop) (soft : Fault → Prop) (p : Proc α) (Q : α → Prop) : Prop :=
  ∀ s, P.Admits s → P.Meets (P.Ends A soft Q s) (p s)

variable {P} {A A' : Nat → String → Prop} {soft : Fault → Prop} {Q : α → Prop}
  {R : Except Failure α → State → Prop} {R' : Except Failure β → State → Prop} {c : Step α}
  {s s₁ s' : State} {r : Except Failure α} {p : Proc α}

theorem Tolerates.of_hard {f : Failure} (h : P.Tolerates hard f) : P.Tolerates soft f := by
  cases f with
  | fault f => exact .inl (h.resolve_right id)
  | raised | exit | overflow => exact h

/-! ## Steps -/

theorem Meets.andThen (h : P.Meets R c) {f : Except Failure α → State → Step β}
    (hf : ∀ r s, R r s → P.Meets R' (f r s)) : P.Meets R' (c.andThen f) := by
  induction h with
  | ret hq => exact hf _ _ hq
  | fail hq => exact hf _ _ hq
  | sub ht hs _ ih => exact .sub ht hs ih
  | wait hd _ ih => exact .wait hd ih

theorem Meets.bind (h : P.Meets R c) {f : α → State → Step β}
    (hok : ∀ a s, R (.ok a) s → P.Meets R' (f a s))
    (herror : ∀ e s, R (.error e) s → R' (.error e) s) : P.Meets R' (c.bind f) := by
  induction h with
  | ret hq => exact hok _ _ hq
  | fail hq => exact .fail (herror _ _ hq)
  | sub ht hs _ ih => exact .sub ht hs ih
  | wait hd _ ih => exact .wait hd ih

theorem Meets.mono (h : P.Meets R c) {R' : Except Failure α → State → Prop}
    (hR : ∀ r s, R r s → R' r s) : P.Meets R' c := by
  induction h with
  | ret hq => exact .ret (hR _ _ hq)
  | fail hq => exact .fail (hR _ _ hq)
  | sub ht hs _ ih => exact .sub ht hs ih
  | wait hd _ ih => exact .wait hd ih

theorem Admits.withHeap (hs : P.Admits s) {h : Heap} (hh : P.Holds h) :
    P.Admits { s with heap := h } :=
  ⟨hs.config, hh⟩

theorem Admits.withWorld (hs : P.Admits s) (w : World) : P.Admits { s with world := w } :=
  ⟨hs.config, hs.heap⟩

theorem Admits.trace (hs : P.Admits s) (line : String) : P.Admits (s.trace line) :=
  ⟨hs.config, hs.heap⟩

theorem Admits.tear (hs : P.Admits s) : P.Admits s.tear := ⟨hs.config, hs.heap⟩

theorem Ends.result (hs : P.Admits s') (hA : s.heap.Grows A s'.heap) {a : α} (ha : Q a) :
    P.Ends A soft Q s (.ok a) s' where
  admits := hs
  grows := hA
  ok _ h := Except.ok.inj h ▸ ha
  error _ h := nomatch h

theorem Ends.failure (hs : P.Admits s') (hA : s.heap.Grows A s'.heap) {f : Failure}
    (hf : P.Tolerates soft f) : P.Ends A soft Q s (.error f) s' where
  admits := hs
  grows := hA
  ok _ h := nomatch h
  error _ h := Except.error.inj h ▸ hf

theorem Ends.after (h : P.Ends A soft Q s₁ r s') (hA : s.heap.Grows A s₁.heap) :
    P.Ends A soft Q s r s' :=
  { h with grows := hA.trans h.grows fun _ _ _ hx => hx }

/-! ## Reading values -/

/-- What is read off a heap satisfies `Q`, or the reason why it cannot be read is tolerated. -/
def Grants (P : Policy) (soft : Fault → Prop) (Q : α → Prop) : Except Trouble α → Prop
  | .ok a => Q a
  | .error t => P.Tolerates soft t.toFailure

namespace Grants

theorem bind {x : Except Trouble α} {f : α → Except Trouble β} {Q' : β → Prop}
    (hx : P.Grants soft Q x) (hf : ∀ a, Q a → P.Grants soft Q' (f a)) :
    P.Grants soft Q' (x >>= f) := by
  cases x with
  | ok a => exact hf a hx
  | error t => exact hx

theorem mapM {xs : List β} {f : β → Except Trouble α} (hf : ∀ x ∈ xs, P.Grants soft Q (f x)) :
    P.Grants soft (fun ys => ∀ y ∈ ys, Q y) (xs.mapM f) := by
  induction xs with
  | nil => exact fun _ hy => (List.not_mem_nil hy).elim
  | cons x xs ih =>
    rw [List.forall_mem_cons] at hf
    rw [List.mapM_cons]
    refine hf.1.bind fun y hy => (ih hf.2).bind fun ys hys => ?_
    exact List.forall_mem_cons.mpr ⟨hy, hys⟩

variable {h : Heap} {v : Value}

/-- The text of a value can be read, unless it holds values from outside or itself. -/
theorem textWithin (hforeign : ∀ (v : Value) shape, P.value v → v.foreign? = some shape →
    P.fault (.notAValue shape)) (harrays : ∀ r, ∀ v ∈ (h.array r).toList, P.value v) (n : Nat)
    (hv : P.value v) :
    P.Grants soft (fun _ => True) (h.textWithin n v) := by
  induction n generalizing v with
  | zero =>
    cases v
    case int | tuple | node => exact .inl (hforeign _ _ hv rfl)
    all_goals trivial
  | succ n ih =>
    cases v
    case int | tuple | node => exact .inl (hforeign _ _ hv rfl)
    case arr r =>
      refine Grants.bind (mapM (Q := fun _ => True) fun w hw => ?_) fun _ _ => trivial
      split
      · trivial
      · exact ih (harrays r _ hw)
    all_goals trivial

/-- A value that has no text is none of the language or contains itself. -/
theorem foreign_of_toText {f : Fault} (hf : h.toText v = .error (.fault f)) :
    ∃ shape, f = .notAValue shape := by
  let P : Policy :=
    ⟨⟨.absent, true, 0, false, []⟩, fun _ => True, fun f => ∃ shape, f = .notAValue shape,
      fun _ => True⟩
  have hforeign (shape : String) : P.fault (.notAValue shape) := ⟨shape, rfl⟩
  have hread : P.Grants hard (fun _ => True) (h.toText v) :=
    textWithin (fun _ shape _ _ => hforeign shape) (fun _ _ _ => trivial) _ trivial
  rw [hf] at hread
  exact hread.elim id False.elim

variable [P.Lawful]

theorem toText (hh : P.Holds h) (hv : P.value v) : P.Grants soft (fun _ => True) (h.toText v) :=
  textWithin Lawful.foreign hh.array _ hv

theorem numberOfText (x : String) : P.Grants soft (fun _ => True) (Heap.numberOfText x) := by
  unfold Heap.numberOfText
  split
  · trivial
  · exact .inl Lawful.tooLarge

theorem toNumber (hh : P.Holds h) (hv : P.value v) :
    P.Grants soft (fun _ => True) (h.toNumber v) := by
  cases v
  case str x => exact numberOfText x
  case arr r => exact (toText hh hv).bind fun x _ => numberOfText x
  case int | tuple | node => exact .inl (Lawful.foreign _ _ hv rfl)
  all_goals trivial

theorem toIndex (hh : P.Holds h) (hv : P.value v) :
    P.Grants soft (fun _ => True) (h.toIndex v) :=
  (toNumber hh hv).bind fun _ _ => trivial

theorem displayWithin (hh : P.Holds h) (n : Nat) (nested : Bool) (hv : P.value v) :
    P.Grants soft (fun _ => True) (h.displayWithin n nested v) := by
  induction n generalizing nested v with
  | zero =>
    cases v
    case str | arr | obj => trivial
    all_goals exact toText hh hv
  | succ n ih =>
    cases v
    case str => trivial
    case arr r =>
      exact Grants.bind (mapM fun w hw => ih true (hh.array r w hw)) fun _ _ => trivial
    case obj r =>
      refine Grants.bind (mapM (Q := fun _ => True) fun e he => ?_) fun _ _ => trivial
      exact (ih true (hh.object r e he)).bind fun _ _ => trivial
    all_goals exact toText hh hv

theorem display (hh : P.Holds h) (hv : P.value v) :
    P.Grants soft (fun _ => True) (h.display v) :=
  displayWithin hh _ _ hv

theorem pairEntries (hh : P.Holds h) {vs : List Value} (hvs : ∀ v ∈ vs, P.value v) :
    P.Grants soft (fun es => ∀ e ∈ es, P.value e.2) (h.pairEntries vs) := by
  fun_induction Heap.pairEntries h vs with
  | case1 => exact fun _ he => (List.not_mem_nil he).elim
  | case2 k =>
    refine (toText hh (hvs k (by simp))).bind fun key _ => ?_
    exact List.forall_mem_singleton.mpr (Lawful.plain _ trivial)
  | case3 k v rest ih =>
    simp only [List.forall_mem_cons] at hvs
    refine (toText hh hvs.1).bind fun key _ => (ih hvs.2.2).bind fun es hes => ?_
    exact List.forall_mem_cons.mpr ⟨hvs.2.1, hes⟩

end Grants

/-! ## Procedures -/

namespace Runs

theorem pure {a : α} (ha : Q a) : P.Runs A soft (pure a) Q :=
  fun _ hs => .ret (.result hs (.refl _) ha)

theorem bind {f : α → Proc β} {Q' : β → Prop} (h : P.Runs A soft p Q)
    (hf : ∀ a, Q a → P.Runs A soft (f a) Q') : P.Runs A soft (p >>= f) Q' := by
  intro s hs
  refine (h s hs).bind (fun a s₁ h₁ => ?_) fun e s₁ h₁ => ?_
  · exact (hf a (h₁.ok a rfl) s₁ h₁.admits).mono fun _ _ h' => h'.after h₁.grows
  · exact .failure h₁.admits h₁.grows (h₁.error e rfl)

theorem mono {Q' : α → Prop} (h : P.Runs A' soft p Q') (hA : ∀ q x, A' q x → A q x)
    (hQ : ∀ a, Q' a → Q a) : P.Runs A soft p Q := fun s hs =>
  (h s hs).mono fun _ _ h' =>
    ⟨h'.admits, h'.grows.mono fun q x _ hx => hA q x hx, fun a ha => hQ a (h'.ok a ha), h'.error⟩

/-- The result or the failure of what has been run. -/
def Result (P : Policy) (soft : Fault → Prop) (Q : α → Prop) : Except Failure α → Prop
  | .ok a => Q a
  | .error f => P.Tolerates soft f

theorem attempt (h : P.Runs A soft p Q) {soft' : Fault → Prop} :
    P.Runs A soft' p.attempt (Result P soft Q) := by
  intro s hs
  refine (h s hs).andThen fun r s' h' => .ret (.result h'.admits h'.grows ?_)
  cases r with
  | ok a => exact h'.ok a rfl
  | error f => exact h'.error f rfl

theorem failWith {f : Failure} (hf : P.Tolerates soft f) : P.Runs A soft (.failWith f) Q :=
  fun _ hs => .fail (.failure hs (.refl _) hf)

theorem ofResult {r : Except Failure α} (hr : Result P soft Q r) :
    P.Runs A soft (.ofResult r) Q := by
  cases r with
  | ok a => exact pure hr
  | error f => exact failWith hr

theorem fault {f : Fault} (hf : P.fault f ∨ soft f) : P.Runs A soft (.fault f) Q := failWith hf

theorem raise {v : Value} (hv : P.value v) : P.Runs A soft (.raise v) Q := failWith hv

theorem config : P.Runs A soft .config (· = P.config) :=
  fun _ hs => .ret (.result hs (.refl _) hs.config)

theorem onHeap {f : Heap → α × Heap}
    (hf : ∀ h, P.Holds h → Q (f h).1 ∧ P.Holds (f h).2 ∧ h.Grows A (f h).2) :
    P.Runs A soft (.onHeap f) Q := fun s hs =>
  have ⟨ha, hh, hA⟩ := hf s.heap hs.heap
  .ret (.result (hs.withHeap hh) hA ha)

theorem modifyHeap {f : Heap → Heap} (hf : ∀ h, P.Holds h → P.Holds (f h) ∧ h.Grows A (f h)) :
    P.Runs A soft (.modifyHeap f) fun _ => True := fun s hs =>
  have ⟨hh, hA⟩ := hf s.heap hs.heap
  .ret (.result (hs.withHeap hh) hA trivial)

theorem onWorld {f : World → α × World} (hf : ∀ w, Q (f w).1) :
    P.Runs A soft (.onWorld f) Q := by
  intro s hs
  have hsame : s.heap.Grows A s.heap := .refl _
  exact .ret (.result (hs.withWorld (f s.world).2) hsame (hf s.world))

theorem ask {f : Heap → Except Trouble α} (hf : ∀ h, P.Holds h → P.Grants soft Q (f h)) :
    P.Runs A soft (.ask f) Q := by
  intro s hs
  show P.Meets _ (Proc.ask f s)
  have hread := hf s.heap hs.heap
  unfold Proc.ask
  cases hr : f s.heap with
  | ok a => exact .ret (.result hs (.refl _) (hr ▸ hread :))
  | error t => exact .fail (.failure hs (.refl _) (hr ▸ hread :))

/-- What can always be read off a heap. -/
theorem get {f : Heap → α} (hf : ∀ h, P.Holds h → Q (f h)) :
    P.Runs A soft (.ask fun h => .ok (f h)) Q :=
  ask hf

theorem task {t : Task} (ht : P.Accepts t) (hA : ∀ q x, t.adds P.config.Loads q x → A q x) :
    P.Runs A soft (.task t) (Result P soft (P.Allows (t.Signals P.config.Loads))) := by
  intro s hs
  refine .sub ht hs fun r s' h' => .ret (.result h'.admits (h'.grows.mono fun q x _ => hA q x) ?_)
  cases r with
  | ok o => exact h'.ok o rfl
  | error f => exact (h'.error f rfl).of_hard

theorem perform {t : Task} (ht : P.Accepts t) (hA : ∀ q x, t.adds P.config.Loads q x → A q x) :
    P.Runs A soft (.perform t) (P.Allows (t.Signals P.config.Loads)) :=
  (task ht hA).bind fun _ hr => ofResult hr

theorem wait {d : Delay} (hd : 0 ≤ d.length) : P.Runs A soft (.wait d) fun _ => True := by
  intro s hs
  have hsame : s.heap.Grows A s.heap := .refl _
  exact .wait hd fun w => .ret (.result (hs.withWorld w) hsame trivial)

theorem trace (level : Nat) {line : Heap → Except Trouble String}
    (hline : ∀ h, P.Holds h → P.Grants soft (fun _ => True) (line h)) :
    P.Runs A soft (.trace level line) fun _ => True := by
  intro s hs
  have hsame : s.heap.Grows A s.heap := .refl _
  have hread := hline s.heap hs.heap
  unfold Proc.trace
  split
  · exact .ret (.result hs hsame trivial)
  · cases hr : line s.heap with
    | ok text => exact .ret (.result (hs.trace text) hsame trivial)
    | error t => exact .fail (.failure hs.tear hsame (hr ▸ hread :))

/-- A line of a trace that does not depend on values. -/
theorem traceLine (level : Nat) (line : Heap → String) :
    P.Runs A soft (.trace level fun h => .ok (line h)) fun _ => True :=
  trace level fun _ _ => trivial

theorem settleTrace : P.Runs A soft .settleTrace fun _ => True := by
  intro s hs
  refine .ret (.result ⟨s.config_settle.trans hs.config, ?_⟩
    (by rw [s.heap_settle]; exact .refl _) trivial)
  rw [s.heap_settle]
  exact hs.heap

theorem print (text : String) : P.Runs A soft (.print text) fun _ => True :=
  onWorld fun _ => trivial

theorem raiseErrorValue {name message : String} (hv : ∀ id, P.value (.err id name message)) :
    P.Runs A soft (.raiseError name message) Q := by
  intro s hs
  have hs' := hs.withHeap (hs.heap.newError name message)
  have hsame : s.heap.Grows A (s.heap.newError name message).2 := .of_scopes_eq rfl (Nat.le_refl _)
  exact .fail (.failure hs' hsame (hv s.heap.nextId))

/-- What is run in a new scope may bring any names to that one. -/
theorem inner (scope : Nat) {f : Nat → Proc α}
    (hf : ∀ new, P.Runs (fun q _ => q = new) soft (f new) Q) :
    P.Runs A soft (innerScope scope >>= f) Q := by
  intro s hs
  have hs₁ := hs.withHeap (hs.heap.newScope (some scope))
  refine (hf s.heap.scopes.size _ hs₁).mono fun r s' h' => { h' with grows := ?_ }
  refine Heap.Grows.trans ⟨Heap.adds_newScope s.heap (some scope), Nat.le_refl _⟩ h'.grows
    fun q x hq hx => ?_
  exact absurd hx (Nat.ne_of_lt hq)

end Runs

theorem Allows.value [P.Lawful] {S : Signal → Prop} {o : Outcome} (ho : P.Allows S o) :
    P.value o.value := by
  cases o with
  | returned v => exact ho.2
  | normal | broke | continued => exact Lawful.plain _ trivial

namespace Runs

variable [P.Lawful]

theorem raiseError {name : String} (hname : name ≠ "ControlError") (message : String) :
    P.Runs A soft (.raiseError name message) Q :=
  raiseErrorValue fun id => Lawful.error id name message hname

theorem newClosure {c : Closure} (hc : P.Body c.body) :
    P.Runs A soft
      (.onHeap fun h => (Value.fn (.closure (h.newClosure c).1), (h.newClosure c).2)) P.value :=
  onHeap fun _ hh => ⟨Lawful.plain _ trivial, hh.newClosure hc, .of_scopes_eq rfl (Nat.le_refl _)⟩

end Runs

/-! ## Any run -/

/-- The policy that every run with the configuration keeps to. -/
def any (c : Config) : Policy := ⟨c, fun _ => True, fun _ => True, fun _ => True⟩

theorem allowsAll_any (c : Config) : (any c).rules.AllowsAll where
  literal := Tree.fits (fun _ _ => trivial) fun _ _ => trivial
  fault _ := trivial
  body _ := trivial

instance (c : Config) : (any c).Lawful where
  plain _ _ := trivial
  error _ _ _ _ := trivial
  tuple _ _ _ _ := trivial
  foreign _ _ _ _ := trivial
  tooLarge := trivial
  empty := trivial
  tame _ _ _ _ _ _ := .inr fun _ _ => trivial
  thrown _ _ _ d _ := d.fits fun _ => trivial
  modules module _ := stmts_obey (allowsAll_any c) module

theorem holds_any (c : Config) (h : Heap) : (any c).Holds h where
  arrays _ _ _ _ _ := trivial
  objects _ _ _ _ _ := trivial
  scopes _ _ _ _ _ := trivial
  literals _ _ := trivial
  closures _ f _ := ⟨trivial, stmts_obey (allowsAll_any c) f.body⟩

theorem admits_any (s : State) : (any s.config).Admits s := ⟨rfl, holds_any s.config s.heap⟩

/-- A policy with which everything is in keeping. -/
abbrev free : Policy := any ⟨.absent, true, 0, false, []⟩

end Policy

end Hantec
