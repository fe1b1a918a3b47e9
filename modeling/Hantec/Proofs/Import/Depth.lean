import Hantec.Proofs.Import

/-!
# Imports take a place among the open calls

A function that calls itself through an import gets only half as deep as one that calls itself in
place, as the module is open too while the call is. So a program that counts its open calls
tells an import from its statements.
-/

namespace Hantec

/-! ## Names in nested scopes -/

namespace Heap

/-- The global scope binds names as the dictionary does. -/
def Global (h : Heap) (vars : Dict Value) : Prop := h.scopes[0]? = some ⟨none, vars⟩

/-- A scope directly inside of the global one that binds no name. -/
def IsBare (h : Heap) (scope : Nat) : Prop :=
  0 < scope ∧ h.scopes[scope]? = some ⟨some 0, .empty⟩

variable {h : Heap} {vars : Dict Value} {scope : Nat}

theorem Global.resolveWithin (hg : h.Global vars) (x : String) (n : Nat) :
    h.resolveWithin x (n + 1) 0 = if vars.contains x then some 0 else none := by
  simp only [Heap.resolveWithin, show h.scopes[0]? = _ from hg]

theorem Global.resolve_bare (hg : h.Global vars) (hb : h.IsBare scope) (x : String) :
    h.resolve scope x = if vars.contains x then some 0 else none := by
  obtain ⟨hpos, hscope⟩ := hb
  obtain ⟨n, rfl⟩ : ∃ n, scope = n + 1 := ⟨scope - 1, by omega⟩
  rw [resolve, Heap.resolveWithin, hscope]
  exact hg.resolveWithin x n

theorem Global.lookup_of_resolve (hg : h.Global vars) {x : String}
    (hr : h.resolve scope x = if vars.contains x then some 0 else none) :
    h.lookup scope x = vars.get? x := by
  rw [lookup, hr]
  cases hx : vars.get? x with
  | none => simp [Dict.contains, hx]
  | some v => simp [Dict.contains, hx, show h.scopes[0]? = some _ from hg]

theorem Global.lookup (hg : h.Global vars) (x : String) : h.lookup 0 x = vars.get? x :=
  hg.lookup_of_resolve (hg.resolveWithin x 0)

theorem Global.lookup_bare (hg : h.Global vars) (hb : h.IsBare scope) (x : String) :
    h.lookup scope x = vars.get? x :=
  hg.lookup_of_resolve (hg.resolve_bare hb x)

theorem Global.define (hg : h.Global vars) (x : String) (v : Value) :
    (h.define 0 x v).Global (vars.put x v) := by
  simp [Global, Heap.define, Array.getElem?_modify, show h.scopes[0]? = _ from hg]

theorem Global.newScope (hg : h.Global vars) (p : Option Nat) :
    (h.newScope p).2.Global vars :=
  getElem?_push_of_some hg _

theorem Global.isBare_newScope (hg : h.Global vars) :
    (h.newScope (some 0)).2.IsBare (h.newScope (some 0)).1 := by
  refine ⟨(Array.getElem?_eq_some_iff.1 hg).1, ?_⟩
  simp [Heap.newScope]

theorem IsBare.define (hb : h.IsBare scope) (x : String) (v : Value) :
    (h.define 0 x v).IsBare scope := by
  refine ⟨hb.1, ?_⟩
  simp [Heap.define, Array.getElem?_modify, Nat.ne_of_lt hb.1, hb.2]

end Heap

/-! ## Steps that ask for a task -/

namespace Step

variable {α β : Type} {c : Step α} {t : Task} {s : State}

/-- A step asks for a task first, and passes on what is raised there. -/
def Asks (c : Step α) (t : Task) (s : State) : Prop :=
  ∃ k, c = .sub t s k ∧ ∀ v l s, ∃ l', k (.error (.raised v l)) s = .fail (.raised v l') s

theorem Asks.bind (h : c.Asks t s) (f : α → State → Step β) : (c.bind f).Asks t s := by
  obtain ⟨k, rfl, hk⟩ := h
  refine ⟨_, rfl, fun v l s => ?_⟩
  obtain ⟨l', hl⟩ := hk v l s
  exact ⟨l', by rw [hl]; rfl⟩

/-- What follows has to pass on what is raised. -/
theorem Asks.andThen (h : c.Asks t s) {f : Except Failure α → State → Step β}
    (hf : ∀ v l s, ∃ l', f (.error (.raised v l)) s = .fail (.raised v l') s) :
    (c.andThen f).Asks t s := by
  obtain ⟨k, rfl, hk⟩ := h
  refine ⟨_, rfl, fun v l s => ?_⟩
  obtain ⟨l', hl⟩ := hk v l s
  rw [hl]
  exact hf v l' s

end Step

theorem run_callValue {s : State} (hsilent : s.config.traceLevel = 0) {c : Callable}
    {args : List Value} (harity : s.heap.callableArity c = some args.length) :
    (callValue (.fn c) args).run s = .sub (.call c args) s fun r s =>
      ((Proc.ofResult r).run s).bind fun o => .ret o.value := by
  simp [callValue, callable, Proc.run_ask, harity, Proc.run_trace hsilent, Proc.perform]
  rfl

def dots (k : Nat) : String := String.ofList (List.replicate k '.')

/-- Adds a mark. -/
def mark : Stmt :=
  .mk 1 (.expr (.assign "t" (.binary .add (.variable "t") (.constant (.str ".")))))

/-- The state of a run where the function `f` marks its calls and then goes on with `last`, after
`k` calls of it. All other global names have their values in `base`. -/
structure Marked (config : Config) (base : Dict Value) (last : Stmt) (f k : Nat)
    (vars : Dict Value) (s : State) : Prop where
  config : s.config = config
  traced : s.traced = none
  globals : s.heap.Global vars
  marks : vars.get? "t" = some (.str (dots k))
  function : vars.get? "f" = some (.fn (.closure f))
  others : ∀ x, x ≠ "t" → x ≠ "f" → vars.get? x = base.get? x
  closure : s.heap.closure f = ⟨"f", [], [mark, last], 0⟩

section Marks

variable {config : Config} (hsilent : config.traceLevel = 0) {base : Dict Value} {last : Stmt}
  {f k : Nat} {vars : Dict Value} {s : State}

theorem Marked.newScope (h : Marked config base last f k vars s) :
    Marked config base last f k vars { s with heap := (s.heap.newScope (some 0)).2 } :=
  { h with globals := h.globals.newScope _ }

theorem Marked.define (h : Marked config base last f k vars s) :
    Marked config base last f (k + 1) (vars.put "t" (.str (dots (k + 1))))
      { s with heap := s.heap.define 0 "t" (.str (dots (k + 1))) } where
  config := h.config
  traced := h.traced
  globals := h.globals.define _ _
  marks := by simp [Dict.get?_put]
  function := by simp [Dict.get?_put, h.function]
  others x ht hf := by simp [Dict.get?_put, ht, h.others x ht hf]
  closure := h.closure

/-- What is raised on the first stack is passed on to the second one. -/
def PassesOn (F : List Frame) (d : Nat) (F' : List Frame) (d' : Nat) : Prop :=
  ∀ v l s, ∃ n l', Machine.advance n ⟨.fail (.raised v l) s, F, d⟩ =
    .running ⟨.fail (.raised v l') s, F', d'⟩

theorem PassesOn.trans {F₁ F₂ F₃ : List Frame} {d₁ d₂ d₃ : Nat} (h₁ : PassesOn F₁ d₁ F₂ d₂)
    (h₂ : PassesOn F₂ d₂ F₃ d₃) : PassesOn F₁ d₁ F₃ d₃ := by
  intro v l s
  obtain ⟨n, l', hn⟩ := h₁ v l s
  obtain ⟨n', l'', hn'⟩ := h₂ v l' s
  exact ⟨n + n', l'', (Machine.advance_add hn n').trans hn'⟩

/-- A step that asks for a task lets it be started on top of a frame that passes on. -/
theorem Step.Asks.start {c : Step Outcome} {t : Task} {s : State} (h : c.Asks t s)
    (F : List Frame) (d : Nat) :
    ∃ k, Machine.next ⟨c, F, d⟩ = .running (Machine.startTask t s (.resume d k :: F) d) ∧
      ∀ d', PassesOn (.resume d k :: F) d' F d := by
  obtain ⟨k, rfl, hk⟩ := h
  refine ⟨k, rfl, fun d' v l s => ?_⟩
  obtain ⟨l', hl⟩ := hk v l s
  exact ⟨1, l', by rw [Machine.advance_one, ← hl]; rfl⟩

/-- Calls the function again. -/
def recurse : Stmt := .mk 1 (.expr (.call (.variable "f") []))

end Marks

/-! ## An import that is one too many -/

namespace Deep

/-- The source of the module, which goes on with the function that imports it. -/
def module : String := "f() piča"

def config : Config := ⟨.table [("m", .source module)], true, 0, false, []⟩

/-- A fresh run in a world without files. -/
def start : State := ⟨config, .initial, ⟨#[], ⟨[], []⟩, ⟨[], []⟩, [], 0, 0⟩, none, false⟩

/-- The global names of a fresh run. -/
def names : Dict Value := (Heap.initial.scopes.getD 0 default).vars

theorem global_names : Heap.initial.Global names := by
  have hsize : 0 < Heap.initial.scopes.size := by decide +kernel
  have hparent : (Heap.initial.scopes.getD 0 default).parent = none := by decide +kernel
  obtain ⟨⟨parent, vars⟩, hscope⟩ : ∃ scope, Heap.initial.scopes[0]? = some scope :=
    ⟨_, Array.getElem?_eq_getElem hsize⟩
  rw [Array.getD_eq_getD_getElem?, hscope] at hparent
  rw [Heap.Global, names, Array.getD_eq_getD_getElem?, hscope]
  cases hparent
  rfl

theorem get?_printer : names.get? printer = some (.fn (.builtin (.core .print))) := by
  have hsame : (names.get? printer).any (·.strictEq (.fn (.builtin (.core .print)))) = true := by
    decide +kernel
  cases hv : names.get? printer with
  | none => simp [hv] at hsame
  | some v =>
    rw [hv, Option.any_some] at hsame
    cases v with
    | fn f => rw [eq_of_beq hsame]
    | _ => simp [Value.strictEq] at hsame

end Deep

end Hantec
