import Hantec.Proofs.Run.Ending
import Hantec.Session

/-!
# Throwing and catching

A thrown value gets to the nearest handler as it is, whatever lies between: calls of functions,
callbacks of builtins, statements and blocks, loops, modules, and protected blocks that do not
handle it and clean up normally. The handler then runs once, with its name bound to the value
itself. The value has to have a description, as it is described when it is thrown: an array that
contains itself has none, and an error takes its place.
-/

namespace Hantec

variable {α β : Type}

/-! ## Results of procedures -/

/-- With so many calls open, the procedure comes from a state to a result and another state,
whatever waits for it. -/
def Proc.Delivers (p : Proc α) (depth : Nat) (s : State) (r : Except Failure α) (s' : State) :
    Prop :=
  ∀ (k : Except Failure α → State → Step Outcome) (F : List Frame),
    Machine.Reaches ⟨(p.run s).andThen k, F, depth⟩ ⟨k r s', F, depth⟩

namespace Proc.Delivers

variable {p : Proc α} {depth : Nat} {s s₁ s' : State} {r : Except Failure Outcome}

theorem ofRet {a : α} (h : p.run s = .ret a s') : p.Delivers depth s (.ok a) s' := by
  intro k F
  rw [h]
  exact .refl _

theorem ofFail {e : Failure} (h : p.run s = .fail e s') : p.Delivers depth s (.error e) s' := by
  intro k F
  rw [h]
  exact .refl _

theorem bind {f : α → Proc β} {a : α} {r : Except Failure β} (hp : p.Delivers depth s (.ok a) s₁)
    (hf : (f a).Delivers depth s₁ r s') : (p >>= f).Delivers depth s r s' := by
  intro k F
  rw [Proc.run_bind, Step.bind_eq_andThen, Step.andThen_andThen]
  exact (hp _ F).trans (hf k F)

theorem bind_error {f : α → Proc β} {e : Failure} (hp : p.Delivers depth s (.error e) s') :
    (p >>= f).Delivers depth s (.error e) s' := by
  intro k F
  rw [Proc.run_bind, Step.bind_eq_andThen, Step.andThen_andThen]
  exact hp _ F

theorem attemptBind {f : Except Failure α → Proc β} {r : Except Failure α}
    {r' : Except Failure β} (hp : p.Delivers depth s r s₁) (hf : (f r).Delivers depth s₁ r' s') :
    (p.attempt >>= f).Delivers depth s r' s' := by
  intro k F
  rw [Proc.run_attempt_bind, Step.andThen_andThen]
  exact (hp _ F).trans (hf k F)

/-- A procedure that runs on its own, on top of what waits for it. -/
theorem reaches {p : Proc Outcome} (h : p.Delivers depth s r s')
    (F : List Frame) :
    Machine.Reaches ⟨p.run s, F, depth⟩ ⟨(Proc.ofResult r).run s', F, depth⟩ := by
  have hrun := h (fun r => (Proc.ofResult r).run) F
  rwa [Proc.andThen_ofResult] at hrun

/-! ## Tasks -/

theorem perform {t : Task}
    (h : ∀ k F, Machine.Reaches ⟨.sub t s k, F, depth⟩ ⟨k r s', F, depth⟩) :
    (Proc.perform t).Delivers depth s r s' := by
  intro k F
  refine (h _ F).trans ?_
  cases r <;> exact .refl _

theorem call {f : Callable} {args : List Value}
    (hdepth : depth < Machine.depthLimit) (h : (f.call args).Delivers (depth + 1) s r s')
    (hr : r ≠ .error .overflow) : (Proc.perform (.call f args)).Delivers depth s r s' := by
  refine perform fun k F => .move rfl ?_
  have henter : Machine.enter depth (f.call args) = f.call args := if_pos hdepth
  have hcatch : (catchOverflow (f.call args)).Delivers (depth + 1) s r s' := by
    refine attemptBind h ?_
    rcases r with (⟨v, line⟩ | f | code | _) | o
    case error.overflow => exact absurd rfl hr
    all_goals first | exact ofFail rfl | exact ofRet rfl
  show Machine.Reaches ⟨(catchOverflow (Machine.enter depth (f.call args))).run s, _, _⟩ _
  rw [henter]
  refine (hcatch.reaches _).trans (.move ?_ (.refl _))
  cases r <;> rfl

theorem module {body : List Stmt} {scope : Nat}
    (hdepth : depth < Machine.depthLimit) (h : (execAll scope body).Delivers (depth + 1) s r s') :
    (Proc.perform (.module body scope)).Delivers depth s r s' := by
  refine perform fun k F => .move rfl ?_
  rw [Machine.startTask_module hdepth]
  refine (h.reaches _).trans (.move ?_ (.refl _))
  cases r <;> rfl

end Proc.Delivers

/-- The loop goes on from the first state to the second one, by any number of turns. -/
inductive Turns (test step : Option Expr) (body : Stmt) (scope depth : Nat) :
    State → State → Prop where
  | refl (s : State) : Turns test step body scope depth s s
  | turn {s s₁ s' : State} :
      (loopTurn test step body scope).Delivers depth s (.ok .continued) s₁ →
      Turns test step body scope depth s₁ s' → Turns test step body scope depth s s'

section Loops

variable {test step : Option Expr} {body : Stmt} {scope depth : Nat} {s s₁ s' : State}

theorem Turns.reaches (h : Turns test step body scope depth s s₁) (F : List Frame) :
    Machine.Reaches ⟨(loopTurn test step body scope).run s, .again test step body scope :: F, depth⟩
      ⟨(loopTurn test step body scope).run s₁, .again test step body scope :: F, depth⟩ := by
  induction h with
  | refl s => exact .refl _
  | turn hturn _ ih => exact (hturn.reaches _).trans (.move rfl ih)

theorem Proc.Delivers.loop (hturns : Turns test step body scope depth s s₁) {e : Failure}
    (h : (loopTurn test step body scope).Delivers depth s₁ (.error e) s') :
    (Proc.perform (.loop test step body scope)).Delivers depth s (.error e) s' := by
  refine perform fun k F => .move rfl ?_
  exact (hturns.reaches _).trans ((h.reaches _).trans (.move rfl (.refl _)))

end Loops

/-! ## Chains of frames -/

/-- With so many calls open, running a procedure in a state ends with the value that a call inside
of it throws. There is a rule for each kind of frame that may lie between the call and the
procedure. The last state is the one that a handler finds. -/
inductive Throws (v : Value) : Nat → State → {α : Type} → Proc α → State → Prop where
  /-- The call itself. It may have more arguments, as callbacks have. -/
  | throw {s : State} (more : List Value) :
      depth < Machine.depthLimit → Failure.describe s.heap v = .ok text →
      Throws v depth s (Proc.perform (.call (.builtin (.core .throw)) (v :: more))) s
  -- Operands, arguments, conditions and the statements of a block come one after the other.
  | first {α β : Type} {p : Proc α} {f : α → Proc β} :
      Throws v depth s p s' → Throws v depth s (p >>= f) s'
  | next {α β : Type} {p : Proc α} {f : α → Proc β} {a : α} :
      p.Delivers depth s (.ok a) s₁ → Throws v depth s₁ (f a) s' → Throws v depth s (p >>= f) s'
  | statement {p : Proc Outcome} (line : Int) :
      Throws v depth s p s' → Throws v depth s (p.attempt >>= closeAt line) s'
  | function {s : State} (r : Nat) (args : List Value) :
      depth < Machine.depthLimit → Throws v (depth + 1) s ((s.heap.closure r).call args) s' →
      Throws v depth s (Proc.perform (.call (.closure r) args)) s'
  | callback (b : Builtin) (args : List Value) :
      depth < Machine.depthLimit → Throws v (depth + 1) s (b.run args) s' →
      Throws v depth s (Proc.perform (.call (.builtin b) args)) s'
  | loop :
      Turns test step body scope depth s s₁ →
      Throws v depth s₁ (loopTurn test step body scope) s' →
      Throws v depth s (Proc.perform (.loop test step body scope)) s'
  | module :
      depth < Machine.depthLimit → Throws v (depth + 1) s (execAll scope body) s' →
      Throws v depth s (Proc.perform (.module body scope)) s'
  /-- A protected block without a handler whose finalizer, if it has one, ends normally. -/
  | unhandled {finalizer : Option (List Stmt)} :
      Throws v depth s (execInner scope body) s₁ →
      (finalizer.elim (pure .normal) (execInner scope)).Delivers depth s₁ (.ok .normal) s' →
      Throws v depth s ((Form.attempt body name none finalizer).exec scope) s'
  /-- A handler that throws again, while another value is handled. -/
  | handler {finalizer : Option (List Stmt)} :
      (execInner scope body).Delivers depth s (.error (.raised w line)) s₁ →
      Throws v depth s₁ (execHandler scope name handler w) s₂ →
      (finalizer.elim (pure .normal) (execInner scope)).Delivers depth s₂ (.ok .normal) s' →
      Throws v depth s ((Form.attempt body name (some handler) finalizer).exec scope) s'

variable {v : Value} {depth scope : Nat} {s s₁ s' : State}

theorem run_throwValue {text : String} (h : Failure.describe s.heap v = .ok text) :
    (throwValue v).run s = .fail (.raised v none) s := by
  have hthrow : ∀ x, s.heap.toText v = .ok x →
      (Proc.toText v >>= fun _ => Proc.raise v : Proc Value).run s = .fail (.raised v none) s := by
    intro x hx
    rw [Proc.run_bind, Proc.toText, Proc.run_ask s hx]
    rfl
  have htext : (∃ i name message, v = .err i name message) ∨ ∃ x, s.heap.toText v = .ok x := by
    cases hx : s.heap.toText v with
    | ok x => exact .inr ⟨x, rfl⟩
    | error t =>
      unfold Failure.describe at h
      split at h
      · exact .inl ⟨_, _, _, rfl⟩
      · rw [hx] at h
        cases h
  rcases htext with ⟨i, name, message, rfl⟩ | ⟨x, hx⟩
  · rfl
  · have hrun := hthrow x hx
    cases v with
    | err i name message => rfl
    | _ => exact hrun

/-- A builtin passes on what is raised inside of it. -/
theorem Proc.Delivers.callBuiltin {b : Builtin} {args : List Value} {line : Option Int}
    (hdepth : depth < Machine.depthLimit)
    (h : (b.run args).Delivers (depth + 1) s (.error (.raised v line)) s') :
    (Proc.perform (.call (.builtin b) args)).Delivers depth s (.error (.raised v line)) s' :=
  .call hdepth (.bind_error (h.attemptBind (.ofFail rfl))) (by simp)

/-- What is raised is still pending after a finalizer that ends normally. -/
theorem Proc.Delivers.conclude {finalizer : Option (List Stmt)} {line : Option Int}
    (h : (finalizer.elim (pure .normal) (execInner scope)).Delivers depth s (.ok .normal) s') :
    (conclude scope finalizer (.error (.raised v line))).Delivers depth s
      (.error (.raised v line)) s' := by
  cases finalizer with
  | none => exact fun k F => h (fun _ => k (.error (.raised v line))) F
  | some f => exact .bind h (.ofFail rfl)

/-- The value gets through the frames as it is. -/
theorem Throws.delivers {p : Proc α} (h : Throws v depth s p s') :
    ∃ line, p.Delivers depth s (.error (.raised v line)) s' := by
  induction h with
  | throw more hdepth htext =>
    exact ⟨none, .callBuiltin hdepth (.bind (.ofRet rfl) (.ofFail (run_throwValue htext)))⟩
  | first _ ih =>
    obtain ⟨line, ih⟩ := ih
    exact ⟨line, ih.bind_error⟩
  | next hp _ ih =>
    obtain ⟨line, ih⟩ := ih
    exact ⟨line, hp.bind ih⟩
  | statement n _ ih =>
    obtain ⟨line, ih⟩ := ih
    cases line with
    | none => exact ⟨_, ih.attemptBind (.ofFail rfl)⟩
    | some line => exact ⟨_, ih.attemptBind (.ofFail rfl)⟩
  | function r args hdepth _ ih =>
    obtain ⟨line, ih⟩ := ih
    exact ⟨line, .call hdepth (.bind (.ofRet rfl) ih) (by simp)⟩
  | callback b args hdepth _ ih =>
    obtain ⟨line, ih⟩ := ih
    exact ⟨line, .callBuiltin hdepth ih⟩
  | loop hturns _ ih =>
    obtain ⟨line, ih⟩ := ih
    exact ⟨line, .loop hturns ih⟩
  | module hdepth _ ih =>
    obtain ⟨line, ih⟩ := ih
    exact ⟨line, .module hdepth ih⟩
  | unhandled _ hend ih =>
    obtain ⟨line, ih⟩ := ih
    rw [exec_attempt_eq]
    exact ⟨line, ih.attemptBind (.bind (.ofRet rfl) (.conclude hend))⟩
  | handler hbody _ hend ih =>
    obtain ⟨line, ih⟩ := ih
    rw [exec_attempt_eq]
    exact ⟨line, hbody.attemptBind (ih.attemptBind (.conclude hend))⟩

/-! ## Handlers -/

/-- The state in which a handler runs: its name is bound to a value in a new scope. -/
def State.catching (s : State) (scope : Nat) (x : String) (v : Value) : State :=
  { s with heap := (s.heap.newScope (some scope)).2.define s.heap.scopes.size x v }

theorem lookup_catching (s : State) (scope : Nat) (x : String) (v : Value) :
    (s.catching scope x v).heap.lookup s.heap.scopes.size x = some v := by
  have hscope : (s.catching scope x v).heap.scopes[s.heap.scopes.size]? =
      some ⟨some scope, Dict.empty.put x v⟩ := by
    simp [State.catching, Heap.define, Heap.newScope, Array.getElem_modify]
  have hget : (Dict.empty.put x v).get? x = some v := by simp [Dict.get?_put]
  simp [Heap.lookup, Heap.resolve, Heap.resolveWithin, hscope, Dict.contains, hget]

theorem run_rescue_raised (x : String) (handler : List Stmt) (line : Option Int)
    (finalizer : Option (List Stmt)) :
    (rescue scope (some x) (some handler) (.error (.raised v line)) >>=
      conclude scope finalizer).run s =
    ((execAll s.heap.scopes.size handler).run (s.catching scope x v)).andThen
      fun r => (conclude scope finalizer r).run :=
  Proc.run_attempt_bind s (execHandler scope (some x) handler v) (conclude scope finalizer)

/-- A thrown value is caught as it is: the nearest handler runs with its name bound to the value,
and after it there is only the finalizer. -/
theorem handler_gets_thrown {body handler : List Stmt} {x : String}
    (h : Throws v depth s (execInner scope body) s') (finalizer : Option (List Stmt)) :
    (s'.catching scope x v).heap.lookup s'.heap.scopes.size x = some v ∧
    ∀ k F, Machine.Reaches
      ⟨(((Form.attempt body (some x) (some handler) finalizer).exec scope).run s).andThen k, F,
        depth⟩
      ⟨((execAll s'.heap.scopes.size handler).run (s'.catching scope x v)).andThen
        fun r t => ((conclude scope finalizer r).run t).andThen k, F, depth⟩ := by
  refine ⟨lookup_catching s' scope x v, fun k F => ?_⟩
  obtain ⟨line, hbody⟩ := h.delivers
  rw [exec_attempt_eq, Proc.run_attempt_bind, Step.andThen_andThen]
  refine (hbody _ F).trans ?_
  rw [run_rescue_raised, Step.andThen_andThen]
  exact .refl _

/-! ## A chain of frames -/

namespace Throws

variable (hsilent : s.config.traceLevel = 0)

include hsilent

theorem ofForm {form : Form} (line : Int) (h : Throws v depth s (form.exec scope) s') :
    Throws v depth s ((Stmt.mk line form).exec scope) s' := by
  rw [exec_mk]
  exact .next (.ofRet (Proc.run_trace hsilent (by decide) _)) (.statement line h)

/-- The first statement of several throws. -/
theorem ofHead {form : Form} (line : Int) (ss : List Stmt)
    (h : Throws v depth s (form.exec scope) s') :
    Throws v depth s (execAll scope (.mk line form :: ss)) s' := by
  rw [execAll_cons]
  exact .first (ofForm hsilent line h)

theorem ofCall {f : Callable} {args : List Value}
    (harity : ∀ n, s.heap.callableArity f = some n → n = args.length)
    (h : Throws v depth s (Proc.perform (.call f args)) s') :
    Throws v depth s (callValue (.fn f) args) s' := by
  have hcall : Throws v depth s (do
      Proc.trace 3 fun h => .ok s!"call {h.callableText f} with {args.length} arguments"
      return (← Proc.perform (.call f args)).value) s' :=
    .next (.ofRet (Proc.run_trace hsilent (by decide) _)) (.first h)
  refine .next (a := f) (.ofRet rfl) (.next (a := s.heap.callableArity f) (.ofRet rfl) ?_)
  cases harg : s.heap.callableArity f with
  | none => exact hcall
  | some n =>
    simp only [harity n harg, bne_self_eq_false, Bool.false_eq_true, if_false]
    exact hcall

/-- A call expression whose callee and arguments have been evaluated. -/
theorem ofCallExpr {callee : Expr} {es : List Expr} {f : Callable} {args : List Value}
    (hcallee : (callee.eval scope).run s = .ret (.fn f) s)
    (hargs : (evalAll scope es).run s = .ret args s)
    (harity : ∀ n, s.heap.callableArity f = some n → n = args.length)
    (h : Throws v depth s (Proc.perform (.call f args)) s') :
    Throws v depth s ((Form.expr (.call callee es)).exec scope) s' := by
  rw [Form.exec, Expr.eval]
  exact .first (.next (.ofRet hcallee) (.next (.ofRet hargs) (ofCall hsilent harity h)))

end Throws

def callOf (name : String) (args : List String) : Stmt :=
  .mk 1 (.expr (.call (.variable name) (args.map .variable)))

/-- A session with an array and a function under names, and with the builtins that are called. -/
def tossing (items : Array Value) (function : List Stmt) : State :=
  ⟨⟨.absent, true, 0, false, []⟩,
    ⟨#[items], #[.empty], #[⟨"f", ["x"], function, 0⟩],
      #[⟨none, .ofList [("a", .arr 0), ("b", .null), ("f", .fn (.closure 0)),
        ("házej", .fn (.builtin (.core .throw))), ("mapuj", .fn (.builtin (.array .map)))]⟩],
      0, []⟩,
    ⟨#[], ⟨[], []⟩, ⟨[], []⟩, [], 0, 0⟩, none, false⟩

/-- Throws `x` in a block of a loop. -/
def tossForever : Stmt :=
  .mk 1 (.loop (.constant (.bool true)) (.mk 1 (.block [callOf "házej" ["x"]])))

/-- Throws `x` in a protected block that has no handler. -/
def tossInLoop : List Stmt := [.mk 1 (.attempt [tossForever] none none (some []))]

theorem throws_tossInLoop :
    ∃ s', Throws (.obj 0) 0 (tossing #[.obj 0] tossInLoop)
      (execInner 0 [callOf "mapuj" ["a", "f"]]) s' := by
  have harity : ∀ n, (Builtin.array .map).arity = some n → n = 2 := by
    rintro n ⟨⟩
    rfl
  have harity' : ∀ n, (Builtin.core .throw).arity = some n → n = 1 := by
    rintro n ⟨⟩
    rfl
  refine Exists.imp (fun _ h => .next (.ofRet rfl) (.ofHead rfl 1 []
    (.ofCallExpr rfl rfl rfl harity (.callback _ _ (by decide) h)))) ?_
  -- The builtin calls the function for the first item.
  refine Exists.imp (fun _ h => .next (.ofRet rfl) (.next (.ofRet rfl) (.next (.ofRet rfl)
    (.next (.ofRet rfl) (.first (.first (.next (.ofRet rfl)
      (.first (.function _ _ (by decide) h))))))))) ?_
  refine Exists.imp (fun _ h => .next (.ofRet rfl) (.next (.ofRet rfl)
    (.first (.ofHead rfl 1 [] h)))) ?_
  -- The block that is left with an empty `potom`.
  suffices h : ∃ s', Throws (.obj 0) 2 _ (execInner 2 [tossForever]) s' by
    obtain ⟨s', h⟩ := h
    exact ⟨_, .unhandled h (.ofRet rfl)⟩
  refine Exists.imp (fun _ h => .next (.ofRet rfl) (.ofHead rfl 1 [] (.loop (.refl _)
    (.next (.ofRet rfl) (.next (.ofRet rfl) (.first (.ofForm rfl 1 h))))))) ?_
  exact ⟨_, .next (.ofRet rfl) (.ofHead rfl 1 []
    (.ofCallExpr rfl rfl rfl harity' (.throw [] (by decide) rfl)))⟩

/-- An object of an array is thrown by the callback that gets it, out of a loop and of a protected
block, and is caught outside of the call of `mapuj`. -/
theorem handler_gets_thrown_callback :
    ∃ s', Throws (.obj 0) 0 (tossing #[.obj 0] tossInLoop)
        (execInner 0 [callOf "mapuj" ["a", "f"]]) s' ∧
      (s'.catching 0 "e" (.obj 0)).heap.lookup s'.heap.scopes.size "e" = some (.obj 0) ∧
      ∀ k F, Machine.Reaches
        ⟨(((Form.attempt [callOf "mapuj" ["a", "f"]] (some "e") (some []) none).exec 0).run
          (tossing #[.obj 0] tossInLoop)).andThen k, F, 0⟩
        ⟨((execAll s'.heap.scopes.size []).run (s'.catching 0 "e" (.obj 0))).andThen
          fun r t => ((conclude 0 none r).run t).andThen k, F, 0⟩ := by
  obtain ⟨s', h⟩ := throws_tossInLoop
  exact ⟨s', h, handler_gets_thrown h none⟩

/-- An array that contains itself has no text, and throwing it throws an error in its place. -/
theorem looped_array_not_caught :
    ((tossing #[.arr 0] []).run 10 [.mk 1 (.attempt [callOf "házej" ["a"]] (some "e")
      (some [.mk 1 (.expr (.assign "b" (.variable "e")))]) none)]).map
        (fun e => e.state.global? "b") =
    some (some (.err 0 "RangeError" "maximum call depth exceeded")) := by
  rfl

end Hantec
