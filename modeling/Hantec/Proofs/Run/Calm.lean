import Hantec.Proofs.Run.Contract

/-!
# Calm procedures

A procedure is calm if the scopes and functions on the heap change only while its tasks run. It
passes on whatever these raise. All procedures that leave scopes alone are calm, and so is what
calls a builtin.
-/

namespace Hantec

variable {α β : Type}

/-- Two heaps with the same scopes and functions. -/
structure Heap.SameScopes (h h' : Heap) : Prop where
  scopes : h'.scopes = h.scopes
  closures : h'.closures = h.closures

namespace Heap.SameScopes

variable {h h' h'' : Heap}

theorem refl (h : Heap) : h.SameScopes h := ⟨rfl, rfl⟩

theorem trans (hh : h.SameScopes h') (hh' : h'.SameScopes h'') : h.SameScopes h'' :=
  ⟨hh'.scopes.trans hh.scopes, hh'.closures.trans hh.closures⟩

end Heap.SameScopes

namespace Step

/-- A step that is reached with the heap `h` and leaves the scopes and functions to its tasks. -/
inductive Calm : Heap → Step α → Prop where
  | ret {h : Heap} {a : α} {s : State} : h.SameScopes s.heap → Calm h (.ret a s)
  | fail {h : Heap} {e : Failure} {s : State} : h.SameScopes s.heap →
      (∀ v line, e = .raised v line → line = none) → Calm h (.fail e s)
  | sub {h : Heap} {f : Callable} {args : List Value} {s : State}
      {k : Except Failure Outcome → State → Step α} : h.SameScopes s.heap →
      (∀ v line s, k (.error (.raised v line)) s = .fail (.raised v line) s) →
      (∀ r s, (∀ v line, r ≠ .error (.raised v line)) → Calm s.heap (k r s)) →
      Calm h (.sub (.call f args) s k)
  | wait {h : Heap} {d : Delay} {s : State} {k : State → Step α} : h.SameScopes s.heap →
      (∀ s, Calm s.heap (k s)) → Calm h (.wait d s k)

variable {h h' : Heap} {c : Step α}

theorem Calm.forwards (hc : Calm h c) : c.Forwards := by
  induction hc with
  | ret _ => exact .ret _ _
  | fail _ he => exact .fail _ he
  | sub _ hraised _ ih => exact .sub hraised ih
  | wait _ _ ih => exact .wait ih

theorem Calm.after (hh : h.SameScopes h') (hc : Calm h' c) : Calm h c := by
  cases hc with
  | ret hs => exact .ret (hh.trans hs)
  | fail hs he => exact .fail (hh.trans hs) he
  | sub hs hraised hk => exact .sub (hh.trans hs) hraised hk
  | wait hs hk => exact .wait (hh.trans hs) hk

/-- What goes on after a calm step has to pass on what was raised. -/
theorem Calm.andThen {g : Except Failure α → State → Step β} (hc : Calm h c)
    (hraised : ∀ v line s, g (.error (.raised v line)) s = .fail (.raised v line) s)
    (hg : ∀ r s, (∀ v line, r ≠ .error (.raised v line)) → Calm s.heap (g r s)) :
    Calm h (c.andThen g) := by
  induction hc with
  | @ret _ a _ hs => exact (hg (.ok a) _ nofun).after hs
  | @fail _ e _ hs he =>
    rw [andThen_fail]
    rcases exists_raised_or (Except.error e : Except Failure α) with ⟨v, line, hr⟩ | hne
    · rw [hr, hraised]
      exact .fail hs fun _ _ h => he _ _ ((Except.error.inj hr).trans h)
    · exact (hg _ _ hne).after hs
  | sub hs hpass _ ih =>
    refine .sub hs (fun v line s => ?_) ih
    rw [hpass]
    exact hraised v line s
  | wait hs _ ih => exact .wait hs ih

theorem Calm.bind {f : α → State → Step β} (hc : Calm h c)
    (hf : ∀ a s, Calm s.heap (f a s)) : Calm h (c.bind f) := by
  rw [bind_eq_andThen]
  refine hc.andThen (fun _ _ _ => rfl) fun r s hr => ?_
  cases r with
  | ok a => exact hf a s
  | error e => exact .fail (.refl _) fun v line he => absurd (congrArg Except.error he) (hr v line)

end Step

namespace Proc

/-- Leaves the scopes and functions to its tasks. -/
def IsCalm (p : Proc α) : Prop := ∀ s, (p.run s).Calm s.heap

variable {p : Proc α}

theorem IsCalm.forwards (hp : p.IsCalm) (s : State) : (p.run s).Forwards := (hp s).forwards

namespace IsCalm

theorem pure (a : α) : (Pure.pure a : Proc α).IsCalm := fun _ => .ret (.refl _)

theorem bind {f : α → Proc β} (hp : p.IsCalm) (hf : ∀ a, (f a).IsCalm) : (p >>= f).IsCalm :=
  fun s => (hp s).bind fun a => hf a

theorem failWith {e : Failure} (he : ∀ v line, e = .raised v line → line = none) :
    (Proc.failWith e : Proc α).IsCalm :=
  fun _ => .fail (.refl _) he

theorem ofTrouble {t : Trouble} {s : State} : (Step.fail t.toFailure s : Step α).Calm s.heap := by
  refine .fail (.refl _) fun v line he => ?_
  cases t <;> cases he

theorem ask (f : Heap → Except Trouble α) : (Proc.ask f).IsCalm := by
  intro s
  cases hf : f s.heap with
  | ok a =>
    rw [run_ask s hf]
    exact .ret (.refl _)
  | error t =>
    rw [run_ask_error s hf]
    exact ofTrouble

theorem raiseError (name message : String) : (Proc.raiseError name message : Proc α).IsCalm := by
  intro s
  refine .fail ⟨rfl, rfl⟩ fun v line he => ?_
  cases he
  rfl

theorem readName (scope : Nat) (name : String) : (readName scope name).IsCalm := by
  refine (ask _).bind fun v => ?_
  cases v with
  | some v => exact pure v
  | none => exact raiseError _ _

theorem onWorld (f : World → α × World) : (Proc.onWorld f).IsCalm := fun _ => .ret (.refl _)

theorem config : Proc.config.IsCalm := fun _ => .ret (.refl _)

theorem trace (level : Nat) (line : Heap → Except Trouble String) :
    (Proc.trace level line).IsCalm := by
  intro s
  show (if s.config.traceLevel < level then Step.ret () s else _).Calm s.heap
  split
  · exact .ret (.refl _)
  · split
    · exact .ret (.refl _)
    · exact ofTrouble (s := s.tear)

theorem settleTrace : Proc.settleTrace.IsCalm :=
  fun s => .ret ⟨congrArg _ s.heap_settle, congrArg _ s.heap_settle⟩

theorem perform (f : Callable) (args : List Value) : (Proc.perform (.call f args)).IsCalm := by
  refine fun s => .sub (.refl _) (fun _ _ _ => rfl) fun r s hr => ?_
  cases r with
  | ok o => exact .ret (.refl _)
  | error e => exact .fail (.refl _) fun v line he => absurd (congrArg Except.error he) (hr v line)

end IsCalm

theorem Scopeless.isCalm [Holding α] {chance : Prop} {files : Bool} (h : Scopeless chance files p) :
    p.IsCalm := by
  induction h with
  | pure _ => exact .pure _
  | bind _ _ ihp ihf => exact ihp.bind fun a => ihf a (Holding.any a)
  | fault _ => exact .failWith nofun
  | raise _ => exact .failWith fun _ _ he => by cases he; rfl
  | raiseErrorValue _ => exact .raiseError _ _
  | exit code => exact .failWith nofun
  | ask _ _ => exact .ask _
  | onHeap haloof _ => exact fun s => .ret ⟨haloof.scopes _, haloof.closures _⟩
  | print text => exact .onWorld _
  | environment _ => exact .onWorld _
  | byChance _ _ _ => exact .onWorld _
  | withFiles _ => exact .onWorld _
  | whenAllowed _ ih =>
    refine .bind ?_ fun _ => ih
    refine .bind .config fun config => ?_
    split
    · exact .settleTrace
    · exact .raiseError _ _
  | config _ _ ih => exact .bind .config ih
  | fetchSource path => exact .bind .config fun _ => .bind .settleTrace fun _ => .onWorld _
  | note line _ _ => exact .trace _ _
  | call f _ => exact .perform f _
  | wait _ => exact fun s => .wait (.refl _) fun _ => .ret (.refl _)

/-- What a builtin raises leaves its call as it is. -/
theorem IsCalm.builtinCall (b : Builtin) (args : List Value) : (b.call args).IsCalm := by
  intro s
  have hrun : Scopeless (b.isChancy = true) true (b.run args) := .builtinRun b args
  rw [Builtin.call, run_attempt_bind]
  refine (hrun.isCalm s).andThen (fun _ _ _ => rfl) fun r s hr => ?_
  cases r with
  | ok v =>
    have hadopt : Scopeless True true (Builtin.adopt v) := .builtinAdopt v
    exact hadopt.isCalm s
  | error e =>
    cases e with
    | raised v line => exact absurd rfl (hr v line)
    | fault f =>
      show Step.Calm s.heap ((b.failWith (.fault f)).run s)
      unfold Builtin.failWith
      dsimp only
      split
      · exact raiseError _ _ s
      · exact failWith (fun _ _ h => by cases h) s
    | exit code => exact failWith (fun _ _ h => by cases h) s
    | overflow => exact failWith (fun _ _ h => by cases h) s

end Proc

end Hantec
