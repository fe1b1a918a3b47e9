import Hantec.Proofs.Padding.Ends

/-!
# Finalizers

A protected block with a handler and a finalizer does the same as a block with the finalizer around
one with the handler. The finalizer runs once after whatever the body or the handler comes to, unless
no script can catch that. If it does not end normally, its end replaces what is pending.
-/

namespace Hantec

variable {d q : Nat} {s s' : State} {body : List Stmt} {name : Option String}
  {handler finalizer : Option (List Stmt)}

/-! ## Before the finalizer -/

theorem rescue_attempt_bind (first : Except Failure Outcome)
    (g : Except Failure Outcome → Proc Outcome) :
    (rescue q name handler first >>= Proc.ofResult).attempt >>= g =
      rescue q name handler first >>= g := by
  cases handler with
  | none => exact Proc.attempt_ofResult_bind first g
  | some h =>
    rcases first with (⟨v, line⟩ | f | code | _) | o
    · exact congrArg (fun p => Proc.attempt p >>= g) (Proc.attempt_ofResult _)
    all_goals rfl

/-- The finalizer comes after the rest of the block. -/
theorem exec_attempt_conclude (q : Nat) (body : List Stmt) (name : Option String)
    (handler finalizer : Option (List Stmt)) :
    (Form.attempt body name handler finalizer).exec q =
      ((Form.attempt body name handler none).exec q).attempt >>= conclude q finalizer := by
  rw [exec_attempt_eq, exec_attempt_eq, Proc.attempt_attempt_bind]
  congr 1
  funext first
  exact (rescue_attempt_bind first _).symm

/-- How a protected block ends before its finalizer: as its body does, or as its handler if there is
one and the body raises a value. -/
inductive Guarded (d q : Nat) (body : List Stmt) (name : Option String)
    (handler : Option (List Stmt)) (s : State) : Except Failure Outcome → State → Prop where
  | body {r : Except Failure Outcome} {s' : State} : (execInner q body).Ends d s r s' →
      (handler = none ∨ ∀ v line, r ≠ .error (.raised v line)) →
      Guarded d q body name handler s r s'
  | handler {h : List Stmt} {v : Value} {line : Option Int} {s₁ s' : State}
      {r : Except Failure Outcome} : handler = some h →
      (execInner q body).Ends d s (.error (.raised v line)) s₁ →
      (execHandler q name h v).Ends d s₁ r s' → Guarded d q body name handler s r s'

theorem ends_rescue_iff {first r : Except Failure Outcome} :
    (rescue q name handler first >>= Proc.ofResult).Ends d s r s' ↔
      (handler = none ∨ ∀ v line, first ≠ .error (.raised v line)) ∧ r = first ∧ s' = s ∨
      ∃ h v line, handler = some h ∧ first = .error (.raised v line) ∧
        (execHandler q name h v).Ends d s r s' := by
  cases handler with
  | none =>
    refine Proc.ends_ofResult_iff.trans ⟨fun h => .inl ⟨.inl rfl, h⟩, ?_⟩
    rintro (⟨-, h⟩ | ⟨h, v, line, hh, -⟩)
    · exact h
    · cases hh
  | some h =>
    obtain ⟨v, line, rfl⟩ | hfirst := exists_raised_or first
    · have hrescue : rescue q name (some h) (.error (.raised v line)) >>= Proc.ofResult =
          execHandler q name h v := Proc.attempt_ofResult _
      rw [hrescue]
      constructor
      · exact fun hend => .inr ⟨h, v, line, rfl, rfl, hend⟩
      · rintro (⟨hnone | hraised, -⟩ | ⟨h', v', line', hh, hv, hend⟩)
        · cases hnone
        · exact absurd rfl (hraised v line)
        · cases hh
          cases hv
          exact hend
    · have hrescue : rescue q name (some h) first >>= Proc.ofResult = Proc.ofResult first := by
        rcases first with (⟨v, line⟩ | f | code | _) | o
        · exact absurd rfl (hfirst v line)
        all_goals rfl
      rw [hrescue, Proc.ends_ofResult_iff]
      constructor
      · exact fun hend => .inl ⟨.inr hfirst, hend⟩
      · rintro (⟨-, hend⟩ | ⟨h', v, line, -, hv, -⟩)
        · exact hend
        · exact absurd hv (hfirst v line)

theorem ends_guarded_iff {r : Except Failure Outcome} :
    ((Form.attempt body name handler none).exec q).Ends d s r s' ↔
      Guarded d q body name handler s r s' := by
  rw [exec_attempt_eq, Proc.ends_attempt_bind_iff]
  constructor
  · rintro ⟨first, s₁, hbody, hrescue⟩
    obtain ⟨hnone, rfl, rfl⟩ | ⟨h, v, line, hh, rfl, hend⟩ := ends_rescue_iff.1 hrescue
    · exact .body hbody hnone
    · exact .handler hh hbody hend
  · intro h
    cases h with
    | body hbody hnone => exact ⟨r, s', hbody, ends_rescue_iff.2 (.inl ⟨hnone, rfl, rfl⟩)⟩
    | handler hh hbody hend =>
      exact ⟨_, _, hbody, ends_rescue_iff.2 (.inr ⟨_, _, _, hh, rfl, hend⟩)⟩

/-! ## The finalizer -/

theorem finalize_of_pending {pending : Except Failure Outcome} (h : Pending pending)
    (p : Proc Outcome) : finalize pending p = p >>= settleWith pending := by
  rcases pending with (⟨v, line⟩ | f | code | _) | o
  · rfl
  · exact (h _ rfl).elim
  · exact (h _ rfl).elim
  · exact (h _ rfl).elim
  · rfl

theorem finalize_of_not_pending {pending : Except Failure Outcome} (h : ¬ Pending pending)
    (p : Proc Outcome) : finalize pending p = Proc.ofResult pending := by
  rcases pending with (⟨v, line⟩ | f | code | _) | o
  · exact absurd (fun e he => by cases he; trivial) h
  · rfl
  · rfl
  · rfl
  · exact absurd (fun e he => by cases he) h

/-- What a finalizer makes of what is pending. -/
inductive Concluded (d q : Nat) (finalizer : List Stmt) (pending : Except Failure Outcome)
    (s : State) : Except Failure Outcome → State → Prop where
  /-- No script can catch what is pending. -/
  | skipped : ¬ Pending pending → Concluded d q finalizer pending s pending s
  | passed {s' : State} : Pending pending → (execInner q finalizer).Ends d s (.ok .normal) s' →
      Concluded d q finalizer pending s pending s'
  | replaced {r : Except Failure Outcome} {s' : State} : Pending pending →
      (execInner q finalizer).Ends d s r s' → r ≠ .ok .normal →
      Concluded d q finalizer pending s r s'

theorem ends_settleWith_iff {pending r : Except Failure Outcome} {o : Outcome} :
    (settleWith pending o).Ends d s r s' ↔
      (o = .normal ∧ r = pending ∨ o ≠ .normal ∧ r = .ok o) ∧ s' = s := by
  cases o with
  | normal => simpa [settleWith] using Proc.ends_ofResult_iff
  | returned | broke | continued => simpa [settleWith] using Proc.ends_pure_iff

theorem ends_conclude_iff {f : List Stmt} {pending r : Except Failure Outcome} :
    (conclude q (some f) pending).Ends d s r s' ↔ Concluded d q f pending s r s' := by
  by_cases hpending : Pending pending
  · have hconclude : conclude q (some f) pending = execInner q f >>= settleWith pending :=
      finalize_of_pending hpending _
    rw [hconclude, Proc.ends_bind_iff]
    constructor
    · rintro (⟨o, s₁, hf, hsettle⟩ | ⟨e, rfl, hf⟩)
      · obtain ⟨⟨rfl, rfl⟩ | ⟨ho, rfl⟩, rfl⟩ := ends_settleWith_iff.1 hsettle
        · exact .passed hpending hf
        · exact .replaced hpending hf (by simpa using ho)
      · exact .replaced hpending hf (by simp)
    · intro h
      cases h with
      | skipped hnot => exact absurd hpending hnot
      | passed _ hf => exact .inl ⟨_, s', hf, ends_settleWith_iff.2 ⟨.inl ⟨rfl, rfl⟩, rfl⟩⟩
      | replaced _ hf hr =>
        cases r with
        | error e => exact .inr ⟨e, rfl, hf⟩
        | ok o =>
          exact .inl ⟨o, s', hf, ends_settleWith_iff.2 ⟨.inr ⟨by simpa using hr, rfl⟩, rfl⟩⟩
  · have hconclude : conclude q (some f) pending = Proc.ofResult pending :=
      finalize_of_not_pending hpending _
    rw [hconclude, Proc.ends_ofResult_iff]
    constructor
    · rintro ⟨rfl, rfl⟩
      exact .skipped hpending
    · intro h
      cases h with
      | skipped _ => exact ⟨rfl, rfl⟩
      | passed h => exact absurd h hpending
      | replaced h => exact absurd h hpending

/-! ## Nested blocks -/

theorem SameEnd.pending_iff {line : Int} {r r' : Except Failure Outcome}
    (h : SameEnd (·.atLine line) r r') : Pending r ↔ Pending r' := by
  cases h with
  | ok o => rfl
  | @error e e' he =>
    have hraised (f : Failure) : (f.atLine line).IsRaised ↔ f.IsRaised := by
      rcases f with ⟨v, _ | n⟩ | f | code | _ <;> rfl
    have hsame : e.IsRaised ↔ e'.IsRaised := by
      rw [← hraised e, ← hraised e', he]
    constructor
    · intro h f hf
      cases hf
      exact hsame.1 (h e rfl)
    · intro h f hf
      cases hf
      exact hsame.2 (h e' rfl)

namespace Padding

variable {cfg : Config} [(cfg.padding 4).Lawful] {P : Pairing} {q' : Nat} {line : Int}

theorem agree_conclude {r r' : Except Failure Outcome} (hr : SameEnd (·.atLine line) r r')
    (hs : States cfg P s s') (hq : P.views q q') :
    Agree cfg (·.atLine line) d P (.step ((conclude q finalizer r).run s))
      (.step ((conclude q' finalizer r').run s')) := by
  cases finalizer with
  | none => exact agree_ofResult hs hr
  | some f =>
    have hf : (cfg.padding 4).Procs (cfg.padding 4).Breaks P (execInner q f) (execInner q' f) :=
      .execBody f hq
    show Agree cfg _ d P (.step ((finalize r (execInner q f)).run s))
      (.step ((finalize r' (execInner q' f)).run s'))
    by_cases hpending : Pending r
    · rw [finalize_of_pending hpending, finalize_of_pending (hr.pending_iff.1 hpending)]
      refine (agree_procs hf hs).bind fun o Q t t' _ _ ht => ?_
      cases o with
      | normal => exact agree_ofResult ht hr
      | returned | broke | continued => exact agree_ret ht _
    · rw [finalize_of_not_pending hpending, finalize_of_not_pending (mt hr.pending_iff.2 hpending)]
      exact agree_ofResult hs hr

/-- The block with the finalizer has a scope and a statement of its own around the rest. -/
theorem agree_nested (hs : States cfg P s s') (hq : P.views q q') :
    Agree cfg (·.atLine line) d P
      (.step (((Form.attempt body name handler finalizer).exec q).run s))
      (.step (((Form.attempt [.mk line (.attempt body name handler none)] none none
        finalizer).exec q').run s')) := by
  rw [exec_attempt_conclude q, exec_attempt_conclude q']
  refine Agree.attemptBind ?_ fun r r' Q t t' hQ hr ht => agree_conclude hr ht (hQ.views hq)
  have hbody : (Form.attempt [.mk line (.attempt body name handler none)] none none none).exec q' =
      innerScope q' >>= fun n => (Stmt.mk line (.attempt body name handler none)).exec n := by
    have hsingle : execInner q' [.mk line (.attempt body name handler none)] =
        innerScope q' >>= fun n => (Stmt.mk line (.attempt body name handler none)).exec n := by
      simp only [execInner, execAll_single]
    rw [exec_attempt_eq, ← hsingle]
    exact Proc.attempt_ofResult _
  rw [hbody]
  refine agree_inner_right hs hq fun Q n' t' _ hn ht => agree_exec_right ht fun u' hu => ?_
  exact agree_procs (.execAttempt body name handler none hn) hu

end Padding

/-- From every state whose scopes are nested, a protected block is exchangeable with one that has the
finalizer around another one with the handler, unless scripts can see which statements are traced.
From every state at all, the finalizer runs once after what the body or the handler comes to and
passes that on or replaces it. -/
theorem attempt_exchangeable (d : Nat) (line : Int) (body : List Stmt) (name : Option String)
    (handler finalizer : Option (List Stmt)) :
    (s.heap.Nested → s.config.HidesStatements → q < s.heap.scopes.size →
      Stmt.Exchangeable d q s (.mk line (.attempt body name handler finalizer))
        (.mk line (.attempt [.mk line (.attempt body name handler none)] none none finalizer))) ∧
    ∀ f, finalizer = some f → ∀ r t,
      ((Form.attempt body name handler finalizer).exec q).Ends d s r t ↔
        ∃ pending s₁, Guarded d q body name handler s pending s₁ ∧
          Concluded d q f pending s₁ r t := by
  constructor
  · intro hheap hhidden hq
    have hstates := Padding.states hheap 4
    have := Padding.lawful hhidden
    have hview : (Pairing.below s.heap.scopes.size).views q q := ⟨rfl, hq⟩
    exact (Padding.agree_exec hstates fun t t' ht => Padding.agree_nested ht hview).exchangeable
  · rintro f rfl r t
    simp only [exec_attempt_conclude q body name handler (some f), Proc.ends_attempt_bind_iff,
      ends_guarded_iff, ends_conclude_iff]

/-- The finalizer breaks off what returns or raises in the body and the handler of a block. -/
theorem attempt_exchangeable_breaking :
    State.bare.heap.Nested ∧ State.bare.config.HidesStatements ∧
    0 < State.bare.heap.scopes.size ∧
    Stmt.Exchangeable 0 0 State.bare
      (.mk 1 (.attempt [.mk 2 (.expr (.variable "x"))] (some "e") (some [.mk 3 (.ret none)])
        (some [.mk 4 .leave])))
      (.mk 1 (.attempt [.mk 1 (.attempt [.mk 2 (.expr (.variable "x"))] (some "e")
        (some [.mk 3 (.ret none)]) none)] none none (some [.mk 4 .leave]))) ∧
    ∀ r t, ((Form.attempt [.mk 2 (.expr (.variable "x"))] (some "e") (some [.mk 3 (.ret none)])
      (some [.mk 4 .leave])).exec 0).Ends 0 State.bare r t ↔
        ∃ pending s₁, Guarded 0 0 [.mk 2 (.expr (.variable "x"))] (some "e")
            (some [.mk 3 (.ret none)]) State.bare pending s₁ ∧
          Concluded 0 0 [.mk 4 .leave] pending s₁ r t := by
  have hheap : State.bare.heap.Nested := Heap.isTidy_initial.nested
  have hhidden : State.bare.config.HidesStatements := .inl (by decide)
  have hq : 0 < State.bare.heap.scopes.size := Heap.isTidy_initial.root
  obtain ⟨hexchange, hfinalizer⟩ := attempt_exchangeable 0 1
    [.mk 2 (.expr (.variable "x"))] (some "e") (some [.mk 3 (.ret none)]) (some [.mk 4 .leave])
  exact ⟨hheap, hhidden, hq, hexchange hheap hhidden hq, hfinalizer _ rfl⟩

/-- The trace has one more statement if the finalizer is around another block, and where files may
be used, scripts can see it. -/
theorem attempt_nested_in_trace :
    State.watched.config.fileAccess = true ∧
    (State.watched.run 9 [.mk 1 (.attempt [] none none (some []))]).map (·.state.world.disk) ≠
      (State.watched.run 9 [.mk 1 (.attempt [.mk 1 (.attempt [] none none none)] none none
        (some []))]).map (·.state.world.disk) := by
  refine ⟨rfl, fun h => ?_⟩
  have hdisk : (State.watchedWith ["line 1: Try", "run 1 statements"]).settle.world.disk =
      (State.watchedWith ["line 1: Try", "line 1: Try", "run 1 statements"]).settle.world.disk :=
    Option.some.inj h
  have htext := State.text_eq_of_settle hdisk
  simp [Trace.text] at htext

end Hantec
