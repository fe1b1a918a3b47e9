import Hantec.Proofs.Run.Machine

/-!
# Ends of runs

How a run that is alone ends, without a bound on its moves and waits. Runs in accord end alike: if
one of them ends, so does the other one, with the same result. If no module is written out, they
also end within the same bounds.
-/

namespace Hantec

variable {ω : Type}

namespace Machine

/-- The machine ends after so many moves and waits. -/
inductive EndsIn : Nat → Machine → Except Failure Outcome → State → Prop where
  | done {m : Machine} {r : Except Failure Outcome} {s : State} :
      m.next = .done r s → EndsIn 0 m r s
  | move {n : Nat} {m m₁ : Machine} {r : Except Failure Outcome} {s : State} :
      m.next = .running m₁ → EndsIn n m₁ r s → EndsIn (n + 1) m r s
  | wake {n : Nat} {m : Machine} {d : Delay} {s₁ : State} {resume : State → Machine}
      {r : Except Failure Outcome} {s : State} :
      m.next = .waiting d s₁ resume →
      EndsIn n (resume { s₁ with world := s₁.world.pass d }) r s → EndsIn (n + 1) m r s

variable {m m₁ : Machine} {n k : Nat} {r : Except Failure Outcome} {s : State}

theorem EndsIn.ofAdvance (hk : m.advance k = .running m₁) (h : EndsIn n m₁ r s) :
    EndsIn (k + n) m r s := by
  induction k generalizing m with
  | zero =>
    cases hk
    rwa [Nat.zero_add]
  | succ k ih =>
    obtain ⟨m₂, hnext, hk⟩ := exists_next_of_advance hk
    rw [Nat.succ_add]
    exact .move hnext (ih hk)

/-- What a machine comes to on its way belongs to its end. -/
theorem EndsIn.advance (h : EndsIn n m r s) (hk : m.advance k = .running m₁) :
    ∃ l, n = k + l ∧ EndsIn l m₁ r s := by
  induction k generalizing m n with
  | zero =>
    cases hk
    exact ⟨n, by simp, h⟩
  | succ k ih =>
    obtain ⟨m₂, hnext, hk⟩ := exists_next_of_advance hk
    cases h with
    | done hdone => simp [hnext] at hdone
    | wake hwait => simp [hnext] at hwait
    | move hmove h =>
      obtain rfl : m₂ = _ := by simpa [hnext] using hmove
      obtain ⟨l, rfl, hl⟩ := ih h hk
      exact ⟨l, by omega, hl⟩

/-- What a machine comes to when it does not go on is the last one of its moves. -/
theorem exists_last_of_advance {p : Progress} (h : m.advance n = p) (hp : ∀ m, p ≠ .running m) :
    ∃ k m₁, m.advance k = .running m₁ ∧ m₁.next = p := by
  induction n generalizing m with
  | zero => exact absurd h.symm (hp m)
  | succ n ih =>
    cases hnext : m.next with
    | running m₁ =>
      obtain ⟨k, m₂, hk, hlast⟩ := ih (advance_succ hnext n ▸ h)
      exact ⟨k + 1, m₂, (advance_succ hnext k).trans hk, hlast⟩
    | waiting d s resume => exact ⟨0, m, rfl, by simpa [Machine.advance, hnext] using h⟩
    | done r s => exact ⟨0, m, rfl, by simpa [Machine.advance, hnext] using h⟩

/-- With enough moves, a machine that ends comes to its end or to a wait, and what it is after the
wait ends too. -/
theorem EndsIn.advance_cases (h : EndsIn n m r s) {limit : Nat} (hlimit : n < limit) :
    m.advance limit = .done r s ∨
    ∃ d s₁ resume l, m.advance limit = .waiting d s₁ resume ∧ l < n ∧
      (∃ m₁, m.Reaches m₁ ∧ m₁.next = .waiting d s₁ resume) ∧
      EndsIn l (resume { s₁ with world := s₁.world.pass d }) r s ∧
      ∀ m', (resume { s₁ with world := s₁.world.pass d }).Reaches m' → m.Reaches m' := by
  induction h generalizing limit with
  | done hnext =>
    obtain ⟨limit, rfl⟩ : ∃ l, limit = l + 1 := ⟨limit - 1, by omega⟩
    exact .inl (by simp [Machine.advance, hnext])
  | move hnext _ ih =>
    obtain ⟨limit, rfl⟩ : ∃ l, limit = l + 1 := ⟨limit - 1, by omega⟩
    rw [advance_succ hnext]
    obtain hdone | ⟨d, s₁, resume, l, hwait, hl, ⟨m₁, hm₁, hnext₁⟩, hend, hreach⟩ :=
      ih (Nat.lt_of_succ_lt_succ hlimit)
    · exact .inl hdone
    · exact .inr ⟨d, s₁, resume, l, hwait, Nat.lt_succ_of_lt hl, ⟨m₁, .move hnext hm₁, hnext₁⟩,
        hend, fun m' hm' => .move hnext (hreach m' hm')⟩
  | wake hnext hend =>
    obtain ⟨limit, rfl⟩ : ∃ l, limit = l + 1 := ⟨limit - 1, by omega⟩
    exact .inr ⟨_, _, _, _, by simp [Machine.advance, hnext], Nat.lt_succ_self _,
      ⟨_, .refl _, hnext⟩, hend, fun m' hm' => .wake hnext hm'⟩

/-- Goes on after a stretch without waits. -/
def finishFrom (n waits : Nat) : Progress → Option (Except Failure Outcome × State)
  | .running _ => none
  | .done r s => some (r, s)
  | .waiting d s resume => finish n waits (resume { s with world := s.world.pass d })

theorem finish_succ (n waits : Nat) (m : Machine) :
    m.finish n (waits + 1) = finishFrom n waits (m.advance n) := by
  rw [finish]
  cases m.advance n <;> rfl

theorem EndsIn.finishFrom (h : EndsIn n m r s) {stretch moves waits : Nat}
    (hstretch : n < stretch) (hmoves : n < moves) (hwaits : n ≤ waits) :
    finishFrom moves waits (m.advance stretch) = some (r, s) := by
  induction h generalizing stretch waits with
  | done hnext =>
    obtain ⟨stretch, rfl⟩ : ∃ l, stretch = l + 1 := ⟨stretch - 1, by omega⟩
    simp [Machine.advance, hnext, Machine.finishFrom]
  | move hnext _ ih =>
    obtain ⟨stretch, rfl⟩ : ∃ l, stretch = l + 1 := ⟨stretch - 1, by omega⟩
    rw [advance_succ hnext]
    exact ih (by omega) (by omega) (by omega)
  | wake hnext _ ih =>
    obtain ⟨stretch, rfl⟩ : ∃ l, stretch = l + 1 := ⟨stretch - 1, by omega⟩
    obtain ⟨waits, rfl⟩ : ∃ l, waits = l + 1 := ⟨waits - 1, by omega⟩
    simp only [Machine.advance, hnext, Machine.finishFrom, finish_succ]
    exact ih (by omega) (by omega) (by omega)

theorem endsIn_of_finish {waits : Nat} (h : m.finish n waits = some (r, s)) :
    ∃ k, EndsIn k m r s := by
  induction waits generalizing m with
  | zero => cases h
  | succ waits ih =>
    rw [finish_succ] at h
    cases hp : m.advance n with
    | running m₁ => simp [hp, Machine.finishFrom] at h
    | done r₁ s₁ =>
      obtain ⟨rfl, rfl⟩ : r₁ = r ∧ s₁ = s := by simpa [hp, Machine.finishFrom] using h
      obtain ⟨k, m₁, hk, hlast⟩ := exists_last_of_advance hp (by simp)
      exact ⟨k + 0, .ofAdvance hk (.done hlast)⟩
    | waiting d s₁ resume =>
      rw [hp, Machine.finishFrom] at h
      obtain ⟨l, hl⟩ := ih h
      obtain ⟨k, m₁, hk, hlast⟩ := exists_last_of_advance hp (by simp)
      exact ⟨k + (l + 1), .ofAdvance hk (.wake hlast hl)⟩

end Machine

namespace Accord

open Scoping.Lawful (near_refl)

variable {A : Accord ω} {w : ω} {m m' : Machine} {n : Nat} {r r' : Except Failure Outcome}
  {s s' : State}

theorem Fitting.wake {d : Delay} {resume : State → Machine} (h : A.Fitting m)
    (hnext : m.next = .waiting d s resume) :
    A.Fitting (resume { s with world := s.world.pass d }) :=
  fun m' hm => h m' (.wake hnext hm)

/-- Time may pass in both runs. -/
theorem AdmitsChance.pass (h : A.AdmitsChance) (hs : A.States w s s') (d : Delay) :
    A.States w { s with world := s.world.pass d } { s' with world := s'.world.pass d } :=
  { hs with outside := (h (f := fun w => ((), w.pass d)) (fun _ _ => rfl) w s s' hs.outside).2 }

variable [A.Lawful]

section

variable (hnone : ∀ name module, ¬ A.modules name module)

include hnone

theorem Machines.advance (h : A.Machines w m m') (hfit : A.Fitting m) (n : Nat) :
    A.Progresses w (m.advance n) (m'.advance n) := by
  induction n generalizing w m m' with
  | zero => exact .running (near_refl w) h
  | succ n ih =>
    have hnext := h.next hnone hfit
    rw [Machine.advance, Machine.advance]
    generalize hm : m.next = p at hnext ⊢
    generalize m'.next = p' at hnext ⊢
    cases hnext with
    | running hv h₂ => exact (ih h₂ (hfit.move hm)).weaken hv
    | waiting d hv hs hresume => exact .waiting d hv hs hresume
    | done hv hr hs => exact .done hv hr hs

/-- The two machines end with the same bounds on their moves and waits. -/
theorem Machines.finish (hchance : A.AdmitsChance) (h : A.Machines w m m') (hfit : A.Fitting m)
    (n waits : Nat) :
    Option.Rel (fun x x' => A.Results x.1 x'.1 ∧ ∃ v, A.States v x.2 x'.2) (m.finish n waits)
      (m'.finish n waits) := by
  induction waits generalizing w m m' with
  | zero => exact .none
  | succ waits ih =>
    have hadvance := h.advance hnone hfit n
    rw [Machine.finish_succ, Machine.finish_succ]
    generalize hm : m.advance n = p at hadvance ⊢
    generalize m'.advance n = p' at hadvance ⊢
    cases hadvance with
    | running _ _ => exact .none
    | done _ hr hs => exact .some ⟨hr, _, hs⟩
    | waiting d _ hs hresume =>
      refine ih (hresume _ _ _ (far_refl _) (hchance.pass hs d)) fun m₂ hm₂ => hfit m₂ ?_
      obtain ⟨k, m₁, hk, hwait⟩ := Machine.exists_last_of_advance hm (by simp)
      exact Machine.reaches_of_advance hk (.wake hwait hm₂)

/-- Programs in accord end alike. -/
theorem States.run (hchance : A.AdmitsChance) (hs : A.States w s s') (hroot : A.homes w 0 0)
    {p p' : List Stmt} (hp : A.Same .stmts p p')
    (hlegible : A.level < A.config.traceLevel →
      (Machine.start (programProc p) s).StaysLegible) (limit : Nat) :
    Option.Rel (fun e e' => A.Results e.result e'.result ∧ ∃ v, A.States v e.state e'.state)
      (s.run limit p) (s'.run limit p') := by
  have hstart := (Procs.program hp hroot).machines hs .nil (.inl (Eq.refl 0))
  have hsplices : ¬ A.Splices := by
    rintro ⟨name, module, hm⟩
    exact hnone name module hm
  have hfit : A.Fitting (Machine.start (programProc p) s) := fun m hm =>
    ⟨fun h => absurd h hsplices, fun _ _ _ _ _ _ => hchance, fun h => hlegible h m hm⟩
  have hfinish := hstart.finish hnone hchance hfit limit limit
  unfold State.run State.perform Machine.start
  generalize Machine.finish limit limit ⟨programProc p s, [], 0⟩ = x at hfinish ⊢
  generalize Machine.finish limit limit ⟨programProc p' s', [], 0⟩ = x' at hfinish ⊢
  cases hfinish with
  | none => exact .none
  | @some x x' hends =>
    obtain ⟨r, t⟩ := x
    obtain ⟨r', t'⟩ := x'
    obtain ⟨hr, v, ht⟩ := hends
    refine .some ⟨?_, v, ht.settle⟩
    cases hr with
    | ok o => exact .ok ()
    | error he => exact .error he

end

end Accord

end Hantec
