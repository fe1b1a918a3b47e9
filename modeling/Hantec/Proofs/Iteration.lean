import Hantec.Proofs.Containment
import Hantec.Proofs.Sorting.Reentrant

/-!
# Iterating over arrays

The builtins that map, filter and reduce an array call a function for the items that the array had
when they were called. What they come to is told here by the rounds that they make, one for each
item: a round is begun in the state in which the one before has ended, so whatever a call does to
the array, the later rounds are for the same items. The first round that fails is the last one.
-/

namespace Hantec

variable {a d : Nat} {f : Value} {s s₁ s' : State}

/-! ## Rounds -/

section Rounds

/-- What is done for an item, by the value of the round before, the number of the item and the item
itself. -/
abbrev Round := Value → Nat → Value → Proc Value

/-- The values of rounds for the items of a list, which have the numbers from `i` on; the value
before the first round is `last`. -/
def rounds (round : Round) (last : Value) (i : Nat) : List Value → Proc (List Value)
  | [] => pure []
  | x :: xs => do
    let w ← round last i x
    let ws ← rounds round w (i + 1) xs
    return w :: ws

/-- Rounds for all items of a list can lead from the first state to the second one, with these
values. -/
inductive Rounds (round : Round) (d : Nat) :
    Value → Nat → List Value → State → List Value → State → Prop where
  | nil {last : Value} {i : Nat} (s : State) : Rounds round d last i [] s [] s
  | cons {last x w : Value} {i : Nat} {xs ws : List Value} {s s₁ s' : State} :
      (round last i x).Ends d s (.ok w) s₁ → Rounds round d w (i + 1) xs s₁ ws s' →
      Rounds round d last i (x :: xs) s (w :: ws) s'

/-- Rounds for the items of a list, of which all but the last one have a value, can come to a
failure. -/
inductive RoundFails (round : Round) (d : Nat) :
    Value → Nat → List Value → State → Failure → State → Prop where
  | here {last x : Value} {i : Nat} {xs : List Value} {s s' : State} {e : Failure} :
      (round last i x).Ends d s (.error e) s' → RoundFails round d last i (x :: xs) s e s'
  | later {last x w : Value} {i : Nat} {xs : List Value} {s s₁ s' : State} {e : Failure} :
      (round last i x).Ends d s (.ok w) s₁ → RoundFails round d w (i + 1) xs s₁ e s' →
      RoundFails round d last i (x :: xs) s e s'

variable {round : Round} {last x : Value} {i : Nat} {xs ws : List Value}

theorem Rounds.length_eq (h : Rounds round d last i xs s ws s') :
    ws.length = xs.length := by
  induction h with
  | nil => rfl
  | cons _ _ ih => simp [ih]

theorem rounds_nil_iff :
    Rounds round d last i [] s ws s' ↔ ws = [] ∧ s' = s := by
  constructor
  · intro h
    cases h
    exact ⟨rfl, rfl⟩
  · rintro ⟨rfl, rfl⟩
    exact .nil s'

theorem rounds_cons_iff :
    Rounds round d last i (x :: xs) s ws s' ↔
      ∃ w vs s₁, (round last i x).Ends d s (.ok w) s₁ ∧ Rounds round d w (i + 1) xs s₁ vs s' ∧
        ws = w :: vs := by
  constructor
  · intro h
    cases h with
    | cons hround hrest => exact ⟨_, _, _, hround, hrest, rfl⟩
  · rintro ⟨w, vs, s₁, hround, hrest, rfl⟩
    exact .cons hround hrest

theorem roundFails_cons_iff {e : Failure} :
    RoundFails round d last i (x :: xs) s e s' ↔
      (round last i x).Ends d s (.error e) s' ∨
      ∃ w s₁, (round last i x).Ends d s (.ok w) s₁ ∧ RoundFails round d w (i + 1) xs s₁ e s' := by
  constructor
  · intro h
    cases h with
    | here hround => exact .inl hround
    | later hround hrest => exact .inr ⟨_, _, hround, hrest⟩
  · rintro (hround | ⟨w, s₁, hround, hrest⟩)
    · exact .here hround
    · exact .later hround hrest

theorem ends_rounds_iff {r : Except Failure (List Value)} :
    (rounds round last i xs).Ends d s r s' ↔
      (∃ ws, Rounds round d last i xs s ws s' ∧ r = .ok ws) ∨
      ∃ e, RoundFails round d last i xs s e s' ∧ r = .error e := by
  induction xs generalizing last i s s' r with
  | nil =>
    rw [rounds, Proc.ends_pure_iff]
    constructor
    · rintro ⟨rfl, rfl⟩
      exact .inl ⟨[], .nil _, rfl⟩
    · rintro (⟨ws, hws, rfl⟩ | ⟨e, he, -⟩)
      · obtain ⟨rfl, rfl⟩ := rounds_nil_iff.1 hws
        exact ⟨rfl, rfl⟩
      · cases he
  | cons x xs ih =>
    rw [rounds, Proc.ends_bind_iff]
    constructor
    · rintro (⟨w, s₁, hround, hrest⟩ | ⟨e, rfl, hround⟩)
      · rcases Proc.ends_bind_iff.1 hrest with ⟨ws, s₂, hws, hpure⟩ | ⟨e, rfl, hfail⟩
        · obtain ⟨rfl, rfl⟩ := Proc.ends_pure_iff.1 hpure
          rcases ih.1 hws with ⟨_, hws, h⟩ | ⟨e, -, h⟩
          · cases h
            exact .inl ⟨_, .cons hround hws, rfl⟩
          · cases h
        · rcases ih.1 hfail with ⟨ws, -, h⟩ | ⟨_, hfails, h⟩
          · cases h
          · cases h
            exact .inr ⟨e, .later hround hfails, rfl⟩
      · exact .inr ⟨e, .here hround, rfl⟩
    · rintro (⟨ws, hws, rfl⟩ | ⟨e, hfails, rfl⟩)
      · obtain ⟨w, vs, s₁, hround, hvs, rfl⟩ := rounds_cons_iff.1 hws
        exact .inl ⟨w, s₁, hround, Proc.ends_bind_ok_iff.2
          ⟨vs, s', ih.2 (.inl ⟨vs, hvs, rfl⟩), Proc.ends_pure_iff.2 ⟨rfl, rfl⟩⟩⟩
      · rcases roundFails_cons_iff.1 hfails with hround | ⟨w, s₁, hround, hrest⟩
        · exact .inr ⟨e, rfl, hround⟩
        · exact .inl ⟨w, s₁, hround, Proc.ends_bind_iff.2
            (.inr ⟨e, rfl, ih.2 (.inr ⟨e, hrest, rfl⟩)⟩)⟩

theorem ends_rounds_ok_iff :
    (rounds round last i xs).Ends d s (.ok ws) s' ↔ Rounds round d last i xs s ws s' := by
  simp [ends_rounds_iff]

theorem ends_rounds_error_iff {e : Failure} :
    (rounds round last i xs).Ends d s (.error e) s' ↔ RoundFails round d last i xs s e s' := by
  simp [ends_rounds_iff]

end Rounds

/-! ## Calls for the items of an array -/

/-- The call of a function for an item of an array, which gets the number of the item and the array
as well. -/
def visit (f : Value) (a : Nat) : Round := fun _ i x =>
  invoke f [x, .num (Float.ofNat i), .arr a]

/-- The call for an item whose value has to be true or false. -/
def visitJudging (f : Value) (a : Nat) : Round := fun last i x => do
  let w ← visit f a last i x
  let _ ← Proc.isTruthy w
  return w

/-- The call for an item that gets the value of the call before in front of the rest. -/
def visitFolding (f : Value) (a : Nat) : Round := fun acc i x =>
  invoke f [acc, x, .num (Float.ofNat i), .arr a]

/-- Whether a value counts as true. -/
def Value.isTrue (v : Value) : Bool := v.isTruthy.toOption.getD false

/-- The items whose values count as true. -/
def kept (xs ws : List Value) : List Value :=
  ((xs.zip ws).filter fun p => p.2.isTrue).map Prod.fst

theorem mapItems_eq (done : List Value) (last : Value) (i : Nat) (xs : List Value) :
    mapItems f (.arr a) done i xs =
      rounds (visit f a) last i xs >>= fun ws => pure (done.reverse ++ ws) := by
  induction xs generalizing done last i with
  | nil =>
    show (pure done.reverse : Proc _) = pure (done.reverse ++ [])
    rw [List.append_nil]
  | cons x xs ih =>
    simp only [mapItems, rounds, Proc.bind_assoc]
    refine congrArg _ (funext fun w => (ih (w :: done) w (i + 1)).trans ?_)
    refine congrArg _ (funext fun ws => ?_)
    show (pure ((w :: done).reverse ++ ws) : Proc _) = pure (done.reverse ++ w :: ws)
    rw [List.reverse_cons, List.append_assoc, List.singleton_append]

theorem filterItems_eq (done : List Value) (last : Value) (i : Nat) (xs : List Value) :
    filterItems f (.arr a) done i xs =
      rounds (visitJudging f a) last i xs >>= fun ws => pure (done.reverse ++ kept xs ws) := by
  induction xs generalizing done last i with
  | nil =>
    show (pure done.reverse : Proc _) = pure (done.reverse ++ [])
    rw [List.append_nil]
  | cons x xs ih =>
    simp only [filterItems, rounds, visitJudging, Proc.bind_assoc]
    refine congrArg _ (funext fun w => ?_)
    have hrest (b : Bool) (hb : w.isTrue = b) :
        filterItems f (.arr a) (if b then x :: done else done) (i + 1) xs =
          rounds (visitJudging f a) w (i + 1) xs >>= fun ws =>
            pure (done.reverse ++ kept (x :: xs) (w :: ws)) := by
      rw [ih _ w]
      refine congrArg _ (funext fun ws => ?_)
      cases b <;> simp [kept, hb]
    unfold Proc.isTruthy Value.isTrue at *
    cases hw : w.isTruthy with
    | error e => rfl
    | ok b =>
      specialize hrest b (by rw [hw]; rfl)
      cases b <;> exact hrest

theorem reduceItems_eq (acc : Value) (i : Nat) (xs : List Value) :
    reduceItems f (.arr a) acc i xs =
      rounds (visitFolding f a) acc i xs >>= fun ws => pure (ws.getLastD acc) := by
  induction xs generalizing acc i with
  | nil => rfl
  | cons x xs ih =>
    simp only [reduceItems, rounds, Proc.bind_assoc]
    refine congrArg _ (funext fun w => (ih w (i + 1)).trans ?_)
    refine congrArg _ (funext fun ws => ?_)
    show (pure (ws.getLastD w) : Proc _) = pure ((w :: ws).getLastD acc)
    rw [List.getLastD_cons]

/-! ## The builtins -/

section Builtins

variable {args rest : List Value} {r : Except Failure Value}

/-- A builtin takes its result into the language, and a failure becomes its own. -/
theorem Builtin.ends_call_iff {b : Builtin} :
    (b.call args).Ends d s r s' ↔
      (∃ v s₁, (b.run args).Ends d s (.ok v) s₁ ∧ (Builtin.adopt v).Ends d s₁ r s') ∨
      ∃ e s₁, (b.run args).Ends d s (.error e) s₁ ∧ (b.failWith e).Ends d s₁ r s' := by
  rw [Builtin.call, Proc.ends_attempt_bind_iff]
  constructor
  · rintro ⟨e | v, s₁, hrun, hrest⟩
    · exact .inr ⟨e, s₁, hrun, hrest⟩
    · exact .inl ⟨v, s₁, hrun, hrest⟩
  · rintro (⟨v, s₁, hrun, hrest⟩ | ⟨e, s₁, hrun, hrest⟩)
    · exact ⟨.ok v, s₁, hrun, hrest⟩
    · exact ⟨.error e, s₁, hrun, hrest⟩

/-- The state with one more array, which has the number of arrays that there were. -/
def State.addArray (s : State) (items : List Value) : State :=
  { s with heap := (s.heap.newArray items.toArray).2 }

theorem State.array_addArray (s : State) (items : List Value) (r : Nat) :
    (s.addArray items).heap.array r =
      if r = s.heap.arrays.size then items.toArray else s.heap.array r := by
  simp only [addArray, Heap.newArray, Heap.array, Array.getD_eq_getD_getElem?,
    Array.getElem?_push]
  split <;> rfl

/-- What a builtin comes to whose rounds are followed by something. -/
theorem ends_call_rounds_iff {b : Builtin} {round : Round} {last : Value}
    {g : List Value → List Value → Proc Value}
    (hb : b.run args = items a >>= fun xs => rounds round last 0 xs >>= g xs)
    (hg : ∀ xs ws s, ∃ v s₁, (g xs ws).run s = .ret v s₁) :
    (b.call args).Ends d s r s' ↔
      (∃ ws s₁ v s₂, Rounds round d last 0 (s.heap.array a).toList s ws s₁ ∧
        (g (s.heap.array a).toList ws).run s₁ = .ret v s₂ ∧ (Builtin.adopt v).Ends d s₂ r s') ∨
      ∃ e s₁, RoundFails round d last 0 (s.heap.array a).toList s e s₁ ∧
        (b.failWith e).Ends d s₁ r s' := by
  rw [Builtin.ends_call_iff, hb]
  simp only [Proc.ends_bind_of_run_ret (run_items s a)]
  constructor
  · rintro (⟨v, s₂, hrun, hadopt⟩ | ⟨e, s₁, hrun, hfail⟩)
    · obtain ⟨ws, s₁, hws, hv⟩ := Proc.ends_bind_ok_iff.1 hrun
      obtain ⟨v', s₂', hg⟩ := hg (s.heap.array a).toList ws s₁
      obtain ⟨hvalue, rfl⟩ := (Proc.ends_of_run_ret hg).1 hv
      cases hvalue
      exact .inl ⟨ws, s₁, v, s₂, ends_rounds_ok_iff.1 hws, hg, hadopt⟩
    · rcases Proc.ends_bind_iff.1 hrun with ⟨ws, s₀, -, hv⟩ | ⟨e', he, hrounds⟩
      · obtain ⟨v', s₂', hg⟩ := hg (s.heap.array a).toList ws s₀
        cases ((Proc.ends_of_run_ret hg).1 hv).1
      · cases he
        exact .inr ⟨e, s₁, ends_rounds_error_iff.1 hrounds, hfail⟩
  · rintro (⟨ws, s₁, v, s₂, hws, hg, hadopt⟩ | ⟨e, s₁, hfails, hfail⟩)
    · refine .inl ⟨v, s₂, Proc.ends_bind_ok_iff.2 ⟨ws, s₁, ends_rounds_ok_iff.2 hws, ?_⟩, hadopt⟩
      exact (Proc.ends_of_run_ret hg).2 ⟨rfl, rfl⟩
    · have hrounds := ends_rounds_error_iff.2 hfails
      exact .inr ⟨e, s₁, Proc.ends_bind_iff.2 (.inr ⟨e, rfl, hrounds⟩), hfail⟩

/-- What a builtin comes to that makes a new array after its rounds. -/
theorem ends_collect_iff {b : Builtin} {round : Round} {g : List Value → List Value → List Value}
    (hb : b.run args = items a >>= fun xs =>
      rounds round .null 0 xs >>= fun ws => Proc.newArray (g xs ws)) :
    (b.call args).Ends d s r s' ↔
      (∃ ws s₁, Rounds round d .null 0 (s.heap.array a).toList s ws s₁ ∧
        r = .ok (.arr s₁.heap.arrays.size) ∧
        s' = s₁.addArray (g (s.heap.array a).toList ws)) ∨
      ∃ e s₁, RoundFails round d .null 0 (s.heap.array a).toList s e s₁ ∧
        (b.failWith e).Ends d s₁ r s' := by
  rw [ends_call_rounds_iff hb fun xs ws s => ⟨_, s.addArray (g xs ws), rfl⟩]
  refine or_congr_left ⟨?_, ?_⟩
  · rintro ⟨ws, s₁, v, s₂, hws, hnew, hadopt⟩
    cases hnew
    obtain ⟨rfl, rfl⟩ := ends_adopt_iff.1 hadopt
    exact ⟨ws, s₁, hws, rfl, rfl⟩
  · rintro ⟨ws, s₁, hws, rfl, rfl⟩
    exact ⟨ws, s₁, _, _, hws, rfl, ends_adopt_iff.2 ⟨rfl, rfl⟩⟩

theorem run_map (a : Nat) (f : Value) (rest : List Value) :
    (Builtin.array .map).run (.arr a :: f :: rest) = items a >>= fun xs =>
      rounds (visit f a) .null 0 xs >>= Proc.newArray := by
  show (items a >>= fun xs => mapItems f (.arr a) [] 0 xs >>= Proc.newArray) = _
  simp only [mapItems_eq [] .null, Proc.bind_assoc]
  rfl

theorem run_filter (a : Nat) (f : Value) (rest : List Value) :
    (Builtin.array .filter).run (.arr a :: f :: rest) = items a >>= fun xs =>
      rounds (visitJudging f a) .null 0 xs >>= fun ws => Proc.newArray (kept xs ws) := by
  show (items a >>= fun xs => filterItems f (.arr a) [] 0 xs >>= Proc.newArray) = _
  simp only [filterItems_eq [] .null, Proc.bind_assoc]
  rfl

theorem run_reduce (a : Nat) (f acc : Value) (rest : List Value) :
    (Builtin.array .reduce).run (.arr a :: f :: acc :: rest) = items a >>= fun xs =>
      rounds (visitFolding f a) acc 0 xs >>= fun ws => pure (ws.getLastD acc) := by
  show (items a >>= fun xs => reduceItems f (.arr a) acc 0 xs) = _
  simp only [reduceItems_eq]

/-! ## Values of the language -/

theorem isNative_num (x : Float) : (Value.num x).IsNative := rfl

theorem isNative_arr (r : Nat) : (Value.arr r).IsNative := rfl

/-- A call with values of the language comes to such a value, in a state with such values. -/
theorem State.IsNative.of_invoke {v : Value} (hs : s.IsNative) (hf : f.IsNative)
    (hargs : ∀ v ∈ args, v.IsNative) (h : (invoke f args).Ends d s (.ok v) s') :
    v.IsNative ∧ s'.IsNative := by
  have := Policy.lawful_native hs
  have hruns : (Policy.native s.config).Runs (fun _ _ => True) Policy.hard (invoke f args)
      Value.IsNative := .scopeless (.invoke hf hargs)
  have hends := (hruns s (Policy.admits_native hs)).of_comesTo h
  exact ⟨hends.ok v rfl, Policy.isNative_of_admits hs hends.admits⟩

theorem Value.IsNative.exists_isTruthy {v : Value} (hv : v.IsNative) : ∃ b, v.isTruthy = .ok b := by
  cases v with
  | int | tuple | node => cases hv
  | _ => exact ⟨_, rfl⟩

theorem Value.IsNative.ends_adopt_iff {v : Value} (hv : v.IsNative) :
    (Builtin.adopt v).Ends d s r s' ↔ r = .ok v ∧ s' = s := by
  cases v with
  | int | tuple | node => cases hv
  | _ => exact Proc.ends_of_run_ret rfl

section Native

variable {xs ws : List Value} {last x : Value} {i : Nat}

theorem isNative_of_visit {w : Value} (hs : s.IsNative) (hf : f.IsNative) (hx : x.IsNative)
    (h : (visit f a last i x).Ends d s (.ok w) s') : w.IsNative ∧ s'.IsNative :=
  hs.of_invoke hf (by simp [hx, isNative_num, isNative_arr]) h

/-- A value of the language is true or false. -/
theorem ends_visitJudging_iff (hs : s.IsNative) (hf : f.IsNative) (hx : x.IsNative) :
    (visitJudging f a last i x).Ends d s r s' ↔ (visit f a last i x).Ends d s r s' := by
  have hjudge {w : Value} {s₁ : State} (hw : w.IsNative) :
      (Proc.isTruthy w >>= fun _ => pure w).Ends d s₁ r s' ↔ r = .ok w ∧ s' = s₁ := by
    obtain ⟨b, hb⟩ := hw.exists_isTruthy
    refine Proc.ends_of_run_ret ?_
    rw [Proc.isTruthy, hb]
    rfl
  rw [visitJudging, Proc.ends_bind_iff]
  constructor
  · rintro (⟨w, s₁, hvisit, hrest⟩ | ⟨e, rfl, hvisit⟩)
    · obtain ⟨rfl, rfl⟩ := (hjudge (isNative_of_visit hs hf hx hvisit).1).1 hrest
      exact hvisit
    · exact hvisit
  · intro hvisit
    cases r with
    | error e => exact .inr ⟨e, rfl, hvisit⟩
    | ok w =>
      have hw := (isNative_of_visit hs hf hx hvisit).1
      exact .inl ⟨w, s', hvisit, (hjudge hw).2 ⟨rfl, rfl⟩⟩

theorem rounds_visitJudging_iff (hs : s.IsNative) (hf : f.IsNative)
    (hxs : ∀ x ∈ xs, x.IsNative) :
    Rounds (visitJudging f a) d last i xs s ws s' ↔ Rounds (visit f a) d last i xs s ws s' := by
  induction xs generalizing last i s ws with
  | nil => rw [rounds_nil_iff, rounds_nil_iff]
  | cons x xs ih =>
    obtain ⟨hx, hxs⟩ := List.forall_mem_cons.1 hxs
    rw [rounds_cons_iff, rounds_cons_iff]
    refine exists_congr fun w => exists_congr fun vs => exists_congr fun s₁ => ?_
    rw [ends_visitJudging_iff hs hf hx]
    exact and_congr_right fun hvisit => by rw [ih (isNative_of_visit hs hf hx hvisit).2 hxs]

theorem roundFails_visitJudging_iff {e : Failure} (hs : s.IsNative) (hf : f.IsNative)
    (hxs : ∀ x ∈ xs, x.IsNative) :
    RoundFails (visitJudging f a) d last i xs s e s' ↔
      RoundFails (visit f a) d last i xs s e s' := by
  induction xs generalizing last i s with
  | nil => constructor <;> intro h <;> cases h
  | cons x xs ih =>
    obtain ⟨hx, hxs⟩ := List.forall_mem_cons.1 hxs
    rw [roundFails_cons_iff, roundFails_cons_iff, ends_visitJudging_iff hs hf hx]
    refine or_congr_right (exists_congr fun w => exists_congr fun s₁ => ?_)
    rw [ends_visitJudging_iff hs hf hx]
    exact and_congr_right fun hvisit => by rw [ih (isNative_of_visit hs hf hx hvisit).2 hxs]

theorem isNative_of_rounds_visitFolding {acc : Value} (hs : s.IsNative)
    (hf : f.IsNative) (hxs : ∀ x ∈ xs, x.IsNative) (hacc : acc.IsNative)
    (h : Rounds (visitFolding f a) d acc i xs s ws s') : (ws.getLastD acc).IsNative := by
  induction h with
  | nil => exact hacc
  | cons hround _ ih =>
    obtain ⟨hx, hxs⟩ := List.forall_mem_cons.1 hxs
    obtain ⟨hw, hs₁⟩ := hs.of_invoke hf (by simp [hacc, hx, isNative_num, isNative_arr]) hround
    rw [List.getLastD_cons]
    exact ih hs₁ hxs hw

end Native

/-- An array is mapped, filtered or reduced by rounds for the items that it had at the start,
whatever the calls do to it. The first call that fails ends it, and nothing else does. A map makes
a new array of the values of the calls, a filter a new array of the items whose values count as
true, and a reduction returns the last value. In a state with values of the language only, the
rounds of a filter are the calls themselves, and the last value is returned as it is. -/
theorem iterates_over_snapshot (d a : Nat) (f : Value) (s : State) :
    (∀ rest r s', (Builtin.call (.array .map) (.arr a :: f :: rest)).Ends d s r s' ↔
      (∃ ws s₁, Rounds (visit f a) d .null 0 (s.heap.array a).toList s ws s₁ ∧
        r = .ok (.arr s₁.heap.arrays.size) ∧ s' = s₁.addArray ws) ∨
      ∃ e s₁, RoundFails (visit f a) d .null 0 (s.heap.array a).toList s e s₁ ∧
        (Builtin.failWith (.array .map) e).Ends d s₁ r s') ∧
    (∀ rest r s', (Builtin.call (.array .filter) (.arr a :: f :: rest)).Ends d s r s' ↔
      (∃ ws s₁, Rounds (visitJudging f a) d .null 0 (s.heap.array a).toList s ws s₁ ∧
        r = .ok (.arr s₁.heap.arrays.size) ∧ s' = s₁.addArray (kept (s.heap.array a).toList ws)) ∨
      ∃ e s₁, RoundFails (visitJudging f a) d .null 0 (s.heap.array a).toList s e s₁ ∧
        (Builtin.failWith (.array .filter) e).Ends d s₁ r s') ∧
    (∀ acc rest r s', (Builtin.call (.array .reduce) (.arr a :: f :: acc :: rest)).Ends d s r s' ↔
      (∃ ws s₁, Rounds (visitFolding f a) d acc 0 (s.heap.array a).toList s ws s₁ ∧
        (Builtin.adopt (ws.getLastD acc)).Ends d s₁ r s') ∨
      ∃ e s₁, RoundFails (visitFolding f a) d acc 0 (s.heap.array a).toList s e s₁ ∧
        (Builtin.failWith (.array .reduce) e).Ends d s₁ r s') ∧
    (s.IsNative → f.IsNative →
      (∀ ws s₁, Rounds (visitJudging f a) d .null 0 (s.heap.array a).toList s ws s₁ ↔
        Rounds (visit f a) d .null 0 (s.heap.array a).toList s ws s₁) ∧
      (∀ e s₁, RoundFails (visitJudging f a) d .null 0 (s.heap.array a).toList s e s₁ ↔
        RoundFails (visit f a) d .null 0 (s.heap.array a).toList s e s₁) ∧
      ∀ acc, acc.IsNative → ∀ ws s₁,
        Rounds (visitFolding f a) d acc 0 (s.heap.array a).toList s ws s₁ →
        ∀ r s', (Builtin.adopt (ws.getLastD acc)).Ends d s₁ r s' ↔
          r = .ok (ws.getLastD acc) ∧ s' = s₁) := by
  refine ⟨fun rest r s' => ?_, fun rest r s' => ?_, fun acc rest r s' => ?_, fun hs hf => ?_⟩
  · exact ends_collect_iff (g := fun _ ws => ws) (run_map a f rest)
  · exact ends_collect_iff (run_filter a f rest)
  · rw [ends_call_rounds_iff (run_reduce a f acc rest) fun xs ws s => ⟨ws.getLastD acc, s, rfl⟩]
    refine or_congr_left ⟨?_, ?_⟩
    · rintro ⟨ws, s₁, v, s₂, hws, hpure, hadopt⟩
      cases hpure
      exact ⟨ws, s₁, hws, hadopt⟩
    · rintro ⟨ws, s₁, hws, hadopt⟩
      exact ⟨ws, s₁, _, _, hws, rfl, hadopt⟩
  · have hxs := hs.heap.array a
    refine ⟨fun ws s₁ => rounds_visitJudging_iff hs hf hxs,
      fun e s₁ => roundFails_visitJudging_iff hs hf hxs, fun acc hacc ws s₁ h r s' => ?_⟩
    exact (isNative_of_rounds_visitFolding hs hf hxs hacc h).ends_adopt_iff

theorem isNative_popping : popping.IsNative where
  thrown _ _ _ _ h := by cases h
  heap := by
    have hone {α : Type} {x y : α} {r : Nat} (h : #[x][r]? = some y) : y = x := by
      simpa using Array.mem_of_getElem? h
    refine ⟨fun r items h => ?_, fun r d h => ?_, fun q s h => ?_, ?_, fun r c h => ?_⟩
    · rw [hone h]
      simp [isNative_num]
    · cases h
    · rw [hone h]
      intro e he
      have he : e ∈ [("a", Value.arr 0), ("sekni", .fn (.builtin (.array .pop)))] := he
      grind [Value.IsNative, Value.foreign?]
    · intro e he
      cases he
    · rw [hone h]
      simp [stmtsObey, Stmt.Obeys, Form.Obeys, Expr.Obeys, exprsObey, optionalExprObeys]

/-- A function that takes an item off the array in each call is called for all four items. -/
theorem iterates_over_snapshot_popping :
    popping.IsNative ∧
    ∃ v s', (Builtin.call (.array .map) [.arr 0, .fn (.closure 0)]).Ends 0 popping (.ok v) s' ∧
      (s'.heap.array 0).size = 0 ∧
      ∃ ws s₁, Rounds (visitJudging (.fn (.closure 0)) 0) 0 .null 0
          [.num 4, .num 3, .num 2, .num 1] popping ws s₁ ∧
        ws.length = 4 ∧ s' = s₁.addArray ws := by
  have hsize : Progress.sizeAfter 0 (Machine.advance 60
      ⟨Callable.call (.builtin (.array .map)) [.arr 0, .fn (.closure 0)] popping, [], 0⟩) =
      some 0 := by decide +kernel
  obtain ⟨v, s', hdone, hsize⟩ := Progress.eq_done_of_sizeAfter hsize
  have hend := Builtin.ends_call_of_advance hdone
  obtain ⟨hmap, -, -, hnative⟩ := iterates_over_snapshot 0 0 (.fn (.closure 0)) popping
  obtain ⟨hjudging, -, -⟩ := hnative isNative_popping rfl
  refine ⟨isNative_popping, v, s', hend, hsize, ?_⟩
  rcases (hmap [] _ _).1 hend with ⟨ws, s₁, hws, -, hs'⟩ | ⟨e, s₁, -, hfail⟩
  · exact ⟨ws, s₁, (hjudging ws s₁).2 hws, hws.length_eq, hs'⟩
  · obtain ⟨⟨e, he⟩, -⟩ := hfail.of_failWith
    cases he

end Builtins

end Hantec
