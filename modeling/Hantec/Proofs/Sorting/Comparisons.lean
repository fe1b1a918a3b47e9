import Hantec.Proofs.Run.Ends
import Hantec.Proofs.Sorting.Stable

/-!
# Sorting by comparisons

A comparison can be a call, with all that a call can do. What a sort comes to is told here by what
its comparisons come to: it makes some of them one after the other, the first one that fails ends
it, and otherwise its result is that of merging by the answers.
-/

namespace Hantec

variable {α β : Type}

/-- Comparisons of items that are made from a state on, while so many calls are open. -/
structure Comparing where
  greater : Value → Value → Proc Bool
  items : List Value
  depth : Nat
  start : State

namespace Comparing

variable (C : Comparing)

/-- The state is there after some comparisons that have come to an answer. -/
inductive Attains : State → Prop where
  | start : Attains C.start
  | compare {x y : Value} {b : Bool} {s s' : State} : Attains s → x ∈ C.items → y ∈ C.items →
      (C.greater x y).Ends C.depth s (.ok b) s' → Attains s'

/-- At some point, the answer is given whether an item is greater than another one. -/
inductive Gives (x y : Value) (b : Bool) : Prop where
  | mk {s s' : State} : x ∈ C.items → y ∈ C.items → C.Attains s →
      (C.greater x y).Ends C.depth s (.ok b) s' → Gives x y b

/-- At some point, a comparison fails. -/
inductive Fails (e : Failure) (s' : State) : Prop where
  | mk {x y : Value} {s : State} : x ∈ C.items → y ∈ C.items → C.Attains s →
      (C.greater x y).Ends C.depth s (.error e) s' → Fails e s'

/-- At every point, any comparison can come to an answer. -/
def AlwaysAnswers : Prop :=
  ∀ x ∈ C.items, ∀ y ∈ C.items, ∀ s, C.Attains s →
    ∃ b s', (C.greater x y).Ends C.depth s (.ok b) s'

/-- The answers follow an order, whatever the state. -/
def AnswersBy (le : Value → Value → Bool) : Prop := ∀ x y b, C.Gives x y b → b = !le x y

/-- The procedure only makes comparisons, and its result satisfies `Q`. -/
structure Suffices (p : Proc α) (Q : α → Prop) : Prop where
  ok : ∀ s a s', C.Attains s → p.Ends C.depth s (.ok a) s' → C.Attains s' ∧ Q a
  error : ∀ s e s', C.Attains s → p.Ends C.depth s (.error e) s' → C.Fails e s'
  returns : C.AlwaysAnswers → ∀ s, C.Attains s → ∃ a s', p.Ends C.depth s (.ok a) s'

variable {C} {p : Proc α} {Q Q' : α → Prop}

namespace Suffices

/-- Changes nothing at any point. -/
theorem ret (hp : ∀ s, C.Attains s → ∃ a, p.run s = .ret a s ∧ Q a) : C.Suffices p Q where
  ok s b s' hs h := by
    obtain ⟨a, ha, hQ⟩ := hp s hs
    obtain ⟨hb, rfl⟩ := (Proc.ends_of_run_ret ha).1 h
    cases hb
    exact ⟨hs, hQ⟩
  error s e s' hs h := by
    obtain ⟨a, ha, -⟩ := hp s hs
    cases ((Proc.ends_of_run_ret ha).1 h).1
  returns _ s hs := by
    obtain ⟨a, ha, -⟩ := hp s hs
    exact ⟨a, s, (Proc.ends_of_run_ret ha).2 ⟨rfl, rfl⟩⟩

theorem mono (hp : C.Suffices p Q) (hQ : ∀ a, Q a → Q' a) : C.Suffices p Q' where
  ok s a s' hs h := ⟨(hp.ok s a s' hs h).1, hQ a (hp.ok s a s' hs h).2⟩
  error := hp.error
  returns := hp.returns

theorem pure {a : α} (ha : Q a) : C.Suffices (Pure.pure a) Q :=
  ret fun _ _ => ⟨a, rfl, ha⟩

theorem bind {f : α → Proc β} {R : β → Prop} (hp : C.Suffices p Q)
    (hf : ∀ a, Q a → C.Suffices (f a) R) : C.Suffices (p >>= f) R where
  ok s b s' hs h := by
    obtain ⟨a, s₁, ha, hb⟩ := Proc.ends_bind_ok_iff.1 h
    obtain ⟨hs₁, hQ⟩ := hp.ok s a s₁ hs ha
    exact (hf a hQ).ok s₁ b s' hs₁ hb
  error s e s' hs h := by
    rcases Proc.ends_bind_iff.1 h with ⟨a, s₁, ha, hb⟩ | ⟨e', he, ha⟩
    · obtain ⟨hs₁, hQ⟩ := hp.ok s a s₁ hs ha
      exact (hf a hQ).error s₁ e s' hs₁ hb
    · cases he
      exact hp.error s e s' hs ha
  returns hC s hs := by
    obtain ⟨a, s₁, ha⟩ := hp.returns hC s hs
    obtain ⟨hs₁, hQ⟩ := hp.ok s a s₁ hs ha
    obtain ⟨b, s', hb⟩ := (hf a hQ).returns hC s₁ hs₁
    exact ⟨b, s', Proc.ends_bind_ok_iff.2 ⟨a, s₁, ha, hb⟩⟩

theorem compare {x y : Value} (hx : x ∈ C.items) (hy : y ∈ C.items) :
    C.Suffices (C.greater x y) (C.Gives x y) where
  ok _ _ _ hs h := ⟨hs.compare hx hy h, ⟨hx, hy, hs, h⟩⟩
  error _ _ _ hs h := ⟨hx, hy, hs, h⟩
  returns hC s hs := hC x hx y hy s hs

/-! ## Merging and sorting -/

/-- Each comparison moves one item from the lists to those before. -/
theorem mergeBy (n : Nat) {done xs ys : List Value} (hn : xs.length + ys.length ≤ n)
    (hxs : xs ⊆ C.items) (hys : ys ⊆ C.items) :
    C.Suffices (mergeBy C.greater done n xs ys)
      fun zs => ∃ ws, zs = done.reverse ++ ws ∧ Merged C.Gives xs ys ws := by
  induction n generalizing done xs ys with
  | zero =>
    obtain rfl : xs = [] := List.eq_nil_of_length_eq_zero (by omega)
    obtain rfl : ys = [] := List.eq_nil_of_length_eq_zero (by omega)
    exact pure ⟨[], by simp, .left []⟩
  | succ n ih =>
    cases xs with
    | nil => exact pure ⟨ys, by simp, .left ys⟩
    | cons x xs =>
      cases ys with
      | nil => exact pure ⟨x :: xs, by simp, .right _⟩
      | cons y ys =>
        obtain ⟨hx, hxs'⟩ := List.cons_subset.1 hxs
        obtain ⟨hy, hys'⟩ := List.cons_subset.1 hys
        refine (compare hx hy).bind fun b hb => ?_
        cases b with
        | true =>
          refine (ih (by simp at hn ⊢; omega) hxs hys').mono ?_
          rintro zs ⟨ws, rfl, hws⟩
          exact ⟨y :: ws, by simp, .greater hb hws⟩
        | false =>
          refine (ih (by simp at hn ⊢; omega) hxs' hys).mono ?_
          rintro zs ⟨ws, rfl, hws⟩
          exact ⟨x :: ws, by simp, .notGreater hb hws⟩

theorem merge {xs ys : List Value} (hxs : xs ⊆ C.items) (hys : ys ⊆ C.items) :
    C.Suffices (Hantec.mergeBy C.greater [] (xs.length + ys.length) xs ys)
      (Merged C.Gives xs ys) := by
  refine (mergeBy _ (Nat.le_refl _) hxs hys).mono ?_
  rintro zs ⟨ws, rfl, hws⟩
  exact hws

theorem sortBy (n : Nat) {xs : List Value} (hn : xs.length ≤ n) (hxs : xs ⊆ C.items) :
    C.Suffices (sortBy C.greater n xs) (SortedByHalves C.Gives xs) := by
  induction n generalizing xs with
  | zero => exact pure (.short (by omega))
  | succ n ih =>
    by_cases hshort : xs.length ≤ 1
    · rw [Hantec.sortBy, if_pos hshort]
      exact pure (.short hshort)
    · rw [Hantec.sortBy, if_neg hshort]
      have htake : xs.take (xs.length / 2) ⊆ C.items :=
        fun v hv => hxs (List.mem_of_mem_take hv)
      have hdrop : xs.drop (xs.length / 2) ⊆ C.items :=
        fun v hv => hxs (List.mem_of_mem_drop hv)
      refine (ih (by rw [List.length_take]; omega) htake).bind fun left hleft => ?_
      refine (ih (by rw [List.length_drop]; omega) hdrop).bind fun right hright => ?_
      have hleft' : left ⊆ C.items := List.Subset.trans hleft.perm.subset htake
      have hright' : right ⊆ C.items := List.Subset.trans hright.perm.subset hdrop
      refine (merge hleft' hright').mono ?_
      exact fun zs hzs => .halves hleft hright hzs

end Suffices

end Comparing

/-! ## Whatever the answers -/

section Perm

variable {greater : Value → Value → Proc Bool} {d : Nat} {xs ys zs : List Value} {s s' : State}

theorem Proc.Ends.perm_of_sortBy {n : Nat} (h : (sortBy greater n xs).Ends d s (.ok zs) s')
    (hn : xs.length ≤ n) : zs.Perm xs := by
  let C : Comparing := ⟨greater, xs, d, s⟩
  have hsort : C.Suffices (sortBy greater n xs) (SortedByHalves C.Gives xs) :=
    .sortBy n hn (List.Subset.refl xs)
  exact (hsort.ok s zs s' .start h).2.perm

theorem Proc.Ends.perm_of_mergeBy
    (h : (mergeBy greater [] (xs.length + ys.length) xs ys).Ends d s (.ok zs) s') :
    zs.Perm (xs ++ ys) := by
  let C : Comparing := ⟨greater, xs ++ ys, d, s⟩
  have hmerge : C.Suffices (mergeBy greater [] (xs.length + ys.length) xs ys)
      (Merged C.Gives xs ys) :=
    .merge (List.subset_append_left xs ys) (List.subset_append_right xs ys)
  exact (hmerge.ok s zs s' .start h).2.perm

end Perm

end Hantec
