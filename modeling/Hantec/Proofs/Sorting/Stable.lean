/-!
# Stable orders

What it means that a list is ordered by a preorder and that ties keep their places. Merging keeps
both. A merge need not follow any order, though: if each comparison gives an answer of its own, what
comes out still has the same items.
-/

namespace Hantec

variable {α : Type}

/-- A total preorder. -/
structure IsRanking (le : α → α → Bool) : Prop where
  trans : ∀ x y z, le x y → le y z → le x z
  total : ∀ x y, le x y || le y x

/-- Neither item is before the other. -/
def ties (le : α → α → Bool) (x y : α) : Bool := le x y && le y x

/-- The second list has the items of the first one in order, and ties are in the order of the first
list. -/
structure StableSort (le : α → α → Bool) (xs ys : List α) : Prop where
  perm : ys.Perm xs
  ordered : ys.Pairwise fun x y => le x y
  stable : ∀ z, ys.filter (ties le z) = xs.filter (ties le z)

section Ranking

variable {le : α → α → Bool}

theorem IsRanking.refl (hle : IsRanking le) (x : α) : le x x := by
  simpa using hle.total x x

theorem IsRanking.ties_trans (hle : IsRanking le) {x y z : α} (hxy : ties le z x)
    (hyz : ties le z y) : le x y := by
  rw [ties, Bool.and_eq_true] at hxy hyz
  exact hle.trans x z y hxy.2 hyz.1

/-- What is tied to an item has the same order in a merge as in the lists one after the other. -/
theorem filter_merge (hle : IsRanking le) {xs ys : List α} (hxs : xs.Pairwise fun x y => le x y)
    (z : α) : (xs.merge ys le).filter (ties le z) =
      xs.filter (ties le z) ++ ys.filter (ties le z) := by
  induction xs generalizing ys with
  | nil => simp
  | cons x xs ihx =>
    induction ys with
    | nil => simp
    | cons y ys ihy =>
      by_cases hxy : le x y
      · rw [List.cons_merge_cons_pos le xs ys hxy, List.filter_cons, ihx hxs.tail]
        by_cases hx : ties le z x
        · simp [hx]
        · simp [hx]
      · rw [List.cons_merge_cons_neg le xs ys hxy, List.filter_cons, ihy]
        by_cases hy : ties le z y
        · -- The item `y` is before all of `x :: xs`, so none of them is tied to it.
          have hnone : (x :: xs).filter (ties le z) = [] := by
            refine List.filter_eq_nil_iff.2 fun w hw htied => hxy ?_
            have hxw : le x w := by
              rcases List.mem_cons.1 hw with rfl | hw
              · exact hle.refl w
              · exact List.rel_of_pairwise_cons hxs hw
            exact hle.trans x w y hxw (hle.ties_trans htied hy)
          simp [hnone, hy]
        · simp [List.filter_cons (x := y), hy]

theorem StableSort.refl {xs : List α} (h : xs.Pairwise fun x y => le x y) :
    StableSort le xs xs :=
  ⟨.refl xs, h, fun _ => rfl⟩

/-- Merging lists that are in order puts the lists one after the other in order. -/
theorem StableSort.merge (hle : IsRanking le) {xs ys left right : List α}
    (hleft : StableSort le xs left) (hright : StableSort le ys right) :
    StableSort le (xs ++ ys) (left.merge right le) where
  perm := (List.merge_perm_append le).trans (hleft.perm.append hright.perm)
  ordered := List.pairwise_merge hle.trans hle.total left right hleft.ordered hright.ordered
  stable z := by
    rw [filter_merge hle hleft.ordered, List.filter_append, hleft.stable, hright.stable]

theorem stableSort_mergeSort (hle : IsRanking le) (xs : List α) :
    StableSort le xs (xs.mergeSort le) where
  perm := List.mergeSort_perm xs le
  ordered := List.pairwise_mergeSort hle.trans hle.total xs
  stable z := by
    have htied : (xs.filter (ties le z)).Pairwise fun x y => le x y := by
      refine List.pairwise_of_forall_mem_list fun x hx y hy => ?_
      exact hle.ties_trans (List.mem_filter.1 hx).2 (List.mem_filter.1 hy).2
    have hsub : (xs.filter (ties le z)).Sublist (xs.mergeSort le) :=
      List.sublist_mergeSort hle.trans hle.total htied List.filter_sublist
    have hfilter := hsub.filter (ties le z)
    rw [List.filter_filter] at hfilter
    have hlength := ((List.mergeSort_perm xs le).filter (ties le z)).length_eq
    exact (List.Sublist.eq_of_length (by simpa using hfilter) hlength.symm).symm

end Ranking

/-! ## Merging by answers -/

variable {gives : α → α → Bool → Prop}

/-- Merges lists: the first item of the left one is taken unless it was answered that it is
greater. -/
inductive Merged (gives : α → α → Bool → Prop) : List α → List α → List α → Prop where
  | left (ys : List α) : Merged gives [] ys ys
  | right (xs : List α) : Merged gives xs [] xs
  | greater {x y : α} {xs ys zs : List α} : gives x y true → Merged gives (x :: xs) ys zs →
      Merged gives (x :: xs) (y :: ys) (y :: zs)
  | notGreater {x y : α} {xs ys zs : List α} : gives x y false → Merged gives xs (y :: ys) zs →
      Merged gives (x :: xs) (y :: ys) (x :: zs)

inductive SortedByHalves (gives : α → α → Bool → Prop) : List α → List α → Prop where
  | short {xs : List α} : xs.length ≤ 1 → SortedByHalves gives xs xs
  | halves {xs left right zs : List α} :
      SortedByHalves gives (xs.take (xs.length / 2)) left →
      SortedByHalves gives (xs.drop (xs.length / 2)) right → Merged gives left right zs →
      SortedByHalves gives xs zs

theorem Merged.perm {xs ys zs : List α} (h : Merged gives xs ys zs) : zs.Perm (xs ++ ys) := by
  induction h with
  | left ys => exact .refl ys
  | right xs => rw [List.append_nil]
  | greater _ _ ih => exact (ih.cons _).trans List.perm_middle.symm
  | notGreater _ _ ih => exact ih.cons _

theorem SortedByHalves.perm {xs zs : List α} (h : SortedByHalves gives xs zs) : zs.Perm xs := by
  induction h with
  | short _ => exact .refl _
  | @halves xs left right zs _ _ hmerged ihleft ihright =>
    calc
      zs.Perm (left ++ right) := hmerged.perm
      List.Perm _ (xs.take (xs.length / 2) ++ xs.drop (xs.length / 2)) := ihleft.append ihright
      List.Perm _ xs := by rw [List.take_append_drop]

/-- Answers that follow an order make up a merge by it. -/
theorem Merged.eq_merge {le : α → α → Bool} (hgives : ∀ x y b, gives x y b → b = !le x y)
    {xs ys zs : List α} (h : Merged gives xs ys zs) : zs = xs.merge ys le := by
  induction h with
  | left ys => simp
  | right xs => simp
  | @greater x y xs ys zs hxy _ ih =>
    have hle : ¬ le x y := by simp [hgives x y _ hxy]
    rw [List.cons_merge_cons_neg le xs ys hle, ih]
  | @notGreater x y xs ys zs hxy _ ih =>
    have hle : le x y := by simpa using hgives x y _ hxy
    rw [List.cons_merge_cons_pos le xs ys hle, ih]

theorem SortedByHalves.stableSort {le : α → α → Bool} (hle : IsRanking le)
    (hgives : ∀ x y b, gives x y b → b = !le x y) {xs zs : List α}
    (h : SortedByHalves gives xs zs) : StableSort le xs zs := by
  induction h with
  | @short xs hlength =>
    refine .refl ?_
    rcases xs with _ | ⟨x, _ | ⟨y, xs⟩⟩
    · exact .nil
    · exact List.pairwise_singleton _ x
    · simp at hlength
  | @halves xs left right zs _ _ hmerged ihleft ihright =>
    rw [hmerged.eq_merge hgives, ← List.take_append_drop (xs.length / 2) xs]
    exact ihleft.merge hle ihright

end Hantec
