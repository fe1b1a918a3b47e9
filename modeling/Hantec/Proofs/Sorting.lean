import Hantec.Proofs.Sorting.Comparisons

/-!
# Sorting arrays

An array is sorted in place, by the answers of a function or by the texts of its items. If the
function leaves the array alone, the array ends up with its items in another order, whatever the
answers are; they are in order, and ties keep their places, if the answers follow a total preorder.
What fails leaves the array as it was.
-/

namespace Hantec

variable {a d : Nat} {s s' : State}

namespace Heap

variable {h : Heap}

theorem array_setArray_of_lt (ha : a < h.arrays.size) (items : Array Value) :
    (h.setArray a items).array a = items := by
  simp [setArray, array, ha]

theorem array_setArray {items : Array Value} (hsize : items.size = (h.array a).size) :
    (h.setArray a items).array a = items := by
  by_cases ha : a < h.arrays.size
  · exact array_setArray_of_lt ha items
  · have hempty : items.size = 0 := by simpa [array, ha] using hsize
    simp [setArray, array, ha, Array.eq_empty_of_size_eq_zero hempty]

theorem array_setArray_of_ne {r : Nat} (hr : r ≠ a) (items : Array Value) :
    (h.setArray a items).array r = h.array r := by
  simp [setArray, array, Array.getD_eq_getD_getElem?, hr.symm]

theorem setArray_array (h : Heap) (a : Nat) : h.setArray a (h.array a) = h := by
  have harrays : h.arrays.setIfInBounds a (h.array a) = h.arrays := by
    by_cases ha : a < h.arrays.size
    · refine Array.ext (by simp) fun i _ _ => ?_
      rw [Array.getElem_setIfInBounds]
      split
      case isTrue hi =>
        subst hi
        simp [array, ha]
      case isFalse => rfl
    · simp [Array.setIfInBounds, ha]
  rw [setArray, harrays]

end Heap

def State.withArray (s : State) (a : Nat) (items : List Value) : State :=
  { s with heap := s.heap.setArray a items.toArray }

theorem State.array_withArray {ys : List Value} (hys : ys.Perm (s.heap.array a).toList) :
    ((s.withArray a ys).heap.array a).toList = ys := by
  have hsize : ys.toArray.size = (s.heap.array a).size := by simpa using hys.length_eq
  rw [withArray, Heap.array_setArray hsize]

theorem State.withArray_toList (s : State) (a : Nat) : s.withArray a (s.heap.array a).toList = s := by
  rw [withArray, Array.toArray_toList, Heap.setArray_array]

theorem run_items (s : State) (a : Nat) : (items a).run s = .ret (s.heap.array a).toList s :=
  Proc.run_ask s rfl

theorem ends_setItems_iff {ys : List Value} {r : Except Failure Unit} :
    (Proc.modifyHeap (·.setArray a ys.toArray)).Ends d s r s' ↔
      r = .ok () ∧ s' = s.withArray a ys :=
  Proc.ends_of_run_ret rfl

/-! ## Sorting by comparisons -/

section ByComparisons

variable {greater : Value → Value → Proc Bool}

/-- The items of an array in order, of which the second half is taken when the first one is
sorted. -/
def sortedItems (greater : Value → Value → Proc Bool) (a : Nat) (xs : List Value) :
    Proc (List Value) := do
  let left ← sortBy greater xs.length (xs.take (xs.length / 2))
  let ys ← items a
  let right ← sortBy greater ys.length (ys.drop (xs.length / 2))
  mergeBy greater [] (left.length + right.length) left right

theorem sortArrayBy_eq (greater : Value → Value → Proc Bool) (a : Nat) :
    sortArrayBy greater a = items a >>= fun xs =>
      if xs.length ≤ 1 then pure ()
      else sortedItems greater a xs >>= fun ys => Proc.modifyHeap (·.setArray a ys.toArray) := by
  unfold sortArrayBy sortedItems
  simp only [Proc.bind_assoc]

theorem ends_sortArrayBy_iff {r : Except Failure Unit} :
    (sortArrayBy greater a).Ends d s r s' ↔
      if (s.heap.array a).toList.length ≤ 1 then r = .ok () ∧ s' = s
      else
        (∃ ys s₁, (sortedItems greater a (s.heap.array a).toList).Ends d s (.ok ys) s₁ ∧
          r = .ok () ∧ s' = s₁.withArray a ys) ∨
        ∃ e, r = .error e ∧
          (sortedItems greater a (s.heap.array a).toList).Ends d s (.error e) s' := by
  rw [sortArrayBy_eq, Proc.ends_bind_of_run_ret (run_items s a)]
  split
  · exact Proc.ends_pure_iff
  · simp only [Proc.ends_bind_iff, ends_setItems_iff]

/-- What comes out of sorting an array if it has the first items `xs` and is sorted by comparisons
of some items: at some point its second half is taken. -/
theorem Comparing.Suffices.sortedItems {C : Comparing} {xs : List Value} (hxs : xs ⊆ C.items)
    (hread : ∀ s, C.Attains s → (s.heap.array a).toList ⊆ C.items) :
    C.Suffices (sortedItems C.greater a xs) fun zs => ∃ s₁ left right, C.Attains s₁ ∧
      SortedByHalves C.Gives (xs.take (xs.length / 2)) left ∧
      SortedByHalves C.Gives ((s₁.heap.array a).toList.drop (xs.length / 2)) right ∧
      Merged C.Gives left right zs := by
  have htake : xs.take (xs.length / 2) ⊆ C.items := fun v hv => hxs (List.mem_of_mem_take hv)
  have hitems : C.Suffices (Hantec.items a) fun ys => ∃ s, C.Attains s ∧ ys = (s.heap.array a).toList :=
    ret fun s hs => ⟨_, run_items s a, s, hs, rfl⟩
  refine (sortBy _ (List.length_take_le' _ _) htake).bind fun left hleft => hitems.bind ?_
  rintro _ ⟨s₁, hs₁, rfl⟩
  have hdrop : (s₁.heap.array a).toList.drop (xs.length / 2) ⊆ C.items :=
    fun v hv => hread s₁ hs₁ (List.mem_of_mem_drop hv)
  refine (sortBy _ (by simp) hdrop).bind fun right hright => ?_
  have hleft' : left ⊆ C.items := List.Subset.trans hleft.perm.subset htake
  have hright' : right ⊆ C.items := List.Subset.trans hright.perm.subset hdrop
  refine (merge hleft' hright').mono ?_
  exact fun zs hzs => ⟨s₁, left, right, hs₁, hleft, hright, hzs⟩

end ByComparisons

/-! ## Comparing by a function -/

section ByFunction

variable {f x y : Value}

/-- Whether the value of a function for two items is greater than zero. -/
def exceeds (f x y : Value) : Proc Bool := do return (← Proc.toNumber (← invoke f [x, y])) > 0

/-- What comes after the call changes nothing. -/
theorem Proc.Ends.of_exceeds {r : Except Failure Bool} (h : (exceeds f x y).Ends d s r s') :
    ∃ r, (invoke f [x, y]).Ends d s r s' := by
  rcases Proc.ends_bind_iff.1 h with ⟨v, s₁, hv, hnumber⟩ | ⟨e, -, hv⟩
  · refine ⟨.ok v, ?_⟩
    rcases Proc.ends_bind_iff.1 hnumber with ⟨n, s₂, hn, hpure⟩ | ⟨e, -, he⟩
    · obtain ⟨-, rfl⟩ := Proc.ends_pure_iff.1 hpure
      obtain ⟨-, rfl⟩ := Proc.ends_ask_iff.1 hn
      exact hv
    · obtain ⟨-, rfl⟩ := Proc.ends_ask_iff.1 he
      exact hv
  · exact ⟨.error e, hv⟩

/-- Comparing the items of an array by a function. -/
def comparingBy (d : Nat) (f : Value) (a : Nat) (s : State) : Comparing :=
  ⟨exceeds f, (s.heap.array a).toList, d, s⟩

/-- While the items of the array are compared, no call of the function changes the array. -/
def LeavesAlone (d : Nat) (f : Value) (a : Nat) (s : State) : Prop :=
  ∀ x ∈ (s.heap.array a).toList, ∀ y ∈ (s.heap.array a).toList, ∀ s₁ r s₂,
    (comparingBy d f a s).Attains s₁ → (invoke f [x, y]).Ends d s₁ r s₂ →
    s₂.heap.array a = s₁.heap.array a

namespace LeavesAlone

variable (h : LeavesAlone d f a s)

include h

theorem array_eq (hs : (comparingBy d f a s).Attains s') : s'.heap.array a = s.heap.array a := by
  induction hs with
  | start => rfl
  | compare hs hx hy hend ih =>
    obtain ⟨r, hcall⟩ := hend.of_exceeds
    exact (h _ hx _ hy _ _ _ hs hcall).trans ih

theorem array_eq_of_fails {e : Failure} (hs : (comparingBy d f a s).Fails e s') :
    s'.heap.array a = s.heap.array a := by
  obtain ⟨hx, hy, hs, hend⟩ := hs
  obtain ⟨r, hcall⟩ := hend.of_exceeds
  exact (h _ hx _ hy _ _ _ hs hcall).trans (h.array_eq hs)

/-- The second half is the one that there was at the start. -/
theorem sortedItems : (comparingBy d f a s).Suffices
    (sortedItems (exceeds f) a (s.heap.array a).toList)
    (SortedByHalves (comparingBy d f a s).Gives (s.heap.array a).toList) := by
  have hread : ∀ s₁, (comparingBy d f a s).Attains s₁ →
      (s₁.heap.array a).toList ⊆ (comparingBy d f a s).items := by
    intro s₁ hs₁
    rw [h.array_eq hs₁]
    exact List.Subset.refl _
  refine (Comparing.Suffices.sortedItems (C := comparingBy d f a s) (List.Subset.refl _)
    hread).mono ?_
  rintro zs ⟨s₁, left, right, hs₁, hleft, hright, hmerged⟩
  rw [h.array_eq hs₁] at hright
  exact .halves hleft hright hmerged

theorem ends_sortArrayBy {r : Except Failure Unit}
    (hend : (sortArrayBy (exceeds f) a).Ends d s r s') :
    (∃ s₁ ys, r = .ok () ∧ (comparingBy d f a s).Attains s₁ ∧
      SortedByHalves (comparingBy d f a s).Gives (s.heap.array a).toList ys ∧
      s' = s₁.withArray a ys) ∨
    ∃ e, r = .error e ∧ (comparingBy d f a s).Fails e s' := by
  rw [ends_sortArrayBy_iff] at hend
  split at hend
  case isTrue hshort =>
    obtain ⟨rfl, rfl⟩ := hend
    exact .inl ⟨s', _, rfl, .start, .short hshort, (s'.withArray_toList a).symm⟩
  case isFalse =>
    rcases hend with ⟨ys, s₁, hys, rfl, rfl⟩ | ⟨e, rfl, he⟩
    · obtain ⟨hs₁, hsorted⟩ := h.sortedItems.ok s ys s₁ .start hys
      exact .inl ⟨s₁, ys, rfl, hs₁, hsorted, rfl⟩
    · exact .inr ⟨e, rfl, h.sortedItems.error s e s' .start he⟩

theorem exists_ends_sortArrayBy (hanswers : (comparingBy d f a s).AlwaysAnswers) :
    ∃ s', (sortArrayBy (exceeds f) a).Ends d s (.ok ()) s' := by
  by_cases hshort : (s.heap.array a).toList.length ≤ 1
  · exact ⟨s, ends_sortArrayBy_iff.2 (by rw [if_pos hshort]; exact ⟨rfl, rfl⟩)⟩
  · obtain ⟨ys, s₁, hys⟩ := h.sortedItems.returns hanswers s .start
    refine ⟨s₁.withArray a ys, ends_sortArrayBy_iff.2 ?_⟩
    rw [if_neg hshort]
    exact .inl ⟨ys, s₁, hys, rfl, rfl⟩

end LeavesAlone

end ByFunction

/-! ## Sorting by texts -/

/-- A value in which an array is nested: it is this array, or an array with such an item. -/
inductive Heap.Nests (h : Heap) (a : Nat) : Value → Prop where
  | here : Nests h a (.arr a)
  | item {r : Nat} {v : Value} : v ∈ (h.array r).toList → Nests h a v → Nests h a (.arr r)

section ByTexts

variable {h : Heap}

theorem mapM_congr_mem {α β ε : Type} {f g : α → Except ε β} {xs : List α}
    (hfg : ∀ x ∈ xs, f x = g x) : xs.mapM f = xs.mapM g := by
  induction xs with
  | nil => rfl
  | cons x xs ih =>
    obtain ⟨hx, hxs⟩ := List.forall_mem_cons.1 hfg
    rw [List.mapM_cons, List.mapM_cons, hx, ih hxs]

/-- The text of a value depends on the arrays only that are nested in it. -/
theorem Heap.textWithin_setArray {items : Array Value} (n : Nat) {v : Value}
    (hv : ¬ h.Nests a v) : (h.setArray a items).textWithin n v = h.textWithin n v := by
  induction n generalizing v with
  | zero => cases v <;> rfl
  | succ n ih =>
    cases v with
    | arr r =>
      have hr : r ≠ a := by
        rintro rfl
        exact hv .here
      rw [textWithin, textWithin, array_setArray_of_ne hr]
      congr 1
      refine mapM_congr_mem fun v hmem => ?_
      have hitem : ¬ h.Nests a v := fun hnests => hv (.item hmem hnests)
      cases v
      case null => rfl
      all_goals exact ih hitem
    | _ => rfl

theorem Heap.toText_setArray {items : Array Value} {v : Value} (hv : ¬ h.Nests a v) :
    (h.setArray a items).toText v = h.toText v := by
  have hsize : (h.setArray a items).arrays.size = h.arrays.size := by simp [setArray]
  rw [toText, toText, hsize, textWithin_setArray _ hv]

theorem sortKeys_of_texts {text : Value → String} {vs : List Value}
    (htext : ∀ v ∈ vs, h.toText v = .ok (text v)) :
    sortKeys h vs = .ok (vs.map fun v => (text v, v)) := by
  induction vs with
  | nil => rfl
  | cons v vs ih =>
    obtain ⟨hv, hvs⟩ := List.forall_mem_cons.1 htext
    rw [sortKeys, hv, ih hvs]
    rfl

theorem exists_sortKeys_error {vs : List Value} (htext : ∃ v ∈ vs, ∃ t, h.toText v = .error t) :
    ∃ t, sortKeys h vs = .error t := by
  induction vs with
  | nil => simp at htext
  | cons v vs ih =>
    rw [sortKeys]
    cases hv : h.toText v with
    | error t => exact ⟨t, rfl⟩
    | ok key =>
      obtain ⟨w, hw, t, ht⟩ := htext
      rcases List.mem_cons.1 hw with rfl | hw
      · rw [hv] at ht
        cases ht
      · obtain ⟨t, hvs⟩ := ih ⟨w, hw, t, ht⟩
        exact ⟨t, by rw [hvs]; rfl⟩

/-- The order of texts, code point by code point. -/
def byText (text : Value → String) (x y : Value) : Bool := decide (text x ≤ text y)

theorem isRanking_byText (text : Value → String) : IsRanking (byText text) where
  trans x y z hxy hyz := by
    rw [byText, decide_eq_true_eq] at *
    exact String.le_trans hxy hyz
  total x y := by
    rw [byText, byText, Bool.or_eq_true, decide_eq_true_eq, decide_eq_true_eq]
    exact String.le_total _ _

/-- Putting the texts beside the items and taking them off again leaves the order of the texts. -/
theorem mergeSort_keyed (text : Value → String) (xs : List Value) :
    ((xs.map fun v => (text v, v)).mergeSort fun p q => !(q.1 < p.1)).map Prod.snd =
      xs.mergeSort (byText text) := by
  have hkeys : ∀ x ∈ xs, ∀ y ∈ xs, byText text x y = !decide (text y < text x) := by
    intro x _ y _
    rw [byText, ← decide_not]
    exact decide_eq_decide.2 String.not_lt.symm
  rw [← List.map_mergeSort hkeys, List.map_map]
  exact List.map_id _

variable {r : Except Failure Unit}

theorem ends_sortArray_iff {text : Value → String}
    (hnests : ∀ v ∈ (s.heap.array a).toList, ¬ s.heap.Nests a v)
    (htext : ∀ v ∈ (s.heap.array a).toList, s.heap.toText v = .ok (text v)) :
    (sortArray a).Ends d s r s' ↔
      r = .ok () ∧ s' = s.withArray a ((s.heap.array a).toList.mergeSort (byText text)) := by
  have hkeys : sortKeys (s.heap.setArray a #[]) (s.heap.array a).toList =
      .ok ((s.heap.array a).toList.map fun v => (text v, v)) := by
    refine sortKeys_of_texts fun v hv => ?_
    rw [Heap.toText_setArray (hnests v hv), htext v hv]
  rw [sortArray, Proc.ends_bind_of_run_ret (run_items s a),
    Proc.ends_bind_of_run_ret (Proc.run_ask s hkeys)]
  dsimp only
  rw [mergeSort_keyed, ends_setItems_iff]

theorem ends_sortArray_of_error
    (hnests : ∀ v ∈ (s.heap.array a).toList, ¬ s.heap.Nests a v)
    (htext : ∃ v ∈ (s.heap.array a).toList, ∃ t, s.heap.toText v = .error t)
    (hend : (sortArray a).Ends d s r s') : (∃ e, r = .error e) ∧ s' = s := by
  obtain ⟨t, hkeys⟩ : ∃ t, sortKeys (s.heap.setArray a #[]) (s.heap.array a).toList = .error t := by
    obtain ⟨v, hv, t, ht⟩ := htext
    exact exists_sortKeys_error ⟨v, hv, t, by rw [Heap.toText_setArray (hnests v hv), ht]⟩
  rw [sortArray, Proc.ends_bind_of_run_ret (run_items s a), Proc.ends_bind_iff] at hend
  rcases hend with ⟨keyed, s₁, hask, -⟩ | ⟨e, rfl, hask⟩
  · rw [Proc.ends_of_run_fail (Proc.run_ask_error s hkeys)] at hask
    cases hask.1
  · rw [Proc.ends_of_run_fail (Proc.run_ask_error s hkeys)] at hask
    exact ⟨⟨e, rfl⟩, hask.2⟩

end ByTexts

/-! ## The builtin -/

section Builtin

variable {f : Value} {rest args : List Value} {r : Except Failure Value}

theorem run_sort_by (hf : f ≠ .null) : (Builtin.array .sort).run (.arr a :: f :: rest) =
    sortArrayBy (exceeds f) a >>= fun _ => pure (.arr a) := by
  cases f with
  | null => exact absurd rfl hf
  | _ => rfl

theorem run_sort (hrest : rest.headD .null = .null) :
    (Builtin.array .sort).run (.arr a :: rest) = sortArray a >>= fun _ => pure (.arr a) := by
  cases rest with
  | nil => rfl
  | cons v vs =>
    cases hrest
    rfl

/-- A failed builtin leaves the arrays to those who fail. -/
theorem Proc.Ends.of_failWith {b : Builtin} {e : Failure}
    (h : (b.failWith e).Ends d s r s') : (∃ e, r = .error e) ∧ s'.heap.arrays = s.heap.arrays := by
  unfold Builtin.failWith at h
  split at h
  · split at h
    · obtain ⟨rfl, rfl⟩ := (Proc.ends_of_run_fail (Proc.run_raiseError s _ _)).1 h
      exact ⟨⟨_, rfl⟩, rfl⟩
    · obtain ⟨rfl, rfl⟩ := Proc.ends_failWith_iff.1 h
      exact ⟨⟨_, rfl⟩, rfl⟩
  · obtain ⟨rfl, rfl⟩ := Proc.ends_failWith_iff.1 h
    exact ⟨⟨_, rfl⟩, rfl⟩

theorem ends_adopt_iff : (Builtin.adopt (.arr a)).Ends d s r s' ↔ r = .ok (.arr a) ∧ s' = s :=
  Proc.ends_of_run_ret rfl

/-- A sort returns its array, and a failure becomes that of the builtin. -/
theorem ends_sort_iff {p : Proc Unit}
    (hp : (Builtin.array .sort).run args = p >>= fun _ => pure (.arr a)) :
    (Builtin.call (.array .sort) args).Ends d s r s' ↔
      (p.Ends d s (.ok ()) s' ∧ r = .ok (.arr a)) ∨
      ∃ e s₁, p.Ends d s (.error e) s₁ ∧ (Builtin.failWith (.array .sort) e).Ends d s₁ r s' := by
  rw [Builtin.call, hp, Proc.ends_attempt_bind_iff]
  constructor
  · rintro ⟨r₁, s₁, hend, hrest⟩
    rcases Proc.ends_bind_iff.1 hend with ⟨u, s₂, hp, hpure⟩ | ⟨e, rfl, hp⟩
    · obtain ⟨rfl, rfl⟩ := Proc.ends_pure_iff.1 hpure
      obtain ⟨rfl, rfl⟩ := ends_adopt_iff.1 hrest
      exact .inl ⟨hp, rfl⟩
    · exact .inr ⟨e, s₁, hp, hrest⟩
  · rintro (⟨hp, rfl⟩ | ⟨e, s₁, hp, hrest⟩)
    · refine ⟨.ok (.arr a), s', Proc.ends_bind_iff.2 (.inl ⟨(), s', hp, ?_⟩), ?_⟩
      · exact Proc.ends_pure_iff.2 ⟨rfl, rfl⟩
      · exact ends_adopt_iff.2 ⟨rfl, rfl⟩
    · exact ⟨.error e, s₁, Proc.ends_bind_iff.2 (.inr ⟨e, rfl, hp⟩), hrest⟩

/-- A sort by a function that leaves the array alone ends in one of two ways: it has put the items in
another order, or a comparison has failed. -/
theorem LeavesAlone.ends_sort (h : LeavesAlone d f a s) (hf : f ≠ .null)
    (hend : (Builtin.call (.array .sort) (.arr a :: f :: rest)).Ends d s r s') :
    (∃ s₁ ys, r = .ok (.arr a) ∧ (comparingBy d f a s).Attains s₁ ∧ s' = s₁.withArray a ys ∧
      (s'.heap.array a).toList = ys ∧
      SortedByHalves (comparingBy d f a s).Gives (s.heap.array a).toList ys) ∨
    ∃ e e₁ s₁, r = .error e ∧ (comparingBy d f a s).Fails e₁ s₁ ∧
      (Builtin.failWith (.array .sort) e₁).Ends d s₁ r s' ∧
      s'.heap.array a = s.heap.array a := by
  rcases (ends_sort_iff (run_sort_by hf)).1 hend with ⟨hsort, rfl⟩ | ⟨e₁, s₁, hsort, hfail⟩
  · rcases h.ends_sortArrayBy hsort with ⟨s₁, ys, -, hs₁, hsorted, rfl⟩ | ⟨e, he, -⟩
    · have hperm : ys.Perm (s₁.heap.array a).toList := by
        rw [h.array_eq hs₁]
        exact hsorted.perm
      exact .inl ⟨s₁, ys, rfl, hs₁, rfl, State.array_withArray hperm, hsorted⟩
    · cases he
  · rcases h.ends_sortArrayBy hsort with ⟨_, _, hok, -⟩ | ⟨_, he, hfails⟩
    · cases hok
    · cases he
      obtain ⟨⟨e, rfl⟩, harrays⟩ := hfail.of_failWith
      refine .inr ⟨e, e₁, s₁, rfl, hfails, hfail, ?_⟩
      rw [Heap.array, harrays]
      exact h.array_eq_of_fails hfails

/-- Sorting an array by a function that leaves it alone, or by the texts of items in which it is not
nested. A sort that returns has put the items in another order and done nothing else but compare
them; if the answers follow a total preorder, the items are in order, and ties keep their places. A
sort that fails has left the array as it was. -/
theorem sort_spec (d a : Nat) (s : State) :
    (∀ f rest, f ≠ .null → LeavesAlone d f a s →
      (∀ r s', (Builtin.call (.array .sort) (.arr a :: f :: rest)).Ends d s r s' →
        (∃ s₁ ys, r = .ok (.arr a) ∧ (comparingBy d f a s).Attains s₁ ∧ s' = s₁.withArray a ys ∧
          (s'.heap.array a).toList = ys ∧ ys.Perm (s.heap.array a).toList ∧
          ∀ le, IsRanking le → (comparingBy d f a s).AnswersBy le →
            StableSort le (s.heap.array a).toList ys) ∨
        ∃ e e₁ s₁, r = .error e ∧ (comparingBy d f a s).Fails e₁ s₁ ∧
          (Builtin.failWith (.array .sort) e₁).Ends d s₁ r s' ∧
          s'.heap.array a = s.heap.array a) ∧
      ((comparingBy d f a s).AlwaysAnswers →
        ∃ s', (Builtin.call (.array .sort) (.arr a :: f :: rest)).Ends d s (.ok (.arr a)) s')) ∧
    ∀ rest, rest.headD .null = .null → (∀ v ∈ (s.heap.array a).toList, ¬ s.heap.Nests a v) →
      (∀ text, (∀ v ∈ (s.heap.array a).toList, s.heap.toText v = .ok (text v)) →
        ∃ ys, StableSort (byText text) (s.heap.array a).toList ys ∧
          ((s.withArray a ys).heap.array a).toList = ys ∧
          ∀ r s', (Builtin.call (.array .sort) (.arr a :: rest)).Ends d s r s' ↔
            r = .ok (.arr a) ∧ s' = s.withArray a ys) ∧
      ((∃ v ∈ (s.heap.array a).toList, ∃ t, s.heap.toText v = .error t) →
        ∀ r s', (Builtin.call (.array .sort) (.arr a :: rest)).Ends d s r s' →
          (∃ e, r = .error e) ∧ s'.heap.array a = s.heap.array a) := by
  refine ⟨fun f rest hf h => ⟨fun r s' hend => ?_, fun hanswers => ?_⟩,
    fun rest hrest hnests => ⟨fun text htext => ?_, fun htext r s' hend => ?_⟩⟩
  · rcases h.ends_sort hf hend with ⟨s₁, ys, hr, hs₁, hs', hys, hsorted⟩ | hfails
    · exact .inl ⟨s₁, ys, hr, hs₁, hs', hys, hsorted.perm,
        fun le hle hanswers => hsorted.stableSort hle hanswers⟩
    · exact .inr hfails
  · obtain ⟨s', hsort⟩ := h.exists_ends_sortArrayBy hanswers
    exact ⟨s', (ends_sort_iff (run_sort_by hf)).2 (.inl ⟨hsort, rfl⟩)⟩
  · have hsorted := stableSort_mergeSort (isRanking_byText text) (s.heap.array a).toList
    refine ⟨_, hsorted, State.array_withArray hsorted.perm, fun r s' => ?_⟩
    rw [ends_sort_iff (run_sort hrest), ends_sortArray_iff hnests htext]
    constructor
    · rintro (⟨⟨-, hs'⟩, hr⟩ | ⟨e, s₁, hsort, -⟩)
      · exact ⟨hr, hs'⟩
      · cases ((ends_sortArray_iff hnests htext).1 hsort).1
    · rintro ⟨hr, hs'⟩
      exact .inl ⟨⟨rfl, hs'⟩, hr⟩
  · rcases (ends_sort_iff (run_sort hrest)).1 hend with ⟨hsort, -⟩ | ⟨e₁, s₁, hsort, hfail⟩
    · obtain ⟨⟨e, he⟩, -⟩ := ends_sortArray_of_error hnests htext hsort
      cases he
    · obtain ⟨-, rfl⟩ := ends_sortArray_of_error hnests htext hsort
      obtain ⟨herror, harrays⟩ := hfail.of_failWith
      exact ⟨herror, by rw [Heap.array, harrays]; rfl⟩

/-- An array of digits, with no function but the builtins. -/
def digits : State :=
  ⟨⟨.absent, true, 0, false, []⟩,
    ⟨#[#[.str "10", .str "0", .str "10"]], #[], #[], #[⟨none, .empty⟩], 0, []⟩,
    ⟨#[], ⟨[], []⟩, ⟨[], []⟩, [], 0, 0⟩, none, false⟩

/-- The text "10" is after all other values. -/
def tenLast (x y : Value) : Bool := !x.strictEq (.str "10") || y.strictEq (.str "10")

theorem isRanking_tenLast : IsRanking tenLast where
  trans x y z hxy hyz := by grind [tenLast]
  total x y := by grind [tenLast]

/-- The digit of "10" at the place 0 is one, and no other digit is greater than zero. -/
theorem call_get_digits {x y : Value} (hx : x ∈ (digits.heap.array 0).toList)
    (hy : y ∈ (digits.heap.array 0).toList) :
    ∃ v n, (Callable.call (.builtin (.array .get)) [x, y]).run digits = .ret (.returned v) digits ∧
      digits.heap.toNumber v = .ok n ∧ decide (n > 0) = !tenLast x y := by
  have hcases : ∀ v ∈ (digits.heap.array 0).toList, v = .str "10" ∨ v = .str "0" := by
    intro v hv
    have hv : v ∈ [Value.str "10", .str "0", .str "10"] := hv
    grind
  rcases hcases x hx with rfl | rfl
  · rcases hcases y hy with rfl | rfl
    · exact ⟨.null, 0, rfl, rfl, rfl⟩
    · exact ⟨.str "1", 1, rfl, rfl, rfl⟩
  · rcases hcases y hy with rfl | rfl
    · exact ⟨.null, 0, rfl, rfl, rfl⟩
    · exact ⟨.str "0", 0, rfl, rfl, rfl⟩

/-- A call of a builtin that changes nothing. -/
theorem ends_invoke_iff {b : Builtin} {v : Value} (hd : d < Machine.depthLimit)
    (hcall : (Callable.call (.builtin b) args).run s = .ret (.returned v) s) :
    (invoke (.fn (.builtin b)) args).Ends d s r s' ↔ r = .ok v ∧ s' = s := by
  have htask : ∀ {r : Except Failure Outcome} {s'},
      (Proc.perform (.call (.builtin b) args)).Ends d s r s' ↔ r = .ok (.returned v) ∧ s' = s := by
    intro r s'
    rw [Proc.ends_perform_iff, comesTo_call_iff hd]
    simp only [Proc.ends_of_run_ret hcall]
    grind
  show (Proc.perform (.call (.builtin b) args) >>= fun o => pure o.value).Ends d s r s' ↔ _
  simp only [Proc.ends_bind_iff, htask, Proc.ends_pure_iff]
  grind [Outcome.value]

theorem ends_exceeds_digits_iff {x y : Value} (hx : x ∈ (digits.heap.array 0).toList)
    (hy : y ∈ (digits.heap.array 0).toList) {r : Except Failure Bool} :
    (exceeds (.fn (.builtin (.array .get))) x y).Ends 0 digits r s' ↔
      r = .ok (!tenLast x y) ∧ s' = digits := by
  obtain ⟨v, n, hcall, hn, hanswer⟩ := call_get_digits hx hy
  have hinvoke : ∀ {r s'}, (invoke (.fn (.builtin (.array .get))) [x, y]).Ends 0 digits r s' ↔
      r = .ok v ∧ s' = digits := ends_invoke_iff (by decide) hcall
  have hnumber : (Proc.toNumber v).run digits = .ret n digits := Proc.run_ask digits hn
  rw [exceeds, Proc.ends_bind_iff, ← hanswer]
  constructor
  · rintro (⟨v', s₁, hv, hrest⟩ | ⟨e, -, he⟩)
    · obtain ⟨hvalue, rfl⟩ := hinvoke.1 hv
      cases hvalue
      exact Proc.ends_pure_iff.1 ((Proc.ends_bind_of_run_ret hnumber).1 hrest)
    · cases (hinvoke.1 he).1
  · rintro ⟨rfl, rfl⟩
    refine .inl ⟨v, digits, hinvoke.2 ⟨rfl, rfl⟩, ?_⟩
    exact (Proc.ends_bind_of_run_ret hnumber).2 (Proc.ends_pure_iff.2 ⟨rfl, rfl⟩)

theorem eq_digits_of_attains
    (hs : (comparingBy 0 (.fn (.builtin (.array .get))) 0 digits).Attains s) : s = digits := by
  induction hs with
  | start => rfl
  | compare _ hx hy hend ih =>
    subst ih
    exact ((ends_exceeds_digits_iff hx hy).1 hend).2

theorem leavesAlone_digits : LeavesAlone 0 (.fn (.builtin (.array .get))) 0 digits := by
  intro x hx y hy s₁ r s₂ hs₁ hend
  obtain ⟨v, n, hcall, -⟩ := call_get_digits hx hy
  rw [eq_digits_of_attains hs₁] at hend ⊢
  rw [((ends_invoke_iff (by decide) hcall).1 hend).2]

theorem alwaysAnswers_digits :
    (comparingBy 0 (.fn (.builtin (.array .get))) 0 digits).AlwaysAnswers := by
  intro x hx y hy s hs
  rw [eq_digits_of_attains hs]
  exact ⟨_, _, (ends_exceeds_digits_iff hx hy).2 ⟨rfl, rfl⟩⟩

/-- The text of a value that is one. -/
def ownText : Value → String
  | .str x => x
  | _ => ""

/-- Digits are sorted by a builtin that finds the digit of one of them at the place of another, and
by their texts. -/
theorem sort_spec_digits :
    LeavesAlone 0 (.fn (.builtin (.array .get))) 0 digits ∧
    (comparingBy 0 (.fn (.builtin (.array .get))) 0 digits).AlwaysAnswers ∧
    IsRanking tenLast ∧
    (comparingBy 0 (.fn (.builtin (.array .get))) 0 digits).AnswersBy tenLast ∧
    (∃ s', (Builtin.call (.array .sort) [.arr 0, .fn (.builtin (.array .get))]).Ends 0 digits
      (.ok (.arr 0)) s' ∧
      StableSort tenLast (digits.heap.array 0).toList (s'.heap.array 0).toList) ∧
    (∀ v ∈ (digits.heap.array 0).toList, ¬ digits.heap.Nests 0 v) ∧
    (∀ v ∈ (digits.heap.array 0).toList, digits.heap.toText v = .ok (ownText v)) ∧
    ∃ s', (Builtin.call (.array .sort) [.arr 0]).Ends 0 digits (.ok (.arr 0)) s' ∧
      StableSort (byText ownText) (digits.heap.array 0).toList (s'.heap.array 0).toList := by
  have hby : (comparingBy 0 (.fn (.builtin (.array .get))) 0 digits).AnswersBy tenLast := by
    rintro x y b ⟨hx, hy, hs, hend⟩
    rw [eq_digits_of_attains hs] at hend
    exact Except.ok.inj ((ends_exceeds_digits_iff hx hy).1 hend).1
  have hitems : ∀ v ∈ (digits.heap.array 0).toList, ∃ x, v = .str x := by
    intro v hv
    have hv : v ∈ [Value.str "10", .str "0", .str "10"] := hv
    grind
  have hnests : ∀ v ∈ (digits.heap.array 0).toList, ¬ digits.heap.Nests 0 v := by
    intro v hv hnests
    obtain ⟨x, rfl⟩ := hitems v hv
    cases hnests
  have htext : ∀ v ∈ (digits.heap.array 0).toList, digits.heap.toText v = .ok (ownText v) := by
    intro v hv
    obtain ⟨x, rfl⟩ := hitems v hv
    rfl
  obtain ⟨hbyFunction, hbyText⟩ := sort_spec 0 0 digits
  obtain ⟨hends, hreturns⟩ := hbyFunction _ [] (fun h => by cases h) leavesAlone_digits
  obtain ⟨s', hend⟩ := hreturns alwaysAnswers_digits
  have hstable : StableSort tenLast (digits.heap.array 0).toList (s'.heap.array 0).toList := by
    rcases hends _ s' hend with ⟨s₁, ys, -, -, -, hys, -, hstable⟩ | ⟨e, _, _, he, -⟩
    · rw [hys]
      exact hstable tenLast isRanking_tenLast hby
    · cases he
  obtain ⟨ys, hsorted, hys, htextEnds⟩ := (hbyText [] rfl hnests).1 ownText htext
  refine ⟨leavesAlone_digits, alwaysAnswers_digits, isRanking_tenLast, hby, ⟨s', hend, hstable⟩,
    hnests, htext, ?_⟩
  exact ⟨digits.withArray 0 ys, (htextEnds _ _).2 ⟨rfl, rfl⟩, by rwa [hys]⟩

end Builtin

end Hantec
