import Hantec.Proofs.Run.Ending
import Hantec.Proofs.Sorting
import Hantec.Proofs.Tidy.Contract

/-!
# Comparisons that change the array

Not all of the items that are sorted are read at the start: the second half is read when the first
one is sorted. What the comparisons of the first half do to the second one is not undone, so items
can get lost. Whatever the comparisons do later on is overwritten.
-/

namespace Hantec

variable {a d : Nat} {s s' : State} {f : Value}

/-- The first half of an array can have been sorted by the time that the second state is there. -/
def SortsFirstHalf (d : Nat) (f : Value) (a : Nat) (s s₁ : State) : Prop :=
  ∃ left, (sortBy (exceeds f) (s.heap.array a).toList.length
    ((s.heap.array a).toList.take ((s.heap.array a).toList.length / 2))).Ends d s (.ok left) s₁

theorem sortBy_of_length_le (greater : Value → Value → Proc Bool) (n : Nat) {xs : List Value}
    (hxs : xs.length ≤ 1) : sortBy greater n xs = pure xs := by
  cases n with
  | zero => rfl
  | succ n => rw [sortBy, if_pos hxs]

/-- No comparison is needed for a half with no more than one item. -/
theorem sortsFirstHalf_iff_of_length_lt {s₁ : State} (h : (s.heap.array a).toList.length < 4) :
    SortsFirstHalf d f a s s₁ ↔ s₁ = s := by
  have hhalf : ((s.heap.array a).toList.take ((s.heap.array a).toList.length / 2)).length ≤ 1 := by
    rw [List.length_take]
    omega
  rw [SortsFirstHalf, sortBy_of_length_le _ _ hhalf]
  constructor
  · rintro ⟨left, hleft⟩
    exact (Proc.ends_pure_iff.1 hleft).2
  · exact fun hs₁ => ⟨_, Proc.ends_pure_iff.2 ⟨rfl, hs₁⟩⟩

/-- No run takes an array off the heap. -/
theorem Proc.Ends.size_le {α : Type} [Holding α] {p : Proc α} {r : Except Failure α}
    (h : p.Ends d s r s') (hp : p.Works (.any s.config) False false) :
    s.heap.arrays.size ≤ s'.heap.arrays.size :=
  ((hp.runs (A := Heap.noNames) s (Policy.admits_any s)).of_comesTo h).grows.arrays

theorem works_exceeds (c : Config) (f x y : Value) :
    (exceeds f x y).Works (.any c) False false :=
  (Proc.Abides.invoke trivial fun _ _ => trivial).bind fun _ _ =>
    (Proc.Abides.toNumber trivial).bind fun _ _ => .pure trivial

theorem works_sortBy (c : Config) (f : Value) (n : Nat) (xs : List Value) :
    (sortBy (exceeds f) n xs).Works (.any c) False false :=
  Proc.Abides.sortBy (fun x y _ _ => works_exceeds c f x y) n fun _ _ => trivial

theorem works_mergeBy (c : Config) (f : Value) (n : Nat) (xs ys : List Value) :
    (mergeBy (exceeds f) [] n xs ys).Works (.any c) False false :=
  Proc.Abides.mergeBy (fun x y _ _ => works_exceeds c f x y) n (fun _ _ => trivial)
    (fun _ _ => trivial) fun _ _ => trivial

theorem State.lt_size_of_lt {n : Nat} (h : n < (s.heap.array a).toList.length) :
    a < s.heap.arrays.size := by
  by_cases ha : a < s.heap.arrays.size
  · exact ha
  · simp [Heap.array, ha] at h

/-- What a sort leaves are the items in the first half of the array and those that are in the second
one when the first one is sorted. -/
theorem exists_perm_of_sortArrayBy (hend : (sortArrayBy (exceeds f) a).Ends d s (.ok ()) s') :
    ∃ s₁, SortsFirstHalf d f a s s₁ ∧
      (s'.heap.array a).toList.Perm
        ((s.heap.array a).toList.take ((s.heap.array a).toList.length / 2) ++
          (s₁.heap.array a).toList.drop ((s.heap.array a).toList.length / 2)) := by
  rw [ends_sortArrayBy_iff] at hend
  split at hend
  case isTrue hshort =>
    obtain ⟨-, rfl⟩ := hend
    refine ⟨s', (sortsFirstHalf_iff_of_length_lt (by omega)).2 rfl, ?_⟩
    rw [List.take_append_drop]
  case isFalse hlong =>
    rcases hend with ⟨zs, s₃, hend, -, rfl⟩ | ⟨e, he, -⟩
    · obtain ⟨left, s₁, hleft, hend⟩ := Proc.ends_bind_ok_iff.1 hend
      rw [Proc.ends_bind_of_run_ret (run_items s₁ a)] at hend
      obtain ⟨right, s₂, hright, hmerged⟩ := Proc.ends_bind_ok_iff.1 hend
      -- No comparison takes the array off the heap, so it is there to be overwritten.
      have hs₁ := hleft.size_le (works_sortBy _ f _ _)
      have hs₂ := hright.size_le (works_sortBy _ f _ _)
      have hs₃ := hmerged.size_le (works_mergeBy _ f _ _ _)
      have hlt : a < s₃.heap.arrays.size :=
        calc
          a < s.heap.arrays.size := State.lt_size_of_lt (Nat.lt_of_not_le hlong)
          _ ≤ s₃.heap.arrays.size := Nat.le_trans hs₁ (Nat.le_trans hs₂ hs₃)
      refine ⟨s₁, ⟨left, hleft⟩, ?_⟩
      rw [State.withArray, Heap.array_setArray_of_lt hlt]
      calc
        zs.Perm (left ++ right) := hmerged.perm_of_mergeBy
        List.Perm _ _ := (hleft.perm_of_sortBy (List.length_take_le' _ _)).append
          (hright.perm_of_sortBy (by simp))
    · cases he

/-- Whatever the comparisons do, a sort that returns leaves the items in the first half of the array
and those that are in the second half when the first one is sorted. So no item is lost and none is
there twice if the second half is still the same then, as it is if there are fewer than four
items. -/
theorem sort_perm_of_halves {rest : List Value} {v : Value} (hf : f ≠ .null)
    (hend : (Builtin.call (.array .sort) (.arr a :: f :: rest)).Ends d s (.ok v) s') :
    (∃ s₁, SortsFirstHalf d f a s s₁ ∧
      (s'.heap.array a).toList.Perm
        ((s.heap.array a).toList.take ((s.heap.array a).toList.length / 2) ++
          (s₁.heap.array a).toList.drop ((s.heap.array a).toList.length / 2))) ∧
    ((∀ s₁, SortsFirstHalf d f a s s₁ →
        (s₁.heap.array a).toList.drop ((s.heap.array a).toList.length / 2) =
          (s.heap.array a).toList.drop ((s.heap.array a).toList.length / 2)) →
      (s'.heap.array a).toList.Perm (s.heap.array a).toList) ∧
    ((s.heap.array a).toList.length < 4 →
      (s'.heap.array a).toList.Perm (s.heap.array a).toList) := by
  rcases (ends_sort_iff (run_sort_by hf)).1 hend with ⟨hsort, -⟩ | ⟨e, s₁, -, hfail⟩
  · obtain ⟨s₁, hs₁, hperm⟩ := exists_perm_of_sortArrayBy hsort
    have hsame (h : (s₁.heap.array a).toList.drop ((s.heap.array a).toList.length / 2) =
        (s.heap.array a).toList.drop ((s.heap.array a).toList.length / 2)) :
        (s'.heap.array a).toList.Perm (s.heap.array a).toList := by
      rwa [h, List.take_append_drop] at hperm
    refine ⟨⟨s₁, hs₁, hperm⟩, fun h => hsame (h s₁ hs₁), fun hlength => hsame ?_⟩
    rw [(sortsFirstHalf_iff_of_length_lt hlength).1 hs₁]
  · obtain ⟨⟨e, he⟩, -⟩ := hfail.of_failWith
    cases he

/-! ## A comparison that takes items away -/

/-- A call of a builtin returns what a machine comes to that runs it. -/
theorem Builtin.ends_call_of_advance {b : Builtin} {args : List Value} {v : Value} {n : Nat}
    (h : Machine.advance n ⟨Callable.call (.builtin b) args s, [], d⟩ =
      .done (.ok (.returned v)) s') : (b.call args).Ends d s (.ok v) s' := by
  obtain ⟨k, m, hk, hlast⟩ := Machine.exists_last_of_advance h (fun _ h => by cases h)
  have hleads := (Machine.reaches_of_advance hk (.refl m)).leads
  have hends : (Callable.call (.builtin b) args).Ends d s (.ok (.returned v)) s' :=
    Proc.ends_iff_endsWith.2 ⟨m, hleads, hlast⟩
  obtain ⟨v', s₁, hcall, hreturn⟩ := Proc.ends_bind_ok_iff.1 hends
  obtain ⟨hv, rfl⟩ := Proc.ends_pure_iff.1 hreturn
  cases hv
  exact hcall

/-- A session with an array `a` and `rob (x, y) { sekni(a) piča vrat x - y piča }`. -/
def popping : State :=
  ⟨⟨.absent, true, 0, false, []⟩,
    ⟨#[#[.num 4, .num 3, .num 2, .num 1]], #[],
      #[⟨"<anon>", ["x", "y"],
        [.mk 1 (.expr (.call (.variable "sekni") [.variable "a"])),
          .mk 1 (.ret (some (.binary .sub (.variable "x") (.variable "y"))))], 0⟩],
      #[⟨none, .ofList [("a", .arr 0), ("sekni", .fn (.builtin (.array .pop)))]⟩], 0, []⟩,
    ⟨#[], ⟨[], []⟩, ⟨[], []⟩, [], 0, 0⟩, none, false⟩

/-- The number of items in an array when a call has returned. -/
def Progress.sizeAfter (a : Nat) : Progress → Option Nat
  | .done (.ok (.returned _)) s => some (s.heap.array a).size
  | _ => none

theorem Progress.eq_done_of_sizeAfter {p : Progress} {n : Nat} (h : p.sizeAfter a = some n) :
    ∃ v s, p = .done (.ok (.returned v)) s ∧ (s.heap.array a).size = n := by
  unfold sizeAfter at h
  split at h
  · exact ⟨_, _, rfl, Option.some.inj h⟩
  · cases h

/-- The comparison of the first half takes the last item away before the second half is read. -/
theorem ends_sort_popping :
    ∃ v s', (Builtin.call (.array .sort) [.arr 0, .fn (.closure 0)]).Ends 0 popping (.ok v) s' ∧
      (s'.heap.array 0).size = 3 := by
  have hsize : Progress.sizeAfter 0 (Machine.advance 60
      ⟨Callable.call (.builtin (.array .sort)) [.arr 0, .fn (.closure 0)] popping, [], 0⟩) =
      some 3 := by decide +kernel
  obtain ⟨v, s', hdone, hsize⟩ := Progress.eq_done_of_sizeAfter hsize
  exact ⟨v, s', Builtin.ends_call_of_advance hdone, hsize⟩

/-- A sort can lose items. -/
theorem sort_loses_item :
    ∃ v s', (Builtin.call (.array .sort) [.arr 0, .fn (.closure 0)]).Ends 0 popping (.ok v) s' ∧
      ¬ (s'.heap.array 0).toList.Perm (popping.heap.array 0).toList := by
  obtain ⟨v, s', hend, hsize⟩ := ends_sort_popping
  refine ⟨v, s', hend, fun hperm => ?_⟩
  have hlength : (s'.heap.array 0).size = (popping.heap.array 0).size := by
    simpa using hperm.length_eq
  rw [hsize] at hlength
  exact absurd hlength (by decide)

/-- Two of the items that are left were in the first half. All digits are left. -/
theorem sort_perm_of_halves_popping :
    (∃ v s', (Builtin.call (.array .sort) [.arr 0, .fn (.closure 0)]).Ends 0 popping (.ok v) s' ∧
      ∃ s₁, SortsFirstHalf 0 (.fn (.closure 0)) 0 popping s₁ ∧
        (s'.heap.array 0).toList.Perm ([.num 4, .num 3] ++ (s₁.heap.array 0).toList.drop 2)) ∧
    ∃ s', (Builtin.call (.array .sort) [.arr 0, .fn (.builtin (.array .get))]).Ends 0 digits
        (.ok (.arr 0)) s' ∧
      (s'.heap.array 0).toList.Perm (digits.heap.array 0).toList := by
  constructor
  · obtain ⟨v, s', hend, -⟩ := ends_sort_popping
    exact ⟨v, s', hend, (sort_perm_of_halves (fun h => by cases h) hend).1⟩
  · obtain ⟨s', hsort⟩ := leavesAlone_digits.exists_ends_sortArrayBy alwaysAnswers_digits
    have hf : Value.fn (.builtin (.array .get)) ≠ .null := fun h => by cases h
    have hend : (Builtin.call (.array .sort) [.arr 0, .fn (.builtin (.array .get))]).Ends 0 digits
        (.ok (.arr 0)) s' := (ends_sort_iff (run_sort_by hf)).2 (.inl ⟨hsort, rfl⟩)
    exact ⟨s', hend, (sort_perm_of_halves hf hend).2.2 (by decide)⟩

end Hantec
