import Hantec.Proofs.Containment
import Hantec.Proofs.Results
import Mathlib.Data.List.Nodup
import Mathlib.Data.List.Perm.Subperm
import Mathlib.Logic.Relation

/-!
# Values that contain themselves

A value has a text if no array that is reached from it by way of items contains itself, and it can
be displayed if no array or object that is reached by way of items and members does. Nothing else
is in the way of a value of the language. What is reached in several ways is written out wherever
it stands.

Texts and displayed forms are computed up to a depth of nesting. A path without a repetition cannot
be longer than the number of arrays and objects, so whatever is nested deeper than that contains
itself.
-/

namespace Hantec

open Relation (ReflTransGen TransGen)

/-! ## Depth of nesting -/

section Depth

variable {α : Type} {R : α → α → Prop} {C : α → Prop} {a b : α}

/-- Nothing that is reached leads back to itself. -/
def CycleFree (R : α → α → Prop) (a : α) : Prop := ∀ b, ReflTransGen R a b → ¬ TransGen R b b

/-- What is reached is nested at most `n` deep; the containers `C` are nested at least once. -/
def NestedWithin (R : α → α → Prop) (C : α → Prop) : Nat → α → Prop
  | 0, a => ¬ C a
  | n + 1, a => ∀ b, R a b → NestedWithin R C n b

theorem CycleFree.of_rel (h : CycleFree R a) (hab : R a b) : CycleFree R b :=
  fun c hbc => h c (.head hab hbc)

theorem CycleFree.of_parts (h : ∀ b, R a b → CycleFree R b) : CycleFree R a := by
  intro b hab hcycle
  rcases ReflTransGen.cases_head hab with rfl | ⟨c, hac, hcb⟩
  · obtain ⟨c, hac, hca⟩ := TransGen.head'_iff.1 hcycle
    exact h c hac c .refl (.tail' hca hac)
  · exact h c hac b hcb hcycle

theorem NestedWithin.not_transGen (hC : ∀ a b, R a b → C a) {n : Nat} (h : NestedWithin R C n a) :
    ¬ TransGen R a a := by
  induction n generalizing a with
  | zero =>
    intro hcycle
    obtain ⟨b, hab, -⟩ := TransGen.head'_iff.1 hcycle
    exact h (hC a b hab)
  | succ n ih =>
    intro hcycle
    obtain ⟨b, hab, hba⟩ := TransGen.head'_iff.1 hcycle
    exact ih (h b hab) (.tail' hba hab)

theorem NestedWithin.cycleFree (hC : ∀ a b, R a b → C a) {n : Nat} (h : NestedWithin R C n a) :
    CycleFree R a := by
  intro b hab
  induction hab using ReflTransGen.head_induction_on generalizing n with
  | refl => exact h.not_transGen hC
  | head hac _ ih =>
    cases n with
    | zero => exact absurd (hC _ _ hac) h
    | succ n => exact ih (h _ hac)

/-- The containers that hold something are told apart by numbers below `n`. -/
structure Numbering (R : α → α → Prop) (number : α → Nat) (n : Nat) : Prop where
  lt : ∀ a b, R a b → number a < n
  injective : ∀ a b a' b', R a b → R a' b' → number a = number a' → a = a'

/-- A path without repetition is not longer than the number of containers. -/
theorem Numbering.length_le {number : α → Nat} {n : Nat} (hnumber : Numbering R number n)
    {path : List α} (hnodup : path.Nodup) (hpath : ∀ a ∈ path, ∃ b, R a b) : path.length ≤ n := by
  have hmap : (path.map number).Nodup := by
    refine List.Nodup.map_on (fun a ha a' ha' heq => ?_) hnodup
    obtain ⟨b, hab⟩ := hpath a ha
    obtain ⟨b', hab'⟩ := hpath a' ha'
    exact hnumber.injective a b a' b' hab hab' heq
  have hsub : path.map number ⊆ List.range n := by
    intro m hm
    obtain ⟨a, ha, rfl⟩ := List.mem_map.1 hm
    obtain ⟨b, hab⟩ := hpath a ha
    exact List.mem_range.2 (hnumber.lt a b hab)
  simpa using (List.subperm_of_subset hmap hsub).length_le

/-- The induction is on the depth that is left; the path that leads to `a` has used up the rest. -/
theorem CycleFree.nestedWithin_of_path {number : α → Nat} {n : Nat}
    (hnumber : Numbering R number n) (h : CycleFree R a) {path : List α} (hnodup : path.Nodup)
    (hpath : ∀ c ∈ path, ∃ b, R c b) (hreach : ∀ c ∈ path, TransGen R c a) {k : Nat}
    (hk : n + 1 ≤ k + path.length) : NestedWithin R C k a := by
  induction k generalizing a path with
  | zero =>
    have := hnumber.length_le hnodup hpath
    omega
  | succ k ih =>
    intro b hab
    have hnew : a ∉ path := fun ha => h a .refl (hreach a ha)
    refine ih (h.of_rel hab) (List.nodup_cons.2 ⟨hnew, hnodup⟩) ?_ ?_ (by simp; omega)
    · exact List.forall_mem_cons.2 ⟨⟨b, hab⟩, hpath⟩
    · exact List.forall_mem_cons.2 ⟨.single hab, fun c hc => (hreach c hc).tail hab⟩

theorem nestedWithin_iff_cycleFree (hC : ∀ a b, R a b → C a) {number : α → Nat} {n : Nat}
    (hnumber : Numbering R number n) : NestedWithin R C (n + 1) a ↔ CycleFree R a := by
  refine ⟨fun h => h.cycleFree hC, fun h => ?_⟩
  exact h.nestedWithin_of_path hnumber .nil nofun nofun (Nat.le_refl _)

end Depth

/-! ## Results of lists -/

section Lists

variable {α β ε : Type} {f : α → Except ε β} {xs : List α}

theorem bind_pure_eq_error_iff {γ : Type} {r : Except ε β} {g : β → γ} {e : ε} :
    (r >>= fun b => pure (g b)) = .error e ↔ r = .error e := by
  cases r <;> simp [bind, Except.bind, pure, Except.pure]

theorem exists_mem_of_mapM_eq_error {e : ε} (h : xs.mapM f = .error e) :
    ∃ x ∈ xs, f x = .error e := by
  induction xs with
  | nil => cases h
  | cons x xs ih =>
    rw [List.mapM_cons] at h
    cases hx : f x with
    | error e' =>
      rw [hx] at h
      cases h
      exact ⟨x, .head _, hx⟩
    | ok y =>
      cases hxs : xs.mapM f with
      | error e' =>
        rw [hx, hxs] at h
        cases h
        obtain ⟨z, hz, hfz⟩ := ih hxs
        exact ⟨z, .tail _ hz, hfz⟩
      | ok ys =>
        rw [hx, hxs] at h
        cases h

variable {γ : Type} {g : List β → γ}

/-- The results for all items of a list, put together. -/
theorem mapM_bind_eq_ok_iff {c : γ} : (xs.mapM f >>= fun ys => pure (g ys)) = .ok c ↔
    ∃ ys, List.Forall₂ (fun x y => f x = .ok y) xs ys ∧ c = g ys := by
  rw [bind_eq_ok]
  refine exists_congr fun ys => and_congr mapM_eq_ok_iff ?_
  exact ⟨fun h => (Except.ok.inj h).symm, fun h => h ▸ rfl⟩

theorem exists_mapM_bind_eq_ok_iff : (∃ c, (xs.mapM f >>= fun ys => pure (g ys)) = .ok c) ↔
    ∀ x ∈ xs, ∃ y, f x = .ok y := by
  rw [← exists_mapM_eq_ok_iff]
  constructor
  · rintro ⟨c, h⟩
    obtain ⟨ys, hys, -⟩ := bind_eq_ok.1 h
    exact ⟨ys, hys⟩
  · rintro ⟨ys, hys⟩
    exact ⟨g ys, bind_eq_ok.2 ⟨ys, hys, rfl⟩⟩

theorem exists_mem_of_mapM_bind_eq_error {e : ε}
    (h : (xs.mapM f >>= fun ys => pure (g ys)) = .error e) : ∃ x ∈ xs, f x = .error e :=
  exists_mem_of_mapM_eq_error (bind_pure_eq_error_iff.1 h)

/-- What has a result exactly if all items have one, and then the results of the items put
together. -/
theorem eq_ok_iff_of_parts {r : Except ε γ} {c : γ}
    (hfull : ∀ c, r = .ok c → ∃ ys, List.Forall₂ (fun x y => f x = .ok y) xs ys ∧ c = g ys)
    (hparts : (∀ x ∈ xs, ∃ y, f x = .ok y) → ∃ c, r = .ok c) :
    r = .ok c ↔ ∃ ys, List.Forall₂ (fun x y => f x = .ok y) xs ys ∧ c = g ys := by
  refine ⟨hfull c, ?_⟩
  rintro ⟨ys, hys, rfl⟩
  have hmapM := mapM_eq_ok_iff.2 hys
  obtain ⟨c, hc⟩ := hparts (exists_mapM_eq_ok_iff.1 ⟨ys, hmapM⟩)
  obtain ⟨ys', hys', rfl⟩ := hfull c hc
  rw [hc, Except.ok.inj (hmapM.symm.trans (mapM_eq_ok_iff.2 hys'))]

end Lists

/-! ## Printers -/

/-- Prints values up to a depth of nesting: a container `C` is printed if all of its parts are, and
nothing else but its parts can be in the way. -/
structure IsPrinter (R : Value → Value → Prop) (C : Value → Prop)
    (print : Nat → Value → Except Trouble String) : Prop where
  container : ∀ v w, R v w → C v
  native : ∀ v, C v → v.IsNative
  plain : ∀ n v, ¬ C v → v.IsNative → ∃ t, print n v = .ok t
  foreign : ∀ n v, ¬ v.IsNative → ∃ f, print n v = .error (.fault f)
  tooDeep : ∀ v, C v → print 0 v = .error .overflow
  nested : ∀ n v, C v → ((∃ t, print (n + 1) v = .ok t) ↔ ∀ w, R v w → ∃ t, print n w = .ok t)
  error : ∀ n v t, C v → print (n + 1) v = .error t → ∃ w, R v w ∧ print n w = .error t

namespace IsPrinter

variable {R : Value → Value → Prop} {C : Value → Prop} {print : Nat → Value → Except Trouble String}
  (hprint : IsPrinter R C print) {n : Nat} {v w : Value}

include hprint

/-- What is no container is printed as it is. -/
theorem exists_ok_iff_of_not (hv : ¬ C v) : (∃ t, print n v = .ok t) ↔
    NestedWithin R C n v ∧ ∀ w, ReflTransGen R v w → w.IsNative := by
  have hpart (w : Value) : ¬ R v w := fun hvw => hv (hprint.container v w hvw)
  have hnested : NestedWithin R C n v := by
    cases n with
    | zero => exact hv
    | succ n => exact fun w hvw => absurd hvw (hpart w)
  have hreach (w : Value) : ReflTransGen R v w ↔ w = v :=
    ReflTransGen.cases_head_iff.trans (by simp [hpart, eq_comm])
  simp only [hnested, true_and, hreach, forall_eq]
  constructor
  · rintro ⟨t, ht⟩
    by_contra hforeign
    obtain ⟨f, hf⟩ := hprint.foreign n v hforeign
    rw [hf] at ht
    cases ht
  · exact hprint.plain n v hv

theorem exists_ok_iff : (∃ t, print n v = .ok t) ↔
    NestedWithin R C n v ∧ ∀ w, ReflTransGen R v w → w.IsNative := by
  induction n generalizing v with
  | zero =>
    by_cases hv : C v
    · simp [NestedWithin, hprint.tooDeep v hv, hv]
    · exact hprint.exists_ok_iff_of_not hv
  | succ n ih =>
    by_cases hv : C v
    · rw [hprint.nested n v hv]
      simp only [ih, NestedWithin]
      constructor
      · intro h
        refine ⟨fun w hvw => (h w hvw).1, fun u hvu => ?_⟩
        rcases ReflTransGen.cases_head hvu with rfl | ⟨w, hvw, hwu⟩
        · exact hprint.native v hv
        · exact (h w hvw).2 u hwu
      · exact fun h w hvw => ⟨h.1 w hvw, fun u hwu => h.2 u (.head hvw hwu)⟩
    · exact hprint.exists_ok_iff_of_not hv

/-- With more depth than there are containers, a container is printed if all of its parts are. -/
theorem exists_ok_of_parts {number : Value → Nat} (hnumber : Numbering R number n) (hv : C v)
    (h : ∀ w, R v w → ∃ t, print (n + 1) w = .ok t) : ∃ t, print (n + 1) v = .ok t := by
  have hiff (v : Value) := hprint.exists_ok_iff (n := n + 1) (v := v)
  simp only [nestedWithin_iff_cycleFree hprint.container hnumber] at hiff
  refine (hiff v).2 ⟨.of_parts fun w hvw => ((hiff w).1 (h w hvw)).1, fun u hvu => ?_⟩
  rcases ReflTransGen.cases_head hvu with rfl | ⟨w, hvw, hwu⟩
  · exact hprint.native v hv
  · exact ((hiff w).1 (h w hvw)).2 u hwu

theorem overflow_or_foreign {t : Trouble} (h : print n v = .error t) :
    t = .overflow ∨ ∃ w, ReflTransGen R v w ∧ ¬ w.IsNative := by
  have hplain {n : Nat} {v : Value} (hv : ¬ C v) (h : print n v = .error t) : ¬ v.IsNative := by
    intro hnative
    obtain ⟨t', ht'⟩ := hprint.plain n v hv hnative
    rw [h] at ht'
    cases ht'
  induction n generalizing v with
  | zero =>
    by_cases hv : C v
    · rw [hprint.tooDeep v hv] at h
      cases h
      exact .inl rfl
    · exact .inr ⟨v, .refl, hplain hv h⟩
  | succ n ih =>
    by_cases hv : C v
    · obtain ⟨w, hvw, hw⟩ := hprint.error n v t hv h
      exact (ih hw).imp_right fun ⟨u, hwu, hu⟩ => ⟨u, .head hvw hwu, hu⟩
    · exact .inr ⟨v, .refl, hplain hv h⟩

theorem eq_overflow_iff {number : Value → Nat} (hnumber : Numbering R number n)
    (hnative : ∀ w, ReflTransGen R v w → w.IsNative) :
    print (n + 1) v = .error .overflow ↔ ¬ CycleFree R v := by
  have hiff : (∃ t, print (n + 1) v = .ok t) ↔ CycleFree R v := by
    rw [hprint.exists_ok_iff, nestedWithin_iff_cycleFree hprint.container hnumber]
    exact and_iff_left hnative
  rw [← hiff]
  cases ht : print (n + 1) v with
  | ok t => simp
  | error t =>
    rcases hprint.overflow_or_foreign ht with rfl | ⟨w, hvw, hw⟩
    · simp
    · exact absurd (hnative w hvw) hw

end IsPrinter

/-! ## Containers -/

namespace Heap

inductive Item (h : Heap) : Value → Value → Prop where
  | mk {r : Nat} {v : Value} : v ∈ (h.array r).toList → Item h (.arr r) v

/-- A value is an item of an array or the value of a member of an object. -/
inductive Part (h : Heap) : Value → Value → Prop where
  | item {r : Nat} {v : Value} : v ∈ (h.array r).toList → Part h (.arr r) v
  | member {r : Nat} {k : String} {v : Value} : (k, v) ∈ (h.object r).entries → Part h (.obj r) v

end Heap

def Value.IsArray : Value → Prop
  | .arr _ => True
  | _ => False

/-- An array or an object. -/
def Value.IsCompound : Value → Prop
  | .arr _ | .obj _ => True
  | _ => False

namespace Heap

variable {h : Heap} {n r : Nat} {v w : Value} {nested : Bool} {t : String}

theorem item_arr_iff : h.Item (.arr r) v ↔ v ∈ (h.array r).toList := by
  constructor
  · rintro ⟨hv⟩
    exact hv
  · exact .mk

theorem part_arr_iff : h.Part (.arr r) v ↔ v ∈ (h.array r).toList := by
  constructor
  · intro hv
    cases hv with
    | item hv => exact hv
  · exact .item

theorem part_obj_iff : h.Part (.obj r) v ↔ ∃ k, (k, v) ∈ (h.object r).entries := by
  constructor
  · intro hv
    cases hv with
    | member hv => exact ⟨_, hv⟩
  · rintro ⟨k, hv⟩
    exact .member hv

theorem lt_size_of_mem_array (hv : v ∈ (h.array r).toList) : r < h.arrays.size := by
  by_contra hr
  simp [array, hr] at hv

theorem lt_size_of_mem_object {e : String × Value} (he : e ∈ (h.object r).entries) :
    r < h.objects.size := by
  by_contra hr
  simp [object, hr, Dict.empty] at he

/-- Arrays come first, and then objects. -/
def place (h : Heap) : Value → Nat
  | .arr r => r
  | .obj r => h.arrays.size + r
  | _ => 0

theorem numbering_item (h : Heap) : Numbering h.Item h.place h.arrays.size where
  lt := by
    rintro _ _ ⟨hv⟩
    exact lt_size_of_mem_array hv
  injective := by
    rintro _ _ _ _ ⟨-⟩ ⟨-⟩ heq
    exact congrArg Value.arr heq

theorem numbering_part (h : Heap) :
    Numbering h.Part h.place (h.arrays.size + h.objects.size) where
  lt := by
    intro v w hvw
    cases hvw with
    | item hv => exact Nat.lt_of_lt_of_le (lt_size_of_mem_array hv) (Nat.le_add_right _ _)
    | member hv => exact Nat.add_lt_add_left (lt_size_of_mem_object hv) _
  injective := by
    intro v w v' w' hvw hvw' heq
    cases hvw with
    | item hv =>
      cases hvw' with
      | item hv' => exact congrArg Value.arr heq
      | member hv' =>
        have := lt_size_of_mem_array hv
        simp only [place] at heq
        omega
    | member hv =>
      cases hvw' with
      | item hv' =>
        have := lt_size_of_mem_array hv'
        simp only [place] at heq
        omega
      | member hv' => exact congrArg Value.obj (Nat.add_left_cancel heq)

/-! ## Texts -/

/-- The text of an item inside of the text of its array. -/
def itemWithin (h : Heap) (n : Nat) : Value → Except Trouble String
  | .null => .ok ""
  | v => h.textWithin n v

theorem textWithin_arr (h : Heap) (n r : Nat) : h.textWithin (n + 1) (.arr r) =
    (h.array r).toList.mapM (h.itemWithin n) >>= fun texts => pure (",".intercalate texts) := by
  rw [textWithin]
  congr 1

theorem exists_itemWithin_eq_ok_iff :
    (∃ t, h.itemWithin n v = .ok t) ↔ ∃ t, h.textWithin n v = .ok t := by
  cases v with
  | null => cases n <;> simp [itemWithin, textWithin]
  | _ => rfl

theorem isPrinter_textWithin (h : Heap) : IsPrinter h.Item Value.IsArray h.textWithin where
  container := by
    rintro _ _ ⟨-⟩
    trivial
  native v hv := by
    cases v with
    | arr r => rfl
    | _ => cases hv
  plain n v hv hnative := by
    cases v with
    | arr r => exact absurd trivial hv
    | int | tuple | node => cases hnative
    | _ => cases n <;> exact ⟨_, rfl⟩
  foreign n v hv := by
    cases v with
    | int | tuple | node => cases n <;> exact ⟨_, rfl⟩
    | _ => exact absurd rfl hv
  tooDeep v hv := by
    cases v with
    | arr r => rfl
    | _ => cases hv
  nested n v hv := by
    cases v with
    | arr r =>
      rw [textWithin_arr, exists_mapM_bind_eq_ok_iff]
      simp only [item_arr_iff, exists_itemWithin_eq_ok_iff]
    | _ => cases hv
  error n v t hv ht := by
    cases v with
    | arr r =>
      rw [textWithin_arr] at ht
      obtain ⟨w, hw, ht⟩ := exists_mem_of_mapM_bind_eq_error ht
      refine ⟨w, .mk hw, ?_⟩
      cases w with
      | null => cases ht
      | _ => exact ht
    | _ => cases hv

theorem textWithin_succ (hv : h.textWithin n v = .ok t) : h.textWithin (n + 1) v = .ok t := by
  induction n generalizing v t with
  | zero =>
    cases v with
    | arr r => cases hv
    | _ => exact hv
  | succ n ih =>
    cases v with
    | arr r =>
      rw [textWithin_arr, mapM_bind_eq_ok_iff] at hv ⊢
      obtain ⟨texts, htexts, rfl⟩ := hv
      refine ⟨texts, htexts.imp fun w text hw => ?_, rfl⟩
      cases w with
      | null => exact hw
      | _ => exact ih hw
    | _ => exact hv

/-- The text of an item inside of the text of its array: null leaves nothing. -/
def itemText (h : Heap) : Value → Except Trouble String
  | .null => .ok ""
  | v => h.toText v

theorem exists_toText_eq_ok_iff : (∃ t, h.toText v = .ok t) ↔
    CycleFree h.Item v ∧ ∀ w, ReflTransGen h.Item v w → w.IsNative := by
  rw [toText, h.isPrinter_textWithin.exists_ok_iff,
    nestedWithin_iff_cycleFree h.isPrinter_textWithin.container h.numbering_item]

theorem itemText_of_itemWithin (hv : h.itemWithin h.arrays.size v = .ok t) :
    h.itemText v = .ok t := by
  cases v with
  | null => exact hv
  | _ => exact textWithin_succ hv

theorem exists_itemText_eq_ok_iff : (∃ t, h.itemText v = .ok t) ↔ ∃ t, h.toText v = .ok t :=
  exists_itemWithin_eq_ok_iff

/-- The text of an array is made of the full texts of its items. -/
theorem toText_arr_eq_ok_iff : h.toText (.arr r) = .ok t ↔
    ∃ texts, List.Forall₂ (fun v text => h.itemText v = .ok text) (h.array r).toList texts ∧
      t = ",".intercalate texts := by
  refine eq_ok_iff_of_parts (fun t ht => ?_) fun hitems => ?_
  · rw [toText, textWithin_arr, mapM_bind_eq_ok_iff] at ht
    obtain ⟨texts, htexts, rfl⟩ := ht
    exact ⟨texts, htexts.imp fun _ _ => itemText_of_itemWithin, rfl⟩
  · refine h.isPrinter_textWithin.exists_ok_of_parts h.numbering_item trivial fun w hw => ?_
    exact exists_itemText_eq_ok_iff.1 (hitems w (item_arr_iff.1 hw))

/-! ## Displayed forms -/

/-- An entry of an object inside of the form of its object. -/
def entryWithin (h : Heap) (n : Nat) (e : String × Value) : Except Trouble String :=
  h.displayWithin n true e.2 >>= fun text => pure s!"{e.1}: {text}"

/-- The form of an array around those of its items. -/
def bracketed (texts : List String) : String := "[" ++ ", ".intercalate texts ++ "]"

/-- The form of an object around those of its entries. -/
def braced (texts : List String) : String := "\x7b" ++ ", ".intercalate texts ++ "\x7d"

theorem displayWithin_arr (h : Heap) (n r : Nat) (nested : Bool) :
    h.displayWithin (n + 1) nested (.arr r) =
      (h.array r).toList.mapM (h.displayWithin n true) >>= fun texts => pure (bracketed texts) := by
  rw [displayWithin]
  rfl

theorem displayWithin_obj (h : Heap) (n r : Nat) (nested : Bool) :
    h.displayWithin (n + 1) nested (.obj r) =
      (h.object r).entries.mapM (h.entryWithin n) >>= fun texts => pure (braced texts) := by
  rw [displayWithin]
  rfl

theorem exists_entryWithin_eq_ok_iff {e : String × Value} :
    (∃ t, h.entryWithin n e = .ok t) ↔ ∃ t, h.displayWithin n true e.2 = .ok t := by
  constructor
  · rintro ⟨t, ht⟩
    obtain ⟨text, htext, -⟩ := bind_eq_ok.1 ht
    exact ⟨text, htext⟩
  · rintro ⟨text, htext⟩
    exact ⟨_, bind_eq_ok.2 ⟨text, htext, rfl⟩⟩

theorem isPrinter_displayWithin (h : Heap) :
    IsPrinter h.Part Value.IsCompound fun n => h.displayWithin n true where
  container v w hvw := by
    cases hvw <;> trivial
  native v hv := by
    cases v with
    | arr r | obj r => rfl
    | _ => cases hv
  plain n v hv hnative := by
    cases v with
    | arr r | obj r => exact absurd trivial hv
    | int | tuple | node => cases hnative
    | _ => cases n <;> exact ⟨_, rfl⟩
  foreign n v hv := by
    cases v with
    | int | tuple | node => cases n <;> exact ⟨_, rfl⟩
    | _ => exact absurd rfl hv
  tooDeep v hv := by
    cases v with
    | arr r | obj r => rfl
    | _ => cases hv
  nested n v hv := by
    cases v with
    | arr r =>
      rw [displayWithin_arr, exists_mapM_bind_eq_ok_iff]
      simp only [part_arr_iff]
    | obj r =>
      rw [displayWithin_obj, exists_mapM_bind_eq_ok_iff]
      simp only [part_obj_iff, exists_entryWithin_eq_ok_iff, Prod.forall, forall_exists_index]
      exact forall_comm
    | _ => cases hv
  error n v t hv ht := by
    cases v with
    | arr r =>
      rw [displayWithin_arr] at ht
      obtain ⟨w, hw, ht⟩ := exists_mem_of_mapM_bind_eq_error ht
      exact ⟨w, .item hw, ht⟩
    | obj r =>
      rw [displayWithin_obj] at ht
      obtain ⟨⟨k, w⟩, hw, ht⟩ := exists_mem_of_mapM_bind_eq_error ht
      exact ⟨w, .member hw, bind_pure_eq_error_iff.1 ht⟩
    | _ => cases hv

theorem displayWithin_succ (hv : h.displayWithin n nested v = .ok t) :
    h.displayWithin (n + 1) nested v = .ok t := by
  induction n generalizing nested v t with
  | zero =>
    cases v with
    | arr r | obj r => cases hv
    | _ => exact hv
  | succ n ih =>
    cases v with
    | arr r =>
      rw [displayWithin_arr, mapM_bind_eq_ok_iff] at hv ⊢
      obtain ⟨texts, htexts, rfl⟩ := hv
      exact ⟨texts, htexts.imp fun _ _ => ih, rfl⟩
    | obj r =>
      rw [displayWithin_obj, mapM_bind_eq_ok_iff] at hv ⊢
      obtain ⟨texts, htexts, rfl⟩ := hv
      refine ⟨texts, htexts.imp fun e text he => ?_, rfl⟩
      obtain ⟨u, hu, hpure⟩ := bind_eq_ok.1 he
      exact bind_eq_ok.2 ⟨u, ih hu, hpure⟩
    | _ => exact hv

/-- The form of a value inside of another one: texts are quoted. -/
def displayInside (h : Heap) : Value → Except Trouble String
  | .str s => .ok s!"\"{s}\""
  | v => h.display v

theorem displayInside_eq (h : Heap) (v : Value) :
    h.displayInside v = h.displayWithin (h.arrays.size + h.objects.size + 1) true v := by
  cases v with
  | arr r =>
    rw [displayWithin_arr]
    exact displayWithin_arr h _ r false
  | obj r =>
    rw [displayWithin_obj]
    exact displayWithin_obj h _ r false
  | _ => rfl

theorem exists_displayInside_eq_ok_iff :
    (∃ t, h.displayInside v = .ok t) ↔ ∃ t, h.display v = .ok t := by
  cases v with
  | str s => exact ⟨fun _ => ⟨s, rfl⟩, fun _ => ⟨_, rfl⟩⟩
  | _ => rfl

theorem exists_display_eq_ok_iff : (∃ t, h.display v = .ok t) ↔
    CycleFree h.Part v ∧ ∀ w, ReflTransGen h.Part v w → w.IsNative := by
  rw [← exists_displayInside_eq_ok_iff, displayInside_eq, h.isPrinter_displayWithin.exists_ok_iff,
    nestedWithin_iff_cycleFree h.isPrinter_displayWithin.container h.numbering_part]

/-- An array or an object can be displayed if all that it holds can be. -/
theorem exists_display_of_parts (hv : v.IsCompound)
    (hparts : ∀ w, h.Part v w → ∃ t, h.displayInside w = .ok t) : ∃ t, h.display v = .ok t := by
  simp only [displayInside_eq] at hparts
  rw [← exists_displayInside_eq_ok_iff, displayInside_eq]
  exact h.isPrinter_displayWithin.exists_ok_of_parts h.numbering_part hv hparts

/-- The form of an array is made of the full forms of its items. -/
theorem display_arr_eq_ok_iff : h.display (.arr r) = .ok t ↔
    ∃ texts, List.Forall₂ (fun v text => h.displayInside v = .ok text) (h.array r).toList texts ∧
      t = bracketed texts := by
  refine eq_ok_iff_of_parts (fun t ht => ?_) fun hitems => ?_
  · rw [display, displayWithin_arr, mapM_bind_eq_ok_iff] at ht
    obtain ⟨texts, htexts, rfl⟩ := ht
    refine ⟨texts, htexts.imp fun v text hv => ?_, rfl⟩
    rw [displayInside_eq]
    exact displayWithin_succ hv
  · exact exists_display_of_parts trivial fun w hw => hitems w (part_arr_iff.1 hw)

/-- The form of an entry of an object: its key and the form of its value. -/
def displayEntry (h : Heap) (e : String × Value) : Except Trouble String :=
  h.displayInside e.2 >>= fun text => pure s!"{e.1}: {text}"

/-- The form of an object is made of the full forms of its entries. -/
theorem display_obj_eq_ok_iff : h.display (.obj r) = .ok t ↔
    ∃ texts, List.Forall₂ (fun e text => h.displayEntry e = .ok text) (h.object r).entries texts ∧
      t = braced texts := by
  refine eq_ok_iff_of_parts (fun t ht => ?_) fun hentries => ?_
  · rw [display, displayWithin_obj, mapM_bind_eq_ok_iff] at ht
    obtain ⟨texts, htexts, rfl⟩ := ht
    refine ⟨texts, htexts.imp fun e text he => ?_, rfl⟩
    obtain ⟨u, hu, hpure⟩ := bind_eq_ok.1 he
    rw [displayEntry, displayInside_eq]
    exact bind_eq_ok.2 ⟨u, displayWithin_succ hu, hpure⟩
  · refine exists_display_of_parts trivial fun w hw => ?_
    obtain ⟨k, hk⟩ := part_obj_iff.1 hw
    obtain ⟨text, htext⟩ := hentries (k, w) hk
    obtain ⟨u, hu, -⟩ := bind_eq_ok.1 htext
    exact ⟨u, hu⟩

theorem display_eq_overflow_iff (hnative : ∀ w, ReflTransGen h.Part v w → w.IsNative) :
    h.display v = .error .overflow ↔ ¬ CycleFree h.Part v := by
  rw [← h.isPrinter_displayWithin.eq_overflow_iff h.numbering_part hnative, ← displayInside_eq]
  cases v with
  | str s => exact ⟨fun ht => (by cases ht), fun ht => (by cases ht)⟩
  | _ => rfl

/-- In a heap with values of the language only, nothing else is reached. -/
theorem Holds.isNative_of_part {B : List Stmt → Prop} (hh : h.Holds Value.IsNative B)
    (hv : v.IsNative) (hvw : ReflTransGen h.Part v w) : w.IsNative := by
  induction hvw with
  | refl => exact hv
  | tail _ hpart _ =>
    cases hpart with
    | item hw => exact hh.array _ _ hw
    | member hw => exact hh.object _ _ hw

theorem Item.part (hvw : h.Item v w) : h.Part v w := by
  cases hvw with
  | mk hw => exact .item hw

end Heap

/-- A value has a text if and only if no array that is reached by way of items contains itself, and
can be displayed if and only if no array or object that is reached by way of items and members does;
values from outside the language apart, what cannot be printed is nested without an end. Arrays and
objects are written out in full wherever they stand. -/
theorem printable_iff_cycleFree (h : Heap) (v : Value) :
    ((∃ t, h.toText v = .ok t) ↔
      CycleFree h.Item v ∧ ∀ w, ReflTransGen h.Item v w → w.IsNative) ∧
    ((∃ t, h.display v = .ok t) ↔
      CycleFree h.Part v ∧ ∀ w, ReflTransGen h.Part v w → w.IsNative) ∧
    ((∀ w, ReflTransGen h.Item v w → w.IsNative) →
      (h.toText v = .error .overflow ↔ ¬ CycleFree h.Item v)) ∧
    ((∀ w, ReflTransGen h.Part v w → w.IsNative) →
      (h.display v = .error .overflow ↔ ¬ CycleFree h.Part v)) ∧
    (∀ r t, v = .arr r → (h.toText v = .ok t ↔
      ∃ texts, List.Forall₂ (fun w text => h.itemText w = .ok text) (h.array r).toList texts ∧
        t = ",".intercalate texts)) ∧
    (∀ r t, v = .arr r → (h.display v = .ok t ↔
      ∃ texts, List.Forall₂ (fun w text => h.displayInside w = .ok text) (h.array r).toList texts ∧
        t = Heap.bracketed texts)) ∧
    (∀ r t, v = .obj r → (h.display v = .ok t ↔
      ∃ texts, List.Forall₂ (fun e text => h.displayEntry e = .ok text) (h.object r).entries texts ∧
        t = Heap.braced texts)) ∧
    ∀ r, v = .obj r → h.toText v = .ok "[object Object]" := by
  refine ⟨Heap.exists_toText_eq_ok_iff, Heap.exists_display_eq_ok_iff,
    h.isPrinter_textWithin.eq_overflow_iff h.numbering_item, Heap.display_eq_overflow_iff,
    ?_, ?_, ?_, ?_⟩
  · rintro r t rfl
    exact Heap.toText_arr_eq_ok_iff
  · rintro r t rfl
    exact Heap.display_arr_eq_ok_iff
  · rintro r t rfl
    exact Heap.display_obj_eq_ok_iff
  · rintro r rfl
    rfl

/-- An array that contains itself through an object only, one that contains this array twice, and
one that contains itself. -/
def knot : Heap :=
  { Heap.empty with
    arrays := #[#[.obj 0], #[.arr 0, .arr 0], #[.arr 2]]
    objects := #[.ofList [("x", .arr 0)]] }

theorem holds_knot : knot.Holds Value.IsNative fun _ => True := by
  refine ⟨fun r items hr => ?_, fun r d hr => ?_, fun q s hq => ?_, ?_, fun _ _ _ => trivial⟩
  · have hitems : items ∈ [#[Value.obj 0], #[.arr 0, .arr 0], #[.arr 2]] := by
      simpa [knot] using Array.mem_of_getElem? hr
    grind [Value.IsNative, Value.foreign?]
  · have hd : d = .ofList [("x", .arr 0)] := by
      simpa [knot] using Array.mem_of_getElem? hr
    rw [hd]
    exact .ofList (by simp [Value.IsNative, Value.foreign?])
  · cases hq
  · intro e he
    cases he

theorem printable_iff_cycleFree_knot :
    (knot.toText (.arr 1) = .ok "[object Object],[object Object]" ∧
      CycleFree knot.Item (.arr 1)) ∧
    (knot.display (.arr 0) = .error .overflow ∧ ¬ CycleFree knot.Part (.arr 0)) ∧
    knot.toText (.arr 2) = .error .overflow ∧ ¬ CycleFree knot.Item (.arr 2) := by
  have htext : knot.toText (.arr 1) = .ok "[object Object],[object Object]" := by rfl
  have hdisplay : knot.display (.arr 0) = .error .overflow := by rfl
  have hself : knot.toText (.arr 2) = .error .overflow := by rfl
  have hreach {v w : Value} (hv : v.IsNative) (hvw : ReflTransGen knot.Part v w) : w.IsNative :=
    holds_knot.isNative_of_part hv hvw
  refine ⟨⟨htext, ?_⟩, ⟨hdisplay, ?_⟩, hself, ?_⟩
  · exact ((printable_iff_cycleFree knot (.arr 1)).1.1 ⟨_, htext⟩).1
  · exact ((printable_iff_cycleFree knot (.arr 0)).2.2.2.1 fun w => hreach rfl).1 hdisplay
  · refine ((printable_iff_cycleFree knot (.arr 2)).2.2.1 fun w hw =>
      hreach (v := .arr 2) rfl ?_).1 hself
    exact ReflTransGen.mono (fun _ _ => Heap.Item.part) _ _ hw

end Hantec
