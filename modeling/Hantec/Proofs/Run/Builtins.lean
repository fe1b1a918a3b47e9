import Hantec.Proofs.Run.Scopeless

/-!
# Builtins leave scopes alone

What a builtin does is made of steps that look at no scope and touch none. It takes values that may
be around to a value that may be, and the faults that it comes to by itself are soft.
-/

namespace Hantec

variable {α β : Type}

/-- While the keys are made the array counts as empty, in both heaps. -/
theorem Heap.Resembles.setArray {h h' : Heap} (hh : h.Resembles h') (r : Nat)
    (items : Array Value) : (h.setArray r items).Resembles (h'.setArray r items) where
  rest := by
    conv => lhs; rw [hh.rest]
    rfl
  closure := hh.closure

theorem Heap.Resembles.sortKeys {h h' : Heap} (hh : h.Resembles h') (vs : List Value) :
    sortKeys h' vs = sortKeys h vs := by
  induction vs with
  | nil => rfl
  | cons v vs ih => simp only [Hantec.sortKeys, hh.toText, ih]

theorem Policy.Grants.sortKeys {P : Policy} [P.Lawful] {soft : Fault → Prop} {h : Heap}
    (hh : P.Holds h) {vs : List Value} (hvs : ∀ v ∈ vs, P.value v) :
    P.Grants soft (fun es => ∀ e ∈ es, P.value e.2) (sortKeys h vs) := by
  induction vs with
  | nil => exact List.forall_mem_nil _
  | cons v vs ih =>
    rw [List.forall_mem_cons] at hvs
    refine (Grants.toText hh hvs.1).bind fun key _ => (ih hvs.2).bind fun es hes => ?_
    exact List.forall_mem_cons.mpr ⟨hvs.1, hes⟩

/-- Texts are values that programs can make. -/
theorem Policy.value_strings {P : Policy} [P.Lawful] (xs : List String) :
    ∀ v ∈ xs.map Value.str, P.value v := by
  intro v hv
  obtain ⟨x, -, rfl⟩ := List.mem_map.mp hv
  exact Lawful.plain _ trivial

/-- What is known about an entry of a disk are truth values, numbers and texts. -/
theorem Policy.value_entryInfo {P : Policy} [P.Lawful] (disk : Disk) (path : String) (clock : Float)
    (node : DiskNode) : ∀ e ∈ entryInfo disk path clock node, P.value e.2 := by
  intro e he
  refine Lawful.plain e.2 ?_
  simp only [Hantec.entryInfo, List.mem_cons, List.not_mem_nil, or_false] at he
  rcases he with rfl | rfl | rfl | rfl | rfl | rfl | rfl | rfl | rfl | rfl | rfl | rfl | rfl | rfl |
    rfl | rfl | rfl | rfl | rfl | rfl <;> trivial

namespace Proc.Abides

variable {P : Policy} {chance : Prop} {files : Bool} [Holding α] [Holding β] {v : Value}
  {args : List Value}

theorem softFault {f : Fault} (hf : f.IsSoft) :
    Works P chance files (.fault f : Proc α) :=
  fault (.inr hf)

/-! ## Arguments and items -/

theorem argument (hargs : ∀ v ∈ args, P.value v) (i : Nat) :
    Works P chance files (argument args i) := by
  unfold Hantec.argument
  split
  · exact pure (hargs _ (List.mem_of_getElem? ‹_›))
  · exact softFault ⟨rfl, nofun⟩

theorem twoArguments (hargs : ∀ v ∈ args, P.value v) :
    Works P chance files (twoArguments args) := by
  unfold Hantec.twoArguments
  split
  · exact pure ⟨hargs _ (by simp), hargs _ (by simp)⟩
  · exact softFault ⟨rfl, nofun⟩
  · exact softFault ⟨rfl, nofun⟩

theorem threeArguments (hargs : ∀ v ∈ args, P.value v) :
    Works P chance files (threeArguments args) := by
  unfold Hantec.threeArguments
  split
  · exact pure ⟨hargs _ (by simp), hargs _ (by simp), hargs _ (by simp)⟩
  · exact softFault ⟨rfl, nofun⟩
  · exact softFault ⟨rfl, nofun⟩

theorem requireArray (builtin : String) (v : Value) :
    Works P chance files (requireArray builtin v) := by
  unfold Hantec.requireArray
  split
  · exact pure trivial
  · exact softFault ⟨rfl, nofun⟩

/-- A builtin whose first argument has to be an array. -/
theorem onArray (hargs : ∀ v ∈ args, P.value v) (builtin : String) {p : Value → Nat → Proc α}
    (hp : ∀ v r, P.value v → Works P chance files (p v r)) :
    Works P chance files
      (Hantec.argument args 0 >>= fun v => Hantec.requireArray builtin v >>= p v) :=
  (argument hargs 0).bind fun v hv => (requireArray builtin v).bind fun r _ => hp v r hv

theorem items (r : Nat) : Works P chance files (items r) :=
  get (fun _ _ hh => by rw [hh.array]) fun _ hh => hh.array r

theorem updateArray (r : Nat) {f : Array Value → Array Value}
    (hf : ∀ items : Array Value, (∀ v ∈ items.toList, P.value v) →
      ∀ v ∈ (f items).toList, P.value v) :
    Works P chance files (.modifyHeap (·.updateArray r f)) :=
  modifyHeap (Heap.aloof_updateArray r f) fun _ hh => hh.updateArray r hf

section Sorting

variable {greater : Value → Value → Proc Bool}
  (hg : ∀ x y, P.value x → P.value y → Works P chance files (greater x y))

include hg

theorem mergeBy {done xs ys : List Value} (n : Nat) (hdone : ∀ v ∈ done, P.value v)
    (hxs : ∀ v ∈ xs, P.value v) (hys : ∀ v ∈ ys, P.value v) :
    Works P chance files (mergeBy greater done n xs ys) := by
  fun_induction Hantec.mergeBy greater done n xs ys with
  | case1 done n x xs y ys ih₁ ih₂ =>
    obtain ⟨hx, hxs'⟩ := List.forall_mem_cons.mp hxs
    obtain ⟨hy, hys'⟩ := List.forall_mem_cons.mp hys
    refine (hg x y hx hy).bind fun b _ => ?_
    split
    · exact ih₁ (List.forall_mem_cons.mpr ⟨hy, hdone⟩) hxs hys'
    · exact ih₂ (List.forall_mem_cons.mpr ⟨hx, hdone⟩) hxs' hys
  | case2 done n xs ys _ =>
    refine pure fun v hv => ?_
    simp only [List.mem_append, List.mem_reverse] at hv
    rcases hv with (hv | hv) | hv
    · exact hdone v hv
    · exact hxs v hv
    · exact hys v hv

theorem sortBy (n : Nat) {xs : List Value} (hxs : ∀ v ∈ xs, P.value v) :
    Works P chance files (sortBy greater n xs) := by
  induction n generalizing xs with
  | zero => exact pure hxs
  | succ n ih =>
    unfold Hantec.sortBy
    split
    · exact pure hxs
    · refine (ih fun v hv => hxs v (List.mem_of_mem_take hv)).bind fun left hleft => ?_
      refine (ih fun v hv => hxs v (List.mem_of_mem_drop hv)).bind fun right hright => ?_
      exact mergeBy hg _ (List.forall_mem_nil _) hleft hright

theorem sortArrayBy (r : Nat) : Works P chance files (sortArrayBy greater r) := by
  refine (items r).bind fun xs hxs => ?_
  split
  · exact pure trivial
  · refine (sortBy hg _ fun v hv => hxs v (List.mem_of_mem_take hv)).bind fun left hleft => ?_
    refine (items r).bind fun ys hys => ?_
    refine (sortBy hg _ fun v hv => hys v (List.mem_of_mem_drop hv)).bind fun right hright => ?_
    refine (mergeBy hg _ (List.forall_mem_nil _) hleft hright).bind fun sorted hsorted => ?_
    exact modifyHeap (Heap.aloof_setArray r _) fun _ hh => hh.setArray r hsorted

end Sorting

theorem members (v : Value) : Works P chance files (members v) := by
  refine get (fun _ _ hh => by cases v <;> simp only [membersOf, hh.object]) fun h hh => ?_
  cases v
  case obj r => exact hh.object r
  all_goals exact Dict.All.empty

theorem readPattern (s : String) : Works P chance files (readPattern s) := by
  unfold Hantec.readPattern
  split
  · exact pure trivial
  · exact softFault ⟨rfl, nofun⟩

/-- What comes after an operation on the disk is done only if files may be used. -/
theorem afterDisk (f : Disk → α) {k : α → Proc β} (hf : ∀ disk, Holding.All P.value (f disk))
    (hk : ∀ a, Works P chance true (k a)) :
    Works P chance files (onDisk f >>= k) := by
  have hassoc : onDisk f >>= k = checkFileAccess >>= fun _ =>
      (do
        let a ← Proc.onWorld fun w => (f w.disk, w)
        Proc.wait .worker
        return a) >>= k := funext fun _ => Step.bind_assoc _ _ _
  rw [hassoc]
  refine whenAllowed (Abides.bind ?_ fun a _ => hk a)
  refine (withFiles fun w => hf w.disk).bind fun a ha => ?_
  exact (wait zero_le_worker).bind fun _ _ => pure ha

variable [P.Lawful]

theorem textArgument (hargs : ∀ v ∈ args, P.value v) (i : Nat) :
    Works P chance files (textArgument args i) :=
  (argument hargs i).bind fun _ hv => toText hv

theorem numberArgument (hargs : ∀ v ∈ args, P.value v) (i : Nat) :
    Works P chance files (numberArgument args i) :=
  (argument hargs i).bind fun _ hv => toNumber hv

/-! ## Builtins outside the namespaces -/

theorem throwValue (hv : P.value v) : Works P chance files (throwValue v) := by
  unfold Hantec.throwValue
  split
  · exact raise hv
  · exact (toText hv).bind fun _ _ => raise hv

theorem typeEntries {es : List (String × Value)} (hes : ∀ e ∈ es, P.value e.2) :
    Works P chance files (typeEntries es) := by
  induction es with
  | nil => exact pure (List.forall_mem_nil _)
  | cons e es ih =>
    rw [List.forall_mem_cons] at hes
    refine (typeName hes.1).bind fun t _ => (ih hes.2).bind fun ts hts => ?_
    exact pure (List.forall_mem_cons.mpr ⟨Policy.Lawful.plain _ trivial, hts⟩)

theorem core (f : CoreFn) (hargs : ∀ v ∈ args, P.value v) :
    Works P ((Builtin.core f).isChancy = true) files (f.run args) := by
  cases f with
  | print =>
    refine (argument hargs 0).bind fun v hv => ?_
    refine (ask (fun _ _ hh => hh.display v) fun _ hh => .display hh hv).bind fun text _ => ?_
    exact (print _).gives fun _ => trivial
  | now => exact (byChance rfl World.ignoresDisk_readClock fun _ => trivial).gives fun _ => trivial
  | throw => exact (argument hargs 0).bind fun v hv => throwValue hv
  | typeName => exact (argument hargs 0).bind fun v hv => (typeName hv).gives fun _ => trivial
  | array => exact newArray hargs
  | object =>
    refine (ask (fun _ _ hh => hh.pairEntries args) fun _ hh => .pairEntries hh hargs).bind ?_
    exact fun es hes => newObject (.ofList hes)
  | fieldTypes =>
    refine (argument hargs 0).bind fun v hv => ?_
    split
    · rename_i r
      refine (get (fun _ _ hh => by rw [hh.object]) fun _ hh => hh.object r).bind fun es hes => ?_
      exact (typeEntries hes).bind fun ts hts => newObject (.ofList hts)
    · exact newObject .empty

/-! ## Builtins on texts -/

theorem dateText {ms mask : Value} (hms : P.value ms) (hmask : P.value mask) :
    Works P chance files (dateText ms mask) := by
  refine (toNumber hms).bind fun x _ => ?_
  split
  · rename_i e _
    refine softFault ⟨?_, nofun⟩
    cases e <;> rfl
  · exact (toText hmask).gives fun _ => trivial

theorem itemTexts {vs : List Value} (hvs : ∀ v ∈ vs, P.value v) :
    Works P chance files (itemTexts vs) := by
  induction vs with
  | nil => exact pure (List.forall_mem_nil _)
  | cons v vs ih =>
    rw [List.forall_mem_cons] at hvs
    cases v with
    | null => exact (ih hvs.2).bind fun _ _ => pure fun _ _ => trivial
    | _ => exact (toText hvs.1).bind fun _ _ => (ih hvs.2).bind fun _ _ => pure fun _ _ => trivial

theorem joinItems (v : Value) : Works P chance files (joinItems v) := by
  unfold Hantec.joinItems
  split
  · exact items _
  · refine pure fun v hv => ?_
    obtain ⟨c, -, rfl⟩ := List.mem_map.mp hv
    exact Policy.Lawful.plain _ trivial
  · exact pure (List.forall_mem_nil _)

theorem text (f : TextFn) (hargs : ∀ v ∈ args, P.value v) :
    Works P chance files (f.run args) := by
  cases f with
  | part =>
    refine (textArgument hargs 0).bind fun s _ => (numberArgument hargs 1).bind fun start _ => ?_
    exact (numberArgument hargs 2).gives fun _ => trivial
  | replace =>
    refine (textArgument hargs 2).bind fun new _ => (argument hargs 0).bind fun s hs => ?_
    refine (argument hargs 1).bind fun old hold => (toText hs).bind fun s _ => ?_
    exact (toText hold).gives fun _ => trivial
  | lower | upper | trim => exact (textArgument hargs 0).gives fun _ => trivial
  | split =>
    refine (textArgument hargs 0).bind fun s _ => (textArgument hargs 1).bind fun sep _ => ?_
    exact newArray (Policy.value_strings _)
  | join =>
    refine (argument hargs 0).bind fun v _ => (joinItems v).bind fun items hitems => ?_
    exact (textArgument hargs 1).bind fun sep _ => (itemTexts hitems).gives fun _ => trivial
  | contains =>
    exact (textArgument hargs 1).bind fun part _ => (textArgument hargs 0).gives fun _ => trivial
  | startsWith | endsWith =>
    exact (textArgument hargs 0).bind fun s _ => (textArgument hargs 1).gives fun _ => trivial
  | formatDate =>
    refine (argument hargs 0).bind fun ms hms => (argument hargs 1).bind fun mask hmask => ?_
    exact dateText hms hmask

/-! ## Builtins on arrays -/

theorem arrayGet (v : Value) {index : Value} (hindex : P.value index) :
    Works P chance files (arrayGet v index) := by
  have hread : Works P chance files (.ask (·.toIndex index)) :=
    ask (fun _ _ hh => hh.toIndex index) fun _ hh => .toIndex hh hindex
  cases v with
  | arr r =>
    refine hread.bind fun i _ => ?_
    cases i with
    | some i =>
      refine get (fun _ _ hh => by rw [hh.array]) fun h hh => ?_
      rw [Array.getD_eq_getD_getElem?]
      cases hi : (h.array r)[i]? with
      | none => exact Policy.Lawful.plain _ trivial
      | some w => exact hh.array r w (by simpa using Array.mem_of_getElem? hi)
    | none => exact plain trivial
  | str s =>
    refine hread.bind fun i _ => ?_
    cases i with
    | some i =>
      refine plain ?_
      cases s.toList[i]? <;> trivial
    | none => exact plain trivial
  | obj r =>
    refine (toNumber hindex).bind fun x _ => get (fun _ _ hh => by rw [hh.object]) fun h hh => ?_
    exact (hh.object r).getD _ (Policy.Lawful.plain _ trivial)
  | _ => exact plain trivial

theorem sortArray (r : Nat) : Works P chance files (sortArray r) := by
  refine (items r).bind fun xs hxs => ?_
  refine (ask (fun _ _ hh => (hh.setArray r #[]).sortKeys xs) fun h hh =>
    .sortKeys (hh.setArray r fun _ hv => by simp at hv) hxs).bind fun keyed hkeyed => ?_
  refine modifyHeap (Heap.aloof_setArray r _) fun h hh => hh.setArray r fun v hv => ?_
  obtain ⟨e, he, rfl⟩ := List.mem_map.mp hv
  exact hkeyed e (List.mem_mergeSort.mp he)

section Callbacks

variable {f array : Value} (hf : P.value f) (harray : P.value array)

include hf harray

theorem callback {xs : List Value} (hxs : ∀ x ∈ xs, P.value x) (i : Nat) :
    Works P chance files (Hantec.invoke f (xs ++ [.num (Float.ofNat i), array])) := by
  refine invoke hf fun v hv => ?_
  simp only [List.mem_append, List.mem_cons, List.not_mem_nil, or_false] at hv
  rcases hv with hv | rfl | rfl
  · exact hxs v hv
  · exact Policy.Lawful.plain _ trivial
  · exact harray

theorem mapItems {done vs : List Value} (i : Nat) (hdone : ∀ v ∈ done, P.value v)
    (hvs : ∀ v ∈ vs, P.value v) :
    Works P chance files (mapItems f array done i vs) := by
  induction vs generalizing done i with
  | nil => exact pure fun w hw => hdone w (List.mem_reverse.mp hw)
  | cons v vs ih =>
    rw [List.forall_mem_cons] at hvs
    refine (callback hf harray (List.forall_mem_singleton.2 hvs.1) i).bind fun w hw => ?_
    exact ih (i + 1) (List.forall_mem_cons.mpr ⟨hw, hdone⟩) hvs.2

theorem filterItems {done vs : List Value} (i : Nat) (hdone : ∀ v ∈ done, P.value v)
    (hvs : ∀ v ∈ vs, P.value v) :
    Works P chance files (filterItems f array done i vs) := by
  induction vs generalizing done i with
  | nil => exact pure fun w hw => hdone w (List.mem_reverse.mp hw)
  | cons v vs ih =>
    rw [List.forall_mem_cons] at hvs
    refine (callback hf harray (List.forall_mem_singleton.2 hvs.1) i).bind fun w hw => ?_
    refine (isTruthy hw).bind fun b _ => ?_
    split
    · exact ih (i + 1) (List.forall_mem_cons.mpr ⟨hvs.1, hdone⟩) hvs.2
    · exact ih (i + 1) hdone hvs.2

theorem reduceItems {acc : Value} {vs : List Value} (i : Nat) (hacc : P.value acc)
    (hvs : ∀ v ∈ vs, P.value v) :
    Works P chance files (reduceItems f array acc i vs) := by
  induction vs generalizing acc i with
  | nil => exact pure hacc
  | cons v vs ih =>
    rw [List.forall_mem_cons] at hvs
    have hargs : ∀ x ∈ [acc, v], P.value x := by simp [hacc, hvs.1]
    exact (callback hf harray hargs i).bind fun acc hacc => ih (i + 1) hacc hvs.2

end Callbacks

theorem array (f : ArrayFn) (hargs : ∀ v ∈ args, P.value v) :
    Works P chance files (f.run args) := by
  cases f with
  | isArray =>
    refine (argument hargs 0).bind fun v _ => ?_
    split <;> exact plain trivial
  | get => exact (twoArguments hargs).bind fun p hp => arrayGet p.1 hp.2
  | push =>
    refine onArray hargs _ fun a r _ => (argument hargs 1).bind fun v hv => ?_
    refine (updateArray r fun items hitems => ?_).bind fun _ _ =>
      get (fun _ _ hh => by rw [hh.array]) fun _ _ => Policy.Lawful.plain _ trivial
    intro w hw
    simp only [Array.toList_push, List.mem_append, List.mem_singleton] at hw
    exact hw.elim (hitems w) (· ▸ hv)
  | pop =>
    refine onArray hargs _ fun a r _ => ?_
    refine (get (fun _ _ hh => by rw [hh.array]) fun h hh => ?_).bind fun last hlast =>
      (updateArray r fun items hitems => ?_).bind fun _ _ => pure hlast
    · cases hl : (h.array r).back? with
      | none => exact Policy.Lawful.plain _ trivial
      | some w => exact hh.array r w (by simpa using Array.mem_of_back? hl)
    · intro w hw
      rw [Array.toList_pop] at hw
      exact hitems w (List.dropLast_subset _ hw)
  | reverse =>
    refine onArray hargs _ fun v r hv => ?_
    refine (updateArray r fun items hitems => ?_).bind fun _ _ => pure hv
    intro w hw
    rw [Array.toList_reverse, List.mem_reverse] at hw
    exact hitems w hw
  | sort =>
    have hhead : P.value (args.headD .null) := by
      cases args with
      | nil => exact Policy.Lawful.plain _ trivial
      | cons v vs => exact hargs v (by simp)
    refine (requireArray _ _).bind fun r _ => ?_
    split
    · exact (sortArray r).bind fun _ _ => pure hhead
    · rename_i f hcomparison
      have hf : P.value f := by
        refine hargs f ?_
        unfold comparison? at hcomparison
        split at hcomparison
        · cases hcomparison
        · cases hcomparison
          simp
        · cases hcomparison
      refine (sortArrayBy (fun x y hx hy => ?_) r).bind fun _ _ => pure hhead
      refine (invoke hf ?_).bind fun w hw => (toNumber hw).bind fun n _ => pure trivial
      simp [hx, hy]
  | map =>
    refine onArray hargs _ fun v r hv => ?_
    refine (argument hargs 1).bind fun f hf => (items r).bind fun vs hvs => ?_
    refine (mapItems hf hv 0 (List.forall_mem_nil _) hvs).bind fun ws hws => ?_
    exact newArray hws
  | filter =>
    refine onArray hargs _ fun v r hv => ?_
    refine (argument hargs 1).bind fun f hf => (items r).bind fun vs hvs => ?_
    refine (filterItems hf hv 0 (List.forall_mem_nil _) hvs).bind fun ws hws => ?_
    exact newArray hws
  | reduce =>
    refine onArray hargs _ fun v r hv => ?_
    refine (argument hargs 1).bind fun f hf => (argument hargs 2).bind fun acc hacc => ?_
    exact (items r).bind fun vs hvs => reduceItems hf hv 0 hacc hvs
  | flatten =>
    refine onArray hargs _ fun v r _ => ?_
    refine (get (fun h h' hh => ?_) fun h hh v hv => ?_).bind fun flat hflat => newArray hflat
    · have hitem : flatItem h' = flatItem h := by
        funext v
        cases v <;> simp only [flatItem, hh.array]
      rw [hh.array, hitem]
    · obtain ⟨w, hw, hv⟩ := List.mem_flatMap.mp hv
      cases w
      case arr q => exact hh.array q v hv
      all_goals
        obtain rfl : v = _ := List.mem_singleton.mp hv
        exact hh.array r _ hw
  | length =>
    refine (argument hargs 0).bind fun v _ => ?_
    split
    · exact get (fun _ _ hh => by rw [hh.array]) fun _ _ => Policy.Lawful.plain _ trivial
    · exact plain trivial
    · exact plain trivial

/-! ## Builtins on objects -/

theorem pairArrays {es : List (String × Value)} (hes : ∀ e ∈ es, P.value e.2) :
    Works P chance files (pairArrays es) := by
  induction es with
  | nil => exact pure (List.forall_mem_nil _)
  | cons e es ih =>
    rw [List.forall_mem_cons] at hes
    have hpair : ∀ v ∈ [Value.str e.1, e.2], P.value v := by
      simp [hes.1, Policy.Lawful.plain (Value.str e.1) trivial]
    refine (newArray hpair).bind fun pair hpair => (ih hes.2).bind fun pairs hpairs => ?_
    exact pure (List.forall_mem_cons.mpr ⟨hpair, hpairs⟩)

theorem object (f : ObjectFn) (hargs : ∀ v ∈ args, P.value v) :
    Works P chance files (f.run args) := by
  cases f with
  | empty => exact newObject .empty
  | get =>
    refine (twoArguments hargs).bind fun p hp => ?_
    split
    · refine (toText hp.2).bind fun k _ => get (fun _ _ hh => by rw [hh.object]) fun h hh => ?_
      exact (hh.object _).getD k (Policy.Lawful.plain _ trivial)
    · exact plain trivial
  | put =>
    refine (threeArguments hargs).bind fun p hp => ?_
    split
    · refine (toText hp.2.1).bind fun k _ => ?_
      refine (modifyHeap (Heap.aloof_putMember _ k _) fun h hh => ?_).bind fun _ _ => pure hp.2.2
      exact hh.putMember _ k hp.2.2
    · exact softFault ⟨rfl, nofun⟩
  | keys =>
    refine (argument hargs 0).bind fun v _ => (members v).bind fun d _ => ?_
    exact newArray (Policy.value_strings _)
  | values =>
    exact (argument hargs 0).bind fun v _ => (members v).bind fun d hd => newArray hd.values
  | pairs =>
    refine (argument hargs 0).bind fun v _ => (members v).bind fun d hd => ?_
    exact (pairArrays hd).bind fun ps hps => newArray hps
  | merge =>
    refine (argument hargs 0).bind fun v _ => (members v).bind fun a ha => ?_
    refine (argument hargs 1).bind fun w _ => (members w).bind fun b hb => ?_
    exact newObject (ha.putAll hb)

/-! ## Builtins on numbers, time and patterns -/

theorem numberArguments {vs : List Value} (hvs : ∀ v ∈ vs, P.value v) :
    Works P chance files (numberArguments vs) := by
  induction vs with
  | nil => exact pure (List.forall_mem_nil _)
  | cons v vs ih =>
    rw [List.forall_mem_cons] at hvs
    exact (toNumber hvs.1).bind fun _ _ => (ih hvs.2).bind fun _ _ => pure fun _ _ => trivial

theorem randomBetween (hchance : chance) (low high : Float) :
    Works P chance files (randomBetween low high) := by
  refine (byChance hchance World.ignoresDisk_random fun _ => trivial).bind fun r _ => ?_
  dsimp only
  split
  · exact softFault ⟨rfl, nofun⟩
  · split
    · exact softFault ⟨rfl, nofun⟩
    · exact plain trivial

theorem math (f : MathFn) (hargs : ∀ v ∈ args, P.value v) :
    Works P ((Builtin.math f).isChancy = true) files (f.run args) := by
  cases f with
  | abs | round | floor | ceil | sqrt | sin | cos | tan =>
    exact (numberArgument hargs 0).gives fun _ => trivial
  | power =>
    exact (numberArgument hargs 0).bind fun a _ => (numberArgument hargs 1).gives fun _ => trivial
  | min | max => exact (numberArguments hargs).gives fun _ => trivial
  | random => exact (byChance rfl World.ignoresDisk_random fun _ => trivial).gives fun _ => trivial
  | randomBetween =>
    refine (numberArgument hargs 0).bind fun low _ => (numberArgument hargs 1).bind fun high _ => ?_
    exact randomBetween rfl low high

theorem time (f : TimeFn) (hargs : ∀ v ∈ args, P.value v) :
    Works P ((Builtin.time f).isChancy = true) files (f.run args) := by
  cases f with
  | now => exact (byChance rfl World.ignoresDisk_readClock fun _ => trivial).gives fun _ => trivial
  | format =>
    refine (argument hargs 0).bind fun ms hms => (argument hargs 1).bind fun mask hmask => ?_
    exact dateText hms hmask
  | sleep =>
    refine (numberArgument hargs 0).bind fun ms _ => ?_
    exact (wait (zero_le_sleepDelay ms)).gives fun _ => trivial
  | measure =>
    refine (byChance rfl World.ignoresDisk_readClock fun _ => trivial).bind fun start _ => ?_
    refine (argument hargs 0).bind fun f hf => ?_
    refine (invoke hf (List.forall_mem_nil _)).bind fun _ _ => ?_
    exact (byChance rfl World.ignoresDisk_readClock fun _ => trivial).gives fun _ => trivial

theorem pattern (f : PatternFn) (hargs : ∀ v ∈ args, P.value v) :
    Works P chance files (f.run args) := by
  cases f with
  | find =>
    refine (textArgument hargs 1).bind fun p _ => (textArgument hargs 0).bind fun s _ => ?_
    refine (readPattern p).gives fun c => ?_
    cases c.findFirst s <;> trivial
  | findAll =>
    refine (textArgument hargs 1).bind fun p _ => (textArgument hargs 0).bind fun s _ => ?_
    exact (readPattern p).bind fun c _ => newArray (Policy.value_strings _)
  | replace =>
    refine (textArgument hargs 2).bind fun t _ => (textArgument hargs 1).bind fun p _ => ?_
    exact (textArgument hargs 0).bind fun s _ => (readPattern p).gives fun _ => trivial

/-! ## Builtins on codes, the process and files -/

theorem crypto (f : CryptoFn) (hargs : ∀ v ∈ args, P.value v) :
    Works P ((Builtin.crypto f).isChancy = true) files (f.run args) := by
  cases f with
  | uuid => exact (byChance rfl World.ignoresDisk_randomId fun _ => trivial).gives fun _ => trivial
  | encodeBase64 => exact (textArgument hargs 0).gives fun _ => trivial
  | decodeBase64 =>
    refine (textArgument hargs 0).bind fun s _ => ?_
    split
    · exact plain trivial
    · exact softFault ⟨rfl, nofun⟩
  | sha256 =>
    exact (textArgument hargs 0).bind fun s _ => (wait zero_le_worker).gives fun _ => trivial

theorem process (f : ProcessFn) (hargs : ∀ v ∈ args, P.value v) :
    Works P chance files (f.run args) := by
  cases f with
  | arguments => exact config (fun _ _ => rfl) fun c => newArray (Policy.value_strings _)
  | environment =>
    refine (textArgument hargs 0).bind fun name _ => ?_
    refine environment (f := fun env => ((env.lookup name).map Value.str).getD Value.null) ?_
    refine fun env => Policy.Lawful.plain _ ?_
    cases env.lookup name <;> trivial
  | exit => exact (numberArgument hargs 0).bind fun code _ => exit _

theorem diskFailure (verb path : String) (e : DiskError) :
    Works P chance files (diskFailure verb path e : Proc α) :=
  raiseError (by decide) _

theorem readFile (path : String) : Works P chance files (readFile path) := by
  refine afterDisk _ (fun _ => trivial) fun bytes => ?_
  split
  · exact softFault ⟨rfl, nofun⟩
  · split
    · exact diskFailure _ _ _
    · split
      · exact plain trivial
      · exact softFault ⟨rfl, nofun⟩

theorem writeFile (path data : String) :
    Works P chance files (writeFile path data) := by
  refine whenAllowed ?_
  split
  · exact (wait zero_le_worker).bind fun _ _ => softFault ⟨rfl, nofun⟩
  · refine (withFiles fun _ => trivial).bind fun failure _ => ?_
    refine (wait zero_le_worker).bind fun _ _ => ?_
    split
    · exact plain trivial
    · exact diskFailure _ _ _

theorem listDirectory (path : String) : Works P chance files (listDirectory path) := by
  refine afterDisk _ (fun _ => trivial) fun names => ?_
  split
  · exact softFault ⟨rfl, nofun⟩
  · split
    · exact diskFailure _ _ _
    · exact newArray (Policy.value_strings _)

theorem fileInfo (path : String) : Works P chance files (fileInfo path) := by
  refine afterDisk _ (fun _ => trivial) fun found => ?_
  split
  · exact softFault ⟨rfl, nofun⟩
  · split
    · exact diskFailure _ _ _
    · refine (withFiles fun _ => trivial).bind fun clock _ => newObject (.ofList ?_)
      exact Policy.value_entryInfo _ _ _ _

theorem file (f : FileFn) (hargs : ∀ v ∈ args, P.value v) :
    Works P chance files (f.run args) := by
  cases f with
  | «exists» =>
    refine (textArgument hargs 0).bind fun path _ => ?_
    exact afterDisk _ (fun _ => trivial) fun _ => plain trivial
  | read => exact (textArgument hargs 0).bind fun path _ => readFile path
  | write =>
    refine (textArgument hargs 0).bind fun path _ => ?_
    exact (textArgument hargs 1).bind fun data _ => writeFile path data
  | list => exact (textArgument hargs 0).bind fun path _ => listDirectory path
  | info => exact (textArgument hargs 0).bind fun path _ => fileInfo path

/-! ## All builtins -/

theorem builtinRun (b : Builtin) (hargs : ∀ v ∈ args, P.value v) :
    Works P (b.isChancy = true) files (b.run args) := by
  cases b with
  | core f => exact core f hargs
  | text f => exact text f hargs
  | array f => exact array f hargs
  | object f => exact object f hargs
  | math f => exact math f hargs
  | time f => exact time f hargs
  | pattern f => exact pattern f hargs
  | crypto f => exact crypto f hargs
  | process f => exact process f hargs
  | file f => exact file f hargs

end Proc.Abides

namespace Proc.Scopeless

variable {chance : Prop} {files : Bool}

theorem builtinRun (b : Builtin) (args : List Value) :
    Scopeless (b.isChancy = true) files (b.run args) :=
  Abides.builtinRun b fun _ _ => trivial

/-- Taking a result into the language is a change of the heap that may fail. -/
theorem builtinAdopt (v : Value) : Scopeless chance files (Builtin.adopt v) := by
  have hsame : Builtin.adopt v = Proc.onHeap (Heap.adopted v) >>= Proc.ofExcept := by
    funext s
    show _ = Step.bind (.ret (Heap.adopted v s.heap).1 { s with heap := (Heap.adopted v s.heap).2 })
      Proc.ofExcept
    unfold Builtin.adopt Heap.adopted
    cases s.heap.adopt v <;> rfl
  rw [hsame]
  refine (Abides.onHeap (Heap.aloof_adopted v) fun h _ => ⟨trivial, Policy.holds_any _ _⟩).bind ?_
  exact fun r _ => Abides.ofExcept (fun _ _ => trivial) fun _ _ => .inl trivial

end Proc.Scopeless

end Hantec
