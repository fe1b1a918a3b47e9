import Mathlib.Data.List.Basic
import Mathlib.Data.List.Induction
import Hantec.Proofs.Iteration

/-!
# Objects

An object is told by what has been put into it: its keys stand in the order in which they were first
put, and the value of a key is the one that was put last. A journal keeps, for each object, the keys
and values in the order in which they are put; whatever operations are carried out, the objects on
the heap agree with the journal.
-/

namespace Hantec

/-! ## Dictionaries -/

namespace Dict

variable {α : Type} {d : Dict α} {puts : List (String × α)}

/-- The dictionary is what comes of these puts: its keys stand in the order of the first puts, and
each of them has the value of the last one. -/
structure Records (d : Dict α) (puts : List (String × α)) : Prop where
  keys : d.keys = (puts.map Prod.fst).eraseDups
  get? : ∀ k, d.get? k = puts.reverse.lookup k

theorem records_empty : (empty : Dict α).Records [] := ⟨rfl, fun _ => rfl⟩

theorem keys_put (d : Dict α) (k : String) (v : α) :
    (d.put k v).keys = if k ∈ d.keys then d.keys else d.keys ++ [k] :=
  map_fst_putEntry k v d.entries

theorem eraseDups_concat (ks : List String) (k : String) :
    (ks ++ [k]).eraseDups = if k ∈ ks.eraseDups then ks.eraseDups else ks.eraseDups ++ [k] := by
  rw [List.eraseDups_append]
  by_cases hk : k ∈ ks <;> simp [hk, List.removeAll, List.eraseDups_cons]

theorem eraseDups_of_nodup {ks : List String} (h : ks.Nodup) : ks.eraseDups = ks := by
  induction ks with
  | nil => rfl
  | cons k ks ih =>
    obtain ⟨hk, hks⟩ := List.nodup_cons.1 h
    have hrest : ks.filter (fun x => !x == k) = ks := by
      refine List.filter_eq_self.2 fun x hx => ?_
      have hne : x ≠ k := fun hxk => hk (hxk ▸ hx)
      simpa using hne
    rw [List.eraseDups_cons, hrest, ih hks]

theorem eraseDups_filter (p : String → Bool) (ks : List String) :
    (ks.filter p).eraseDups = ks.eraseDups.filter p := by
  induction ks using List.reverseRecOn with
  | nil => rfl
  | append_singleton ks k ih =>
    rw [eraseDups_concat, List.filter_append]
    cases hk : p k with
    | true =>
      rw [List.filter_cons_of_pos hk, List.filter_nil, eraseDups_concat, ih]
      by_cases hmem : k ∈ ks.eraseDups <;> simp [List.mem_filter, hmem, hk]
    | false =>
      have hnone : [k].filter p = [] := by simp [hk]
      rw [hnone, List.append_nil, ih]
      by_cases hmem : k ∈ ks.eraseDups <;> simp [hmem, hk]

theorem Records.put (h : d.Records puts) (k : String) (v : α) :
    (d.put k v).Records (puts ++ [(k, v)]) where
  keys := by rw [keys_put, h.keys, List.map_append, List.map_singleton, eraseDups_concat]
  get? x := by
    rw [get?_put, h.get?, List.reverse_append, List.reverse_singleton, List.singleton_append]
    by_cases hx : x = k
    · rw [if_pos hx, hx, List.lookup_cons_self]
    · rw [if_neg hx, List.lookup_cons, beq_false_of_ne hx]

theorem Records.putAll (h : d.Records puts) (es : List (String × α)) :
    (d.putAll es).Records (puts ++ es) := by
  induction es generalizing d puts with
  | nil =>
    rw [List.append_nil]
    exact h
  | cons e es ih =>
    rw [List.append_cons]
    exact ih (h.put e.1 e.2)

theorem records_ofList (es : List (String × α)) : (ofList es).Records es :=
  records_empty.putAll es

theorem records_entries (d : Dict α) : d.Records d.entries where
  keys := (eraseDups_of_nodup d.nodup).symm
  get? k := by
    have hnodup : (d.entries.reverse.map Prod.fst).Nodup :=
      ((List.reverse_perm d.entries).map Prod.fst).nodup_iff.2 d.nodup
    refine Option.ext fun v => ?_
    rw [get?, lookup_eq_some_iff_mem d.nodup, lookup_eq_some_iff_mem hnodup, List.mem_reverse]

/-- The keys, each with its value, are the entries. -/
theorem filterMap_keys (d : Dict α) :
    (d.keys.filterMap fun k => (d.get? k).map (Prod.mk k)) = d.entries := by
  have hvalue (e : String × α) (he : e ∈ d.entries) : (d.get? e.1).map (Prod.mk e.1) = some e := by
    have hget : d.get? e.1 = some e.2 := (lookup_eq_some_iff_mem d.nodup).2 he
    rw [hget]
    rfl
  rw [keys, List.filterMap_map]
  exact (List.filterMap_congr hvalue).trans List.filterMap_some

theorem Records.eq {b : Dict α} (h : d.Records puts) (hb : b.Records puts) : d = b := by
  have hget : d.get? = b.get? := funext fun k => (h.get? k).trans (hb.get? k).symm
  have hentries : d.entries = b.entries := by
    rw [← d.filterMap_keys, ← b.filterMap_keys, h.keys, hb.keys, hget]
  obtain ⟨es, hes⟩ := d
  cases hentries
  rfl

theorem keys_putAll_entries (a b : Dict α) :
    (a.putAll b.entries).keys = a.keys ++ b.keys.filter (· ∉ a.keys) := by
  have hnew : (b.keys.filter (· ∉ a.keys)).Nodup := b.nodup.filter _
  rw [(a.records_entries.putAll b.entries).keys, List.map_append, List.eraseDups_append,
    eraseDups_of_nodup a.nodup]
  show a.keys ++ (b.keys.removeAll a.keys).eraseDups = _
  rw [← eraseDups_of_nodup hnew]
  simp [List.removeAll]

theorem get?_putAll_entries (a b : Dict α) (k : String) :
    (a.putAll b.entries).get? k = (b.get? k).or (a.get? k) := by
  rw [(a.records_entries.putAll b.entries).get?, List.reverse_append, List.lookup_append,
    ← b.records_entries.get?, ← a.records_entries.get?]

/-- What was put into the second dictionary counts as put after what was put into the first one. -/
theorem Records.merge {b : Dict α} {more : List (String × α)} (h : d.Records puts)
    (hb : b.Records more) : (d.putAll b.entries).Records (puts ++ more) where
  keys := by
    rw [keys_putAll_entries, h.keys, hb.keys, List.map_append, List.eraseDups_append,
      List.removeAll, eraseDups_filter]
    refine congrArg _ (List.filter_congr fun x _ => ?_)
    simp [List.mem_eraseDups]
  get? k := by
    rw [get?_putAll_entries, h.get?, hb.get?, List.reverse_append, List.lookup_append]

theorem ofList_entries (d : Dict α) : ofList d.entries = d :=
  (records_ofList d.entries).eq d.records_entries

end Dict

/-! ## Objects on the heap -/

section Heap

theorem Heap.object_newObject (h : Heap) (dict : Dict Value) (o : Nat) :
    (h.newObject dict).2.object o = if o = h.objects.size then dict else h.object o := by
  simp only [newObject, object, Array.getD_eq_getD_getElem?, Array.getElem?_push]
  split <;> rfl

theorem Heap.object_putMember (h : Heap) {o : Nat} (ho : o < h.objects.size) (k : String)
    (v : Value) (x : Nat) :
    (h.putMember o k v).object x = if x = o then (h.object o).put k v else h.object x := by
  simp only [putMember, object, Array.getD_eq_getD_getElem?, Array.getElem?_modify,
    eq_comm (a := o)]
  split
  case isTrue hx =>
    subst hx
    simp [ho]
  case isFalse => rfl

theorem Heap.object_putMember_of_ne (h : Heap) {o x : Nat} (hx : x ≠ o) (k : String) (v : Value) :
    (h.putMember o k v).object x = h.object x := by
  simp only [putMember, object, Array.getD_eq_getD_getElem?, Array.getElem?_modify,
    if_neg (Ne.symm hx)]

/-- The state with one more object, which has the number of objects that there were. -/
def State.addObject (s : State) (dict : Dict Value) : State :=
  { s with heap := (s.heap.newObject dict).2 }

def State.putMember (s : State) (o : Nat) (k : String) (v : Value) : State :=
  { s with heap := s.heap.putMember o k v }

end Heap

/-! ## The operations -/

section Operations

variable {d : Nat} {s s' : State} {args rest : List Value} {r : Except Failure Value}

theorem Builtin.run_call_of_ret {b : Builtin} {v : Value} (hv : v.IsNative)
    (h : (b.run args).run s = .ret v s') : (b.call args).run s = .ret v s' := by
  rw [Builtin.call, Proc.run_attempt_bind, h]
  cases v with
  | int | tuple | node => cases hv
  | _ => rfl

theorem run_empty (args : List Value) (s : State) :
    (Builtin.call (.object .empty) args).run s =
      .ret (.obj s.heap.objects.size) (s.addObject .empty) := rfl

theorem run_object {es : List (String × Value)} (h : s.heap.pairEntries args = .ok es) :
    (Builtin.call (.core .object) args).run s =
      .ret (.obj s.heap.objects.size) (s.addObject (.ofList es)) := by
  refine Builtin.run_call_of_ret rfl ?_
  show (Proc.ask (·.pairEntries args) >>= fun es => Proc.newObject (.ofList es)).run s = _
  rw [Proc.run_bind, Proc.run_ask s h]
  rfl

theorem run_get {o : Nat} {k v : Value} {key : String} (hk : s.heap.toText k = .ok key)
    (hv : ((s.heap.object o).get? key).getD .null = v) (hnative : v.IsNative) :
    (Builtin.call (.object .get) [.obj o, k]).run s = .ret v s := by
  refine Builtin.run_call_of_ret hnative ?_
  show (Proc.toText k >>= fun k =>
    Proc.ask fun h => .ok (((h.object o).get? k).getD .null)).run s = _
  rw [Proc.run_bind, Proc.toText, Proc.run_ask s hk, ← hv]
  rfl

theorem run_put {o : Nat} {k v : Value} {key : String} (hk : s.heap.toText k = .ok key) :
    ((Builtin.object .put).run [.obj o, k, v]).run s = .ret v (s.putMember o key v) := by
  show (Proc.toText k >>= fun k =>
    Proc.modifyHeap (·.putMember o k v) >>= fun _ => pure v).run s = _
  rw [Proc.run_bind, Proc.toText, Proc.run_ask s hk]
  rfl

theorem run_keys (o : Nat) (rest : List Value) (s : State) :
    (Builtin.call (.object .keys) (.obj o :: rest)).run s =
      .ret (.arr s.heap.arrays.size) (s.addArray ((s.heap.object o).keys.map .str)) := rfl

theorem run_merge (a b : Value) (rest : List Value) (s : State) :
    (Builtin.call (.object .merge) (a :: b :: rest)).run s =
      .ret (.obj s.heap.objects.size)
        (s.addObject ((membersOf s.heap a).putAll (membersOf s.heap b).entries)) := rfl

/-- The state with one more array for each entry, of its key and its value. -/
def State.addPairs (s : State) (es : List (String × Value)) : State :=
  es.foldl (fun s e => s.addArray [.str e.1, e.2]) s

/-- The numbers of the arrays for the entries. -/
def State.pairRows (s : State) (es : List (String × Value)) : List Value :=
  (List.range' s.heap.arrays.size es.length).map .arr

theorem run_pairArrays (es : List (String × Value)) (s : State) :
    (pairArrays es).run s =
      .ret (s.pairRows es) (s.addPairs es) := by
  induction es generalizing s with
  | nil => rfl
  | cons e es ih =>
    show (((pairArrays es).run (s.addArray [.str e.1, e.2])).bind fun rows s' =>
      Step.ret (.arr s.heap.arrays.size :: rows) s') = _
    rw [ih]
    simp [State.addArray, Heap.newArray, State.addPairs, State.pairRows, List.range'_succ]

theorem size_addPairs (s : State) (es : List (String × Value)) :
    (s.addPairs es).heap.arrays.size = s.heap.arrays.size + es.length := by
  induction es generalizing s with
  | nil => rfl
  | cons e es ih =>
    refine (ih (s.addArray [.str e.1, e.2])).trans ?_
    simp [State.addArray, Heap.newArray]
    omega

theorem objects_addPairs (s : State) (es : List (String × Value)) :
    (s.addPairs es).heap.objects = s.heap.objects := by
  induction es generalizing s with
  | nil => rfl
  | cons e es ih => exact ih (s.addArray [.str e.1, e.2])

theorem array_addPairs_of_lt (es : List (String × Value)) {x : Nat}
    (hx : x < s.heap.arrays.size) : (s.addPairs es).heap.array x = s.heap.array x := by
  induction es generalizing s with
  | nil => rfl
  | cons e es ih =>
    have hx' : x < (s.addArray [.str e.1, e.2]).heap.arrays.size := by
      simp [State.addArray, Heap.newArray]
      omega
    refine (ih hx').trans ?_
    rw [State.array_addArray, if_neg (Nat.ne_of_lt hx)]

/-- The keys and values in turn. -/
def alternating (es : List (String × Value)) : List Value := es.flatMap fun e => [.str e.1, e.2]

theorem flatMap_pairRows {h : Heap} (es : List (String × Value))
    (hrows : ∀ x < s.heap.arrays.size + es.length, h.array x = (s.addPairs es).heap.array x) :
    (s.pairRows es).flatMap (flatItem h) = alternating es := by
  induction es generalizing s with
  | nil => rfl
  | cons e es ih =>
    have hsize : (s.addArray [.str e.1, e.2]).heap.arrays.size = s.heap.arrays.size + 1 := by
      simp [State.addArray, Heap.newArray]
    have hfirst : (h.array s.heap.arrays.size).toList = [.str e.1, e.2] := by
      rw [hrows _ (by simp)]
      show (((s.addArray [.str e.1, e.2]).addPairs es).heap.array s.heap.arrays.size).toList = _
      rw [array_addPairs_of_lt es (by omega), State.array_addArray, if_pos rfl]
    have hrest := ih (s := s.addArray [.str e.1, e.2]) fun x hx => hrows x (by simp; omega)
    rw [State.pairRows, hsize] at hrest
    rw [State.pairRows, List.length_cons, List.range'_succ, List.map_cons, List.flatMap_cons, hrest]
    show (h.array s.heap.arrays.size).toList ++ alternating es = _
    rw [hfirst]
    rfl

theorem pairEntries_alternating (h : Heap) (es : List (String × Value)) :
    h.pairEntries (alternating es) = .ok es := by
  induction es with
  | nil => rfl
  | cons e es ih =>
    show (h.pairEntries (alternating es) >>= fun rest => pure ((e.1, e.2) :: rest)) = _
    rw [ih]
    rfl

theorem run_pairs (o : Nat) (rest : List Value) (s : State) :
    (Builtin.call (.object .pairs) (.obj o :: rest)).run s =
      .ret (.arr (s.heap.arrays.size + (s.heap.object o).entries.length))
        ((s.addPairs (s.heap.object o).entries).addArray
          (s.pairRows (s.heap.object o).entries)) := by
  refine Builtin.run_call_of_ret rfl ?_
  show (pairArrays (s.heap.object o).entries >>= Proc.newArray).run s = _
  rw [Proc.run_bind, run_pairArrays, ← size_addPairs]
  rfl

theorem run_flatten (a : Nat) (rest : List Value) (s : State) :
    (Builtin.call (.array .flatten) (.arr a :: rest)).run s =
      .ret (.arr s.heap.arrays.size)
        (s.addArray ((s.heap.array a).toList.flatMap (flatItem s.heap))) := rfl

/-- The keys and values of an object, taken from its pairs, make an object that is like it. -/
theorem exists_copy (o : Nat) (s : State) :
    ∃ p q s₁ s₂ s₃, (Builtin.call (.object .pairs) [.obj o]).run s = .ret (.arr p) s₁ ∧
      (Builtin.call (.array .flatten) [.arr p]).run s₁ = .ret (.arr q) s₂ ∧
      (Builtin.call (.core .object) (s₂.heap.array q).toList).run s₂ =
        .ret (.obj s.heap.objects.size) s₃ ∧
      s₃.heap.object s.heap.objects.size = s.heap.object o := by
  let es := (s.heap.object o).entries
  let s₁ := (s.addPairs es).addArray (s.pairRows es)
  let s₂ := s₁.addArray (alternating es)
  have hp : s₁.heap.array (s.heap.arrays.size + es.length) = (s.pairRows es).toArray := by
    rw [State.array_addArray, if_pos (size_addPairs s es).symm]
  have hflat : (s₁.heap.array (s.heap.arrays.size + es.length)).toList.flatMap (flatItem s₁.heap) =
      alternating es := by
    rw [hp]
    refine flatMap_pairRows es fun x hx => ?_
    rw [State.array_addArray, size_addPairs, if_neg (Nat.ne_of_lt hx)]
  have hq : s₂.heap.array s₁.heap.arrays.size = (alternating es).toArray := by
    rw [State.array_addArray, if_pos rfl]
  have hobjects : s₂.heap.objects = s.heap.objects := objects_addPairs s es
  refine ⟨_, s₁.heap.arrays.size, s₁, s₂, s₂.addObject (.ofList es), run_pairs o [] s, ?_, ?_, ?_⟩
  · rw [run_flatten, hflat]
  · rw [hq, ← hobjects]
    exact run_object (pairEntries_alternating _ es)
  · rw [State.addObject, Heap.object_newObject, hobjects, if_pos rfl, Dict.ofList_entries]

end Operations

/-! ## What operations leave alone -/

namespace Proc

variable {α β : Type} {p : Proc α} {d : Nat} {s s' : State}

/-- The procedure makes no objects and changes none. -/
def SparesObjects (p : Proc α) : Prop :=
  ∀ d s r s', p.Ends d s r s' → s'.heap.objects = s.heap.objects

namespace SparesObjects

theorem pure (a : α) : (pure a : Proc α).SparesObjects := by
  intro d s r s' h
  rw [(ends_pure_iff.1 h).2]

theorem failWith (e : Failure) : (failWith e : Proc α).SparesObjects := by
  intro d s r s' h
  rw [(ends_failWith_iff.1 h).2]

theorem ask (f : Heap → Except Trouble α) : (ask f).SparesObjects := by
  intro d s r s' h
  rw [(ends_ask_iff.1 h).2]

theorem bind (hp : p.SparesObjects) {f : α → Proc β} (hf : ∀ a, (f a).SparesObjects) :
    (p >>= f).SparesObjects := by
  intro d s r s' h
  rcases ends_bind_iff.1 h with ⟨a, s₁, h₁, h₂⟩ | ⟨e, -, h₁⟩
  · rw [hf a d s₁ r s' h₂, hp d s _ s₁ h₁]
  · exact hp d s _ s' h₁

theorem newArray (items : List Value) : (newArray items).SparesObjects := by
  intro d s r s' h
  obtain ⟨-, rfl⟩ := (ends_of_run_ret rfl).1 h
  rfl

theorem argument (args : List Value) (i : Nat) : (argument args i).SparesObjects := by
  unfold Hantec.argument
  split
  · exact .pure _
  · exact .failWith _

theorem members (v : Value) : (members v).SparesObjects := .ask _

theorem onMembers (args : List Value) (i : Nat) {f : Dict Value → Proc α}
    (hf : ∀ dict, (f dict).SparesObjects) :
    (Hantec.argument args i >>= fun v => Hantec.members v >>= f).SparesObjects :=
  (argument args i).bind fun v => (members v).bind hf

theorem twoArguments (args : List Value) : (twoArguments args).SparesObjects := by
  unfold Hantec.twoArguments
  split
  · exact .pure _
  · exact .failWith _
  · exact .failWith _

theorem pairArrays (es : List (String × Value)) : (pairArrays es).SparesObjects := by
  intro d s r s' h
  rw [((ends_of_run_ret (run_pairArrays es s)).1 h).2, objects_addPairs]

theorem adopt (v : Value) : (Builtin.adopt v).SparesObjects := by
  intro d s r s' h
  cases hv : s.heap.adopt v with
  | ok p =>
    have hrun : (Builtin.adopt v).run s = .ret p.1 { s with heap := p.2 } := by
      simp [run, Builtin.adopt, hv]
    rw [((ends_of_run_ret hrun).1 h).2]
    exact (s.heap.kept_of_adopt v p hv).2
  | error f =>
    have hrun : (Builtin.adopt v).run s = .fail (.fault f) s := by simp [run, Builtin.adopt, hv]
    rw [((ends_of_run_fail hrun).1 h).2]

theorem builtinFailWith (b : Builtin) (e : Failure) : (b.failWith e : Proc α).SparesObjects := by
  unfold Builtin.failWith
  split
  · split
    · intro d s r s' h
      rw [((ends_of_run_fail (run_raiseError s _ _)).1 h).2]
    · exact .failWith _
  · exact .failWith _

/-- An object that is made after such a procedure is the only one that is new. -/
theorem bind_newObject (hp : p.SparesObjects) {g : α → Dict Value} {r : Except Failure Value}
    (h : (p >>= fun a => newObject (g a)).Ends d s r s') {x : Nat}
    (hx : x < s.heap.objects.size) : s'.heap.object x = s.heap.object x := by
  rcases ends_bind_iff.1 h with ⟨a, s₁, h₁, h₂⟩ | ⟨e, -, h₁⟩
  · have hobjects := hp d s _ s₁ h₁
    have hs' : s' = s₁.addObject (g a) := ((ends_of_run_ret rfl).1 h₂).2
    rw [hs', State.addObject, Heap.object_newObject, hobjects, if_neg (Nat.ne_of_lt hx),
      Heap.object, hobjects, Heap.object]
  · rw [Heap.object, hp d s _ s' h₁, Heap.object]

end SparesObjects

end Proc

section Frame

variable {d x : Nat} {s s' : State} {args : List Value} {r : Except Failure Value}

/-- Objects are changed by what a builtin does, and not by what becomes of its result. -/
theorem Proc.Ends.exists_run {b : Builtin} (h : (b.call args).Ends d s r s') :
    ∃ r₁ s₁, (b.run args).Ends d s r₁ s₁ ∧ s'.heap.objects = s₁.heap.objects := by
  rcases Builtin.ends_call_iff.1 h with ⟨v, s₁, hrun, hrest⟩ | ⟨e, s₁, hrun, hrest⟩
  · exact ⟨_, s₁, hrun, SparesObjects.adopt v d s₁ r s' hrest⟩
  · exact ⟨_, s₁, hrun, SparesObjects.builtinFailWith b e d s₁ r s' hrest⟩

/-- The objects can be read without a change to any of them. -/
def ObjectFn.OnlyReads (f : ObjectFn) : Prop := f = .get ∨ f = .keys ∨ f = .values ∨ f = .pairs

theorem ObjectFn.OnlyReads.sparesObjects {f : ObjectFn} (hf : f.OnlyReads) (args : List Value) :
    (f.run args).SparesObjects := by
  rcases hf with rfl | rfl | rfl | rfl
  · refine (Proc.SparesObjects.twoArguments args).bind fun p => ?_
    split
    · exact (Proc.SparesObjects.ask _).bind fun _ => .ask _
    · exact .pure _
  · exact .onMembers args 0 fun _ => .newArray _
  · exact .onMembers args 0 fun _ => .newArray _
  · exact .onMembers args 0 fun _ => (Proc.SparesObjects.pairArrays _).bind fun _ => .newArray _

theorem object_of_ends_object (h : (Builtin.call (.core .object) args).Ends d s r s')
    (hx : x < s.heap.objects.size) : s'.heap.object x = s.heap.object x := by
  obtain ⟨r₁, s₁, hrun, hs'⟩ := h.exists_run
  rw [Heap.object, hs']
  exact (Proc.SparesObjects.ask _).bind_newObject hrun hx

def membersOfTwo (args : List Value) : Proc (Dict Value × Dict Value) := do
  let a ← members (← argument args 0)
  let b ← members (← argument args 1)
  return (a, b)

theorem run_merge_eq (args : List Value) :
    ObjectFn.run .merge args =
      membersOfTwo args >>= fun p => Proc.newObject (p.1.putAll p.2.entries) := by
  simp only [membersOfTwo, Proc.bind_assoc]
  rfl

theorem Proc.SparesObjects.membersOfTwo (args : List Value) : (membersOfTwo args).SparesObjects :=
  .onMembers args 0 fun _ => .onMembers args 1 fun _ => .pure _

theorem threeArguments_cases (args : List Value) :
    (∃ a k v, args = [a, k, v]) ∨ ∃ f, threeArguments args = Proc.fault f := by
  unfold threeArguments
  split
  · exact .inl ⟨_, _, _, rfl⟩
  · exact .inr ⟨_, rfl⟩
  · exact .inr ⟨_, rfl⟩

theorem object_of_ends_put (h : (ObjectFn.run .put args).Ends d s r s')
    (hx : args.head? ≠ some (.obj x)) : s'.heap.object x = s.heap.object x := by
  obtain ⟨a, k, v, rfl⟩ | ⟨f, hf⟩ := threeArguments_cases args
  · cases a with
    | obj o =>
      have hne : x ≠ o := fun hxo => hx (hxo ▸ rfl)
      change (Proc.toText k >>= fun key =>
        Proc.modifyHeap (·.putMember o key v) >>= fun _ => pure v).Ends d s r s' at h
      rcases Proc.ends_bind_iff.1 h with ⟨key, s₁, hkey, hrest⟩ | ⟨e, -, hkey⟩
      · rw [((Proc.ends_of_run_ret rfl).1 hrest).2, Heap.object_putMember_of_ne _ hne,
          (Proc.ends_ask_iff.1 hkey).2]
      · rw [(Proc.ends_ask_iff.1 hkey).2]
    | _ => rw [((Proc.ends_of_run_fail rfl).1 h).2]
  · rw [ObjectFn.run, hf] at h
    rw [((Proc.ends_of_run_fail rfl).1 h).2]

/-- An operation changes no object that there is, other than the one that it puts something into. -/
theorem object_of_ends_call {f : ObjectFn} (h : (Builtin.call (.object f) args).Ends d s r s')
    (hx : x < s.heap.objects.size) (hput : f = .put → args.head? ≠ some (.obj x)) :
    s'.heap.object x = s.heap.object x := by
  obtain ⟨r₁, s₁, hrun, hs'⟩ := h.exists_run
  rw [Heap.object, hs']
  show s₁.heap.object x = s.heap.object x
  have hreads (hf : f.OnlyReads) : s₁.heap.object x = s.heap.object x := by
    rw [Heap.object, hf.sparesObjects args d s r₁ s₁ hrun, Heap.object]
  cases f with
  | get => exact hreads (.inl rfl)
  | keys => exact hreads (.inr (.inl rfl))
  | values => exact hreads (.inr (.inr (.inl rfl)))
  | pairs => exact hreads (.inr (.inr (.inr rfl)))
  | empty => exact (Proc.SparesObjects.pure ()).bind_newObject (g := fun _ => .empty) hrun hx
  | merge =>
    rw [Builtin.run, run_merge_eq] at hrun
    exact (Proc.SparesObjects.membersOfTwo args).bind_newObject hrun hx
  | put => exact object_of_ends_put hrun (hput rfl)

end Frame

/-! ## Journals -/

section Journal

/-- What has been put into each object so far. -/
abbrev Journal := Nat → List (String × Value)

namespace Journal

def write (j : Journal) (o : Nat) (puts : List (String × Value)) : Journal :=
  fun x => if x = o then puts else j x

/-- What has been put into a value. -/
def of (j : Journal) : Value → List (String × Value)
  | .obj o => j o
  | _ => []

end Journal

/-- The value that was last put under a key, or null. -/
def lastPut (puts : List (String × Value)) (k : String) : Value :=
  (puts.reverse.lookup k).getD .null

/-- The state can be reached by operations on objects, and by whatever else leaves the objects
alone, with this journal. A new object has the number of objects that there were. -/
inductive Journaled : State → Journal → Prop where
  | start (s : State) : Journaled s fun o => (s.heap.object o).entries
  | empty {d : Nat} {s s' : State} {j : Journal} {args : List Value} {r : Except Failure Value} :
      Journaled s j → (Builtin.call (.object .empty) args).Ends d s r s' →
      Journaled s' (j.write s.heap.objects.size [])
  | object {d : Nat} {s s' : State} {j : Journal} {args : List Value} {es : List (String × Value)}
      {r : Except Failure Value} :
      Journaled s j → s.heap.pairEntries args = .ok es →
      (Builtin.call (.core .object) args).Ends d s r s' →
      Journaled s' (j.write s.heap.objects.size es)
  | put {d o : Nat} {s s' : State} {j : Journal} {k v : Value} {key : String}
      {r : Except Failure Value} :
      Journaled s j → o < s.heap.objects.size → s.heap.toText k = .ok key →
      (Builtin.call (.object .put) [.obj o, k, v]).Ends d s r s' →
      Journaled s' (j.write o (j o ++ [(key, v)]))
  | merge {d : Nat} {s s' : State} {j : Journal} {a b : Value} {rest : List Value}
      {r : Except Failure Value} :
      Journaled s j → (Builtin.call (.object .merge) (a :: b :: rest)).Ends d s r s' →
      Journaled s' (j.write s.heap.objects.size (j.of a ++ j.of b))
  | other {s s' : State} {j : Journal} :
      Journaled s j → s'.heap.objects = s.heap.objects → Journaled s' j

variable {s s' : State} {j : Journal}

def State.Agrees (s : State) (j : Journal) : Prop := ∀ o, (s.heap.object o).Records (j o)

theorem State.Agrees.addObject (h : s.Agrees j) {dict : Dict Value} {puts : List (String × Value)}
    (hdict : dict.Records puts) : (s.addObject dict).Agrees (j.write s.heap.objects.size puts) := by
  intro o
  rw [State.addObject, Heap.object_newObject, Journal.write]
  split
  · exact hdict
  · exact h o

theorem State.Agrees.putMember (h : s.Agrees j) {o : Nat} (ho : o < s.heap.objects.size)
    (k : String) (v : Value) : (s.putMember o k v).Agrees (j.write o (j o ++ [(k, v)])) := by
  intro x
  rw [State.putMember, Heap.object_putMember _ ho, Journal.write]
  split
  · exact (h o).put k v
  · exact h x

theorem State.Agrees.of_objects (h : s.Agrees j) (hs : s'.heap.objects = s.heap.objects) :
    s'.Agrees j := by
  intro o
  rw [Heap.object, hs]
  exact h o

theorem State.Agrees.membersOf (h : s.Agrees j) (v : Value) :
    (membersOf s.heap v).Records (j.of v) := by
  cases v with
  | obj o => exact h o
  | _ => exact Dict.records_empty

theorem Journaled.agrees (h : Journaled s j) : s.Agrees j := by
  induction h with
  | start s => exact fun o => (s.heap.object o).records_entries
  | empty _ hcall ih =>
    obtain ⟨-, rfl⟩ := (Proc.ends_of_run_ret (run_empty _ _)).1 hcall
    exact ih.addObject Dict.records_empty
  | object _ hes hcall ih =>
    obtain ⟨-, rfl⟩ := (Proc.ends_of_run_ret (run_object hes)).1 hcall
    exact ih.addObject (Dict.records_ofList _)
  | put _ ho hk hcall ih =>
    obtain ⟨r₁, s₁, hrun, hs'⟩ := hcall.exists_run
    obtain ⟨-, rfl⟩ := (Proc.ends_of_run_ret (run_put hk)).1 hrun
    exact (ih.putMember ho _ _).of_objects hs'
  | merge _ hcall ih =>
    obtain ⟨-, rfl⟩ := (Proc.ends_of_run_ret (run_merge _ _ _ _)).1 hcall
    exact ih.addObject ((ih.membersOf _).merge (ih.membersOf _))
  | other _ hs ih => exact ih.of_objects hs

/-- Objects are what was put into them. The keys stand in the order of the first puts, and a key has
the value that was last put under its text. Keys, values and pairs are listed in that order, and the
pairs of an object make an object that is like it. Two objects are merged into a new one, with the
keys of the first one in front and the values of the second one where it has them. No operation
changes an object that there is, except for the one that something is put into. -/
theorem objects_are_insertion_ordered (h : Journaled s j) :
    (∀ o, (s.heap.object o).keys.Nodup ∧
      (s.heap.object o).keys = ((j o).map Prod.fst).eraseDups) ∧
    (∀ o k key, s.heap.toText k = .ok key → (lastPut (j o) key).IsNative →
      (Builtin.call (.object .get) [.obj o, k]).run s = .ret (lastPut (j o) key) s) ∧
    (∀ o name, (member (.obj o) name).run s = .ret (lastPut (j o) name) s) ∧
    (∀ o rest,
      (Builtin.call (.object .keys) (.obj o :: rest)).run s =
        .ret (.arr s.heap.arrays.size)
          (s.addArray ((s.heap.object o).entries.map fun e => .str e.1)) ∧
      (Builtin.call (.object .values) (.obj o :: rest)).run s =
        .ret (.arr s.heap.arrays.size) (s.addArray ((s.heap.object o).entries.map fun e => e.2)) ∧
      (Builtin.call (.object .pairs) (.obj o :: rest)).run s =
        .ret (.arr (s.heap.arrays.size + (s.heap.object o).entries.length))
          ((s.addPairs (s.heap.object o).entries).addArray
            (s.pairRows (s.heap.object o).entries))) ∧
    (∀ o, ∃ p q s₁ s₂ s₃, (Builtin.call (.object .pairs) [.obj o]).run s = .ret (.arr p) s₁ ∧
      (Builtin.call (.array .flatten) [.arr p]).run s₁ = .ret (.arr q) s₂ ∧
      (Builtin.call (.core .object) (s₂.heap.array q).toList).run s₂ =
        .ret (.obj s.heap.objects.size) s₃ ∧
      s₃.heap.object s.heap.objects.size = s.heap.object o) ∧
    (∀ a b rest, ∃ dict, (Builtin.call (.object .merge) (.obj a :: .obj b :: rest)).run s =
        .ret (.obj s.heap.objects.size) (s.addObject dict) ∧
      dict.keys = (s.heap.object a).keys ++
        (s.heap.object b).keys.filter (· ∉ (s.heap.object a).keys) ∧
      ∀ k, dict.get? k = ((s.heap.object b).get? k).or ((s.heap.object a).get? k)) ∧
    (∀ d args r s', (Builtin.call (.core .object) args).Ends d s r s' →
      ∀ x < s.heap.objects.size, s'.heap.object x = s.heap.object x) ∧
    (∀ d f args r s', (Builtin.call (.object f) args).Ends d s r s' →
      (f.OnlyReads → s'.heap.objects = s.heap.objects) ∧
      ∀ x < s.heap.objects.size, (f = .put → args.head? ≠ some (.obj x)) →
        s'.heap.object x = s.heap.object x) := by
  have hget (o : Nat) (k : String) : ((s.heap.object o).get? k).getD .null = lastPut (j o) k := by
    rw [(h.agrees o).get?, lastPut]
  refine ⟨fun o => ⟨(s.heap.object o).nodup, (h.agrees o).keys⟩,
    fun o k key hk hnative => run_get hk (hget o key) hnative, fun o name => ?_, fun o rest => ?_,
    fun o => exists_copy o s, fun a b rest => ?_, fun d args r s' hend x hx => ?_,
    fun d f args r s' hend => ⟨fun hf => ?_, fun x hx hput => object_of_ends_call hend hx hput⟩⟩
  · rw [← hget]
    rfl
  · refine ⟨?_, rfl, run_pairs o rest s⟩
    rw [run_keys, Dict.keys, List.map_map]
    rfl
  · exact ⟨_, run_merge (.obj a) (.obj b) rest s, Dict.keys_putAll_entries _ _,
      Dict.get?_putAll_entries _ _⟩
  · exact object_of_ends_object hend hx
  · obtain ⟨r₁, s₁, hrun, hs'⟩ := hend.exists_run
    rw [hs', hf.sparesObjects args d s r₁ s₁ hrun]

theorem Journaled.putNative (h : Journaled s j) (o : Nat) (k v : Value) (key : String)
    (ho : o < s.heap.objects.size) (hk : s.heap.toText k = .ok key) (hv : v.IsNative) :
    Journaled (s.putMember o key v) (j.write o (j o ++ [(key, v)])) :=
  .put (d := 0) h ho hk
    ((Proc.ends_of_run_ret (Builtin.run_call_of_ret hv (run_put hk))).2 ⟨rfl, rfl⟩)

/-- The number 1 and the text "1" are the same key, which keeps its place in front of the other. -/
theorem objects_are_insertion_ordered_collision :
    ∃ s j, Journaled s j ∧ (s.heap.object 0).keys = ["1", "b"] ∧
      (Builtin.call (.object .get) [.obj 0, .num 1]).run s = .ret (.bool true) s := by
  let s₀ := popping.addObject .empty
  have h₀ : Journaled s₀ _ :=
    .empty (d := 0) (.start popping) ((Proc.ends_of_run_ret (run_empty [] _)).2 ⟨rfl, rfl⟩)
  have h₁ := h₀.putNative 0 (.num 1) (.str "a") "1" (by decide) (by rfl) rfl
  have h₂ := h₁.putNative 0 (.str "b") .null "b" (by decide) rfl rfl
  have h₃ := h₂.putNative 0 (.str "1") (.bool true) "1" (by decide) rfl rfl
  obtain ⟨hkeys, hget, -⟩ := objects_are_insertion_ordered h₃
  refine ⟨_, _, h₃, (hkeys 0).2.trans ?_, (hget 0 (.num 1) "1" (by rfl) ?_).trans ?_⟩
  · decide
  · rfl
  · rfl

end Journal

end Hantec
