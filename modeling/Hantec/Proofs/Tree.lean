import Hantec.Dict
import Hantec.Proofs.Results
import Hantec.Tree.Json

/-!
# Node trees and their JSON values

Reading a JSON value as a tree and writing the tree again normalises the value: keys that no field
has are dropped, a missing line is filled in, and whole numbers in literals become numbers of the
language. A value in this form is read back as it was. Reading fails exactly at objects that are no
nodes.
-/

namespace Hantec

namespace NodeKind

theorem ofName?_name (k : NodeKind) : ofName? k.name = some k := by
  cases k <;> rfl

theorem name_of_ofName? {k : NodeKind} {s : String} (h : ofName? s = some k) : k.name = s := by
  simpa using List.find?_some h

theorem nodup_fields (k : NodeKind) : ("type" :: k.fields).Nodup := by
  cases k <;> decide

end NodeKind

/-! ## Normal forms -/

/-- The trees whose nodes have all their fields, and in which no literal is a whole number. -/
inductive Tree.Normal : Tree → Prop where
  | null : Normal .null
  | bool (b : Bool) : Normal (.bool b)
  | int (i : Int) : Normal (.int i)
  | num (x : Float) : Normal (.num x)
  | str (s : String) : Normal (.str s)
  | list {ts : List Tree} : (∀ t ∈ ts, Normal t) → Normal (.list ts)
  | node {k : NodeKind} {ts : List Tree} : ts.length = k.fields.length →
      (∀ i, k = .literal → ts ≠ [.int i]) → (∀ t ∈ ts, Normal t) → Normal (.node k ts)

namespace Json

mutual

/-- The second value is the first one in its normal form. An object of a known kind has the fields
of this kind and no others. -/
inductive Normalises : Json → Json → Prop where
  | null : Normalises .null .null
  | bool (b : Bool) : Normalises (.bool b) (.bool b)
  | int (i : Int) : Normalises (.int i) (.int i)
  | num (x : Float) : Normalises (.num x) (.num x)
  | str (s : String) : Normalises (.str s) (.str s)
  | arr {js js' : List Json} : List.Forall₂ Normalises js js' → Normalises (.arr js) (.arr js')
  | obj {es fs : List (String × Json)} {k : NodeKind} :
      es.lookup "type" = some (.str k.name) → fs.map Prod.fst = k.fields →
      (∀ e ∈ fs, Fills es k e.1 e.2) → Normalises (.obj es) (.obj (("type", .str k.name) :: fs))

/-- A field of an object keeps its value in normal form, except for a whole number in a literal.
Only a line can be missing. -/
inductive Fills : List (String × Json) → NodeKind → String → Json → Prop where
  | value {es : List (String × Json)} {k : NodeKind} {f : String} {j j' : Json} :
      es.lookup f = some j → (∀ i, k = .literal → j ≠ .int i) → Normalises j j' → Fills es k f j'
  | whole {es : List (String × Json)} {f : String} {i : Int} :
      es.lookup f = some (.int i) → i.natAbs < Number.tooLarge →
      Fills es .literal f (.num (Float.ofInt i))
  | line {es : List (String × Json)} {k : NodeKind} :
      es.lookup "line" = none → Fills es k "line" (.int 0)

end

/-- The values that are visited when a value is read: the items of lists, and the fields of objects
of a known kind. -/
inductive Visits : Json → Json → Prop where
  | refl (j : Json) : Visits j j
  | item {js : List Json} {j j' : Json} : j ∈ js → Visits j j' → Visits (.arr js) j'
  | field {es : List (String × Json)} {k : NodeKind} {f : String} {j j' : Json} :
      es.lookup "type" = some (.str k.name) → f ∈ k.fields → es.lookup f = some j →
      Visits j j' → Visits (.obj es) j'

/-- The entries of an object that is no node: it has no known kind, lacks a field other than the
line, or is a literal that is too large. -/
def Faulty (es : List (String × Json)) : Prop :=
  (∀ k : NodeKind, es.lookup "type" ≠ some (.str k.name)) ∨
  ∃ k : NodeKind, es.lookup "type" = some (.str k.name) ∧
    ((∃ f ∈ k.fields, f ≠ "line" ∧ es.lookup f = none) ∨
      k = .literal ∧ ∃ i, es.lookup "value" = some (.int i) ∧ Number.tooLarge ≤ i.natAbs)

theorem induction {P : Json → Prop} (null : P .null) (bool : ∀ b, P (.bool b))
    (int : ∀ i, P (.int i)) (num : ∀ x, P (.num x)) (str : ∀ s, P (.str s))
    (arr : ∀ js, (∀ j ∈ js, P j) → P (.arr js)) (obj : ∀ es, (∀ e ∈ es, P e.2) → P (.obj es)) :
    ∀ j, P j :=
  Json.rec null bool int num str arr obj (fun _ h => absurd h List.not_mem_nil)
    (fun _ _ hj hjs => List.forall_mem_cons.2 ⟨hj, hjs⟩) (fun _ h => absurd h List.not_mem_nil)
    (fun _ _ he hes => List.forall_mem_cons.2 ⟨he, hes⟩) (fun _ _ hj => hj)

end Json

/-! ## Reading -/

section Reading

variable {es : List (String × Json)} {k : NodeKind} {f : String} {j : Json} {t : Tree}
  {ts : List Tree}

theorem mem_of_lookup (h : es.lookup f = some j) : (f, j) ∈ es := by
  obtain ⟨front, back, rfl, -⟩ := List.lookup_eq_some_iff.1 h
  simp

theorem nodeKind_eq_ok_iff : nodeKind es = .ok k ↔ es.lookup "type" = some (.str k.name) := by
  constructor
  · intro h
    unfold nodeKind at h
    split at h
    case h_6 s hs =>
      cases hk : NodeKind.ofName? s with
      | some k' =>
        rw [hk] at h
        cases h
        rw [hs, NodeKind.name_of_ofName? hk]
      | none =>
        rw [hk] at h
        cases h
    all_goals cases h
  · intro h
    simp only [nodeKind, h, k.ofName?_name]

namespace Tree

theorem toItems_eq_map (ts : List Tree) : toItems ts = ts.map toJson := by
  induction ts with
  | nil => rfl
  | cons t ts ih => rw [toItems, ih, List.map_cons]

theorem ofItems_eq_mapM (js : List Json) : ofItems js = js.mapM ofJson := by
  induction js with
  | nil => rfl
  | cons j js ih => rw [ofItems, ih, List.mapM_cons]

theorem ofField_eq_lookup (f : String) (es : List (String × Json)) :
    ofField f es = (es.lookup f).map ofJson := by
  induction es with
  | nil => rfl
  | cons e es ih =>
    obtain ⟨k, j⟩ := e
    rw [ofField, List.lookup_cons]
    by_cases h : k = f
    · simp [h]
    · rw [if_neg h, ih, beq_false_of_ne (Ne.symm h)]

/-- The value of a field of a node that is read from an object. -/
def readField (k : NodeKind) (es : List (String × Json)) (f : String) : Except TreeError Tree :=
  match ofField f es with
  | some t => t
  | none => if f = "line" then .ok (.int 0) else .error (.missingField k f)

theorem readField_eq_ok_iff : readField k es f = .ok t ↔
    (∃ j, es.lookup f = some j ∧ ofJson j = .ok t) ∨
      es.lookup f = none ∧ f = "line" ∧ t = .int 0 := by
  rw [readField, ofField_eq_lookup]
  cases es.lookup f with
  | some j => simp
  | none =>
    by_cases h : f = "line"
    · simp [h, eq_comm]
    · simp [h]

theorem normalNode_eq (h : ∀ i, k = .literal → ts ≠ [.int i]) :
    normalNode k ts = .ok (.node k ts) := by
  unfold normalNode
  split
  · exact absurd rfl (h _ rfl)
  · rfl

theorem normalNode_int {i : Int} : normalNode .literal [.int i] = .ok t ↔
    i.natAbs < Number.tooLarge ∧ t = .node .literal [.num (Float.ofInt i)] := by
  unfold normalNode
  dsimp only
  by_cases h : i.natAbs < Number.tooLarge
  · have hi : Number.ofInt? i = some (Float.ofInt i) := if_pos h
    rw [hi]
    exact ⟨fun heq => ⟨h, (Except.ok.inj heq).symm⟩, fun heq => heq.2 ▸ rfl⟩
  · have hi : Number.ofInt? i = none := if_neg h
    rw [hi]
    constructor
    · rintro ⟨⟩
    · exact fun heq => absurd heq.1 h

theorem normalNode_cases (h : normalNode k ts = .ok t) :
    ((∀ i, k = .literal → ts ≠ [.int i]) ∧ t = .node k ts) ∨
    ∃ i, k = .literal ∧ ts = [.int i] ∧ i.natAbs < Number.tooLarge ∧
      t = .node .literal [.num (Float.ofInt i)] := by
  by_cases hint : ∃ i, k = .literal ∧ ts = [.int i]
  · obtain ⟨i, rfl, rfl⟩ := hint
    exact .inr ⟨i, rfl, rfl, normalNode_int.1 h⟩
  · have hkept : ∀ i, k = .literal → ts ≠ [.int i] := fun i hk h => hint ⟨i, hk, h⟩
    rw [normalNode_eq hkept] at h
    exact .inl ⟨hkept, (Except.ok.inj h).symm⟩

theorem ofJson_arr_eq_ok_iff {js : List Json} : ofJson (.arr js) = .ok t ↔
    ∃ ts, List.Forall₂ (fun j u => ofJson j = .ok u) js ts ∧ t = .list ts := by
  rw [ofJson, ofItems_eq_mapM, bind_eq_ok]
  refine exists_congr fun ts => and_congr mapM_eq_ok_iff ?_
  exact ⟨fun h => (Except.ok.inj h).symm, fun h => h ▸ rfl⟩

theorem ofJson_obj_eq_ok_iff : ofJson (.obj es) = .ok t ↔
    ∃ k, es.lookup "type" = some (.str k.name) ∧ ∃ ts,
      List.Forall₂ (fun f u => readField k es f = .ok u) k.fields ts ∧ normalNode k ts = .ok t := by
  have hobj : ofJson (.obj es) =
      (nodeKind es >>= fun k => k.fields.mapM (readField k es) >>= normalNode k) := by
    rw [ofJson]
    rfl
  simp only [hobj, bind_eq_ok, nodeKind_eq_ok_iff, mapM_eq_ok_iff]

/-- Nothing but a whole number is read as one. -/
theorem eq_int_of_ofJson {i : Int} (h : ofJson j = .ok (.int i)) : j = .int i := by
  cases j with
  | int =>
    cases h
    rfl
  | null | bool | num | str => cases h
  | arr js =>
    obtain ⟨ts, -, hts⟩ := ofJson_arr_eq_ok_iff.1 h
    cases hts
  | obj es =>
    obtain ⟨k, -, ts, -, hnode⟩ := ofJson_obj_eq_ok_iff.1 h
    obtain ⟨-, ht⟩ | ⟨i, -, -, -, ht⟩ := normalNode_cases hnode <;> cases ht

theorem lookup_of_readField {i : Int} (h : readField k es "value" = .ok (.int i)) :
    es.lookup "value" = some (.int i) := by
  obtain ⟨j, hj, hi⟩ | ⟨-, hline, -⟩ := readField_eq_ok_iff.1 h
  · rw [hj, eq_int_of_ofJson hi]
  · exact absurd hline (by simp)

/-! ## Normal trees are read back -/

theorem nodup_keys (hlen : ts.length = k.fields.length) :
    ((("type", Json.str k.name) :: k.fields.zip (toItems ts)).map Prod.fst).Nodup := by
  rw [List.map_cons, List.map_fst_zip (by simp [toItems_eq_map, hlen])]
  exact k.nodup_fields

theorem Normal.ofJson_toJson (h : t.Normal) : ofJson t.toJson = .ok t := by
  induction h with
  | null | bool | int | num | str => rfl
  | @list ts _ ih =>
    rw [toJson, toItems_eq_map]
    refine ofJson_arr_eq_ok_iff.2 ⟨ts, List.forall₂_map_left_iff.2 ?_, rfl⟩
    exact List.forall₂_same.2 ih
  | @node k ts hlen hliteral _ ih =>
    refine ofJson_obj_eq_ok_iff.2 ⟨k, rfl, ts, ?_, normalNode_eq hliteral⟩
    refine List.forall₂_iff_zip.2 ⟨hlen.symm, fun {f u} hu => readField_eq_ok_iff.2 (.inl ?_)⟩
    have hjson : (f, u.toJson) ∈ k.fields.zip (toItems ts) := by
      rw [toItems_eq_map, List.zip_map_right]
      exact List.mem_map_of_mem hu
    refine ⟨u.toJson, ?_, ih u (List.of_mem_zip hu).2⟩
    exact (lookup_eq_some_iff_mem (nodup_keys hlen)).2 (List.mem_cons_of_mem _ hjson)

/-! ## What is read is normal -/

/-- A field that is read is normal, and it fills its place, unless it is a whole number in a
literal. -/
theorem fills_of_readField
    (ih : ∀ e ∈ es, ∀ t, ofJson e.2 = .ok t → t.Normal ∧ e.2.Normalises t.toJson)
    (h : readField k es f = .ok t) :
    t.Normal ∧ ((∀ i, k = .literal → t ≠ .int i) → Json.Fills es k f t.toJson) := by
  obtain ⟨j, hj, hread⟩ | ⟨hnone, rfl, rfl⟩ := readField_eq_ok_iff.1 h
  · obtain ⟨hnormal, hform⟩ := ih _ (mem_of_lookup hj) t hread
    refine ⟨hnormal, fun hint => .value hj (fun i hk hi => hint i hk ?_) hform⟩
    subst hi
    cases hread
    rfl
  · exact ⟨.int 0, fun _ => .line hnone⟩

theorem forall_mem_of_forall₂ {α β : Type} {P : β → Prop} {xs : List α} {ys : List β}
    (h : List.Forall₂ (fun _ y => P y) xs ys) : ∀ y ∈ ys, P y := by
  induction h with
  | nil => exact List.forall_mem_nil P
  | cons hy _ ih => exact List.forall_mem_cons.2 ⟨hy, ih⟩

theorem normal_of_ofJson (o : Json) (t : Tree) (h : ofJson o = .ok t) :
    t.Normal ∧ o.Normalises t.toJson := by
  induction o using Json.induction generalizing t with
  | null =>
    cases h
    exact ⟨.null, .null⟩
  | bool b =>
    cases h
    exact ⟨.bool b, .bool b⟩
  | int i =>
    cases h
    exact ⟨.int i, .int i⟩
  | num x =>
    cases h
    exact ⟨.num x, .num x⟩
  | str s =>
    cases h
    exact ⟨.str s, .str s⟩
  | arr js ih =>
    obtain ⟨ts, hts, rfl⟩ := ofJson_arr_eq_ok_iff.1 h
    have hread := ((List.forall₂_and_left js ts).2 ⟨ih, hts⟩).imp fun _ u h => h.1 u h.2
    refine ⟨.list (forall_mem_of_forall₂ (hread.imp fun _ _ h => h.1)), ?_⟩
    rw [toJson, toItems_eq_map]
    exact .arr (List.forall₂_map_right_iff.2 (hread.imp fun _ _ h => h.2))
  | obj es ih =>
    obtain ⟨k, htype, ts, hts, hnode⟩ := ofJson_obj_eq_ok_iff.1 h
    obtain ⟨hkept, rfl⟩ | ⟨i, rfl, rfl, hi, rfl⟩ := normalNode_cases hnode
    · have hread := hts.imp fun _ _ hf => fills_of_readField ih hf
      have hlen := hts.length_eq.symm
      refine ⟨.node hlen hkept (forall_mem_of_forall₂ (hread.imp fun _ _ h => h.1)), ?_⟩
      rw [toJson, toItems_eq_map]
      refine .obj htype (List.map_fst_zip (by simp [hlen])) ?_
      rw [List.zip_map_right, List.forall_mem_map]
      refine fun p hp => (List.forall₂_zip hread hp).2 ?_
      rintro i rfl hi
      obtain ⟨u, rfl⟩ := List.length_eq_one_iff.1 hlen
      exact hkept i rfl (by rw [← hi, List.mem_singleton.1 (List.of_mem_zip hp).2])
    · have hvalue := lookup_of_readField (List.forall₂_cons.1 hts).1
      refine ⟨.node rfl (by simp) (by simp [Normal.num]), ?_⟩
      exact .obj htype rfl (List.forall_mem_singleton.2 (.whole hvalue hi))

/-! ## What cannot be read -/

theorem exists_fields (htype : es.lookup "type" = some (.str k.name))
    (h : ofJson (.obj es) = .ok t) :
    ∃ ts, List.Forall₂ (fun f u => readField k es f = .ok u) k.fields ts ∧
      normalNode k ts = .ok t := by
  obtain ⟨k', htype', hts⟩ := ofJson_obj_eq_ok_iff.1 h
  rw [← nodeKind_eq_ok_iff] at htype htype'
  cases htype.symm.trans htype'
  exact hts

/-- A field of a node is there, or it is the line. -/
theorem exists_of_mem_fields (htype : es.lookup "type" = some (.str k.name))
    (h : ofJson (.obj es) = .ok t) (hf : f ∈ k.fields) :
    (∃ j, es.lookup f = some j ∧ ∃ u, ofJson j = .ok u) ∨ es.lookup f = none ∧ f = "line" := by
  obtain ⟨ts, hts, -⟩ := exists_fields htype h
  obtain ⟨u, hu⟩ := exists_mapM_eq_ok_iff.1 ⟨ts, mapM_eq_ok_iff.2 hts⟩ f hf
  obtain ⟨j, hj, hu⟩ | ⟨hnone, hline, -⟩ := readField_eq_ok_iff.1 hu
  · exact .inl ⟨j, hj, u, hu⟩
  · exact .inr ⟨hnone, hline⟩

/-- If a value is read, so is what is visited in it. -/
theorem exists_ok_of_visits {o : Json} (h : o.Visits j) (ho : ∃ t, ofJson o = .ok t) :
    ∃ t, ofJson j = .ok t := by
  induction h with
  | refl => exact ho
  | item hj _ ih =>
    obtain ⟨t, ht⟩ := ho
    obtain ⟨ts, hts, -⟩ := ofJson_arr_eq_ok_iff.1 ht
    exact ih (exists_mapM_eq_ok_iff.1 ⟨ts, mapM_eq_ok_iff.2 hts⟩ _ hj)
  | field htype hf hj _ ih =>
    obtain ⟨t, ht⟩ := ho
    obtain ⟨j', hj', hread⟩ | ⟨hnone, -⟩ := exists_of_mem_fields htype ht hf
    · cases hj.symm.trans hj'
      exact ih hread
    · cases hj.symm.trans hnone

theorem not_faulty_of_ofJson (h : ofJson (.obj es) = .ok t) : ¬ Json.Faulty es := by
  rintro (hkind | ⟨k, htype, ⟨f, hf, hline, hnone⟩ | ⟨rfl, i, hvalue, hi⟩⟩)
  · obtain ⟨k, htype, -⟩ := ofJson_obj_eq_ok_iff.1 h
    exact hkind k htype
  · obtain ⟨j, hj, -⟩ | ⟨-, heq⟩ := exists_of_mem_fields htype h hf
    · cases hj.symm.trans hnone
    · exact hline heq
  · obtain ⟨ts, hts, hnode⟩ := exists_fields htype h
    have hread : readField .literal es "value" = .ok (.int i) :=
      readField_eq_ok_iff.2 (.inl ⟨_, hvalue, rfl⟩)
    have hint : NodeKind.literal.fields.mapM (readField .literal es) = .ok [.int i] :=
      mapM_eq_ok_iff.2 (.cons hread .nil)
    cases hint.symm.trans (mapM_eq_ok_iff.2 hts)
    exact absurd (normalNode_int.1 hnode).1 (Nat.not_lt.2 hi)

/-- A node is made of its fields, unless it is a literal that is too large. -/
theorem exists_normalNode (htype : es.lookup "type" = some (.str k.name))
    (hes : ¬ Json.Faulty es)
    (hts : List.Forall₂ (fun f u => readField k es f = .ok u) k.fields ts) :
    ∃ t, normalNode k ts = .ok t := by
  by_cases hint : ∃ i, k = .literal ∧ ts = [.int i]
  · obtain ⟨i, rfl, rfl⟩ := hint
    have hvalue := lookup_of_readField (List.forall₂_cons.1 hts).1
    have hi : i.natAbs < Number.tooLarge := Nat.lt_of_not_le fun hi =>
      hes (.inr ⟨.literal, htype, .inr ⟨rfl, i, hvalue, hi⟩⟩)
    exact ⟨_, normalNode_int.2 ⟨hi, rfl⟩⟩
  · exact ⟨_, normalNode_eq fun i hk hi => hint ⟨i, hk, hi⟩⟩

theorem exists_ok_of_not_faulty (o : Json) (h : ∀ es, o.Visits (.obj es) → ¬ Json.Faulty es) :
    ∃ t, ofJson o = .ok t := by
  induction o using Json.induction with
  | null | bool | int | num | str => exact ⟨_, rfl⟩
  | arr js ih =>
    obtain ⟨ts, hts⟩ := exists_mapM_eq_ok_iff.2 fun j hj =>
      ih j hj fun es hes => h es (.item hj hes)
    exact ⟨.list ts, ofJson_arr_eq_ok_iff.2 ⟨ts, mapM_eq_ok_iff.1 hts, rfl⟩⟩
  | obj es ih =>
    have hes := h es (.refl _)
    obtain ⟨k, htype⟩ : ∃ k : NodeKind, es.lookup "type" = some (.str k.name) :=
      Classical.byContradiction fun hnone => hes (.inl fun k hk => hnone ⟨k, hk⟩)
    have hfields : ∀ f ∈ k.fields, ∃ u, readField k es f = .ok u := by
      intro f hf
      cases hj : es.lookup f with
      | some j =>
        obtain ⟨u, hu⟩ := ih _ (mem_of_lookup hj) fun es' hes' =>
          h es' (.field htype hf hj hes')
        exact ⟨u, readField_eq_ok_iff.2 (.inl ⟨j, hj, hu⟩)⟩
      | none =>
        have hline : f = "line" := Classical.byContradiction fun hne =>
          hes (.inr ⟨k, htype, .inl ⟨f, hf, hne, hj⟩⟩)
        exact ⟨.int 0, readField_eq_ok_iff.2 (.inr ⟨hj, hline, rfl⟩)⟩
    obtain ⟨ts, hts⟩ := exists_mapM_eq_ok_iff.2 hfields
    rw [mapM_eq_ok_iff] at hts
    obtain ⟨t, ht⟩ := exists_normalNode htype hes hts
    exact ⟨t, ofJson_obj_eq_ok_iff.2 ⟨k, htype, ts, hts, ht⟩⟩

end Tree

end Reading

/-- Reading and writing trees normalises JSON values. A normal tree is read back from its value.
What is read from any value is a normal tree, and its value is the normal form of the first. Reading
fails exactly if an object that is visited is no node. -/
theorem Tree.tree_reading_normalises :
    (∀ t : Tree, t.Normal → ofJson t.toJson = .ok t) ∧
    (∀ o t, ofJson o = .ok t → t.Normal ∧ ofJson t.toJson = .ok t ∧ o.Normalises t.toJson) ∧
    ∀ o, (∃ e, ofJson o = .error e) ↔ ∃ es, o.Visits (.obj es) ∧ Json.Faulty es := by
  refine ⟨fun t ht => ht.ofJson_toJson, fun o t ho => ?_, fun o => ⟨fun ⟨e, he⟩ => ?_, ?_⟩⟩
  · obtain ⟨hnormal, hform⟩ := normal_of_ofJson o t ho
    exact ⟨hnormal, hnormal.ofJson_toJson, hform⟩
  · refine Classical.byContradiction fun hnone => ?_
    obtain ⟨t, ht⟩ := exists_ok_of_not_faulty o fun es hes hfaulty => hnone ⟨es, hes, hfaulty⟩
    cases he.symm.trans ht
  · rintro ⟨es, hvisits, hfaulty⟩
    cases ho : ofJson o with
    | error e => exact ⟨e, rfl⟩
    | ok t =>
      obtain ⟨u, hu⟩ := exists_ok_of_visits hvisits ⟨t, ho⟩
      exact absurd hfaulty (not_faulty_of_ofJson hu)

end Hantec
