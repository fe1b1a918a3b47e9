import Hantec.Path

/-!
# Names at the end of paths

A path is a text that a name can follow, and a name. Its normal form has the same name at its end.
-/

namespace Hantec.Path

theorem splitSlashes_eq_splitOn (cs : List Char) : splitSlashes cs = cs.splitOn '/' := by
  fun_induction splitSlashes cs with
  | case1 => rfl
  | case2 cs ih => rw [List.splitOn_cons_eq_if_modifyHead, if_pos (by decide), ih]
  | case3 c cs hc hcs ih => exact absurd (ih ▸ hcs) (List.splitOn_ne_nil '/' cs)
  | case4 c cs hc p ps hcs ih =>
    rw [List.splitOn_cons_eq_if_modifyHead, if_neg (by simpa using hc), ← ih, hcs]
    rfl

/-- The texts that a name can follow: nothing, or what ends in a slash. -/
def Opens (dir : String) : Prop := dir = "" ∨ ∃ s, dir = s ++ "/"

section Opens

variable {dir name : String}

theorem exists_opens (path : String) :
    ∃ dir name, Opens dir ∧ '/' ∉ name.toList ∧ path = dir ++ name := by
  -- The name is what follows the last slash.
  have hlast (cs : List Char) : '/' ∉ cs ∨ ∃ as bs, cs = as ++ '/' :: bs ∧ '/' ∉ bs := by
    induction cs with
    | nil => exact .inl List.not_mem_nil
    | cons c cs ih =>
      obtain hcs | ⟨as, bs, rfl, hbs⟩ := ih
      · by_cases hc : c = '/'
        · exact .inr ⟨[], cs, by rw [hc, List.nil_append], hcs⟩
        · exact .inl (List.not_mem_cons_of_ne_of_not_mem (Ne.symm hc) hcs)
      · exact .inr ⟨c :: as, bs, rfl, hbs⟩
  obtain h | ⟨as, bs, hpath, hbs⟩ := hlast path.toList
  · exact ⟨"", path, .inl rfl, h, String.empty_append.symm⟩
  · refine ⟨String.ofList as ++ "/", String.ofList bs, .inr ⟨_, rfl⟩, by simpa using hbs, ?_⟩
    rw [← String.toList_inj, hpath]
    simp

/-- The name is the last part of the path. -/
theorem Opens.exists_rawParts (h : Opens dir) :
    ∃ ps, ∀ name, '/' ∉ name.toList → rawParts (dir ++ name) = ps ++ [name] := by
  obtain rfl | ⟨s, rfl⟩ := h
  · refine ⟨[], fun name hname => ?_⟩
    simp [rawParts, splitSlashes_eq_splitOn, List.splitOn_eq_singleton hname]
  · refine ⟨rawParts s, fun name hname => ?_⟩
    have happend : (s ++ "/" ++ name).toList = s.toList ++ '/' :: name.toList := by simp
    rw [rawParts, happend, splitSlashes_eq_splitOn, List.splitOn_append_cons_self,
      List.splitOn_eq_singleton hname, List.map_append, rawParts, splitSlashes_eq_splitOn]
    simp

theorem rootText_append (hname : '/' ∉ name.toList) : rootText (dir ++ name) = rootText dir := by
  have hnone : name.toList.takeWhile (· == '/') = [] := by
    cases hcs : name.toList with
    | nil => rfl
    | cons c cs =>
      rw [hcs] at hname
      exact List.takeWhile_cons_of_neg (by simpa using (List.ne_of_not_mem_cons hname).symm)
  rw [rootText, rootText, String.toList_append, List.takeWhile_append, hnone]
  split
  case isTrue hall => rw [List.append_nil, hall]
  case isFalse => rfl

theorem isAbsolute_append (hname : '/' ∉ name.toList) :
    isAbsolute (dir ++ name) = isAbsolute dir := by
  rw [isAbsolute, isAbsolute, String.toList_append, List.head?_append]
  cases dir.toList with
  | cons c cs => rfl
  | nil =>
    cases hcs : name.toList with
    | nil => rfl
    | cons c cs =>
      rw [hcs] at hname
      simpa using (List.ne_of_not_mem_cons hname).symm

theorem opens_rootText (path : String) : Opens (rootText path) := by
  unfold rootText
  dsimp only
  split
  · exact .inl rfl
  · split
    · exact .inr ⟨"/", rfl⟩
    · exact .inr ⟨"", rfl⟩

/-- The name stands at the end of the normal form. -/
theorem Opens.exists_normal (h : Opens dir) :
    ∃ dir', Opens dir' ∧ ∀ name, '/' ∉ name.toList → name ≠ "" → name ≠ "." →
      normal (dir ++ name) = dir' ++ name := by
  obtain ⟨ps, hps⟩ := h.exists_rawParts
  have hnormal (name : String) (hname : '/' ∉ name.toList) (hne : name ≠ "") (hdot : name ≠ ".") :
      normal (dir ++ name) =
        rootText dir ++ "/".intercalate (ps.filter (fun p => p != "" && p != ".") ++ [name]) := by
    rw [normal, rootText_append hname, parts, hps name hname, render]
    simp [hne, hdot]
  cases hparts : ps.filter fun p => p != "" && p != "." with
  | nil =>
    refine ⟨rootText dir, opens_rootText dir, fun name hname hne hdot => ?_⟩
    rw [hnormal name hname hne hdot, hparts, List.nil_append, String.intercalate_singleton]
  | cons p qs =>
    refine ⟨rootText dir ++ "/".intercalate (p :: qs) ++ "/", .inr ⟨_, rfl⟩,
      fun name hname hne hdot => ?_⟩
    rw [hnormal name hname hne hdot, hparts,
      String.intercalate_append_of_ne_nil (List.cons_ne_nil _ _) (List.cons_ne_nil _ _),
      String.intercalate_singleton, String.append_assoc, String.append_assoc, String.append_assoc]

end Opens

/-! ## The way of a normal form -/

theorem not_mem_of_mem_rawParts {path p : String} (h : p ∈ rawParts path) : '/' ∉ p.toList := by
  have hpieces (cs : List Char) : ∀ q ∈ splitSlashes cs, '/' ∉ q := by
    fun_induction splitSlashes cs with
    | case1 => simp
    | case2 cs ih => simpa using ih
    | case3 c cs hc hcs ih => simpa using Ne.symm hc
    | case4 c cs hc p ps hcs ih =>
      rw [hcs] at ih
      simpa [Ne.symm hc] using ih
  obtain ⟨cs, hcs, rfl⟩ := List.mem_map.1 h
  rw [String.toList_ofList]
  exact hpieces _ cs hcs

theorem rawParts_intercalate {ps : List String} (hps : ∀ p ∈ ps, '/' ∉ p.toList) (hne : ps ≠ []) :
    rawParts ("/".intercalate ps) = ps := by
  have hsplit : (['/'].intercalate (ps.map String.toList)).splitOn '/' = ps.map String.toList :=
    List.splitOn_intercalate '/' (by simpa using hps) (by simpa using hne)
  have htext : ("/".intercalate ps).toList = ['/'].intercalate (ps.map String.toList) :=
    String.toList_intercalate
  rw [rawParts, splitSlashes_eq_splitOn, htext, hsplit]
  simp [Function.comp_def]

theorem rawParts_slash (s : String) : rawParts ("/" ++ s) = "" :: rawParts s := by
  simp [rawParts, splitSlashes]

theorem isAbsolute_iff {path : String} : isAbsolute path = true ↔ ∃ s, path = "/" ++ s := by
  rw [isAbsolute, beq_iff_eq, List.head?_eq_some_iff]
  constructor
  · rintro ⟨cs, hcs⟩
    exact ⟨String.ofList cs, String.toList_injective (by simp [hcs])⟩
  · rintro ⟨s, rfl⟩
    exact ⟨s.toList, by simp⟩

theorem isAbsolute_iff_rootText {path : String} : isAbsolute path = true ↔ rootText path ≠ "" := by
  rw [isAbsolute, rootText]
  cases path.toList with
  | nil => simp
  | cons c cs =>
    by_cases hc : c = '/'
    · subst hc
      simp
      split <;> simp
    · simp [hc]

/-- The normal form goes the same way, after the slashes that it starts with. -/
theorem exists_rawParts_normal {path : String} (hne : parts path ≠ []) :
    isAbsolute (normal path) = isAbsolute path ∧
      ∃ n, rawParts (normal path) = List.replicate n "" ++ parts path := by
  have hraw : rawParts ("/".intercalate (parts path)) = parts path :=
    rawParts_intercalate (fun p hp => not_mem_of_mem_rawParts (List.mem_filter.1 hp).1) hne
  have hnormal : normal path = rootText path ++ "/".intercalate (parts path) := by
    simp [normal, render, hne]
  have hroot : rootText path = "" ∨ rootText path = "/" ∨ rootText path = "//" := by
    simp only [rootText]
    split
    · exact .inl rfl
    · split
      · exact .inr (.inr rfl)
      · exact .inr (.inl rfl)
  have habsolute : isAbsolute path = true ↔ rootText path ≠ "" := isAbsolute_iff_rootText
  rw [hnormal, Bool.eq_iff_iff, habsolute]
  obtain h | h | h := hroot
  · refine ⟨?_, 0, by simpa [h] using hraw⟩
    simp only [h, String.empty_append, ne_eq, not_true, iff_false, isAbsolute_iff]
    rintro ⟨s, hs⟩
    rw [hs, rawParts_slash] at hraw
    have hmem : "" ∈ parts path := hraw ▸ List.mem_cons_self
    simp [parts] at hmem
  · refine ⟨?_, 1, ?_⟩
    · simp [h, isAbsolute_iff]
    · rw [h, rawParts_slash, hraw]
      rfl
  · refine ⟨?_, 2, ?_⟩
    · simp [h, isAbsolute]
    · rw [h, show "//" = "/" ++ "/" from rfl, String.append_assoc, rawParts_slash, rawParts_slash,
        hraw]
      rfl

/-! ## Names of entries -/

/-- The names that an entry of a directory can have. -/
structure IsName (name : String) : Prop where
  solid : '/' ∉ name.toList
  ne_empty : name ≠ ""
  ne_dot : name ≠ "."
  ne_dots : name ≠ ".."

theorem IsName.append {name s : String} (h : IsName name) (hs : '/' ∉ s.toList)
    (hlength : 2 ≤ s.length) : IsName (name ++ s) := by
  have hpos : name.length ≠ 0 := fun hzero => h.ne_empty (String.length_eq_zero_iff.1 hzero)
  have hne {u : String} (hu : u.length ≤ 2) : name ++ s ≠ u := by
    rintro rfl
    rw [String.length_append] at hu
    omega
  refine ⟨?_, hne (by decide), hne (by decide), hne (by decide)⟩
  simpa using ⟨h.solid, hs⟩

/-- The path ends in the name of an entry, and not in a slash or in dots. -/
def NamesEntry (path : String) : Prop :=
  ∃ p ∈ (rawParts path).getLast?, p ≠ "" ∧ p ≠ "." ∧ p ≠ ".."

theorem NamesEntry.ne_empty {path : String} (h : NamesEntry path) : path ≠ "" := by
  rintro rfl
  obtain ⟨p, hp, hempty, -⟩ := h
  exact hempty (Option.mem_some_iff.1 hp).symm

theorem NamesEntry.exists_name {path : String} (h : NamesEntry path) :
    ∃ dir name, Opens dir ∧ IsName name ∧ path = dir ++ name := by
  obtain ⟨dir, name, hdir, hname, rfl⟩ := exists_opens path
  obtain ⟨ps, hps⟩ := hdir.exists_rawParts
  obtain ⟨p, hp, hempty, hdot, hdots⟩ := h
  rw [hps name hname, List.getLast?_concat, Option.mem_some_iff] at hp
  subst hp
  exact ⟨dir, name, hdir, ⟨hname, hempty, hdot, hdots⟩, rfl⟩

end Hantec.Path
