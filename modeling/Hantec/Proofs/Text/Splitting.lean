import Hantec.Run.Builtins
import Hantec.Proofs.Run.Proc

/-!
# Splitting and joining

A text is split at the leftmost occurrences of a separator that do not overlap: each of them is the
first one that starts where the last one has ended or later. They determine the pieces, the number
of the pieces, and what replacing gives. Joining the pieces gives the text back, also if the
separator is empty.
-/

namespace Hantec

namespace Text

variable {s sep : List Char} {p : Nat} {os : List Nat}

/-- The separator stands at an offset of the text. -/
def OccursAt (sep s : List Char) (i : Nat) : Prop := sep <+: s.drop i

/-- The offsets of the leftmost occurrences from a place on, of which no two overlap. -/
inductive Leftmost (sep s : List Char) : Nat → List Nat → Prop where
  | done {p : Nat} : (∀ i, p ≤ i → ¬ OccursAt sep s i) → Leftmost sep s p []
  | next {p o : Nat} {os : List Nat} : p ≤ o → OccursAt sep s o →
      (∀ i, p ≤ i → i < o → ¬ OccursAt sep s i) → Leftmost sep s (o + sep.length) os →
      Leftmost sep s p (o :: os)

/-- What stands between occurrences of the given length, from a place on. -/
def between (s : List Char) (n : Nat) : Nat → List Nat → List (List Char)
  | p, [] => [s.drop p]
  | p, o :: os => (s.take o).drop p :: between s n (o + n) os

/-- The text from a place on, with another one for the occurrences of the given length. -/
def substituted (s : List Char) (n : Nat) (new : List Char) : Nat → List Nat → List Char
  | p, [] => s.drop p
  | p, o :: os => (s.take o).drop p ++ new ++ substituted s n new (o + n) os

theorem Leftmost.unique {os' : List Nat} (h : Leftmost sep s p os) (h' : Leftmost sep s p os') :
    os' = os := by
  induction h generalizing os' with
  | done hnone =>
    cases h' with
    | done => rfl
    | next hp ho => exact absurd ho (hnone _ hp)
  | @next p o os hp ho hfirst _ ih =>
    cases h' with
    | done hnone => exact absurd ho (hnone o hp)
    | @next _ o' _ hp' ho' hfirst' hrest' =>
      have hle : o ≤ o' := Nat.not_lt.1 fun hlt => hfirst o' hp' hlt ho'
      have hge : o' ≤ o := Nat.not_lt.1 fun hlt => hfirst' o hp hlt ho
      obtain rfl := Nat.le_antisymm hge hle
      rw [ih hrest']

/-- A place where the separator does not stand may be passed over. -/
theorem Leftmost.of_succ (h : Leftmost sep s (p + 1) os) (hp : ¬ OccursAt sep s p) :
    Leftmost sep s p os := by
  have hskip {i : Nat} (hi : p ≤ i) (h : p + 1 ≤ i → ¬ OccursAt sep s i) : ¬ OccursAt sep s i := by
    obtain rfl | hlt := Nat.eq_or_lt_of_le hi
    · exact hp
    · exact h hlt
  cases h with
  | done hnone => exact .done fun i hi => hskip hi (hnone i)
  | next ho hocc hfirst hrest =>
    refine .next (Nat.le_of_succ_le ho) hocc (fun i hi hlt => ?_) hrest
    exact hskip hi fun hi => hfirst i hi hlt

/-! ## The pieces -/

theorem drop_take_append_drop {o : Nat} (s : List Char) (h : p ≤ o) :
    (s.take o).drop p ++ s.drop o = s.drop p := by
  have hdrop : s.drop o = (s.drop p).drop (o - p) := by
    rw [List.drop_drop, Nat.add_sub_of_le h]
  rw [List.drop_take, hdrop, List.take_append_drop]

theorem splitFrom_skip (sep : List Char) (n : Nat) (cs : List Char) :
    splitFrom sep n cs = splitFrom sep 0 (cs.drop n) := by
  induction cs generalizing n with
  | nil => cases n <;> rfl
  | cons c cs ih =>
    cases n with
    | zero => rfl
    | succ n => exact ih n

theorem between_eq_consHead {c : Char} (hc : s.drop p = c :: s.drop (p + 1)) (n : Nat)
    (hos : ∀ o ∈ os.head?, p < o) :
    between s n p os = consHead c (between s n (p + 1) os) := by
  cases os with
  | nil => exact congrArg (fun cs => [cs]) hc
  | cons o os =>
    have hpiece : (s.take o).drop p = c :: (s.take o).drop (p + 1) := by
      have hlen : o - p = (o - (p + 1)) + 1 := by
        have hlt := hos o rfl
        omega
      rw [List.drop_take, List.drop_take, hc, hlen, List.take_succ_cons]
    exact congrArg (· :: between s n (o + n) os) hpiece

/-- The pieces are what stands between the leftmost occurrences. -/
theorem exists_leftmost (hsep : sep ≠ []) (s : List Char) (p : Nat) :
    ∃ os, Leftmost sep s p os ∧ splitFrom sep 0 (s.drop p) = between s sep.length p os := by
  -- The scan ends at the end of the text, and each of its steps comes closer to it.
  induction hn : s.length - p using Nat.strongRecOn generalizing p with
  | ind n ih =>
    cases hs : s.drop p with
    | nil =>
      refine ⟨[], .done fun i hi hocc => hsep ?_, congrArg (fun cs => [cs]) hs.symm⟩
      have hend : s.drop i = [] := List.drop_eq_nil_of_le 
        (Nat.le_trans (List.drop_eq_nil_iff.1 hs) hi)
      rw [OccursAt, hend] at hocc
      exact List.prefix_nil.1 hocc
    | cons c cs =>
      have hlt : p < s.length := by
        have hlen := congrArg List.length hs
        simp only [List.length_drop, List.length_cons] at hlen
        omega
      have hcs : cs = s.drop (p + 1) := by
        rw [← List.drop_drop, hs, List.drop_one, List.tail_cons]
      have hpos : 0 < sep.length := List.length_pos_iff.2 hsep
      by_cases hocc : OccursAt sep s p
      · obtain ⟨os, hos, hsplit⟩ := ih _ (by omega) (p + sep.length) rfl
        refine ⟨p :: os, .next (Nat.le_refl p) hocc (fun i hi hlt => absurd hlt (by omega)) hos, ?_⟩
        have hrest : cs.drop (sep.length - 1) = s.drop (p + sep.length) := by
          rw [hcs, List.drop_drop]
          congr 1
          omega
        rw [OccursAt, hs] at hocc
        rw [splitFrom, if_pos (List.isPrefixOf_iff_prefix.2 hocc), splitFrom_skip, hrest, hsplit]
        simp [between]
      · obtain ⟨os, hos, hsplit⟩ := ih _ (by omega) (p + 1) rfl
        refine ⟨os, hos.of_succ hocc, ?_⟩
        have hafter : ∀ o ∈ os.head?, p < o := by
          cases hos with
          | done => simp
          | next hp =>
            rintro o ⟨⟩
            exact hp
        rw [OccursAt, hs] at hocc
        rw [splitFrom, if_neg fun h => hocc (List.isPrefixOf_iff_prefix.1 h), hcs, hsplit]
        exact (between_eq_consHead (hs.trans (congrArg _ hcs)) _ hafter).symm

theorem length_between (s : List Char) (n p : Nat) (os : List Nat) :
    (between s n p os).length = os.length + 1 := by
  induction os generalizing p with
  | nil => rfl
  | cons o os ih => exact congrArg (· + 1) (ih (o + n))

/-- No occurrence lies within a piece. -/
theorem Leftmost.not_infix (hsep : sep ≠ []) (h : Leftmost sep s p os) :
    ∀ piece ∈ between s sep.length p os, ¬ sep <:+: piece := by
  induction h with
  | @done p hnone =>
    rintro piece hpiece ⟨a, b, hab⟩
    obtain rfl := List.mem_singleton.1 hpiece
    refine hnone (p + a.length) (Nat.le_add_right _ _) ⟨b, ?_⟩
    rw [← List.drop_drop, ← hab, List.append_assoc, List.drop_left]
  | @next p o os hp _ hfirst _ ih =>
    intro piece hpiece
    obtain rfl | hpiece := List.mem_cons.1 hpiece
    · rintro ⟨a, b, hab⟩
      have hpos : 0 < sep.length := List.length_pos_iff.2 hsep
      have hlen := congrArg List.length hab
      simp only [List.length_append, List.length_drop, List.length_take] at hlen
      refine hfirst (p + a.length) (Nat.le_add_right _ _) (by omega) ⟨b ++ s.drop o, ?_⟩
      have hs : s.drop p = a ++ (sep ++ (b ++ s.drop o)) := by
        rw [← List.append_assoc, ← List.append_assoc, hab, drop_take_append_drop s hp]
      rw [← List.drop_drop, hs, List.drop_left]
    · exact ih piece hpiece

/-! ## Joining -/

theorem intercalate_between (s new : List Char) (n p : Nat) (os : List Nat) :
    new.intercalate (between s n p os) = substituted s n new p os := by
  induction os generalizing p with
  | nil => simp [between, substituted]
  | cons o os ih =>
    have hne : between s n (o + n) os ≠ [] := by
      cases os <;> simp [between]
    rw [between, List.intercalate_cons_of_ne_nil hne, ih, substituted, List.append_assoc]

theorem Leftmost.substituted_self (h : Leftmost sep s p os) :
    substituted s sep.length sep p os = s.drop p := by
  induction h with
  | done => rfl
  | @next p o os hp ho _ _ ih =>
    obtain ⟨rest, hrest⟩ := ho
    have hdrop : sep ++ s.drop (o + sep.length) = s.drop o := by
      rw [← List.drop_drop, ← hrest, List.drop_left]
    rw [substituted, ih, List.append_assoc, hdrop, drop_take_append_drop s hp]

/-! ## Replacing from left to right -/

/-- The characters with others in the place of the occurrences. -/
def substitute (sep new s : List Char) : List Char := new.intercalate (splitFrom sep 0 s)

theorem splitFrom_ne_nil (sep : List Char) (n : Nat) (cs : List Char) :
    splitFrom sep n cs ≠ [] := by
  fun_induction splitFrom sep n cs with
  | case1 => simp
  | case2 n c cs ih => exact ih
  | case3 => simp
  | case4 c cs hc ih => cases splitFrom sep 0 cs <;> simp [consHead]

theorem substitute_append (hsep : sep ≠ []) (new s : List Char) :
    substitute sep new (sep ++ s) = new ++ substitute sep new s := by
  obtain ⟨c, cs, rfl⟩ := List.exists_cons_of_ne_nil hsep
  have hstarts : (c :: cs).isPrefixOf (c :: (cs ++ s)) = true :=
    List.isPrefixOf_iff_prefix.2 ⟨s, rfl⟩
  rw [substitute, List.cons_append, splitFrom, if_pos hstarts, splitFrom_skip, List.length_cons,
    Nat.add_sub_cancel, List.drop_left,
    List.intercalate_cons_of_ne_nil (splitFrom_ne_nil _ _ _)]
  rfl

theorem substitute_cons {c : Char} (h : ¬ sep <+: c :: s) (new : List Char) :
    substitute sep new (c :: s) = c :: substitute sep new s := by
  rw [substitute, splitFrom, if_neg fun hsep => h (List.isPrefixOf_iff_prefix.1 hsep), substitute]
  obtain ⟨p, ps, hps⟩ := List.exists_cons_of_ne_nil (splitFrom_ne_nil sep 0 s)
  rw [hps]
  cases ps <;> rfl

/-! ## Texts -/

theorem join_map_ofList (sep : String) (ps : List (List Char)) :
    join sep (ps.map String.ofList) = String.ofList (sep.toList.intercalate ps) := by
  apply String.toList_injective
  simp [join, Function.comp_def]

theorem toList_replace {old : String} (hold : old ≠ "") (s new : String) :
    (replace s old new).toList = substitute old.toList new.toList s.toList := by
  rw [replace, split, if_neg (by simpa using hold), join_map_ofList, String.toList_ofList,
    substitute]

theorem exists_split {s sep : String} (hsep : sep ≠ "") :
    ∃ os, Leftmost sep.toList s.toList 0 os ∧
      split s sep = (between s.toList sep.toList.length 0 os).map String.ofList := by
  have hchars : sep.toList ≠ [] := by simpa using hsep
  obtain ⟨os, hos, hsplit⟩ := exists_leftmost hchars s.toList 0
  refine ⟨os, hos, ?_⟩
  rw [split, if_neg (by simpa using hsep), ← hsplit, List.drop_zero]

/-- An empty separator puts nothing between the characters. -/
theorem intercalate_singletons (cs : List Char) : [].intercalate (cs.map ([·])) = cs := by
  induction cs with
  | nil => rfl
  | cons c cs ih =>
    cases cs with
    | nil => rfl
    | cons d ds => exact congrArg (c :: ·) ih

theorem join_split (s sep : String) : join sep (split s sep) = s := by
  by_cases hsep : sep = ""
  · apply String.toList_injective
    rw [join, String.toList_intercalate]
    simp [hsep, split, Function.comp_def, intercalate_singletons]
  · obtain ⟨os, hos, hsplit⟩ := exists_split hsep
    rw [hsplit, join_map_ofList, intercalate_between, hos.substituted_self, List.drop_zero,
      String.ofList_toList]

end Text

namespace TextFn

theorem run_itemTexts (ps : List String) (σ : State) :
    (itemTexts (ps.map .str)).run σ = .ret ps σ := by
  induction ps with
  | nil => rfl
  | cons p ps ih =>
    show Step.bind ((itemTexts (ps.map .str)).run σ) _ = _
    rw [ih]
    rfl

theorem call_split (s sep : String) (σ : State) :
    ∃ r σ', ((Builtin.text .split).call [.str s, .str sep]).run σ = .ret (.arr r) σ' ∧
      (σ'.heap.array r).toList = (Text.split s sep).map .str :=
  ⟨_, _, rfl, by simp [Heap.array]⟩

theorem call_replace (s old new : String) (σ : State) :
    ((Builtin.text .replace).call [.str s, .str old, .str new]).run σ =
      .ret (.str (Text.replace s old new)) σ := rfl

theorem call_join {ps : List String} {r : Nat} (sep : String) {σ : State}
    (h : (σ.heap.array r).toList = ps.map .str) :
    ((Builtin.text .join).call [.arr r, .str sep]).run σ =
      .ret (.str (Text.join sep ps)) σ := by
  have hrun : ((Builtin.text .join).run [.arr r, .str sep]).run σ =
      ((itemTexts (σ.heap.array r).toList).run σ).bind fun texts =>
        .ret (.str (Text.join sep texts)) := rfl
  rw [h, run_itemTexts] at hrun
  rw [Builtin.call, Proc.run_attempt_bind, hrun]
  rfl

end TextFn

/-- In every state, splitting a text puts its pieces into an array, and joining these gives the text
back, as replacing the separator by itself does. Unless the separator is empty, it stands in no
piece, there is one more piece than there are leftmost occurrences that do not overlap, and
replacing puts another text in the place of just these. -/
theorem split_at_leftmost (σ : State) (s sep : String) :
    ∃ (r : Nat) (σ' : State) (ps : List String),
      ((Builtin.text .split).call [.str s, .str sep]).run σ = .ret (.arr r) σ' ∧
      (σ'.heap.array r).toList = ps.map .str ∧
      ((Builtin.text .join).call [.arr r, .str sep]).run σ' = .ret (.str s) σ' ∧
      ((Builtin.text .replace).call [.str s, .str sep, .str sep]).run σ = .ret (.str s) σ ∧
      (sep ≠ "" → (∀ p ∈ ps, ¬ sep.toList <:+: p.toList) ∧
        ∃ os, (∀ os', Text.Leftmost sep.toList s.toList 0 os' ↔ os' = os) ∧
          ps.length = os.length + 1 ∧
          ∀ new, ((Builtin.text .replace).call [.str s, .str sep, .str new]).run σ =
            .ret (.str (String.ofList
              (Text.substituted s.toList sep.toList.length new.toList 0 os))) σ) := by
  obtain ⟨r, σ', hcall, harray⟩ := TextFn.call_split s sep σ
  refine ⟨r, σ', Text.split s sep, hcall, harray, ?_, ?_, fun hsep => ?_⟩
  · rw [TextFn.call_join sep harray, Text.join_split]
  · rw [TextFn.call_replace, Text.replace, Text.join_split]
  · obtain ⟨os, hos, hsplit⟩ := Text.exists_split hsep (s := s)
    refine ⟨?_, os, fun os' => ⟨hos.unique, fun h => h ▸ hos⟩, ?_, fun new => ?_⟩
    · intro p hp
      rw [hsplit] at hp
      obtain ⟨cs, hcs, rfl⟩ := List.mem_map.1 hp
      rw [String.toList_ofList]
      exact hos.not_infix (by simpa using hsep) cs hcs
    · rw [hsplit, List.length_map, Text.length_between]
    · rw [TextFn.call_replace, Text.replace, hsplit, Text.join_map_ofList, Text.intercalate_between]

example : Text.replace "aaabaa" "aa" "c" = "cabc" := by decide

end Hantec
