import Hantec.Proofs.Text.Reading
import Hantec.Proofs.Text.Splitting
import Mathlib.Data.List.Pairwise

/-!
# Masks in any order

A mask is read from left to right into the words that are replaced in it and other characters.
Replacing a word leaves all other parts as they are, since no two words share a letter and what is
put in has no letters. So the words may be replaced in any order, or all at once.
-/

namespace Hantec

namespace Calendar

/-- What a mask consists of: words with what stands for them, and other characters. -/
inductive MaskPart where
  | word (w : String × String)
  | char (c : Char)

namespace MaskPart

def text : MaskPart → List Char
  | .word w => w.1.toList
  | .char c => [c]

def value : MaskPart → List Char
  | .word w => w.2.toList
  | .char c => [c]

/-- What is left of a part after some words have been replaced. -/
def filled (l : List (String × String)) : MaskPart → List MaskPart
  | .word w => if w ∈ l then w.2.toList.map .char else [.word w]
  | .char c => [.char c]

end MaskPart

def IsWord (ws : List (String × String)) (u : List Char) (p : MaskPart) : Prop :=
  ∃ w ∈ ws, u = w.1.toList ∧ p = .word w

abbrev ConsistsOf (ws : List (String × String)) : List Char → List MaskPart → Prop :=
  Text.Reading (IsWord ws) .char

/-- A mask with some words replaced one after another. -/
def replaceWords (l : List (String × String)) (mask : String) : String :=
  l.foldl (fun s w => Text.replace s w.1 w.2) mask

/-- Words that share no letter with each other nor with what stands for them. -/
structure Apart (ws : List (String × String)) : Prop where
  word_ne : ∀ w ∈ ws, w.1.toList ≠ []
  value_ne : ∀ w ∈ ws, w.2.toList ≠ []
  words : ∀ v ∈ ws, ∀ w ∈ ws, v ≠ w → ∀ c ∈ v.1.toList, c ∉ w.1.toList
  values : ∀ v ∈ ws, ∀ w ∈ ws, ∀ c ∈ v.1.toList, c ∉ w.2.toList

variable {ws : List (String × String)} {v w : String × String} {s t : List Char}
  {ps qs : List MaskPart}

/-! ## One replacement -/

theorem not_starts {c : Char} (hw : w.1.toList ≠ []) (hc : c ∉ w.1.toList) (t : List Char) :
    ¬ w.1.toList <+: c :: t := by
  obtain ⟨d, ds, hds⟩ := List.exists_cons_of_ne_nil hw
  rw [hds] at hc ⊢
  intro h
  exact hc (List.mem_cons.2 (.inl (List.cons_prefix_cons.1 h).1.symm))

/-- What starts a text after a replacement and shares no letter with what was put in has started it
before. -/
theorem starts_of_substitute {old new u : List Char} (hold : old ≠ []) (hnew : new ≠ [])
    (hu : ∀ c ∈ u, c ∉ new) (h : u <+: Text.substitute old new s) : u <+: s := by
  induction s generalizing u with
  | nil => exact h
  | cons d t ih =>
    cases u with
    | nil => exact List.nil_prefix
    | cons c u =>
      by_cases hd : old <+: d :: t
      · obtain ⟨e, es, rfl⟩ := List.exists_cons_of_ne_nil hnew
        obtain ⟨t', ht'⟩ := hd
        rw [← ht', Text.substitute_append hold] at h
        refine absurd ?_ (hu c List.mem_cons_self)
        rw [(List.cons_prefix_cons.1 h).1]
        exact List.mem_cons_self
      · rw [Text.substitute_cons hd] at h
        obtain ⟨rfl, hrest⟩ := List.cons_prefix_cons.1 h
        exact List.cons_prefix_cons.2
          ⟨rfl, ih (fun d hd => hu d (List.mem_cons_of_mem c hd)) hrest⟩

/-! ## Readings -/

theorem consistsOf_append (hps : ConsistsOf ws t ps) {cs : List Char}
    (hcs : ∀ c ∈ cs, ∀ w ∈ ws, c ∉ w.1.toList) (hne : ∀ w ∈ ws, w.1.toList ≠ []) :
    ConsistsOf ws (cs ++ t) (cs.map .char ++ ps) := by
  induction cs with
  | nil => exact hps
  | cons c cs ih =>
    refine .char ?_ (ih fun d hd => hcs d (List.mem_cons_of_mem c hd))
    rintro _ _ ⟨w, hw, rfl, rfl⟩
    exact not_starts (hne w hw) (hcs c List.mem_cons_self w hw) _

theorem text_of_consistsOf (h : ConsistsOf ws s ps) : ps.flatMap MaskPart.text = s := by
  induction h with
  | nil => rfl
  | token hw _ _ ih =>
    obtain ⟨w, -, rfl, rfl⟩ := hw
    rw [List.flatMap_cons, ih, MaskPart.text]
  | char _ _ ih => rw [List.flatMap_cons, ih, MaskPart.text]; rfl

theorem mem_of_consistsOf (h : ConsistsOf ws s ps) (hw : .word w ∈ ps) : w ∈ ws := by
  induction h with
  | nil => cases hw
  | token hv _ _ ih =>
    obtain hw | hw := List.mem_cons.1 hw
    · obtain ⟨v, hv, -, rfl⟩ := hv
      cases hw
      exact hv
    · exact ih hw
  | char _ _ ih =>
    obtain hw | hw := List.mem_cons.1 hw
    · cases hw
    · exact ih hw

namespace Apart

variable (hws : Apart ws)

include hws

theorem ne_nil (u : List Char) (p : MaskPart) (h : IsWord ws u p) : u ≠ [] := by
  obtain ⟨w, hw, rfl, -⟩ := h
  exact hws.word_ne w hw

/-- Words that start at the same place or share a letter are the same. -/
theorem eq_of_mem {c : Char} (hv : v ∈ ws) (hw : w ∈ ws) (hcv : c ∈ v.1.toList)
    (hcw : c ∈ w.1.toList) : v = w :=
  Decidable.byContradiction fun hne => hws.words v hv w hw hne c hcv hcw

theorem eq_of_starts (hv : v ∈ ws) (hw : w ∈ ws) (h : v.1.toList <+: w.1.toList ++ t) : v = w := by
  obtain ⟨c, cs, hcs⟩ := List.exists_cons_of_ne_nil (hws.word_ne v hv)
  obtain ⟨d, ds, hds⟩ := List.exists_cons_of_ne_nil (hws.word_ne w hw)
  rw [hcs, hds] at h
  obtain rfl := (List.cons_prefix_cons.1 h).1
  exact hws.eq_of_mem hv hw (hcs ▸ List.mem_cons_self) (hds ▸ List.mem_cons_self)

theorem word_unique (u : List Char) (p q : MaskPart) (hp : IsWord ws u p) (hq : IsWord ws u q) :
    p = q := by
  obtain ⟨v, hv, rfl, rfl⟩ := hp
  obtain ⟨w, hw, hu, rfl⟩ := hq
  rw [hws.eq_of_starts hv hw ⟨[], by rw [hu, List.append_nil]⟩]

theorem consistsOf_word (hw : w ∈ ws) (hps : ConsistsOf ws t ps) :
    ConsistsOf ws (w.1.toList ++ t) (.word w :: ps) := by
  refine .token ⟨w, hw, rfl, rfl⟩ ?_ hps
  rintro _ _ ⟨v, hv, rfl, rfl⟩ hstarts
  exact (hws.eq_of_starts hv hw hstarts) ▸ Nat.le_refl _

/-- Replacing a word opens its parts of a reading and leaves the others. -/
theorem consistsOf_substitute (hw : w ∈ ws) (h : ConsistsOf ws s ps) :
    ConsistsOf ws (Text.substitute w.1.toList w.2.toList s) (ps.flatMap (MaskPart.filled [w])) := by
  have hword := hws.word_ne w hw
  induction h with
  | nil => exact .nil
  | @token _ t _ ps hv _ _ ih =>
    obtain ⟨v, hv, rfl, rfl⟩ := hv
    rw [List.flatMap_cons]
    by_cases hvw : v = w
    · subst hvw
      rw [Text.substitute_append hword, MaskPart.filled, if_pos List.mem_cons_self]
      exact consistsOf_append ih (fun c hc u hu hmem => hws.values u hu v hv c hmem hc) hws.word_ne
    · rw [MaskPart.filled, if_neg (by simpa using hvw)]
      have happend (cs : List Char) (hcs : ∀ c ∈ cs, c ∈ v.1.toList) :
          Text.substitute w.1.toList w.2.toList (cs ++ t) =
            cs ++ Text.substitute w.1.toList w.2.toList t := by
        induction cs with
        | nil => rfl
        | cons c cs ihcs =>
          have hc : c ∉ w.1.toList := hws.words v hv w hw hvw c (hcs c List.mem_cons_self)
          rw [List.cons_append, Text.substitute_cons (not_starts hword hc _),
            ihcs fun d hd => hcs d (List.mem_cons_of_mem c hd), List.cons_append]
      rw [happend _ fun c hc => hc]
      exact hws.consistsOf_word hv ih
  | @char c t ps hnone _ ih =>
    rw [Text.substitute_cons (hnone _ _ ⟨w, hw, rfl, rfl⟩)]
    refine .char ?_ ih
    -- a word that starts here now has started here before
    rintro _ _ ⟨v, hv, rfl, rfl⟩ hstarts
    refine hnone _ _ ⟨v, hv, rfl, rfl⟩ ?_
    obtain ⟨d, u, hu⟩ := List.exists_cons_of_ne_nil (hws.word_ne v hv)
    have hvalues := hws.values v hv w hw
    rw [hu] at hstarts hvalues ⊢
    obtain ⟨rfl, hrest⟩ := List.cons_prefix_cons.1 hstarts
    exact List.cons_prefix_cons.2 ⟨rfl, starts_of_substitute hword (hws.value_ne w hw)
      (fun e he => hvalues e (List.mem_cons_of_mem d he)) hrest⟩

/-- So do replacements one after another. -/
theorem consistsOf_replaceWords {l : List (String × String)} (hl : l ⊆ ws) {mask : String}
    (h : ConsistsOf ws mask.toList ps) :
    ConsistsOf ws (replaceWords l mask).toList (ps.flatMap (MaskPart.filled l)) := by
  induction l generalizing mask ps with
  | nil =>
    have hid : MaskPart.filled [] = fun p => [p] := by
      funext p
      cases p <;> rfl
    rw [hid, List.flatMap_singleton']
    exact h
  | cons w l ih =>
    have hw : w ∈ ws := hl List.mem_cons_self
    have hcomp (p : MaskPart) :
        (MaskPart.filled [w] p).flatMap (MaskPart.filled l) = MaskPart.filled (w :: l) p := by
      cases p with
      | char c => rfl
      | word v =>
        by_cases hv : v = w
        · simp [MaskPart.filled, hv, List.flatMap_map, ← List.map_eq_flatMap]
        · simp [MaskPart.filled, hv]
    have hparts := hws.consistsOf_substitute hw h
    rw [← Text.toList_replace (by simpa using hws.word_ne w hw)] at hparts
    have hrest := ih (fun v hv => hl (List.mem_cons_of_mem w hv)) hparts
    rw [List.flatMap_assoc, funext hcomp] at hrest
    exact hrest

theorem replaceWords_eq {l : List (String × String)} (hl : l.Perm ws) {mask : String}
    (h : ConsistsOf ws mask.toList ps) :
    replaceWords l mask = String.ofList (ps.flatMap MaskPart.value) := by
  have hall (w : String × String) (hw : .word w ∈ ps) : w ∈ l :=
    hl.mem_iff.2 (mem_of_consistsOf h hw)
  apply String.toList_injective
  rw [← text_of_consistsOf (hws.consistsOf_replaceWords hl.subset h), String.toList_ofList,
    List.flatMap_assoc, List.flatMap_def, List.flatMap_def, List.map_congr_left fun p hp => ?_]
  cases p with
  | char c => rfl
  | word w => simp [MaskPart.filled, hall w hp, MaskPart.value, List.flatMap_map, MaskPart.text]

/-- Two words do not overlap in any text. -/
theorem le_of_occursAt {i j : Nat} (hv : v ∈ ws) (hw : w ∈ ws) (hne : v ≠ w)
    (hi : Text.OccursAt v.1.toList s i) (hj : Text.OccursAt w.1.toList s j) (hij : i ≤ j) :
    i + v.1.toList.length ≤ j := by
  refine Nat.not_lt.1 fun hlt => hne ?_
  have hj' : Text.OccursAt w.1.toList (s.drop i) (j - i) := by
    rwa [Text.OccursAt, List.drop_drop, Nat.add_sub_of_le hij]
  obtain ⟨t, ht⟩ := hi
  obtain ⟨d, ds, hds⟩ := List.exists_cons_of_ne_nil (hws.word_ne w hw)
  have hpos : j - i < v.1.toList.length := by omega
  rw [Text.OccursAt, ← ht, List.drop_append_of_le_length (Nat.le_of_lt hpos),
    List.drop_eq_getElem_cons hpos, hds] at hj'
  refine hws.eq_of_mem hv hw (c := d) ?_ (hds ▸ List.mem_cons_self)
  rw [(List.cons_prefix_cons.1 hj').1]
  exact List.getElem_mem hpos

end Apart

/-! ## The words of a moment -/

theorem isDigit_of_mem_twoDigits {n : Nat} {c : Char} (h : c ∈ (twoDigits n).toList) :
    c.isDigit = true := by
  rw [twoDigits, String.toList_ofList] at h
  simp only [List.mem_cons, List.not_mem_nil, or_false] at h
  obtain rfl | rfl := h <;> rw [Nat.isDigit_digitChar, decide_eq_true_iff] <;> omega

theorem repr_int_ne (n : Int) : n.repr ≠ "" := by
  cases n with
  | ofNat n => exact fun h => Nat.toDigits_ne_nil (Nat.toList_repr ▸ congrArg String.toList h)
  | negSucc n => simp [Int.repr]

theorem mem_toString_int {n : Int} {c : Char} (h : c ∈ (toString n).toList) :
    c.isDigit = true ∨ c = '-' := by
  cases n with
  | ofNat n =>
    exact .inl (Nat.isDigit_of_mem_toDigits (by decide) (by decide) (Nat.toList_repr ▸ h))
  | negSucc n =>
    change c ∈ ("-" ++ (n + 1).repr).toList at h
    rw [String.toList_append, List.mem_append, Nat.toList_repr] at h
    obtain h | h := h
    · exact .inr (List.mem_singleton.1 h)
    · exact .inl (Nat.isDigit_of_mem_toDigits (by decide) (by decide) h)

/-- What stands for a word is digits, with a sign before them in a year. -/
theorem mem_value {m : Moment} {c : Char} (hw : w ∈ maskWords m) (hc : c ∈ w.2.toList) :
    c.isDigit = true ∨ c = '-' := by
  simp only [maskWords, List.mem_cons, List.not_mem_nil, or_false] at hw
  obtain rfl | rfl | rfl | rfl | rfl | rfl := hw
  · exact mem_toString_int hc
  all_goals exact .inl (isDigit_of_mem_twoDigits hc)

theorem apart_maskWords (m : Moment) : Apart (maskWords m) where
  word_ne := by simp [maskWords]
  value_ne := by simp [maskWords, twoDigits, repr_int_ne]
  words := by simp [maskWords]
  values v hv w hw c hc hmem := by
    have hletters : ∀ v ∈ maskWords m, ∀ c ∈ v.1.toList, c.isDigit = false ∧ c ≠ '-' := by
      simp [maskWords]
    simpa [hletters v hv c hc] using mem_value hw hmem

end Calendar

open Calendar

/-- A mask has one reading. Whatever the order in which the words are replaced, the result is what
the parts of the reading stand for one after another. After each replacement the text is read as the
mask was, but for the words that have been replaced, and two words never overlap. -/
theorem fillMask_in_any_order (m : Moment) (mask : String) :
    ∃ ps, (∀ qs, ConsistsOf (maskWords m) mask.toList qs ↔ qs = ps) ∧
      (∀ l : List (String × String), l.Perm (maskWords m) →
        replaceWords l mask = String.ofList (ps.flatMap MaskPart.value)) ∧
      (∀ l ⊆ maskWords m, ConsistsOf (maskWords m) (replaceWords l mask).toList
        (ps.flatMap (MaskPart.filled l)) ∧
        ∀ v ∈ maskWords m, ∀ w ∈ maskWords m, v ≠ w → ∀ i j,
          Text.OccursAt v.1.toList (replaceWords l mask).toList i →
          Text.OccursAt w.1.toList (replaceWords l mask).toList j →
          i + v.1.toList.length ≤ j ∨ j + w.1.toList.length ≤ i) ∧
      ∀ (x : Float) (σ : State), Calendar.ofMillis x = .ok m →
        ((Builtin.text .formatDate).call [.num x, .str mask]).run σ =
          .ret (.str (String.ofList (ps.flatMap MaskPart.value))) σ ∧
        ((Builtin.time .format).call [.num x, .str mask]).run σ =
          .ret (.str (String.ofList (ps.flatMap MaskPart.value))) σ := by
  have hws := apart_maskWords m
  obtain ⟨ps, hps⟩ := Text.exists_reading hws.ne_nil .char mask.toList
  refine ⟨ps, fun qs => ⟨hps.unique hws.ne_nil hws.word_unique, fun h => h ▸ hps⟩,
    fun l hl => hws.replaceWords_eq hl hps, fun l hl => ⟨hws.consistsOf_replaceWords hl hps, ?_⟩,
    fun x σ hx => ?_⟩
  · intro v hv w hw hne i j hi hj
    obtain hij | hji := Nat.le_total i j
    · exact .inl (hws.le_of_occursAt hv hw hne hi hj hij)
    · exact .inr (hws.le_of_occursAt hw hv hne.symm hj hi hji)
  · have hfill : fillMask m mask = String.ofList (ps.flatMap MaskPart.value) :=
      hws.replaceWords_eq (.refl _) hps
    have hrun : (dateText (.num x) (.str mask)).run σ =
        .ret (.str (String.ofList (ps.flatMap MaskPart.value))) σ := by
      have hnumber : (Proc.toNumber (.num x)).run σ = .ret x σ := rfl
      have htext : (Proc.toText (.str mask)).run σ = .ret mask σ := rfl
      simp only [dateText, Proc.run_bind, hnumber, Step.bind, hx, htext, hfill, Proc.run_pure]
    have hcall (b : Builtin) (hb : b.run [.num x, .str mask] = dateText (.num x) (.str mask)) :
        (b.call [.num x, .str mask]).run σ =
          .ret (.str (String.ofList (ps.flatMap MaskPart.value))) σ := by
      rw [Builtin.call, Proc.run_attempt_bind, hb, hrun]
      rfl
    exact ⟨hcall _ rfl, hcall _ rfl⟩

end Hantec
