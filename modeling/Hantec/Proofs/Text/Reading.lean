/-!
# Reading from left to right

A text is read into parts: where tokens start the longest of them is a part, and a character where
none starts is one too. There is one such reading, if no token is empty and each stands for one
part.
-/

namespace Hantec.Text

variable {Part : Type} {Token : List Char → Part → Prop} {char : Char → Part}

inductive Reading (Token : List Char → Part → Prop) (char : Char → Part) :
    List Char → List Part → Prop where
  | nil : Reading Token char [] []
  | token {w t : List Char} {r : Part} {ps : List Part} (hw : Token w r)
    (hmax : ∀ w' r', Token w' r' → w' <+: w ++ t → w'.length ≤ w.length)
    (hps : Reading Token char t ps) : Reading Token char (w ++ t) (r :: ps)
  | char {c : Char} {t : List Char} {ps : List Part}
    (hnone : ∀ w r, Token w r → ¬ w <+: c :: t) (hps : Reading Token char t ps) :
    Reading Token char (c :: t) (char c :: ps)

/-- Where a token starts, there is a longest one. -/
theorem exists_longest {w t : List Char} {r : Part} (hw : Token w r) (hstarts : w <+: t) :
    ∃ w' r', Token w' r' ∧ w' <+: t ∧ ∀ w'' r'', Token w'' r'' → w'' <+: t →
      w''.length ≤ w'.length := by
  induction hn : t.length - w.length using Nat.strongRecOn generalizing w r with
  | ind n ih =>
    by_cases hlonger : ∃ w' r', Token w' r' ∧ w' <+: t ∧ w.length < w'.length
    · obtain ⟨w', r', hw', hstarts', hlt⟩ := hlonger
      have hle := hstarts'.length_le
      exact ih (t.length - w'.length) (by omega) hw' hstarts' rfl
    · refine ⟨w, r, hw, hstarts, fun w' r' hw' hstarts' => Nat.not_lt.1 fun hlt => ?_⟩
      exact hlonger ⟨w', r', hw', hstarts', hlt⟩

variable (hne : ∀ w r, Token w r → w ≠ [])

include hne

theorem exists_reading (char : Char → Part) (s : List Char) : ∃ ps, Reading Token char s ps := by
  induction hn : s.length using Nat.strongRecOn generalizing s with
  | ind n ih =>
    by_cases h : ∃ w r, Token w r ∧ w <+: s
    · obtain ⟨w, r, hw, hstarts⟩ := h
      obtain ⟨w, r, hw, ⟨t, rfl⟩, hmax⟩ := exists_longest hw hstarts
      have hpos := List.length_pos_iff.2 (hne w r hw)
      rw [List.length_append] at hn
      obtain ⟨ps, hps⟩ := ih t.length (by omega) t rfl
      exact ⟨_, .token hw hmax hps⟩
    · cases s with
      | nil => exact ⟨[], .nil⟩
      | cons c t =>
        obtain ⟨ps, hps⟩ := ih t.length (hn ▸ Nat.lt_succ_self _) t rfl
        exact ⟨_, .char (fun w r hw hstarts => h ⟨w, r, hw, hstarts⟩) hps⟩

theorem Reading.unique (huniq : ∀ w q r, Token w q → Token w r → q = r) {s : List Char}
    {ps qs : List Part} (hps : Reading Token char s ps) (hqs : Reading Token char s qs) :
    qs = ps := by
  induction hps generalizing qs with
  | nil =>
    generalize hs : [] = s at hqs
    cases hqs with
    | nil => rfl
    | token hw => exact absurd (List.append_eq_nil_iff.1 hs.symm).1 (hne _ _ hw)
    | char => cases hs
  | @token w t r ps hw hmax _ ih =>
    generalize hs : w ++ t = s at hqs
    cases hqs with
    | nil => exact absurd (List.append_eq_nil_iff.1 hs).1 (hne _ _ hw)
    | @token v s q qs hv hmax' hqs =>
      have hlength : w.length = v.length :=
        Nat.le_antisymm (hmax' w r hw ⟨t, hs⟩) (hmax v q hv ⟨s, hs.symm⟩)
      obtain ⟨rfl, rfl⟩ := List.append_inj hs hlength
      rw [huniq w q r hv hw, ih hqs]
    | char hnone => exact absurd ⟨t, hs⟩ (hnone w r hw)
  | @char c t ps hnone _ ih =>
    generalize hs : c :: t = s at hqs
    cases hqs with
    | nil => cases hs
    | @token v s q qs hv => exact absurd ⟨s, hs.symm⟩ (hnone v q hv)
    | char _ hqs => cases hs; rw [ih hqs]

end Hantec.Text
