import Hantec.Proofs.Run.Proc
import Hantec.Proofs.Text.Reading
import Hantec.Run.Builtins

/-!
# Templates are read once

A template is read from left to right into references and characters that stand for themselves. The
parts depend on the template and the number of groups only, so that what is put in for them is not
read again.
-/

namespace Hantec

namespace Pattern

/-- What a template consists of. -/
inductive Chunk where
  | dollar
  | whole
  | group (n : Nat)
  | char (c : Char)

/-- How a reference is written, if there are `count` groups. -/
inductive Written (count : Nat) : List Char → Chunk → Prop where
  | dollar : Written count ['$', '$'] .dollar
  | whole : Written count ['$', '&'] .whole
  | one {c : Char} {n : Nat} (hc : Text.digitValue? c = some n) (h₁ : 0 < n) (h₂ : n ≤ count) :
    Written count ['$', c] (.group n)
  | two {c d : Char} {m n : Nat} (hc : Text.digitValue? c = some m)
    (hd : Text.digitValue? d = some n) (h₁ : 0 < 10 * m + n) (h₂ : 10 * m + n ≤ count) :
    Written count ['$', c, d] (.group (10 * m + n))

/-- A template spells these parts. -/
abbrev Spells (count : Nat) : List Char → List Chunk → Prop :=
  Text.Reading (Written count) .char

/-- What a part stands for. -/
def Chunk.value (whole : List Char) (group : Nat → List Char) : Chunk → List Char
  | .dollar => ['$']
  | .whole => whole
  | .group n => group n
  | .char c => [c]

variable {count : Nat} {w t : List Char} {r r' : Chunk}

/-! ## A template has one reading -/

theorem digitValue?_dollar : Text.digitValue? '$' = none := by decide

theorem digitValue?_ampersand : Text.digitValue? '&' = none := by decide

theorem Written.unique (h : Written count w r) (h' : Written count w r') : r = r' := by
  cases h <;> cases h' <;> simp_all [digitValue?_dollar, digitValue?_ampersand]

theorem Written.ne_nil (h : Written count w r) : w ≠ [] := by
  cases h <;> simp

/-! ## Expanding follows the reading -/

variable (whole : List Char) (group : Nat → List Char)

theorem expand_of_ne_dollar {c : Char} (hc : c ≠ '$') (t : List Char) :
    expand whole group count (c :: t) = c :: expand whole group count t := by
  rw [expand] <;> simp [hc]

theorem ne_of_digitValue? {c : Char} {n : Nat} (h : Text.digitValue? c = some n) :
    c ≠ '$' ∧ c ≠ '&' := by
  constructor <;> rintro rfl <;> simp [digitValue?_dollar, digitValue?_ampersand] at h

theorem expand_digits {c d : Char} {m n : Nat} (hc : Text.digitValue? c = some m)
    (hd : Text.digitValue? d = some n) (t : List Char) :
    expand whole group count ('$' :: c :: d :: t) =
      if 0 < 10 * m + n ∧ 10 * m + n ≤ count then
        group (10 * m + n) ++ expand whole group count t
      else if 0 < m ∧ m ≤ count then group m ++ d :: expand whole group count t
      else '$' :: c :: d :: expand whole group count t := by
  obtain ⟨hdollar, hampersand⟩ := ne_of_digitValue? hc
  simp [expand, hc, hd]

theorem expand_reference (hw : Written count w r)
    (hmax : ∀ w' r', Written count w' r' → w' <+: w ++ t → w'.length ≤ w.length) :
    expand whole group count (w ++ t) = r.value whole group ++ expand whole group count t := by
  cases hw with
  | dollar => rfl
  | whole => rfl
  | @one c m hc h₁ h₂ =>
    obtain ⟨hdollar, hampersand⟩ := ne_of_digitValue? hc
    cases t with
    | nil => simp [expand, hc, h₁, h₂, Chunk.value]
    | cons d t =>
      cases hd : Text.digitValue? d with
      | none => simp [expand, hc, hd, h₁, h₂, Chunk.value]
      | some n =>
        -- both digits together are no group, or they would be the longer reference
        have hboth : ¬ (0 < 10 * m + n ∧ 10 * m + n ≤ count) := fun h =>
          absurd (hmax _ _ (.two hc hd h.1 h.2) ⟨t, rfl⟩) (by simp)
        rw [expand_of_ne_dollar whole group (ne_of_digitValue? hd).1]
        exact (expand_digits whole group hc hd t).trans (by rw [if_neg hboth, if_pos ⟨h₁, h₂⟩]; rfl)
  | @two c d m n hc hd h₁ h₂ =>
    exact (expand_digits whole group hc hd t).trans (if_pos ⟨h₁, h₂⟩)

theorem expand_char {c : Char} (hnone : ∀ w r, Written count w r → ¬ w <+: c :: t) :
    expand whole group count (c :: t) = c :: expand whole group count t := by
  by_cases hc : c = '$'
  case neg => exact expand_of_ne_dollar whole group hc t
  subst hc
  cases t with
  | nil => rfl
  | cons c t =>
    have hdollar : c ≠ '$' := fun hc => hnone _ _ .dollar ⟨t, by rw [hc]; rfl⟩
    have hampersand : c ≠ '&' := fun hc => hnone _ _ .whole ⟨t, by rw [hc]; rfl⟩
    cases hc : Text.digitValue? c with
    | none => cases t <;> simp [expand, hdollar, hc]
    | some m =>
      have hone : ¬ (0 < m ∧ m ≤ count) := fun h => hnone _ _ (.one hc h.1 h.2) ⟨t, rfl⟩
      rw [expand_of_ne_dollar whole group hdollar]
      cases t with
      | nil => simp [expand, hc, hone]
      | cons d t =>
        cases hd : Text.digitValue? d with
        | none => simp [expand, hc, hd, hone]
        | some n =>
          have htwo : ¬ (0 < 10 * m + n ∧ 10 * m + n ≤ count) := fun h =>
            hnone _ _ (.two hc hd h.1 h.2) ⟨t, rfl⟩
          rw [expand_of_ne_dollar whole group (ne_of_digitValue? hd).1,
            expand_digits whole group hc hd t, if_neg htwo, if_neg hone]

theorem expand_of_spells {ps : List Chunk} (h : Spells count t ps) :
    expand whole group count t = ps.flatMap (Chunk.value whole group) := by
  induction h with
  | nil => rfl
  | token hw hmax _ ih => rw [expand_reference whole group hw hmax, ih, List.flatMap_cons]
  | char hnone _ ih => rw [expand_char whole group hnone, ih]; rfl

/-- The template that stands for a text. -/
def escapeDollars (t : List Char) : List Char :=
  t.flatMap fun c => if c = '$' then ['$', '$'] else [c]

theorem expand_escapeDollars (t : List Char) :
    expand whole group count (escapeDollars t) = t := by
  induction t with
  | nil => rfl
  | cons c t ih =>
    by_cases hc : c = '$'
    · subst hc
      exact congrArg ('$' :: ·) ih
    · have hcons : escapeDollars (c :: t) = c :: escapeDollars t := by simp [escapeDollars, hc]
      rw [hcons, expand_of_ne_dollar whole group hc, ih]

/-! ## Matches -/

/-- The characters from `p` on with a text put in for each match. -/
def fillMatches (text : Array Char) (fill : Found → List Char) (p : Nat) :
    List Found → List Char
  | [] => textBetween text p text.size
  | f :: fs => textBetween text p f.start ++ fill f ++ fillMatches text fill f.stop fs

theorem replaceFrom_eq_fillMatches (c : Compiled) {text : Array Char} {fill : Found → List Char}
    (h : ∀ f, expand (f.text text) (f.group text) c.groupCount t = fill f) (p : Nat)
    (fs : List Found) : c.replaceFrom text t p fs = fillMatches text fill p fs := by
  induction fs generalizing p with
  | nil => rfl
  | cons f fs ih => rw [Compiled.replaceFrom, h, ih, fillMatches]

end Pattern

open Pattern

theorem PatternFn.call_replace {pattern : String} {c : Compiled}
    (hc : Pattern.parse pattern = .ok c) (s template : String) (σ : State) :
    ((Builtin.pattern .replace).call [.str s, .str pattern, .str template]).run σ =
      .ret (.str (c.replace s template)) σ := by
  have hread : (readPattern pattern).run σ = .ret c σ := by rw [readPattern, hc]; rfl
  have hrun : (PatternFn.run .replace [.str s, .str pattern, .str template]).run σ =
      ((readPattern pattern).run σ).bind fun c => .ret (.str (c.replace s template)) := rfl
  rw [hread] at hrun
  rw [Builtin.call, Proc.run_attempt_bind, Builtin.run, hrun]
  rfl

/-- A template has one reading for a number of groups. For every match of a pattern with so many
groups it expands to what the parts of the reading stand for one after another, and the template
that doubles the dollar signs of a text expands to the text. Replacing puts these in for the
matches. -/
theorem replace_reads_template_once (c : Compiled) (template : String) :
    ∃ ps, (∀ qs, Spells c.groupCount template.toList qs ↔ qs = ps) ∧
      (∀ (text : Array Char) (f : Found),
        expand (f.text text) (f.group text) c.groupCount template.toList =
          ps.flatMap (Chunk.value (f.text text) (f.group text)) ∧
        expand (f.text text) (f.group text) c.groupCount (escapeDollars template.toList) =
          template.toList) ∧
      ∀ (pattern s : String) (σ : State), Pattern.parse pattern = .ok c →
        ((Builtin.pattern .replace).call [.str s, .str pattern, .str template]).run σ =
          .ret (.str (String.ofList (fillMatches s.toList.toArray (fun f =>
            ps.flatMap (Chunk.value (f.text s.toList.toArray) (f.group s.toList.toArray))) 0
            (c.all s.toList.toArray)))) σ ∧
        ((Builtin.pattern .replace).call [.str s, .str pattern,
          .str (String.ofList (escapeDollars template.toList))]).run σ =
          .ret (.str (String.ofList (fillMatches s.toList.toArray (fun _ => template.toList) 0
            (c.all s.toList.toArray)))) σ := by
  have hne (w : List Char) (r : Chunk) (h : Written c.groupCount w r) : w ≠ [] := h.ne_nil
  obtain ⟨ps, hps⟩ := Text.exists_reading hne .char template.toList
  refine ⟨ps, fun qs => ⟨hps.unique hne fun w q r => Written.unique, fun h => h ▸ hps⟩,
    fun text f => ⟨?_, ?_⟩, fun pattern s σ hc => ⟨?_, ?_⟩⟩
  · exact expand_of_spells _ _ hps
  · exact expand_escapeDollars _ _ _
  · rw [PatternFn.call_replace hc, Compiled.replace,
      replaceFrom_eq_fillMatches c fun f => expand_of_spells _ _ hps]
  · rw [PatternFn.call_replace hc, Compiled.replace, String.toList_ofList,
      replaceFrom_eq_fillMatches c fun f => expand_escapeDollars _ _ _]

end Hantec
