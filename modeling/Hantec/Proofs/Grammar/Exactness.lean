import Hantec.Proofs.Grammar.Completeness
import Hantec.Proofs.Scan.Pieces

/-!
# The parser is exact

For the tokens of a source, the parser yields a program exactly if the grammar has it. The grammar
has at most one, and where it has none the parser refuses the tokens.
-/

namespace Hantec

open Grammar

variable {ts us : List Token} {p : List Stmt}

/-- The end is the last token and the only one of its kind. -/
def EndsOnce (ts : List Token) : Prop :=
  ∃ us t, ts = us ++ [t] ∧ t.kind = .eof ∧ ∀ u ∈ us, u.kind ≠ .eof

/-- Every program that the parser yields is one of the grammar. -/
theorem program_of_parseTokens (h : parseTokens ts = .ok p) (hts : EndsOnce ts) : Program ts p := by
  obtain ⟨us, z, rfl, hz, hus⟩ := hts
  obtain ⟨q, hq, hphrase⟩ | ⟨_, _, -, he⟩ | ⟨_, he, -⟩ := parseTokens_cases hz hus
  · cases hq.symm.trans h
    exact ⟨us, z, rfl, hz, hphrase⟩
  · cases he.symm.trans h
  · cases he.symm.trans h

/-- The parser never stops for want of a token or of a larger bound. -/
theorem wrong_of_parseTokens {halt : Halt} (h : parseTokens ts = .error halt) (hts : EndsOnce ts) :
    ∃ cause, ∃ t ∈ ts, halt = .at cause t := by
  obtain ⟨us, z, rfl, hz, hus⟩ := hts
  obtain ⟨p, hp, -⟩ | ⟨cause, t, ht, he⟩ | ⟨cause, he, -⟩ := parseTokens_cases hz hus
  · cases hp.symm.trans h
  · exact ⟨cause, t, by simp [ht], Except.error.inj (h.symm.trans he)⟩
  · exact ⟨cause, z, by simp, Except.error.inj (h.symm.trans he)⟩

/-- A program that was read is one of the grammar. -/
theorem program_of_parseProgram {source : String} (h : parseProgram source = .ok p) :
    ∃ ts, tokenize source = .ok ts ∧ Program ts p := by
  unfold parseProgram at h
  split at h
  case h_1 => cases h
  case h_2 ts hts =>
    split at h
    case h_1 => cases h
    case h_2 q hq =>
      cases h
      exact ⟨ts, hts, program_of_parseTokens hq (tokenize_ends hts)⟩

/-- A program that was read is a phrase of regular words in lines. -/
theorem exists_phrase_of_parseProgram {source : String} (h : parseProgram source = .ok p) :
    ∃ us, Phrase .declarations us p ∧ ∀ u ∈ us, u.word.Regular ∧ 0 < u.line := by
  obtain ⟨ts, hts, us, z, rfl, -, hphrase⟩ := program_of_parseProgram h
  obtain ⟨vs, z', heq, -, hregular⟩ := tokenize_regular hts
  obtain ⟨rfl, -⟩ := List.append_inj' heq rfl
  exact ⟨us, hphrase, hregular⟩

/-- The parser yields every program of the grammar. -/
theorem parseTokens_complete (h : Program ts p) : parseTokens ts = .ok p := by
  obtain ⟨us, z, rfl, hz, hp⟩ := h
  obtain ⟨m, hm⟩ := hp.parsed.2 z [] hz
  let n := 16 * (us ++ [z]).length + 16
  let c : Cursor := ⟨(us ++ [z]).toArray, 0⟩
  have hmax := hm (max m n) (Nat.le_max_left m n) c rfl
  -- The bound of the parser is enough, so it makes no difference to a larger one.
  obtain ⟨q, as, vs, -, -, hq⟩ | ⟨cause, t, -, he⟩ := Sources.runs_beside (c := c)
    (Q := Sources.Yields .declarations) hz relinedBody_id (fun _ =>
      ((Sources.readsAt _ n).declarations us (by simp [n]; omega)).mono fun _ _ _ h => h.1) rfl
  · obtain ⟨rfl, -⟩ := Prod.mk.inj (Except.ok.inj ((hq _ (Nat.le_max_right m n)).symm.trans hmax))
    rw [Sources.parseTokens_eq, hq n (Nat.le_refl n)]
    rfl
  · cases (he _ (Nat.le_max_right m n)).symm.trans hmax

/-- The parser is exact: a program comes out exactly if the grammar has it as a tree of the
tokens. There is never a second tree, and tokens that have none are refused. -/
theorem parseTokens_exact {source : String} (h : tokenize source = .ok ts) :
    (∀ p, parseTokens ts = .ok p ↔ Program ts p) ∧
    (∀ p q, Program ts p → Program ts q → p = q) ∧
    ((¬∃ p, Program ts p) → ∃ e : ParseError, parseTokens ts = .error (.wrong e)) := by
  have hiff : ∀ p, parseTokens ts = .ok p ↔ Program ts p := fun p =>
    ⟨fun hp => program_of_parseTokens hp (tokenize_ends h), parseTokens_complete⟩
  refine ⟨hiff, fun p q hp hq => ?_, fun hnone => ?_⟩
  · rw [← hiff] at hp hq
    exact Except.ok.inj (hp.symm.trans hq)
  · cases hres : parseTokens ts with
    | error halt =>
      obtain ⟨cause, t, -, rfl⟩ := wrong_of_parseTokens hres (tokenize_ends h)
      exact ⟨.at cause t, rfl⟩
    | ok p => exact absurd ⟨p, (hiff p).1 hres⟩ hnone

-- A name in parentheses may be assigned to, and the tree does not show the parentheses.
set_option maxRecDepth 10000 in
theorem parseTokens_exact_parenthesised :
    ∃ ts, tokenize "(x) = y piča" = .ok ts ∧
      Program ts [.mk 1 (.expr (.assign "x" (.variable "y")))] ∧
      ∀ p q, Program ts p → Program ts q → p = q := by
  have hts : tokenize "(x) = y piča" = .ok
      [⟨.leftParen, "(", .none, 1, 1⟩, ⟨.identifier, "x", .text "x", 1, 2⟩,
        ⟨.rightParen, ")", .none, 1, 3⟩, ⟨.equal, "=", .none, 1, 5⟩,
        ⟨.identifier, "y", .text "y", 1, 7⟩, ⟨.pica, "piča", .none, 1, 9⟩,
        ⟨.eof, "", .none, 1, 13⟩] := by rfl
  obtain ⟨hiff, huniq, -⟩ := parseTokens_exact hts
  exact ⟨_, hts, (hiff _).1 (by rfl), huniq⟩

end Hantec
