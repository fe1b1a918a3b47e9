import Hantec.Proofs.Grammar.Exactness

/-!
# Lines of statements

A statement has the line of its first token. Lines are counted from one on, so no statement of a
program that was read is without a line.
-/

namespace Hantec

open Grammar

variable {ts : List Token} {s : Stmt} {p : List Stmt}

theorem Grammar.Phrase.line_statement (h : Phrase .statement ts s) : s.line = firstLine ts := by
  cases h with
  | exprStmt he =>
    obtain ⟨t, ts, rfl, -⟩ := he.exists_first rfl
    rfl
  | _ => rfl

theorem Grammar.Phrase.line_declaration (h : Phrase .declaration ts s) : s.line = firstLine ts := by
  cases h with
  | letDecl h => cases h <;> rfl
  | define => rfl
  | statement h => exact h.line_statement

/-- Each of the declarations has the line of one of the tokens. -/
theorem Grammar.Phrase.line_declarations (h : Phrase .declarations ts p) :
    ∀ s ∈ p, ∃ t ∈ ts, s.line = t.line := by
  induction p generalizing ts with
  | nil => simp
  | cons s p ih =>
    cases h with
    | nextDeclaration hd hp =>
      obtain ⟨t, us, rfl, -⟩ := hd.exists_first rfl
      intro u hu
      obtain rfl | hu := List.mem_cons.1 hu
      · exact ⟨t, by simp, hd.line_declaration⟩
      · obtain ⟨v, hv, hline⟩ := ih hp u hu
        exact ⟨v, by simp [hv], hline⟩

/-- Every statement of a program that was read has a line. -/
theorem line_ne_zero_of_parseProgram {source : String} (h : parseProgram source = .ok p) :
    ∀ s ∈ p, s.line ≠ 0 := by
  obtain ⟨us, hphrase, hregular⟩ := exists_phrase_of_parseProgram h
  intro s hs
  obtain ⟨u, hu, hline⟩ := hphrase.line_declarations s hs
  have hpos := (hregular u hu).2
  omega

end Hantec
