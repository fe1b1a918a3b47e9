import Hantec.Proofs.Grammar.Reading
import Hantec.Proofs.Scan.Tiling

/-!
# Layout

The words of a source are all that matters. Written with a blank between them they are found again,
and sources with the same words are the same program up to its lines, or have the same error.
-/

namespace Hantec

open Grammar

variable {source : String} {ts ts' : List Token} {ws : List Word}

/-- The word of the end of a source. -/
def Word.last : Word := ⟨.eof, "", .none⟩

/-- A blank after the last word changes nothing. -/
theorem scanFrom_textOf_last (h : ∀ w ∈ ws, w.Stands) (p : Pos) :
    ∃ us z, scanFrom 0 p (textOf (ws ++ [.last])).toList = .ok (us ++ [z]) ∧
      us.map Token.word = ws := by
  induction ws generalizing p with
  | nil => exact ⟨[], _, rfl, rfl⟩
  | cons w ws ih =>
    obtain ⟨v, vs, hnext⟩ : ∃ v vs, ws ++ [Word.last] = v :: vs :=
      List.exists_cons_of_ne_nil (by simp)
    obtain ⟨t, q, ht, hscan⟩ :=
      (h w (by simp)).scanFrom (' ' :: (textOf (v :: vs)).toList) (by simp [IsBreak]) p
    obtain ⟨us, z, hrest, hus⟩ := ih (fun u hu => h u (by simp [hu])) (q.next ' ')
    have hblank : scanFrom 0 q (' ' :: (textOf (v :: vs)).toList) =
        scanFrom 0 (q.next ' ') (textOf (v :: vs)).toList := rfl
    refine ⟨t :: us, z, ?_, by simp [ht, hus]⟩
    rw [List.cons_append, hnext, toList_textOf_cons, hscan, hblank, ← hnext, hrest]
    rfl

/-- The words of a source, written with a blank between them, are found again, whether the end is
one of them or not. -/
theorem tokenize_words (h : tokenize source = .ok ts) {us : List Token}
    (hus : us ∈ [ts, ts.dropLast]) :
    ∃ vs, tokenize (textOf (us.map Token.word)) = .ok vs ∧
      vs.map Token.word = ts.map Token.word := by
  obtain ⟨front, z, rfl, hz, hregular⟩ := tokenize_regular h
  have hstands : ∀ w ∈ front.map Token.word, w.Stands := by
    intro w hw
    obtain ⟨u, hu, rfl⟩ := List.mem_map.mp hw
    exact (hregular u hu).1.stands
  have hfound : ∃ vs z', tokenize (textOf (us.map Token.word)) = .ok (vs ++ [z']) ∧
      vs.map Token.word = front.map Token.word := by
    simp only [List.dropLast_concat, List.mem_cons, List.not_mem_nil, or_false] at hus
    obtain rfl | rfl := hus
    · rw [List.map_append, List.map_singleton, hz]
      exact scanFrom_textOf_last hstands .start
    · obtain ⟨vs, z', htokens, -, hwords⟩ := tokenize_textOf hstands
      exact ⟨vs, z', htokens, hwords⟩
  obtain ⟨vs, z', htokens, hwords⟩ := hfound
  obtain ⟨vs', z'', heq, hlast, -⟩ := tokenize_regular htokens
  obtain ⟨-, hsame⟩ := List.append_inj' heq rfl
  obtain rfl : z' = z'' := by simpa using hsame
  exact ⟨vs ++ [z'], htokens, by simp [hwords, hlast, hz]⟩

/-- Only the words of a source matter. With single blanks between them, whether the end counts as
one of them or not, they are found again; and all sources with these words are equal programs up to
their lines, or have the same error at the same word. -/
theorem layout_insignificant (h : tokenize source = .ok ts) :
    (∀ us ∈ [ts, ts.dropLast], ∃ vs, tokenize (textOf (us.map Token.word)) = .ok vs ∧
      vs.map Token.word = ts.map Token.word) ∧
    ∀ source' ts', tokenize source' = .ok ts' → ts'.map Token.word = ts.map Token.word →
      (∃ p p', parseProgram source = .ok p ∧ parseProgram source' = .ok p' ∧
        unlinedBody p = unlinedBody p') ∨
      ∃ e e', parseProgram source = .error (.parse e) ∧
        parseProgram source' = .error (.parse e') ∧ e.cause.message = e'.cause.message ∧
        e.lexeme = e'.lexeme := by
  refine ⟨fun us hus => tokenize_words h hus, fun source' ts' h' hwords => ?_⟩
  obtain ⟨us, z, rfl, hz, hus⟩ := tokenize_ends h
  obtain ⟨us', z', rfl, hz', hus'⟩ := tokenize_ends h'
  obtain ⟨p, p', hp, hp', hsame⟩ | ⟨e, e', he, he', hcause, hlexeme⟩ :=
    parseTokens_of_words hz hz' hus hus' hwords.symm
  · exact .inl ⟨p, p', by simp only [parseProgram, h, hp], by simp only [parseProgram, h', hp'],
      hsame⟩
  · exact .inr ⟨e, e', by simp only [parseProgram, h, he, Halt.toError],
      by simp only [parseProgram, h', he', Halt.toError],
      congrArg _ hcause, hlexeme⟩

-- The same words with a comment and two line ends, and with single blanks.
set_option maxRecDepth 10000 in
theorem layout_insignificant_steps :
    ∃ ts ts', tokenize "x// up\n++piča\n" = .ok ts ∧ tokenize "x ++ piča" = .ok ts' ∧
      ts'.map Token.word = ts.map Token.word ∧
      textOf (ts.dropLast.map Token.word) = "x ++ piča" ∧
      ∃ p p', parseProgram "x// up\n++piča\n" = .ok p ∧ parseProgram "x ++ piča" = .ok p' ∧
        unlinedBody p = unlinedBody p' := by
  have hts : tokenize "x// up\n++piča\n" = .ok
      [⟨.identifier, "x", .text "x", 1, 1⟩, ⟨.plusPlus, "++", .none, 2, 1⟩,
        ⟨.pica, "piča", .none, 2, 3⟩, ⟨.eof, "", .none, 3, 1⟩] := by rfl
  have hts' : tokenize "x ++ piča" = .ok
      [⟨.identifier, "x", .text "x", 1, 1⟩, ⟨.plusPlus, "++", .none, 1, 3⟩,
        ⟨.pica, "piča", .none, 1, 6⟩, ⟨.eof, "", .none, 1, 10⟩] := by rfl
  have hparse : ∃ p, parseProgram "x ++ piča" = .ok p := by
    refine ⟨[.mk 1 (.expr (.step "x" .increment))], ?_⟩
    rw [parseProgram, hts']
    rfl
  refine ⟨_, _, hts, hts', rfl, rfl, ?_⟩
  obtain hok | ⟨e, e', -, he', -⟩ := (layout_insignificant hts).2 _ _ hts' rfl
  · exact hok
  · obtain ⟨p, hp⟩ := hparse
    rw [he'] at hp
    cases hp

end Hantec
