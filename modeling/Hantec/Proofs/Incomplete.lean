import Hantec.Proofs.Concatenation

/-!
# Sources that break off

A source is incomplete exactly if its error is at the end. Then, and only then, there are more
lines with which it is a program. An error at any other token stays whatever follows.
-/

namespace Hantec

open Grammar

variable {source : String} {us : List Token} {z : Token}

/-- The tokens `us` and the end `z` are those of a source. They come first in whatever the source
goes on with in the next line, and there a comment may still be open. -/
structure TokensOf (source : String) (us : List Token) (z : Token) : Prop where
  tokens : tokenize source = .ok (us ++ [z])
  isEnd : IsEnd z
  spelled : ∀ u ∈ us, u.lexeme ≠ ""
  kind_ne_eof : ∀ u ∈ us, u.kind ≠ .eof
  more : ∃ isOpen : Bool, ∀ more : String, ∃ q, tokenize (source ++ "\n" ++ more) =
    (scanFrom (if isOpen then commentLength more.toList else 0) q more.toList).map (us ++ ·)

theorem exists_tokensOf {ts : List Token} (h : tokenize source = .ok ts) :
    ∃ us z, TokensOf source us z := by
  obtain ⟨us, z, rfl, hz, hus⟩ := tokenize_regular h
  obtain ⟨us', z', heq, isOpen, -, hopen⟩ := (scans_of_scanFrom h).append_line
  obtain ⟨rfl, -⟩ := List.append_inj' heq rfl
  refine ⟨us, z, h, ⟨congrArg Word.kind hz, congrArg Word.lexeme hz⟩, fun u hu hempty => ?_,
    fun u hu => (hus u hu).1.kind_ne_eof, isOpen,
    fun more => ⟨(source.toList ++ ['\n']).foldl Pos.next .start, ?_⟩⟩
  · obtain ⟨c, cs, hlexeme, -⟩ := (hus u hu).1.stands
    cases hlexeme.symm.trans (congrArg String.toList hempty)
  · simpa [tokenize] using hopen more.toList

/-- Words can be put into the next line, behind the end of a comment if one is open. -/
theorem TokensOf.exists_words (h : TokensOf source us z) {ws : List Word}
    (hws : ∀ w ∈ ws, w.Stands) :
    ∃ more vs z', tokenize (source ++ "\n" ++ more) = .ok (us ++ vs ++ [z']) ∧
      vs.map Token.word = ws := by
  obtain ⟨isOpen, hmore⟩ := h.more
  cases isOpen with
  | false =>
    obtain ⟨q, hq⟩ := hmore (textOf ws)
    obtain ⟨vs, z', hvs, -, hwords⟩ := scanFrom_textOf hws q
    refine ⟨textOf ws, vs, z', ?_, hwords⟩
    simpa [hvs, Except.map] using hq
  | true =>
    obtain ⟨q, hq⟩ := hmore ("*/" ++ textOf ws)
    have hclose : ("*/" ++ textOf ws).toList = '*' :: '/' :: (textOf ws).toList := by simp
    obtain ⟨vs, z', hvs, -, hwords⟩ := scanFrom_textOf hws ((q.next '*').next '/')
    refine ⟨"*/" ++ textOf ws, vs, z', ?_, hwords⟩
    rw [hq, hclose]
    simp only [if_true, commentLength, scanFrom, hvs, Except.map, List.append_assoc]

theorem Grammar.word_filler (k : TokenKind) : (filler k).word = fillerWord k := by
  unfold filler fillerWord
  split <;> simp_all [Token.word, Word.name, Word.fixed]

theorem Grammar.stands_fillerWord {k : TokenKind} (h : fills k = true) : (fillerWord k).Stands := by
  unfold fillerWord
  split
  case isTrue => exact Word.stands_name (by decide +kernel)
  case isFalse hk => exact Word.stands_fixed.2 (by simpa [fills, hk] using h)

/-- An error at the end can be repaired. -/
theorem TokensOf.exists_more (h : TokensOf source us z) {e : ParseError}
    (he : parseTokens (us ++ [z]) = .error (.wrong e)) (hlexeme : e.lexeme = "") :
    ∃ more p, parseProgram (source ++ "\n" ++ more) = .ok p := by
  obtain ⟨_, hp, -⟩ | ⟨_, t, ht, herror⟩ | ⟨_, -, ks, hks, p, hp⟩ :=
    parseTokens_cases h.isEnd.kind h.kind_ne_eof
  · cases hp.symm.trans he
  · cases herror.symm.trans he
    exact absurd hlexeme (h.spelled t ht)
  · have hstands : ∀ w ∈ ks.map fillerWord, w.Stands := by
      intro w hw
      obtain ⟨k, hk, rfl⟩ := List.mem_map.1 hw
      exact stands_fillerWord (List.all_eq_true.1 hks k hk)
    obtain ⟨more, vs, z', htokens, hwords⟩ := h.exists_words hstands
    obtain ⟨_, z'', heq, hz', hus'⟩ := tokenize_ends htokens
    obtain ⟨rfl, hlast⟩ := List.append_inj' heq rfl
    obtain rfl : z' = z'' := by simpa using hlast
    have hparse : parseTokens (us ++ ks.map filler ++ [z']) = .ok p :=
      parseTokens_complete ⟨_, z', rfl, hz', hp⟩
    have hsame : (us ++ ks.map filler ++ [z']).map Token.word =
        (us ++ vs ++ [z']).map Token.word := by
      simp [hwords, Function.comp_def, word_filler]
    -- The lines of the new tokens do not matter.
    obtain ⟨_, q, -, hq, -⟩ | ⟨e, _, herror, -⟩ :=
      parseTokens_of_words hz' hz' hp.kind_ne_eof hus' hsame
    · exact ⟨more, q, by simp only [parseProgram, htokens, hq]⟩
    · cases hparse.symm.trans herror

/-- Any other error stays, also if the end is at another place. -/
theorem TokensOf.error_more (h : TokensOf source us z) {z' : Token} (hz' : IsEnd z')
    {e : ParseError} (he : parseTokens (us ++ [z']) = .error (.wrong e)) (hlexeme : e.lexeme ≠ "")
    (more : String) (p : List Stmt) : parseProgram (source ++ "\n" ++ more) ≠ .ok p := by
  intro hp
  obtain ⟨ts, hts, -⟩ := program_of_parseProgram hp
  obtain ⟨isOpen, hmore⟩ := h.more
  obtain ⟨q, hq⟩ := hmore more
  rw [hts] at hq
  cases hscan : scanFrom (if isOpen then commentLength more.toList else 0) q more.toList with
  | error e' => simp [hscan, Except.map] at hq
  | ok vs =>
    simp only [hscan, Except.map, Except.ok.injEq] at hq
    have hvs : vs ≠ [] := by
      rintro rfl
      obtain ⟨us', t, hends, ht, -⟩ := tokenize_ends hts
      rw [List.append_nil] at hq
      exact h.kind_ne_eof t (by simp [← hq, hends]) ht
    have herror : parseTokens ts = .error (.wrong e) :=
      hq ▸ parseTokens_error_append hz' h.kind_ne_eof hvs hlexeme he
    simp only [parseProgram, hts, herror] at hp
    cases hp

/-- The test for an incomplete source is exact: the error of a source is at the end exactly if the
source is no program but some more lines make it one. -/
theorem error_at_end_iff {ts : List Token} (h : tokenize source = .ok ts) :
    (∃ e : ParseError, parseProgram source = .error (.parse e) ∧ e.lexeme = "") ↔
      (∃ e, parseProgram source = .error e) ∧
        ∃ more p, parseProgram (source ++ "\n" ++ more) = .ok p := by
  obtain ⟨us, z, hof⟩ := exists_tokensOf h
  have hparse : ∀ e, parseProgram source = .error e ↔
      ∃ e', e = .parse e' ∧ parseTokens (us ++ [z]) = .error (.wrong e') := by
    intro e
    simp only [parseProgram, hof.tokens]
    cases hres : parseTokens (us ++ [z]) with
    | ok p => simp
    | error halt =>
      obtain ⟨cause, t, -, rfl⟩ := wrong_of_parseTokens hres (tokenize_ends hof.tokens)
      simp [Halt.at, Halt.toError, eq_comm]
  constructor
  · rintro ⟨e, he, hlexeme⟩
    obtain ⟨e', heq, he'⟩ := (hparse _).1 he
    cases heq
    exact ⟨⟨_, he⟩, hof.exists_more he' hlexeme⟩
  · rintro ⟨⟨e, he⟩, more, p, hp⟩
    obtain ⟨e', rfl, he'⟩ := (hparse e).1 he
    refine ⟨e', he, Classical.byContradiction fun hlexeme => ?_⟩
    exact hof.error_more hof.isEnd he' hlexeme more p hp

-- The comment is still open, and so are the parentheses.
set_option maxRecDepth 10000 in
theorem error_at_end_iff_open_comment :
    ∃ ts, tokenize "vyblij(x /* y" = .ok ts ∧
      (∃ e : ParseError, parseProgram "vyblij(x /* y" = .error (.parse e) ∧ e.lexeme = "") ∧
      ∃ more p, parseProgram ("vyblij(x /* y" ++ "\n" ++ more) = .ok p := by
  have hts : tokenize "vyblij(x /* y" = .ok
      [⟨.vyblij, "vyblij", .none, 1, 1⟩, ⟨.leftParen, "(", .none, 1, 7⟩,
        ⟨.identifier, "x", .text "x", 1, 8⟩, ⟨.eof, "", .none, 1, 14⟩] := by rfl
  have herror :
      ∃ e : ParseError, parseProgram "vyblij(x /* y" = .error (.parse e) ∧ e.lexeme = "" := by
    refine ⟨⟨.expected "')'", "", 1, 14⟩, ?_, rfl⟩
    rw [parseProgram, hts]
    rfl
  exact ⟨_, hts, herror, ((error_at_end_iff hts).1 herror).2⟩

end Hantec
