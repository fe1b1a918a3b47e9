import Hantec.Cli.Prompt
import Hantec.Proofs.Incomplete
import Hantec.Proofs.Scan.Errors
import Mathlib.Data.List.Induction

/-!
# Entries of several lines

The prompt keeps the lines of an entry until the last one is there, unless a line that looks like
the end of an entry stands inside of a text.
-/

namespace Hantec

variable {source more : String} {program : List Stmt}

/-- A line end behind a source changes no token of it. -/
theorem TokensOf.line {us : List Token} {z : Token} (h : TokensOf source us z) :
    ∃ z', Grammar.IsEnd z' ∧ tokenize (source ++ "\n") = .ok (us ++ [z']) := by
  obtain ⟨isOpen, hmore⟩ := h.more
  obtain ⟨q, hq⟩ := hmore ""
  refine ⟨⟨.eof, "", .none, q.line, q.column⟩, ⟨rfl, rfl⟩, ?_⟩
  rw [String.append_empty] at hq
  rw [hq]
  cases isOpen <;> rfl

theorem parseProgram_line (h : parseProgram source = .ok program) :
    parseProgram (source ++ "\n") = .ok program := by
  obtain ⟨ts, hts, us, t, rfl, -, hphrase⟩ := program_of_parseProgram h
  obtain ⟨us', z, hof⟩ := exists_tokensOf hts
  obtain ⟨rfl, -⟩ := List.append_inj' (Except.ok.inj (hof.tokens.symm.trans hts)) rfl
  obtain ⟨z', hz', htokens⟩ := hof.line
  have hparse := parseTokens_complete ⟨us', z', rfl, hz'.kind, hphrase⟩
  simp only [parseProgram, htokens, hparse]

/-- The first lines of a program are incomplete, unless they are a program themselves or end
inside of a text. -/
theorem isIncomplete_of_parseProgram (h : parseProgram (source ++ "\n" ++ more) = .ok program)
    (hnone : ∀ q, parseProgram (source ++ "\n") ≠ .ok q)
    (htext : ∀ place, tokenize (source ++ "\n") ≠ .error ⟨.unterminated, place⟩) :
    ∃ e, parseProgram (source ++ "\n") = .error e ∧ e.isIncomplete = true := by
  cases hts : tokenize source with
  | error e =>
    by_cases hquote : e.cause = .unterminated
    · have hline : tokenize (source ++ "\n" ++ "") = .error e := tokenize_error_line hts (by simp)
      rw [String.append_empty] at hline
      exact absurd (hquote ▸ hline) (htext e.pos)
    · obtain ⟨ts, hall, -⟩ := program_of_parseProgram h
      cases hall.symm.trans (tokenize_error_line hts fun heq => absurd heq hquote)
  | ok ts =>
    obtain ⟨us, z, hof⟩ := exists_tokensOf hts
    obtain ⟨z', hz', htokens⟩ := hof.line
    cases hparse : parseTokens (us ++ [z']) with
    | ok q => exact absurd (by simp only [parseProgram, htokens, hparse]) (hnone q)
    | error halt =>
      obtain ⟨cause, t, -, rfl⟩ := wrong_of_parseTokens hparse (tokenize_ends htokens)
      refine ⟨.parse (.at cause t), by simp only [parseProgram, htokens, hparse]; rfl, ?_⟩
      have hlexeme : (ParseError.at cause t).lexeme = "" :=
        Classical.byContradiction fun hne => hof.error_more hz' hparse hne more program h
      simp [SourceError.isIncomplete, hlexeme]

namespace Cli

/-! ## Lines -/

theorem join_linesFrom (line cs : List Char) :
    String.join (linesFrom line cs) = String.ofList (line.reverse ++ cs) := by
  fun_induction linesFrom line cs with
  | case1 line h => simp_all
  | case2 line h => simp
  | case3 line cs ih => simp [ih, String.append_assoc]
  | case4 line c cs h ih => simp [ih]

theorem join_lines (source : String) : String.join (lines source) = source := by
  simp [lines, join_linesFrom]

/-- All lines but the last one have a line end. -/
theorem mem_dropLast_linesFrom {line cs : List Char} {x : String}
    (hx : x ∈ (linesFrom line cs).dropLast) : ∃ y, x = y ++ "\n" := by
  fun_induction linesFrom line cs with
  | case1 line h => simp at hx
  | case2 line h => simp at hx
  | case3 line cs ih =>
    cases htail : linesFrom [] cs with
    | nil => simp [htail] at hx
    | cons y ys =>
      rw [htail, List.dropLast_cons_cons, List.mem_cons] at hx
      obtain rfl | hx := hx
      · exact ⟨String.ofList line.reverse, by simp⟩
      · exact ih (htail ▸ hx)
  | case4 line c cs h ih => exact ih hx

theorem endsWith_line (x : String) : (x ++ "\n").endsWith "\n" = true := by
  rw [String.endsWith_eq_endsWith_toSlice, String.Slice.endsWith_string_iff]
  simp

/-! ## The prompt -/

/-- The state when `n` lines have been asked for. -/
def asked (n : Nat) (s : State) : State :=
  { s with world := { s.world with output := s.world.output ++ Array.replicate n promptText } }

namespace Prompt

/-- How it goes on with the next lines, unless there is a failure. -/
def resume (limit : Nat) (more : List String) :
    Option Failure × Prompt → Option (Option Failure × Prompt)
  | (none, p) => p.run limit more
  | r => some r

variable {limit : Nat} {p : Prompt} {s : State} {buffer : String} {reports : Array String}

theorem run_cons (limit : Nat) (p : Prompt) (line : String) (more : List String) :
    p.run limit (line :: more) =
      ((p.print promptText).feed limit line).bind (resume limit more) := by
  rw [run]
  rcases (p.print promptText).feed limit line with _ | ⟨_ | f, q⟩ <;> rfl

theorem feed_of_parse {line : String} (hline : endsEntry line = true)
    (hparse : parseProgram (buffer ++ if line.endsWith "\n" then line else line ++ "\n") =
      .ok program) :
    feed limit ⟨s, buffer, reports⟩ line = (s.run limit program).map (ran ⟨s, "", reports⟩) := by
  simp only [feed, hline, hparse]
  rfl

/-- A line stays in the buffer if it does not end an entry, or the entry is incomplete. -/
theorem feed_line {x : String} (hopen : endsEntry (x ++ "\n") = true →
      ∃ e, parseProgram (buffer ++ (x ++ "\n")) = .error e ∧ e.isIncomplete = true) :
    feed limit ⟨s, buffer, reports⟩ (x ++ "\n") =
      some (none, ⟨s, buffer ++ (x ++ "\n"), reports⟩) := by
  simp only [feed, endsWith_line, if_true]
  cases hends : endsEntry (x ++ "\n") with
  | false => rfl
  | true =>
    obtain ⟨e, herror, hincomplete⟩ := hopen hends
    simp [herror, hincomplete]

theorem print_asked (n : Nat) :
    print ⟨asked n s, buffer, reports⟩ promptText = ⟨asked (n + 1) s, buffer, reports⟩ := by
  simp [print, asked, World.print, Array.replicate_succ]

/-- The lines before the last one are kept. -/
theorem run_front {front ls : List String} (limit : Nat) (hstart : p.buffer = "")
    (hls : ls <+: front) (hlines : ∀ x ∈ front, ∃ y, x = y ++ "\n")
    (hopen : ∀ ls x, ls ++ [x] <+: front → endsEntry x = true →
      ∃ e, parseProgram (String.join (ls ++ [x])) = .error e ∧ e.isIncomplete = true)
    (more : List String) :
    p.run limit (ls ++ more) =
      run limit ⟨asked ls.length p.state, String.join ls, p.reports⟩ more := by
  induction ls using List.reverseRecOn generalizing more with
  | nil =>
    obtain ⟨s, buffer, reports⟩ := p
    cases hstart
    simp [asked]
  | append_singleton ls x ih =>
    obtain ⟨y, rfl⟩ := hlines x (hls.subset (by simp))
    rw [List.append_assoc, ih ((List.prefix_append _ _).trans hls), List.singleton_append,
      run_cons, print_asked, feed_line]
    · simp [resume]
    · intro hends
      simpa using hopen ls _ hls hends

/-- An entry of several lines is run when its last line is there. Let an entry be able to end with
the last line of a program, and let the lines up to an earlier one with which it could end be no
program and not end inside of a text. Then the lines before the last one are kept, and nothing is
run or reported. With the last one the statements of the program are run, once. -/
theorem entry_run_once {front : List String} {last : String} (limit : Nat) (p : Prompt)
    (hstart : p.buffer = "") (hlines : lines source = front ++ [last])
    (hparse : parseProgram source = .ok program) (hlast : endsEntry last = true)
    (hfront : ∀ ls x, ls ++ [x] <+: front → endsEntry x = true →
      (∀ q, parseProgram (String.join (ls ++ [x])) ≠ .ok q) ∧
      ∀ place, tokenize (String.join (ls ++ [x])) ≠ .error ⟨.unterminated, place⟩) :
    (∀ ls, ls <+: front → ∀ more, p.run limit (ls ++ more) =
      run limit ⟨asked ls.length p.state, String.join ls, p.reports⟩ more) ∧
    ∀ more, p.run limit (lines source ++ more) =
      let s := asked (lines source).length p.state
      ((s.run limit program).map (ran ⟨s, "", p.reports⟩)).bind (resume limit more) := by
  have hends : ∀ x ∈ front, ∃ y, x = y ++ "\n" := by
    intro x hx
    have hdrop : (lines source).dropLast = front := by simp [hlines]
    rw [← hdrop] at hx
    exact mem_dropLast_linesFrom hx
  have hopen : ∀ ls x, ls ++ [x] <+: front → endsEntry x = true →
      ∃ e, parseProgram (String.join (ls ++ [x])) = .error e ∧ e.isIncomplete = true := by
    rintro ls x ⟨rest, hrest⟩ hx
    obtain ⟨y, rfl⟩ := hends x (by simp [← hrest])
    obtain ⟨hnone, htext⟩ := hfront ls _ ⟨rest, hrest⟩ hx
    have hsource : source = String.join ls ++ y ++ "\n" ++ String.join (rest ++ [last]) := by
      rw [← join_lines source, hlines, ← hrest]
      simp [String.append_assoc]
    have hjoin : String.join (ls ++ [y ++ "\n"]) = String.join ls ++ y ++ "\n" := by
      simp [String.append_assoc]
    rw [hjoin] at hnone htext ⊢
    exact isIncomplete_of_parseProgram (hsource ▸ hparse) hnone htext
  have hkept (ls) (hls : ls <+: front) := run_front limit hstart hls hends hopen
  refine ⟨hkept, fun more => ?_⟩
  have hall : parseProgram (String.join front ++
      if last.endsWith "\n" then last else last ++ "\n") = .ok program := by
    have hsource : String.join front ++ last = source := by
      rw [← join_lines source, hlines]
      simp
    split
    · rwa [hsource]
    · rw [← String.append_assoc, hsource]
      exact parseProgram_line hparse
  rw [hlines, List.append_assoc, hkept front (List.prefix_refl _), List.singleton_append, run_cons,
    print_asked, feed_of_parse hlast hall, List.length_append, List.length_singleton]

/-- A session in which nothing has happened. -/
def quiet : State :=
  ⟨⟨.absent, true, 0, false, []⟩, .initial, ⟨#[], ⟨[], []⟩, ⟨[], []⟩, [], 0, 0⟩, none, false⟩

-- The first line ends with a brace, but in a comment; the second one ends the inner block only.
theorem entry_run_once_blocks :
    let source := "esli (x) \x7b // \x7d\n\x7b \x7d\n\x7d"
    ∃ front last program, lines source = front ++ [last] ∧ parseProgram source = .ok program ∧
      endsEntry last = true ∧ (start quiet).run 9 (lines source ++ []) =
        let s := asked (lines source).length quiet
        ((s.run 9 program).map (ran (start s))).bind (resume 9 []) := by
  intro source
  have hlines : lines source = ["esli (x) \x7b // \x7d\n", "\x7b \x7d\n"] ++ ["\x7d"] := by
    decide +kernel
  have hparse : (parseProgram source).toOption.isSome = true := by decide +kernel
  obtain ⟨program, hprogram⟩ := Option.isSome_iff_exists.1 hparse
  replace hparse : parseProgram source = .ok program := by
    cases hall : parseProgram source <;> simp_all [Except.toOption]
  have hlast : endsEntry "\x7d" = true := by decide +kernel
  refine ⟨_, _, program, hlines, hparse, hlast,
    (entry_run_once 9 (start quiet) rfl hlines hparse hlast ?_).2 []⟩
  rintro ls x ⟨rest, hrest⟩ -
  have hopen : ∀ text ∈ ["esli (x) \x7b // \x7d\n", "esli (x) \x7b // \x7d\n\x7b \x7d\n"],
      (parseProgram text).toOption.isSome = false ∧ (tokenize text).toOption.isSome = true := by
    decide +kernel
  have hmem : String.join (ls ++ [x]) ∈
      ["esli (x) \x7b // \x7d\n", "esli (x) \x7b // \x7d\n\x7b \x7d\n"] := by
    rcases ls with _ | ⟨y, _ | ⟨z, ls⟩⟩
    · obtain ⟨rfl, -⟩ := List.cons.inj hrest
      exact .head _
    · simp at hrest
      simp [hrest]
    · simp at hrest
  obtain ⟨hnone, htokens⟩ := hopen _ hmem
  refine ⟨fun q hq => ?_, fun place hplace => ?_⟩
  · rw [hq] at hnone
    cases hnone
  · rw [hplace] at htokens
    cases htokens

/-- A line inside of a text can look like the end of an entry. -/
theorem brace_in_text_reported :
    let source := "vyblij(\"a \x7d\nb\") piča\n"
    (parseProgram source).toOption.isSome = true ∧
      lines source = ["vyblij(\"a \x7d\n", "b\") piča\n"] ∧ endsEntry "b\") piča\n" = true ∧
      (parseProgram "vyblij(\"a \x7d\n").toOption.isSome = false ∧
      ((start quiet).run 9 ["vyblij(\"a \x7d\n"]).map (·.2.reports) =
        some #["[LEX] unterminated string literal at 1:8\n"] := by
  decide +kernel

end Prompt

end Cli

end Hantec
