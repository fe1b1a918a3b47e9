import Hantec.Proofs.Scan.Tiling

/-!
# Errors of the scanner

The scanner has an error exactly if it comes to a character with which no piece starts. What stands
before that character has the tokens that were found in it, and what comes later does not change the
error, unless a quote or the second character of an operator is all that was missing.
-/

namespace Hantec

variable {p : Pos} {c : Char} {cs before rest : List Char} {us : List Token} {cause : LexCause}

namespace ScansTo

theorem eq_append (h : ScansTo p cs before us rest) : cs = before ++ rest := by
  induction h with
  | here => rfl
  | gap _ _ ih | token _ _ ih => rw [List.append_assoc, ← ih]

/-- What has been found does not depend on the rest, as long as this starts in the same way. -/
theorem congr {rest' : List Char} (h : ScansTo p cs before us rest) (hrest : rest ≠ [])
    (hhead : ∀ d ∈ rest'.head?, d ∈ rest.head?) (hdot : '.' ∉ rest'.head?) :
    ScansTo p (before ++ rest') before us rest' := by
  have hnext (front : List Char) :
      ∀ d ∈ (front ++ rest').head?, d = '\n' ∨ d ∈ (front ++ rest).head? := by
    cases front with
    | nil => exact fun d hd => .inr (hhead d hd)
    | cons e front => exact fun d hd => .inr hd
  induction h with
  | here => exact .here _ _
  | @gap p c cs before rest tail us hpiece hscans ih =>
    rw [List.append_assoc]
    refine .gap ?_ (ih hrest hhead hnext)
    obtain hsame | ⟨hnil, -⟩ := (scanPiece_gap hpiece).congr
    · exact (hsame _ (hscans.eq_append ▸ hnext before)).scanPiece_eq
    · rw [hscans.eq_append] at hnil
      exact absurd (List.append_eq_nil_iff.1 hnil).2 hrest
  | @token p c cs before rest tail us k lit hpiece hscans ih =>
    rw [List.append_assoc]
    refine .token ?_ (ih hrest hhead hnext)
    obtain rfl := hscans.eq_append
    refine ((scanPiece_token hpiece).congr (hnext before) ?_).scanPiece_eq
    rintro ⟨d, ds, heq, hd⟩
    -- The digit of the fraction lies before the rest, or it is the first character of it.
    rcases before with _ | ⟨e, _ | ⟨e', before⟩⟩
    · exact absurd (by rw [← List.nil_append rest', heq]; rfl) hdot
    · obtain ⟨rfl, rfl⟩ := List.cons.inj heq
      obtain ⟨rest, rfl⟩ := List.head?_eq_some_iff.1 (hhead d rfl)
      exact ⟨d, rest, rfl, hd⟩
    · cases heq
      exact ⟨d, before ++ rest, rfl, hd⟩

end ScansTo

theorem exists_scansTo_of_error {e : LexError} (h : scanFrom 0 p cs = .error e) :
    ∃ before us c rest, ScansTo p cs before us (c :: rest) ∧ e.pos = before.foldl Pos.next p ∧
      e.cause.Arises c rest := by
  obtain ⟨before, us, rest, hscans, hrest⟩ := exists_scansTo p cs
  cases rest with
  | nil =>
    rw [hscans.scans.scanFrom_eq] at h
    cases h
  | cons c rest =>
    obtain ⟨cause, hcause⟩ := hrest c rest rfl
    rw [hscans.scanFrom_error hcause] at h
    cases h
    exact ⟨before, us, c, rest, hscans, rfl, hcause⟩

/-- The reason stays if more characters follow, unless they are what was missing. -/
theorem LexCause.Arises.append {more : List Char} (h : cause.Arises c rest)
    (hquote : cause = .unterminated → '"' ∉ more)
    (hlone : cause = .lone c → rest = [] → more.head? ≠ some c) :
    cause.Arises c (rest ++ more) := by
  cases h with
  | unexpected hspecial hne hdigit hident => exact .unexpected hspecial hne hdigit hident
  | lone hc hhead =>
    refine .lone hc ?_
    cases rest with
    | nil => exact hlone rfl rfl
    | cons d rest => exact hhead
  | unterminated hrest => exact .unterminated (by simp [hrest, hquote rfl])

theorem LexCause.Arises.ne_dot (h : cause.Arises c rest) : c ≠ '.' := by
  cases h with
  | unexpected hspecial =>
    rintro rfl
    exact hspecial (by decide)
  | lone hc =>
    rintro rfl
    cases hc
  | unterminated => decide

theorem ScansTo.tokenize_append {source more : String}
    (h : ScansTo .start source.toList before us (c :: rest))
    (hcause : cause.Arises c (rest ++ more.toList)) :
    tokenize (source ++ more) = .error ⟨cause, before.foldl Pos.next .start⟩ := by
  have hdot : '.' ∉ (c :: (rest ++ more.toList)).head? := by simpa using hcause.ne_dot
  have hmore := h.congr (List.cons_ne_nil _ _) (by simp) hdot
  have hsource : (source ++ more).toList = before ++ c :: (rest ++ more.toList) := by
    rw [String.toList_append, h.eq_append, List.append_assoc]
    rfl
  rw [tokenize, hsource, hmore.scanFrom_error hcause]

/-- An error is there in more lines too, unless they end a text. -/
theorem tokenize_error_line {source : String} {e : LexError} (h : tokenize source = .error e)
    {more : String} (hquote : e.cause = .unterminated → '"' ∉ more.toList) :
    tokenize (source ++ "\n" ++ more) = .error e := by
  obtain ⟨cause, pos⟩ := e
  obtain ⟨before, us, c, rest, hscans, rfl, hcause⟩ := exists_scansTo_of_error h
  rw [String.append_assoc]
  refine hscans.tokenize_append (hcause.append (fun heq => ?_) fun heq _ => ?_)
  · simpa using hquote heq
  · cases hcause with
    | unexpected => cases heq
    | lone hc =>
      have hne : c ≠ '\n' := fun hline => by simp [hline, isDoubledOnly] at hc
      simpa using hne.symm
    | unterminated => cases heq

/-- Errors of the scanner are exact. At its offset, which its place stands for, the source has a
character that starts nothing, half of an operator or a quote that is not closed. The characters
before it have the tokens that were found in them, and the error stays if characters are added,
unless it is a quote that is not closed or half of an operator at the end. Whenever the scanner
meets such a character, it has the error, and a source in which it meets none has tokens. -/
theorem scan_errors_exact (source : String) :
    (∀ e, tokenize source = .error e → ∃ before us c rest, source.toList = before ++ c :: rest ∧
      e.pos = ⟨before.count '\n' + 1, (before.reverse.takeWhile (· != '\n')).length + 1⟩ ∧
      ScansTo .start source.toList before us (c :: rest) ∧
      tokenize (String.ofList before) =
        .ok (us ++ [⟨.eof, "", .none, e.pos.line, e.pos.column⟩]) ∧
      e.cause.Arises c rest ∧
      (e.cause ≠ .unterminated → (e.cause = .lone c → rest ≠ []) →
        ∀ more : String, tokenize (source ++ more) = .error e)) ∧
    (∀ before us c rest (cause : LexCause), ScansTo .start source.toList before us (c :: rest) →
      cause.Arises c rest → tokenize source = .error
        ⟨cause, before.count '\n' + 1, (before.reverse.takeWhile (· != '\n')).length + 1⟩) ∧
    ((∀ before us c rest, ScansTo .start source.toList before us (c :: rest) →
      ∀ cause : LexCause, ¬cause.Arises c rest) → ∃ ts, tokenize source = .ok ts) := by
  refine ⟨fun e he => ?_, fun before us c rest cause hscans hcause => ?_, fun hnone => ?_⟩
  · obtain ⟨before, us, c, rest, hscans, hpos, hcause⟩ := exists_scansTo_of_error he
    refine ⟨before, us, c, rest, hscans.eq_append, hpos.trans (foldl_next_start before),
      hscans, ?_, hcause, fun hquote hlone more => ?_⟩
    · have hbefore : ScansTo .start (before ++ []) before us [] :=
        hscans.congr (List.cons_ne_nil _ _) (by simp) (by simp)
      rw [List.append_nil] at hbefore
      rw [tokenize, String.toList_ofList, hpos, hbefore.scans.scanFrom_eq]
    · have hmore : e.cause.Arises c (rest ++ more.toList) :=
        hcause.append (fun h => absurd h hquote) fun h hnil => absurd hnil (hlone h)
      rw [hscans.tokenize_append hmore, ← hpos]
  · rw [tokenize, hscans.scanFrom_error hcause, foldl_next_start]
  · cases h : tokenize source with
    | ok ts => exact ⟨ts, rfl⟩
    | error e =>
      obtain ⟨before, us, c, rest, hscans, -, hcause⟩ := exists_scansTo_of_error h
      exact absurd hcause (hnone before us c rest hscans e.cause)

end Hantec
