import Hantec.Proofs.Print.Words

/-!
# Tokens tile the source

The tokens of a source stand in it one after the other, each at the place that it remembers, and
between them there are only blanks and comments.
-/

namespace Hantec

/-! ## Places -/

/-- The token starts after the given characters: its line is one more than their line ends, its
column one more than the characters since the last of these. -/
structure Token.StartsAfter (t : Token) (before : List Char) : Prop where
  line : t.line = before.count '\n' + 1
  column : t.column = (before.reverse.takeWhile (· != '\n')).length + 1

/-- The place that the scanner has reached after the given characters. -/
theorem foldl_next_start (cs : List Char) : cs.foldl Pos.next .start =
    ⟨cs.count '\n' + 1, (cs.reverse.takeWhile (· != '\n')).length + 1⟩ := by
  have hreversed (ds : List Char) : ds.foldr (fun c (p : Pos) => p.next c) Pos.start =
      ⟨ds.count '\n' + 1, (ds.takeWhile (· != '\n')).length + 1⟩ := by
    induction ds with
    | nil => rfl
    | cons d ds ih =>
      rw [List.foldr_cons, ih]
      by_cases hd : d = '\n'
      · simp [Pos.next, hd]
      · simp [Pos.next, hd]
  rw [← List.foldr_reverse, hreversed, List.count_reverse]

theorem startsAfter_foldl (k : TokenKind) (s : String) (lit : TokenLiteral) (before : List Char) :
    Token.StartsAfter ⟨k, s, lit, (before.foldl Pos.next .start).line,
      (before.foldl Pos.next .start).column⟩ before := by
  rw [foldl_next_start]
  exact ⟨rfl, rfl⟩

/-! ## Gaps -/

/-- What may stand before a token: blanks, comments up to the end of the line and comments that
are closed. -/
inductive Gap : List Char → Prop where
  | nil : Gap []
  | blank {c : Char} {cs : List Char} : isGap c = true → Gap cs → Gap (c :: cs)
  | line {text cs : List Char} :
      '\n' ∉ text → Gap cs → Gap ('/' :: '/' :: (text ++ '\n' :: cs))
  | block {text cs : List Char} :
      ¬HasCommentEnd (text ++ ['*']) → Gap cs → Gap ('/' :: '*' :: (text ++ '*' :: '/' :: cs))

/-- What may stand after the last token: a gap, perhaps with a comment that nothing ends but the
end of the source. -/
inductive FinalGap : List Char → Prop where
  | closed {cs : List Char} : Gap cs → FinalGap cs
  | line {cs text : List Char} : Gap cs → '\n' ∉ text → FinalGap (cs ++ '/' :: '/' :: text)
  | openBlock {cs text : List Char} :
      Gap cs → ¬HasCommentEnd text → FinalGap (cs ++ '/' :: '*' :: text)

variable {gap cs rest before : List Char}

theorem Gap.append (h : Gap gap) (h' : Gap cs) : Gap (gap ++ cs) := by
  induction h with
  | nil => exact h'
  | blank hc _ ih => exact .blank hc ih
  | line htext _ ih => simpa using Gap.line htext ih
  | block htext _ ih => simpa using Gap.block htext ih

theorem Gap.append_final (h : Gap gap) (h' : FinalGap cs) : FinalGap (gap ++ cs) := by
  cases h' with
  | closed hcs => exact .closed (h.append hcs)
  | line hcs htext => exact List.append_assoc _ _ _ ▸ .line (h.append hcs) htext
  | openBlock hcs htext => exact List.append_assoc _ _ _ ▸ .openBlock (h.append hcs) htext

/-! ## Tiles -/

/-- What is known of a token from its spelling. -/
structure Token.WellSpelled (t : Token) : Prop where
  start : ∃ c cs, t.lexeme.toList = c :: cs ∧ isGap c = false
  regular : t.word.Regular

/-- The characters `rest`, before which others stand, are laid out with the tokens. -/
inductive Tiled : List Char → List Char → List Token → Prop where
  | last {before gap : List Char} {z : Token} :
      FinalGap gap → z.word = ⟨.eof, "", .none⟩ → z.StartsAfter (before ++ gap) →
      Tiled before gap [z]
  | tile {before gap rest : List Char} {t : Token} {ts : List Token} :
      Gap gap → t.WellSpelled → t.StartsAfter (before ++ gap) →
      Tiled (before ++ gap ++ t.lexeme.toList) rest ts →
      Tiled before (gap ++ (t.lexeme.toList ++ rest)) (t :: ts)

variable {ts : List Token}

/-- A gap grows at its front. -/
theorem Tiled.prepend (hgap : Gap gap) (h : Tiled (before ++ gap) rest ts) :
    Tiled before (gap ++ rest) ts := by
  cases h with
  | last hlast hz hplace =>
    exact .last (hgap.append_final hlast) hz (by rwa [← List.append_assoc])
  | tile hnext ht hplace hrest =>
    rw [← List.append_assoc]
    refine .tile (hgap.append hnext) ht ?_ ?_
    · rwa [← List.append_assoc]
    · rwa [← List.append_assoc before]

theorem Gap.of_line (h : Gap ('\n' :: cs)) : Gap cs := by
  cases h with
  | blank _ hcs => exact hcs

theorem FinalGap.of_line (h : FinalGap ('\n' :: cs)) : FinalGap cs := by
  generalize hall : '\n' :: cs = all at h
  cases h with
  | closed hcs => exact .closed (hall ▸ hcs).of_line
  | @line gap text hgap htext =>
    cases gap with
    | nil => cases hall
    | cons c gap =>
      obtain ⟨rfl, rfl⟩ := List.cons.inj hall
      exact .line hgap.of_line htext
  | @openBlock gap text hgap htext =>
    cases gap with
    | nil => cases hall
    | cons c gap =>
      obtain ⟨rfl, rfl⟩ := List.cons.inj hall
      exact .openBlock hgap.of_line htext

/-- A line end that comes next belongs to a gap. -/
theorem Tiled.of_line (h : Tiled before ('\n' :: rest) ts) : Tiled (before ++ ['\n']) rest ts := by
  generalize hall : '\n' :: rest = all at h
  cases h with
  | last hlast hz hplace =>
    subst hall
    exact .last hlast.of_line hz (by simpa using hplace)
  | @tile _ gap _ t _ hgap ht hplace hrest =>
    cases gap with
    | nil =>
      obtain ⟨c, cs, hlexeme, hc⟩ := ht.start
      rw [hlexeme] at hall
      obtain ⟨rfl, -⟩ := List.cons.inj hall
      cases hc
    | cons c gap =>
      obtain ⟨rfl, rfl⟩ := List.cons.inj hall
      exact .tile hgap.of_line ht (by simpa using hplace) (by simpa using hrest)

/-- At the end of the source, the gap is the last one. -/
theorem Tiled.of_final (hgap : FinalGap gap) (h : Tiled (before ++ gap) [] ts) :
    Tiled before gap ts := by
  generalize hnil : [] = all at h
  cases h with
  | last _ hz hplace =>
    subst hnil
    exact .last hgap hz (by simpa using hplace)
  | tile _ ht _ _ =>
    obtain ⟨c, cs, hlexeme, -⟩ := ht.start
    rw [hlexeme] at hnil
    simp at hnil

/-- A piece that is no token grows the gap before the next token. -/
theorem Tiled.of_gapPiece (hpiece : GapPiece gap rest) (h : Tiled (before ++ gap) rest ts) :
    Tiled before (gap ++ rest) ts := by
  cases hpiece with
  | blank hc => exact h.prepend (.blank hc .nil)
  | line htext hnext =>
    cases rest with
    | nil =>
      rw [List.append_nil]
      exact h.of_final (.line .nil htext)
    | cons c rest =>
      obtain rfl : c = '\n' := hnext c rfl
      have hrest := h.of_line
      rw [List.append_assoc] at hrest
      simpa using hrest.prepend (.line htext .nil)
  | block htext => exact h.prepend (.block htext .nil)
  | openBlock htext =>
    rw [List.append_nil]
    exact h.of_final (.openBlock .nil htext)

theorem isGap_of_scanPiece {c : Char} {k : TokenKind} {lit : TokenLiteral} {n : Nat}
    (h : scanPiece c cs = .ok (.token k lit n)) : isGap c = false := by
  rw [Bool.eq_false_iff]
  intro hgap
  simp [scanPiece, hgap] at h

/-- The tokens that the scanner finds from a place on tile the source from there on. -/
theorem Scans.tiled {p : Pos} (h : Scans p rest ts) (hp : p = before.foldl Pos.next .start) :
    Tiled before rest ts := by
  induction h generalizing before with
  | done p =>
    subst hp
    exact .last (.closed .nil) rfl (by simpa using startsAfter_foldl _ _ _ before)
  | gap hpiece _ ih =>
    refine Tiled.of_gapPiece (scanPiece_gap hpiece) (ih ?_)
    rw [hp, List.foldl_append]
  | @token p c cs rest k lit ts hpiece _ ih =>
    subst hp
    let t : Token := ⟨k, String.ofList (c :: cs), lit, (before.foldl Pos.next .start).line,
      (before.foldl Pos.next .start).column⟩
    have hlexeme : t.lexeme.toList = c :: cs := String.toList_ofList
    have ht : t.WellSpelled :=
      ⟨⟨c, cs, hlexeme, isGap_of_scanPiece hpiece⟩, (scanPiece_token hpiece).regular⟩
    have hplace : t.StartsAfter (before ++ []) := by
      rw [List.append_nil]
      exact startsAfter_foldl _ _ _ before
    have hrest : Tiled (before ++ [] ++ t.lexeme.toList) rest ts := by
      refine ih ?_
      rw [hlexeme, List.append_nil, List.foldl_append]
    have htile := Tiled.tile .nil ht hplace hrest
    rwa [hlexeme] at htile

/-- The characters of tiles, each of which is a gap and the token behind it. -/
def laid (tiles : List (List Char × Token)) : List Char :=
  tiles.flatMap fun x => x.1 ++ x.2.lexeme.toList

@[simp] theorem laid_cons (x : List Char × Token) (tiles : List (List Char × Token)) :
    laid (x :: tiles) = x.1 ++ x.2.lexeme.toList ++ laid tiles := by
  simp [laid]

theorem Tiled.exists_tiles (h : Tiled before rest ts) :
    ∃ tiles last z, ts = tiles.map Prod.snd ++ [z] ∧ rest = laid tiles ++ last ∧
      (∀ x ∈ tiles, Gap x.1 ∧ x.2.WellSpelled) ∧ FinalGap last ∧
      (∀ front x back, tiles = front ++ x :: back →
        x.2.StartsAfter (before ++ laid front ++ x.1)) ∧
      z.word = ⟨.eof, "", .none⟩ ∧ z.StartsAfter (before ++ rest) := by
  induction h with
  | last hgap hz hplace =>
    exact ⟨[], _, _, rfl, rfl, by simp, hgap, by simp, hz, hplace⟩
  | @tile before gap rest t ts hgap ht hplace _ ih =>
    obtain ⟨tiles, last, z, rfl, rfl, htiles, hlast, hplaces, hz, hend⟩ := ih
    refine ⟨(gap, t) :: tiles, last, z, rfl, by simp, ?_, hlast, ?_, hz, by simpa using hend⟩
    · exact List.forall_mem_cons.mpr ⟨⟨hgap, ht⟩, htiles⟩
    · intro front x back hsplit
      cases front with
      | nil =>
        obtain ⟨rfl, -⟩ := List.cons.inj hsplit
        simpa [laid] using hplace
      | cons y front =>
        obtain ⟨rfl, htail⟩ := List.cons.inj hsplit
        simpa using hplaces front x back htail

/-! ## Spellings -/

theorem IsName.not_mem_keywords {s : String} (h : IsName s) : s ∉ keywords.map Prod.fst := by
  intro hmem
  obtain ⟨entry, hentry, rfl⟩ := List.mem_map.mp hmem
  have hnone := h.2
  rw [(keywords_spelled entry hentry).2] at hnone
  cases hnone

theorem Word.Regular.of_keyword {w : Word} (h : w.Regular) (hk : w.kind ∈ keywords.map Prod.snd) :
    (w.lexeme, w.kind) ∈ keywords := by
  have hspelled : ∀ entry ∈ keywords, (entry.2.spelling, entry.2) ∈ keywords := by decide
  cases h with
  | @fixed k _ =>
    obtain ⟨entry, hentry, rfl⟩ := List.mem_map.mp hk
    exact hspelled entry hentry
  | name | numeral | quoted => simp [Word.name, Word.numeral, Word.quoted, keywords] at hk

/-- The tokens of a source tile it: they stand in it one after the other with gaps between them,
at the places that they remember, and the end comes once, at the end. A text is what stands between
its quotes, a name is spelled like no keyword, and a keyword like one. -/
theorem tokens_tile {source : String} (h : tokenize source = .ok ts) :
    ∃ tiles last z, ts = tiles.map Prod.snd ++ [z] ∧ source.toList = laid tiles ++ last ∧
      (∀ x ∈ tiles, Gap x.1) ∧ FinalGap last ∧
      (∀ front x back, tiles = front ++ x :: back → x.2.StartsAfter (laid front ++ x.1)) ∧
      (z.kind = .eof ∧ z.lexeme = "" ∧ z.StartsAfter source.toList) ∧
      ∀ x ∈ tiles, x.2.kind ≠ .eof ∧
        (x.2.kind = .string → ∃ s, x.2.literal = .text s ∧ x.2.lexeme = "\"" ++ s ++ "\"") ∧
        (x.2.kind = .identifier → x.2.lexeme ∉ keywords.map Prod.fst) ∧
        (x.2.kind ∈ keywords.map Prod.snd → (x.2.lexeme, x.2.kind) ∈ keywords) := by
  have htiled : Tiled [] source.toList ts := (scans_of_scanFrom h).tiled rfl
  obtain ⟨tiles, last, z, hts, hsource, htiles, hlast, hplaces, hz, hend⟩ := htiled.exists_tiles
  refine ⟨tiles, last, z, hts, hsource, fun x hx => (htiles x hx).1, hlast, hplaces,
    ⟨congrArg Word.kind hz, congrArg Word.lexeme hz, hend⟩, fun x hx => ?_⟩
  have hx := (htiles x hx).2.regular
  obtain ⟨hname, -, htext⟩ := hx.of_kind
  refine ⟨hx.kind_ne_eof, fun hk => ?_, fun hk => (hname hk).not_mem_keywords, hx.of_keyword⟩
  obtain ⟨s, hs, hlexeme, -⟩ := htext hk
  exact ⟨s, hs, hlexeme⟩

-- The text goes on in the second line, and the last comment is not closed.
set_option maxRecDepth 10000 in
theorem tokens_tile_open_comment :
    ∃ ts tiles last z, tokenize "a /**/ \"\n\" null /* b" = .ok ts ∧
      ts = tiles.map Prod.snd ++ [z] ∧ "a /**/ \"\n\" null /* b".toList = laid tiles ++ last ∧
      (∀ x ∈ tiles, Gap x.1) ∧ FinalGap last ∧ z.kind = .eof ∧ z.line = 2 ∧ z.column = 12 := by
  have hts : tokenize "a /**/ \"\n\" null /* b" = .ok
      [⟨.identifier, "a", .text "a", 1, 1⟩, ⟨.string, "\"\n\"", .text "\n", 1, 8⟩,
        ⟨.null, "null", .none, 2, 3⟩, ⟨.eof, "", .none, 2, 12⟩] := by rfl
  obtain ⟨tiles, last, z, htiles, hsource, hgaps, hlast, -, ⟨hz, -, hend⟩, -⟩ := tokens_tile hts
  exact ⟨_, tiles, last, z, hts, htiles, hsource, hgaps, hlast, hz, hend.line, hend.column⟩

end Hantec
