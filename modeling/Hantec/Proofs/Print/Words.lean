import Hantec.Proofs.Scan.Pieces

/-!
# The scanner finds written words

A word stands when the scanner finds it wherever a blank or the end follows. The words of
well-formed programs stand, and a text of such words has exactly their tokens.
-/

namespace Hantec

/-- The end or a blank comes next. -/
def IsBreak (rest : List Char) : Prop := ∀ c ∈ rest.head?, c = ' '

/-- The scanner finds the word wherever a blank or the end follows it. -/
def Word.Stands (w : Word) : Prop :=
  ∃ c cs, w.lexeme.toList = c :: cs ∧
    ∀ rest, IsBreak rest → scanPiece c (cs ++ rest) = .ok (.token w.kind w.literal (cs.length + 1))

theorem IsBreak.forall_head {P : Char → Prop} {rest : List Char} (hr : IsBreak rest) (hP : P ' ') :
    ∀ c ∈ rest.head?, P c := by
  intro c hc
  rw [hr c hc]
  exact hP

/-! ## Words and names -/

/-- A keyword or a name is scanned to its end. -/
theorem scanPiece_word {s : String} (h : isWord s = true) :
    ∃ c cs, s.toList = c :: cs ∧ ∀ rest, IsBreak rest → scanPiece c (cs ++ rest) = .ok
      ((keyword? s).elim (.token .identifier (.text s) (cs.length + 1))
        (.token · .none (cs.length + 1))) := by
  unfold isWord at h
  split at h
  case h_1 => cases h
  case h_2 c cs hs =>
    rw [Bool.and_eq_true] at h
    refine ⟨c, cs, hs, fun rest hr => ?_⟩
    have hs' : String.ofList (c :: cs) = s := by rw [← hs, String.ofList_toList]
    rw [scanWord_eq h.1 h.2 (hr.forall_head (by decide)), hs']

theorem Word.stands_name {s : String} (h : IsName s) : (Word.name s).Stands := by
  obtain ⟨c, cs, hs, hscan⟩ := scanPiece_word h.1
  rw [h.2] at hscan
  exact ⟨c, cs, hs, hscan⟩

/-! ## Words with one spelling -/

theorem keywords_spelled :
    ∀ w ∈ keywords, isWord w.1 = true ∧ keyword? w.1 = some w.2 := by
  decide +kernel

theorem Word.stands_keyword {k : TokenKind} (h : (k.spelling, k) ∈ keywords) :
    (Word.fixed k).Stands := by
  obtain ⟨hword, hkey⟩ := keywords_spelled _ h
  obtain ⟨c, cs, hs, hscan⟩ := scanPiece_word hword
  rw [hkey] at hscan
  exact ⟨c, cs, hs, hscan⟩

/-- Marks and operators are found from the character that follows them. -/
theorem Word.stands_of_head {w : Word} {c : Char} {cs : List Char} (hw : w.lexeme.toList = c :: cs)
    (hend : scanPiece c cs = .ok (.token w.kind w.literal (cs.length + 1)))
    (hblank : ∀ rest, scanPiece c (cs ++ ' ' :: rest) =
      .ok (.token w.kind w.literal (cs.length + 1))) : w.Stands := by
  refine ⟨c, cs, hw, fun rest hr => ?_⟩
  cases rest with
  | nil => simpa using hend
  | cons d rest =>
    obtain rfl : d = ' ' := hr d rfl
    exact hblank rest

@[simp] theorem Word.stands_fixed {k : TokenKind} : (Word.fixed k).Stands ↔ k.isFixed = true := by
  refine ⟨?_, fun h => ?_⟩
  · rintro ⟨c, cs, hw, -⟩
    cases k <;> first | rfl | cases hw
  cases k
  case identifier | number | string | eof => cases h
  case pica | nech | rob | vrat | esli | inak | salina | vyblij | rozni | zhasni | null | vokno
      | zkus | chyt | potom | vypadni | preskoc | okruh =>
    exact stands_keyword (by decide)
  all_goals exact stands_of_head rfl rfl (fun _ => rfl)

/-! ## Numbers and texts -/

theorem Word.stands_numeral {s : String} {x : Float} (h : IsNumeral s x) :
    (Word.numeral s x).Stands := by
  obtain ⟨whole, frac, hne, hwhole, hfrac, hs, rfl⟩ := h
  cases whole with
  | nil => exact absurd rfl hne
  | cons c whole =>
    rw [List.all_cons, Bool.and_eq_true] at hwhole
    refine ⟨c, whole ++ (if frac = [] then [] else '.' :: frac), hs, fun rest hr => ?_⟩
    refine (TokenPiece.numeral hwhole.1 hwhole.2 hfrac (hr.forall_head (by decide)) ?_).scanPiece_eq
    rintro - ⟨d, ds, rfl, -⟩
    cases hr '.' rfl

theorem Word.stands_quoted {s : String} (h : '"' ∉ s.toList) : (Word.quoted s).Stands := by
  refine ⟨'"', s.toList ++ ['"'], by simp [Word.quoted], fun rest _ => ?_⟩
  have hpiece := (@TokenPiece.quoted _ rest h).scanPiece_eq
  simpa [Word.quoted] using hpiece

theorem Word.Regular.stands {w : Word} (h : w.Regular) : w.Stands := by
  cases h with
  | fixed hk => exact stands_fixed.mpr hk
  | name hs => exact stands_name hs
  | numeral hx => exact stands_numeral hx
  | quoted hs => exact stands_quoted hs

/-! ## Texts of words -/

/-- A word that stands is the next token. -/
theorem Word.Stands.scanFrom {w : Word} (h : w.Stands) (rest : List Char) (hr : IsBreak rest)
    (p : Pos) :
    ∃ t q, t.word = w ∧
      Hantec.scanFrom 0 p (w.lexeme.toList ++ rest) = (Hantec.scanFrom 0 q rest).map (t :: ·) := by
  obtain ⟨c, cs, hw, hscan⟩ := h
  refine ⟨⟨w.kind, w.lexeme, w.literal, p.line, p.column⟩, (c :: cs).foldl Pos.next p, rfl, ?_⟩
  have hlexeme : w.lexeme = String.ofList (c :: cs) := by rw [← hw, String.ofList_toList]
  rw [hw, scanFrom_token (hscan rest hr), hlexeme]

theorem toList_textOf_cons (w v : Word) (ws : List Word) :
    (textOf (w :: v :: ws)).toList = w.lexeme.toList ++ ' ' :: (textOf (v :: ws)).toList := by
  simp [textOf, String.toList_intercalate]

/-- The tokens of a text of standing words are these words and the end, wherever the text stands. -/
theorem scanFrom_textOf {ws : List Word} (h : ∀ w ∈ ws, w.Stands) (p : Pos) :
    ∃ ts t, scanFrom 0 p (textOf ws).toList = .ok (ts ++ [t]) ∧ t.kind = .eof ∧
      ts.map Token.word = ws := by
  induction ws generalizing p with
  | nil => exact ⟨[], _, rfl, rfl, rfl⟩
  | cons w ws ih =>
    have hw := h w (by simp)
    cases ws with
    | nil =>
      obtain ⟨t, q, ht, hscan⟩ := hw.scanFrom [] (by simp [IsBreak]) p
      refine ⟨[t], ⟨.eof, "", .none, q.line, q.column⟩, ?_, rfl, by simp [ht]⟩
      simpa [textOf, scanFrom, Except.map] using hscan
    | cons v ws =>
      obtain ⟨t, q, ht, hscan⟩ :=
        hw.scanFrom (' ' :: (textOf (v :: ws)).toList) (by simp [IsBreak]) p
      obtain ⟨ts, z, hrest, hz, hts⟩ := ih (fun u hu => h u (by simp [hu])) (q.next ' ')
      refine ⟨t :: ts, z, ?_, hz, by simp [ht, hts]⟩
      have hblank : scanFrom 0 q (' ' :: (textOf (v :: ws)).toList) =
          scanFrom 0 (q.next ' ') (textOf (v :: ws)).toList := rfl
      rw [toList_textOf_cons, hscan, hblank, hrest]
      rfl

theorem tokenize_textOf {ws : List Word} (h : ∀ w ∈ ws, w.Stands) :
    ∃ ts t, tokenize (textOf ws) = .ok (ts ++ [t]) ∧ t.kind = .eof ∧ ts.map Token.word = ws :=
  scanFrom_textOf h .start

end Hantec
