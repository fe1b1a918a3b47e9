import Hantec.Proofs.Json.Numbers

/-!
# JSON texts are read back

The text of a value reads back as the value, if the numbers in it do and no object has a key
twice.
-/

namespace Hantec.Json

variable {cs rest : List Char} {c : Char} {j : Json}

/-! ## Texts -/

/-- The unit that the reader finds for a written character. -/
def writtenUnit (c : Char) : TextUnit :=
  if c.toNat < 0x20 ∧ c ∉ ['\n', '\r', '\t', '\x0c', '\x08'] then .unit c.toNat else .char c

theorem hexPadded_small : ∀ n < 0x20,
    Text.hexPadded 4 n = String.ofList ['0', '0', Nat.digitChar (n / 16), Nat.digitChar (n % 16)] ∧
    hexUnit? '0' '0' (Nat.digitChar (n / 16)) (Nat.digitChar (n % 16)) = some n := by
  decide

theorem readUnits_escaped {e : Char} (hc : escaped? c = some e) (cs : List Char) :
    readUnits ('\\' :: c :: cs) = (readUnits cs).map fun x => (.char e :: x.1, x.2) := by
  have hu : c ≠ 'u' := by
    rintro rfl
    cases hc
  rw [readUnits.eq_4 _ _ (fun _ _ _ _ _ h => absurd h hu), hc]
  cases readUnits cs <;> rfl

theorem readUnits_plain (hquote : c ≠ '"') (hslash : c ≠ '\\') (hlarge : ¬c.toNat < 0x20)
    (cs : List Char) :
    readUnits (c :: cs) = (readUnits cs).map fun x => (.char c :: x.1, x.2) := by
  rw [readUnits.eq_5 _ _ hquote (fun _ _ _ _ _ h => absurd h hslash) (fun _ _ h => absurd h hslash),
    if_neg (by simp [hlarge, hslash])]
  cases readUnits cs <;> rfl

theorem readUnits_writeChar (c : Char) (cs : List Char) :
    readUnits (writeChar c ++ cs) =
      (readUnits cs).map fun x => (writtenUnit c :: x.1, x.2) := by
  unfold writeChar
  split
  case h_8 hquote hslash hn hr ht hf hb =>
    split
    case isTrue hsmall =>
      obtain ⟨hhex, hunit⟩ := hexPadded_small c.toNat hsmall
      have hwritten : writtenUnit c = .unit c.toNat := by
        rw [writtenUnit, if_pos]
        simpa [hsmall] using ⟨hn, hr, ht, hf, hb⟩
      rw [hhex, String.toList_ofList, hwritten]
      simp only [List.cons_append, List.nil_append, readUnits, hunit]
      cases readUnits cs <;> rfl
    case isFalse hlarge =>
      have hwritten : writtenUnit c = .char c := by
        rw [writtenUnit, if_neg]
        simp [hlarge]
      rw [hwritten]
      exact readUnits_plain hquote hslash hlarge cs
  all_goals exact readUnits_escaped rfl cs

theorem readUnits_written (s rest : List Char) :
    readUnits (s.flatMap writeChar ++ '"' :: rest) = some (s.map writtenUnit, rest) := by
  induction s with
  | nil => rfl
  | cons c s ih =>
    rw [List.flatMap_cons, List.append_assoc, readUnits_writeChar, ih]
    rfl

/-- No written character is half of a pair. -/
theorem joinUnits_cons (c : Char) (us : List TextUnit) :
    joinUnits (writtenUnit c :: us) = c :: joinUnits us := by
  unfold writtenUnit
  split
  case isTrue hsmall =>
    have hhigh : isHighSurrogate c.toNat = false := by simp [isHighSurrogate]; omega
    have hlow : isLowSurrogate c.toNat = false := by simp [isLowSurrogate]; omega
    have hchar : unitChar c.toNat = c := by
      rw [unitChar, hhigh, hlow]
      exact Char.ofNat_toNat c
    cases us with
    | nil => simp [joinUnits, hchar]
    | cons u us =>
      cases u with
      | char d => simp [joinUnits, hchar]
      | unit m => simp [joinUnits, hhigh, hchar]
  case isFalse => rw [joinUnits]

theorem joinUnits_written (s : List Char) : joinUnits (s.map writtenUnit) = s := by
  induction s with
  | nil => rfl
  | cons c s ih => rw [List.map_cons, joinUnits_cons, ih]

theorem readText_written (s : String) (rest : List Char) :
    readText (s.toList.flatMap writeChar ++ '"' :: rest) = .ok (s, rest) := by
  rw [readText, readUnits_written]
  dsimp only
  rw [joinUnits_written, String.ofList_toList]

/-! ## Blanks -/

theorem skipBlanks_newLine (level : Nat) (cs : List Char) :
    skipBlanks (newLine level ++ cs) = skipBlanks cs := by
  have hall : ∀ d ∈ newLine level, isBlank d = true := by
    intro d hd
    obtain rfl | hd := List.mem_cons.mp hd
    · rfl
    · obtain rfl := List.eq_of_mem_replicate hd
      rfl
  rw [skipBlanks, List.dropWhile_append_of_pos hall]
  rfl

theorem skipBlanks_cons (hc : isBlank c = false) (cs : List Char) :
    skipBlanks (c :: cs) = c :: cs :=
  List.dropWhile_cons_of_neg (by simp [hc])

def startsValue (c : Char) : Bool := !isBlank c && c != ']'

theorem startsValue_of_isDigit (hc : c.isDigit = true) : startsValue c = true := by
  have hne : c ≠ ']' := by
    rintro rfl
    cases hc
  simp [startsValue, isBlank_of_isDigit hc, hne]

theorem exists_first_toString (i : Int) :
    ∃ c cs, (toString i).toList = c :: cs ∧ startsValue c = true := by
  rw [Int.toString_eq_repr, Int.repr_eq_if]
  split
  · obtain ⟨c, cs, hcs⟩ := List.exists_cons_of_ne_nil (l := Nat.toDigits 10 i.toNat)
      Nat.toDigits_ne_nil
    refine ⟨c, cs, by rw [Nat.toList_repr, hcs], startsValue_of_isDigit ?_⟩
    exact isDigit_of_mem_toDigits (n := i.toNat) (by simp [hcs])
  · exact ⟨'-', _, String.toList_append, rfl⟩

theorem exists_first_toFileText (x : Float) :
    ∃ c cs, (Number.toFileText x).toList = c :: cs ∧ startsValue c = true := by
  obtain ⟨s, hs, htext⟩ | ⟨coef, exp, cs, hnumeral, htext⟩ := toFileText_cases x
  · rw [htext]
    simp only [List.mem_cons, Prod.mk.injEq, List.not_mem_nil, or_false] at hs
    obtain ⟨rfl, -⟩ | ⟨rfl, -⟩ | ⟨rfl, -⟩ := hs
    · exact ⟨'N', _, rfl, rfl⟩
    · exact ⟨'I', _, rfl, rfl⟩
    · exact ⟨'-', _, rfl, rfl⟩
  · obtain ⟨c, cs, rfl, hc⟩ := hnumeral.exists_eq_cons
    obtain ⟨htext, -⟩ | ⟨htext, -⟩ := htext
    · exact ⟨c, cs, htext, startsValue_of_isDigit hc⟩
    · exact ⟨'-', _, htext, rfl⟩

theorem exists_first_write (level : Nat) (j : Json) :
    ∃ c cs, j.write level = c :: cs ∧ startsValue c = true := by
  cases j with
  | null => exact ⟨'n', _, rfl, rfl⟩
  | bool b => cases b <;> exact ⟨_, _, rfl, rfl⟩
  | int i => exact exists_first_toString i
  | num x => exact exists_first_toFileText x
  | str s => exact ⟨'"', _, rfl, rfl⟩
  | arr js =>
    cases js with
    | nil => exact ⟨'[', _, rfl, rfl⟩
    | cons j js => exact ⟨'[', _, by rw [write]; rfl, rfl⟩
  | obj es =>
    cases es with
    | nil => exact ⟨'\x7b', _, rfl, rfl⟩
    | cons e es => exact ⟨'\x7b', _, by rw [write]; rfl, rfl⟩

theorem skipBlanks_write (level : Nat) (j : Json) (rest : List Char) :
    skipBlanks (j.write level ++ rest) = j.write level ++ rest := by
  obtain ⟨c, cs, hcs, hc⟩ := exists_first_write level j
  rw [hcs, List.cons_append, skipBlanks_cons]
  simp only [startsValue, Bool.and_eq_true, Bool.not_eq_true'] at hc
  exact hc.1

/-! ## Values -/

/-- The value is read back wherever its text is followed by a stop, with as many steps as the text
has characters. -/
def ReadsBack (j : Json) : Prop :=
  ∀ level n rest, Stops rest → (j.write level).length ≤ n →
    readValue n (j.write level ++ rest) = .ok (j, rest)

/-- The values whose texts read back: whole numbers do not have too many digits, and no object has a
key twice. -/
inductive Readable : Json → Prop where
  | null : Readable .null
  | bool (b : Bool) : Readable (.bool b)
  | int {i : Int} : (Nat.toDigits 10 i.natAbs).length ≤ digitLimit → Readable (.int i)
  | num (x : Float) : Readable (.num x)
  | str (s : String) : Readable (.str s)
  | arr {js : List Json} : (∀ j ∈ js, Readable j) → Readable (.arr js)
  | obj {es : List (String × Json)} :
      (es.map Prod.fst).Nodup → (∀ e ∈ es, Readable e.2) → Readable (.obj es)

theorem stops_writeItems (level level' : Nat) (js : List Json) (rest : List Char) :
    Stops (writeItems level js ++ (newLine level' ++ rest)) := by
  cases js with
  | nil => exact stops_line _
  | cons j js => rw [writeItems]; exact stops_comma _

theorem stops_writeEntries (level level' : Nat) (es : List (String × Json)) (rest : List Char) :
    Stops (writeEntries level es ++ (newLine level' ++ rest)) := by
  cases es with
  | nil => exact stops_line _
  | cons e es => rw [writeEntries]; exact stops_comma _

/-- The items of an array are read back. The induction is on the items after the first one. -/
theorem readItems_written {js : List Json} {n : Nat} (hj : ReadsBack j)
    (hjs : ∀ j ∈ js, ReadsBack j) (level level' : Nat) (rest : List Char)
    (hn : (j.write level ++ writeItems level js).length < n) :
    readItems n (j.write level ++ (writeItems level js ++ (newLine level' ++ ']' :: rest))) =
      .ok (j :: js, rest) := by
  induction js generalizing j n with
  | nil =>
    obtain ⟨n, rfl⟩ : ∃ m, n = m + 1 := ⟨n - 1, by omega⟩
    have hread := hj level n _ (stops_writeItems level level' [] (']' :: rest)) (by
      simp only [List.length_append] at hn
      omega)
    rw [readItems, hread]
    simp only [writeItems, List.nil_append, bind, Except.bind, skipBlanks_newLine]
    rfl
  | cons k js ih =>
    obtain ⟨n, rfl⟩ : ∃ m, n = m + 1 := ⟨n - 1, by omega⟩
    simp only [writeItems, List.length_append, List.length_cons] at hn
    have hread := hj level n _ (stops_writeItems level level' (k :: js) (']' :: rest)) (by omega)
    have hrest := ih (n := n) (hjs k (by simp)) (fun i hi => hjs i (by simp [hi])) (by
      simp only [List.length_append]
      omega)
    rw [readItems, hread]
    simp only [writeItems, List.cons_append, List.append_assoc, bind, Except.bind,
      skipBlanks_cons (c := ',') rfl, skipBlanks_newLine, skipBlanks_write, hrest]
    rfl

theorem writeText_append (s : String) (rest : List Char) :
    writeText s ++ rest = '"' :: (s.toList.flatMap writeChar ++ '"' :: rest) := by
  simp [writeText]

theorem readKey_written (k : String) (rest : List Char) :
    readKey (writeText k ++ rest) = .ok (k, rest) := by
  rw [writeText_append, readKey]
  exact readText_written k rest

theorem skipBlanks_writeText (k : String) (rest : List Char) :
    skipBlanks (writeText k ++ rest) = writeText k ++ rest := by
  rw [writeText_append]
  exact skipBlanks_cons rfl _

/-- An entry is read back, and then what follows it decides. -/
theorem readEntries_entry {k : String} {n level : Nat} (hj : ReadsBack j) (hr : Stops rest)
    (hn : (j.write level).length ≤ n) :
    readEntries (n + 1) (writeText k ++ ':' :: ' ' :: (j.write level ++ rest)) =
      match skipBlanks rest with
      | ',' :: rest => do
        let (es, rest) ← readEntries n (skipBlanks rest)
        return ((k, j) :: es, rest)
      | '\x7d' :: rest => .ok ([(k, j)], rest)
      | _ => .error .malformed := by
  have hblank : skipBlanks (' ' :: (j.write level ++ rest)) = j.write level ++ rest :=
    skipBlanks_write level j rest
  have hread := hj level n rest hr hn
  rw [readEntries, readKey_written]
  simp only [bind, Except.bind, skipBlanks_cons (c := ':') rfl, hblank, hread]
  rfl

/-- The entries of an object are read back. The induction is on the entries after the first one. -/
theorem readEntries_written {es : List (String × Json)} {k : String} {n : Nat} (hj : ReadsBack j)
    (hes : ∀ e ∈ es, ReadsBack e.2) (level level' : Nat) (rest : List Char)
    (hn : (j.write level ++ writeEntries level es).length < n) :
    readEntries n (writeText k ++ ':' :: ' ' :: (j.write level ++
      (writeEntries level es ++ (newLine level' ++ '\x7d' :: rest)))) =
      .ok ((k, j) :: es, rest) := by
  induction es generalizing j k n with
  | nil =>
    obtain ⟨n, rfl⟩ : ∃ m, n = m + 1 := ⟨n - 1, by omega⟩
    simp only [List.length_append] at hn
    rw [readEntries_entry hj (stops_writeEntries level level' [] _) (by omega)]
    simp only [writeEntries, List.nil_append, skipBlanks_newLine,
      skipBlanks_cons (c := '\x7d') rfl]
  | cons e es ih =>
    obtain ⟨n, rfl⟩ : ∃ m, n = m + 1 := ⟨n - 1, by omega⟩
    simp only [writeEntries, List.length_append, List.length_cons] at hn
    have hrest := ih (k := e.1) (n := n) (hes e (by simp)) (fun i hi => hes i (by simp [hi])) (by
      simp only [List.length_append]
      omega)
    rw [readEntries_entry hj (stops_writeEntries level level' (e :: es) _) (by omega)]
    simp only [writeEntries, List.cons_append, List.append_assoc, List.nil_append,
      skipBlanks_cons (c := ',') rfl, skipBlanks_newLine, skipBlanks_writeText, hrest]
    rfl

theorem putEntry_of_notMem {α : Type} {k : String} {es : List (String × α)} (v : α)
    (h : k ∉ es.map Prod.fst) : putEntry k v es = es ++ [(k, v)] := by
  induction es with
  | nil => rfl
  | cons e es ih =>
    rw [List.map_cons, List.mem_cons, not_or] at h
    rw [putEntry, if_neg (Ne.symm h.1), ih h.2, List.cons_append]

/-- Entries with distinct new keys are put in their order. -/
theorem entries_putAll {α : Type} {d : Dict α} {es : List (String × α)}
    (h : ((d.entries ++ es).map Prod.fst).Nodup) : (d.putAll es).entries = d.entries ++ es := by
  induction es generalizing d with
  | nil => simp [Dict.putAll]
  | cons e es ih =>
    have hput : (d.put e.1 e.2).entries = d.entries ++ [e] := by
      rw [List.map_append, List.nodup_append] at h
      exact putEntry_of_notMem e.2 fun hmem => h.2.2 _ hmem e.1 (by simp) rfl
    have hrest := ih (d := d.put e.1 e.2) (by simpa [hput] using h)
    rw [hput, List.append_assoc] at hrest
    exact hrest

theorem readsBack_of_succ
    (h : ∀ level n rest, Stops rest → (j.write level).length ≤ n + 1 →
      readValue (n + 1) (j.write level ++ rest) = .ok (j, rest)) : ReadsBack j := by
  intro level n rest hr hn
  cases n with
  | zero =>
    obtain ⟨c, cs, hcs, -⟩ := exists_first_write level j
    rw [hcs] at hn
    cases hn
  | succ n => exact h level n rest hr hn

theorem readsBack_arr {js : List Json} (h : ∀ j ∈ js, ReadsBack j) : ReadsBack (.arr js) := by
  refine readsBack_of_succ fun level n rest _ hn => ?_
  cases js with
  | nil => rfl
  | cons j js =>
    have htext : write level (.arr (j :: js)) ++ rest =
        '[' :: (newLine (level + 1) ++ (j.write (level + 1) ++
          (writeItems (level + 1) js ++ (newLine level ++ ']' :: rest)))) := by
      simp [write]
    simp only [write, newLine, List.cons_append, List.length_cons, List.length_append] at hn
    have hjs : ∀ i ∈ js, ReadsBack i := fun i hi => h i (List.mem_cons_of_mem _ hi)
    have hitems := readItems_written (n := n) (h j List.mem_cons_self) hjs (level + 1) level rest
      (by simp only [List.length_append]; omega)
    -- The first item does not start with the closing bracket.
    obtain ⟨c, cs, hcs, hc⟩ := exists_first_write (level + 1) j
    have hne : c ≠ ']' := by
      rintro rfl
      cases hc
    have hskip := skipBlanks_write (level + 1) j
      (writeItems (level + 1) js ++ (newLine level ++ ']' :: rest))
    rw [htext, readValue, skipBlanks_newLine, hskip]
    rw [hcs, List.cons_append] at hitems ⊢
    split
    case h_1 heq => exact absurd (List.cons.inj heq).1 hne
    case h_2 =>
      rw [hitems]
      rfl

theorem readsBack_obj {es : List (String × Json)} (hkeys : (es.map Prod.fst).Nodup)
    (h : ∀ e ∈ es, ReadsBack e.2) : ReadsBack (.obj es) := by
  refine readsBack_of_succ fun level n rest _ hn => ?_
  cases es with
  | nil => rfl
  | cons e es =>
    have htext : write level (.obj (e :: es)) ++ rest =
        '\x7b' :: (newLine (level + 1) ++ (writeText e.1 ++ ':' :: ' ' :: (e.2.write (level + 1) ++
          (writeEntries (level + 1) es ++ (newLine level ++ '\x7d' :: rest))))) := by
      simp [write]
    simp only [write, newLine, List.cons_append, List.length_cons, List.length_append] at hn
    have hes : ∀ i ∈ es, ReadsBack i.2 := fun i hi => h i (List.mem_cons_of_mem _ hi)
    have hentries := readEntries_written (k := e.1) (n := n) (h e List.mem_cons_self) hes
      (level + 1) level rest (by simp only [List.length_append]; omega)
    have hdict : (Dict.ofList (e :: es)).entries = e :: es := entries_putAll (d := .empty) hkeys
    rw [htext, readValue, skipBlanks_newLine, skipBlanks_writeText]
    rw [writeText_append] at hentries ⊢
    split
    case h_1 heq => cases (List.cons.inj heq).1
    case h_2 =>
      simp only [hentries, bind, Except.bind, pure, Except.pure, hdict]

theorem Readable.readsBack (h : Readable j) : ReadsBack j := by
  induction h with
  | null => exact readsBack_of_succ fun _ _ _ _ _ => rfl
  | bool b => cases b <;> exact readsBack_of_succ fun _ _ _ _ _ => rfl
  | int hi => exact readsBack_of_succ fun _ n _ hr _ => readValue_toString hi hr n
  | num x => exact readsBack_of_succ fun _ n _ hr _ => readValue_toFileText x hr n
  | str s =>
    refine readsBack_of_succ fun level n rest _ _ => ?_
    rw [write, writeText_append, readValue, readText_written]
    rfl
  | arr _ ih => exact readsBack_arr ih
  | obj hkeys _ ih => exact readsBack_obj hkeys ih

/-- The text of a readable value reads back as the value. -/
theorem parse_render (h : Readable j) : parse j.render = .ok j := by
  have hread := h.readsBack 0 (2 * (j.write 0).length + 2) [] stops_nil (by omega)
  have hskip := skipBlanks_write 0 j []
  rw [List.append_nil] at hread hskip
  rw [parse, render, String.toList_ofList]
  dsimp only
  rw [hskip, hread]
  rfl

/-! ## Line ends -/

theorem notMem_writeChar (c : Char) : '\r' ∉ writeChar c := by
  have hsmall : ∀ n < 0x20, '\r' ∉ '\\' :: 'u' :: (Text.hexPadded 4 n).toList := by decide
  unfold writeChar
  split
  case h_8 _ _ _ hr _ _ _ =>
    split
    case isTrue h => exact hsmall c.toNat h
    case isFalse => exact fun hmem => hr (List.mem_singleton.1 hmem).symm
  all_goals decide

theorem notMem_writeText (s : String) : '\r' ∉ writeText s := by
  simp [writeText, notMem_writeChar]

theorem notMem_newLine (level : Nat) : '\r' ∉ newLine level := by
  simp [newLine, List.mem_replicate]

theorem notMem_toString (i : Int) : '\r' ∉ (toString i).toList := by
  have hdigits (n : Nat) : '\r' ∉ Nat.toDigits 10 n := fun hmem =>
    absurd (isDigit_of_mem_toDigits hmem) (by decide)
  rw [Int.toString_eq_repr, Int.repr_eq_if]
  split
  · rw [Nat.toList_repr]
    exact hdigits _
  · simpa [Nat.toList_repr] using hdigits _

theorem notMem_toFileText (x : Float) : '\r' ∉ (Number.toFileText x).toList := by
  obtain ⟨s, hs, htext⟩ | ⟨coef, exp, cs, hnumeral, htext⟩ := toFileText_cases x
  · rw [htext]
    simp only [List.mem_cons, Prod.mk.injEq, List.not_mem_nil, or_false] at hs
    obtain ⟨rfl, -⟩ | ⟨rfl, -⟩ | ⟨rfl, -⟩ := hs <;> decide
  · have hnumeral : '\r' ∉ cs := fun hmem => Bool.false_ne_true (hnumeral.isBlank _ hmem).symm
    obtain ⟨htext, -⟩ | ⟨htext, -⟩ := htext
    · rwa [htext]
    · simpa [htext] using hnumeral

theorem notMem_writeItems {js : List Json} (h : ∀ j ∈ js, ∀ level, '\r' ∉ j.write level)
    (level : Nat) : '\r' ∉ writeItems level js := by
  induction js with
  | nil => simp [writeItems]
  | cons j js ih =>
    obtain ⟨hj, hjs⟩ := List.forall_mem_cons.1 h
    simp [writeItems, notMem_newLine, hj, ih hjs]

theorem notMem_writeEntries {es : List (String × Json)}
    (h : ∀ e ∈ es, ∀ level, '\r' ∉ e.2.write level) (level : Nat) :
    '\r' ∉ writeEntries level es := by
  induction es with
  | nil => simp [writeEntries]
  | cons e es ih =>
    obtain ⟨he, hes⟩ := List.forall_mem_cons.1 h
    simp [writeEntries, notMem_newLine, notMem_writeText, he, ih hes]

/-- A carriage return is always written as an escape. -/
theorem Readable.notMem_write (h : Readable j) (level : Nat) : '\r' ∉ j.write level := by
  induction h generalizing level with
  | null => simp [write]
  | bool b => cases b <;> simp [write]
  | int _ => exact notMem_toString _
  | num x => exact notMem_toFileText x
  | str s => exact notMem_writeText s
  | @arr js _ ih =>
    cases js with
    | nil => simp [write]
    | cons j js =>
      obtain ⟨hj, hjs⟩ := List.forall_mem_cons.1 ih
      simp [write, notMem_newLine, hj, notMem_writeItems hjs]
  | @obj es _ _ ih =>
    cases es with
    | nil => simp [write]
    | cons e es =>
      obtain ⟨he, hes⟩ := List.forall_mem_cons.1 ih
      simp [write, notMem_newLine, notMem_writeText, he, notMem_writeEntries hes]

end Hantec.Json
