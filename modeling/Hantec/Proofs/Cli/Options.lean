import Hantec.Cli.Options

/-!
# Flags and plain words

Flags may stand before and after the plain words of a command. They tune a run, and the plain words
are the program and its arguments, whatever else is asked for.
-/

namespace Hantec.Cli

/-! ## Words -/

theorem readWord_plain {word : String} (h : word.toList.head? ≠ some '-') :
    readWord word = .ok .plain := by
  simp [readWord, h]

theorem ne_divider_of_readWord {word : String} {w : Word} (h : readWord word = .ok w) :
    word ≠ "--" := by
  rintro rfl
  have hwrong : readWord "--" = .error (.wrong (.ambiguous "--"
      ["--help", "--unsafe-fs", "--emit-ast", "--ast"])) := by rfl
  cases hwrong.symm.trans h

theorem readWords_cons {word : String} {w : Word} (h : readWord word = .ok w)
    (words : List String) :
    readWords (word :: words) = (readWords words).map ((word, w) :: ·) := by
  rw [readWords.eq_3 _ _ (ne_divider_of_readWord h), h]
  cases readWords words <;> rfl

theorem readWords_plain {words : List String} (h : ∀ w ∈ words, w.toList.head? ≠ some '-')
    (others : List String) :
    readWords (words ++ others) = (readWords others).map (words.map (·, .plain) ++ ·) := by
  induction words with
  | nil => exact (congrFun Except.map_id (readWords others)).symm
  | cons word words ih =>
    obtain ⟨hword, hwords⟩ := List.forall_mem_cons.1 h
    rw [List.cons_append, readWords_cons (readWord_plain hword), ih hwords]
    cases readWords others <;> rfl

/-! ## Flags -/

/-- The switches that only tune a run. -/
def Switch.Tunes (s : Switch) : Prop := s = .verbose ∨ s = .fileAccess

/-- A word of switches that only tune a run. -/
def Word.Tunes (w : Word) (ss : List Switch) : Prop :=
  ∃ s short attached, w = .switch s short attached ∧
    expand s short attached = .ok (ss, .pending) ∧ ∀ t ∈ s :: ss, t.Tunes

/-- The arguments that only tune a run. -/
def IsFlag (word : String) : Prop := ∃ w ss, readWord word = .ok w ∧ w.Tunes ss

/-- The options with so many switches more. -/
def Options.tuned (o : Options) (ss : List Switch) : Options :=
  { o with
    verbosity := o.verbosity + ss.count .verbose
    fileAccess := o.fileAccess || ss.contains .fileAccess }

def Reading.tuned (r : Reading) (ss : List Switch) : Reading :=
  { r with options := r.options.tuned ss }

@[simp] theorem Reading.tuned_nil (r : Reading) : r.tuned [] = r := by
  simp [Reading.tuned, Options.tuned]

theorem Options.tuned_tuned (o : Options) (ss ts : List Switch) :
    (o.tuned ss).tuned ts = o.tuned (ss ++ ts) := by
  simp [Options.tuned, Nat.add_assoc, Bool.or_assoc]

theorem Reading.tuned_tuned (r : Reading) (ss ts : List Switch) :
    (r.tuned ss).tuned ts = r.tuned (ss ++ ts) :=
  congrArg (fun o => { r with options := o }) (r.options.tuned_tuned ss ts)

theorem Reading.apply_tunes (r : Reading) {s : Switch} (h : s.Tunes) (value : String) :
    r.apply s value = .ok (r.tuned [s]) := by
  obtain rfl | rfl := h
  · simp [Reading.apply, Reading.tuned, Options.tuned]
  · simp [Reading.apply, Reading.tuned, Options.tuned]

theorem Reading.applyAll_tunes (r : Reading) {ss : List Switch} (h : ∀ s ∈ ss, s.Tunes)
    (value : String) : r.applyAll value ss = .ok (r.tuned ss) := by
  induction ss generalizing r with
  | nil => rw [Reading.applyAll, Reading.tuned_nil]
  | cons s ss ih =>
    obtain ⟨hs, hss⟩ := List.forall_mem_cons.1 h
    rw [Reading.applyAll, r.apply_tunes hs]
    exact (ih _ hss).trans (congrArg _ (r.tuned_tuned [s] ss))

theorem readAll_flag {w : Word} {ss : List Switch} (h : w.Tunes ss) (r : Reading)
    (group : List (String × Bool)) (word : String) (ts : List (String × Word)) :
    readAll r group ((word, w) :: ts) = readAll ((r.closeGroup group).tuned ss) [] ts := by
  obtain ⟨s, short, attached, rfl, hexpand, htunes⟩ := h
  obtain ⟨hs, hss⟩ := List.forall_mem_cons.1 htunes
  have hlast : (ss.getLastD s).takesValue = false := by
    have hmem : ss.getLastD s ∈ s :: ss := List.getLastD_mem_cons
    obtain h | h := htunes _ hmem <;> rw [h] <;> rfl
  have happly := (r.closeGroup group).applyAll_tunes hss ""
  simp only [readAll, hexpand, happly, hlast, bind, Except.bind, Bool.false_eq_true, if_false]

/-- Words of which each holds switches that only tune a run, and all these switches. -/
inductive Flags : List (String × Word) → List Switch → Prop where
  | nil : Flags [] []
  | cons {w : Word} {ss ss' : List Switch} {ts : List (String × Word)} (word : String) :
      w.Tunes ss → Flags ts ss' → Flags ((word, w) :: ts) (ss ++ ss')

theorem exists_flags {flags : List String} (h : ∀ f ∈ flags, IsFlag f) :
    ∃ ts ss, Flags ts ss ∧
      ∀ words, readWords (flags ++ words) = (readWords words).map (ts ++ ·) := by
  induction flags with
  | nil =>
    exact ⟨[], [], .nil, fun words => (congrFun Except.map_id (readWords words)).symm⟩
  | cons word flags ih =>
    obtain ⟨⟨w, ss, hw, htunes⟩, hflags⟩ := List.forall_mem_cons.1 h
    obtain ⟨ts, ss', hts, hread⟩ := ih hflags
    refine ⟨(word, w) :: ts, ss ++ ss', .cons word htunes hts, fun words => ?_⟩
    rw [List.cons_append, readWords_cons hw, hread]
    cases readWords words <;> rfl

section Flags

variable {ts : List (String × Word)} {ss : List Switch}

/-- Flags before the plain words. -/
theorem Flags.readAll_append (h : Flags ts ss) (r : Reading) (ts' : List (String × Word)) :
    readAll r [] (ts ++ ts') = readAll (r.tuned ss) [] ts' := by
  induction h generalizing r with
  | nil => rw [Reading.tuned_nil, List.nil_append]
  | cons word hw _ ih =>
    rw [List.cons_append, readAll_flag hw, ih]
    exact congrArg (readAll · [] ts') (r.tuned_tuned _ _)

/-- Flags after the plain words. -/
theorem Flags.readAll_group (h : Flags ts ss) {r : Reading} (hr : r.grouped = false)
    (group : List (String × Bool)) :
    ∃ r', readAll r group ts = .ok r' ∧ r'.options = (r.takeGroup group).options.tuned ss ∧
      r'.extras = r.extras := by
  cases h with
  | nil =>
    refine ⟨r.takeGroup group, rfl, ?_, ?_⟩
    · simp [Options.tuned]
    · simp [Reading.takeGroup, hr]
  | @cons w ss₁ ss₂ ts word hw hts =>
    refine ⟨((r.closeGroup group).tuned (ss₁ ++ ss₂)).takeGroup [], ?_, ?_⟩
    · have hrest := hts.readAll_append ((r.closeGroup group).tuned ss₁) []
      rw [List.append_nil, Reading.tuned_tuned] at hrest
      rw [readAll_flag hw, hrest]
      rfl
    · cases group with
      | nil => simp [Reading.closeGroup, Reading.takeGroup, Reading.tuned, Options.tuned, hr]
      | cons t group =>
        simp [Reading.closeGroup, Reading.takeGroup, Reading.tuned, Options.tuned, hr,
          Reading.addExtras]

end Flags

/-! ## Plain words -/

def Options.ofWords (words : List String) : Options :=
  ⟨0, false, none, none, words.head?, words.tail⟩

theorem readAll_plain (r : Reading) (group : List (String × Bool)) (words : List String)
    (ts : List (String × Word)) :
    readAll r group (words.map (·, .plain) ++ ts) = readAll r (group ++ words.map (·, false)) ts := by
  induction words generalizing group with
  | nil => simp
  | cons word words ih => simp [readAll, ih]

theorem Reading.splitGroup_plain (words : List String) :
    splitGroup (words.map (·, false)) =
      ((words.take 1).map (·, false), (words.drop 1).map (·, false)) := by
  -- No word of the group is the divider.
  have hspan (words : List String) : (words.map (·, false)).span isDivider =
      ([], words.map (·, false)) := by
    cases words <;> rfl
  simp only [splitGroup, hspan, ← List.map_drop, ← List.map_take, List.nil_append, List.append_nil]

theorem Reading.options_takeGroup {r : Reading} (hr : r.grouped = false) {words : List String}
    (hwords : "--" ∉ words) : (r.takeGroup (words.map (·, false))).options =
      { r.options with program := words.head?, arguments := words.tail } := by
  have hgroup (ws : List String) (h : "--" ∉ ws) : groupWords (ws.map (·, false)) = ws := by
    rw [groupWords, List.map_map]
    exact (congrArg (List.erase · "--") (List.map_id ws)).trans (List.erase_of_not_mem h)
  have hfirst := hgroup (words.take 1) fun h => hwords (List.mem_of_mem_take h)
  have hothers := hgroup (words.drop 1) fun h => hwords (List.mem_of_mem_drop h)
  simp only [Reading.takeGroup, hr, splitGroup_plain, hfirst, hothers]
  cases words <;> rfl

/-- Plain words and flags after them. -/
theorem Flags.readAll_words {ts : List (String × Word)} {ss : List Switch} (h : Flags ts ss)
    {r : Reading} (hr : r.grouped = false) {words : List String} (hwords : "--" ∉ words) :
    ∃ r', readAll r [] (words.map (·, .plain) ++ ts) = .ok r' ∧ r'.extras = r.extras ∧
      r'.options = Options.tuned
        { r.options with program := words.head?, arguments := words.tail } ss := by
  obtain ⟨r', hread, hoptions, hextras⟩ := h.readAll_group hr (words.map (·, false))
  rw [Reading.options_takeGroup hr hwords] at hoptions
  exact ⟨r', (readAll_plain r [] words ts).trans hread, hextras, hoptions⟩

/-- A plain word is the value of the switch before it. -/
theorem readAll_value {r r' : Reading} {s : Switch} {path : String} (hs : s.takesValue = true)
    (happly : r.apply s path = .ok r') (word : String) (ts : List (String × Word)) :
    readAll r [] ((word, .switch s false none) :: (path, .plain) :: ts) = readAll r' [] ts := by
  simp [readAll, expand, Reading.closeGroup, hs, Reading.applyAll, happly, bind, Except.bind]

theorem read_of_readAll {args : List String} {ts : List (String × Word)} {r : Reading}
    (hwords : readWords args = .ok ts) (hread : readAll .start [] ts = .ok r)
    (hextras : r.extras = []) : Options.read args = .ok r.options := by
  simp [Options.read, hwords, hread, hextras, bind, Except.bind, pure, Except.pure]

theorem read_emitTree {path : String} (h : path.toList.head? ≠ some '-') :
    Options.read ["--emit-ast", path] =
      .ok { Options.ofWords [] with emitTree := some path } := by
  have hword : readWord "--emit-ast" = .ok (.switch .emitTree false none) := by rfl
  have hargs : readWords ["--emit-ast", path] =
      .ok [("--emit-ast", .switch .emitTree false none), (path, .plain)] := by
    rw [readWords_cons hword, readWords_cons (readWord_plain h)]
    rfl
  have happly : Reading.start.apply .emitTree path =
      .ok ⟨{ Options.ofWords [] with emitTree := some path }, false, []⟩ := rfl
  obtain ⟨r, hread, hextras, hoptions⟩ :=
    Flags.nil.readAll_words (r := ⟨{ Options.ofWords [] with emitTree := some path }, false, []⟩)
      rfl (List.not_mem_nil : "--" ∉ ([] : List String))
  rw [read_of_readAll hargs ((readAll_value rfl happly _ _).trans hread) hextras, hoptions]
  rfl

/-- Flags before and after the plain words say the same of a program and of a tree. -/
theorem exists_read {before after : List String} (hbefore : ∀ f ∈ before, IsFlag f)
    (hafter : ∀ f ∈ after, IsFlag f) :
    ∃ ss, ∀ words, (∀ w ∈ words, w.toList.head? ≠ some '-') →
      Options.read (before ++ words ++ after) = .ok ((Options.ofWords words).tuned ss) ∧
      ∀ path, path.toList.head? ≠ some '-' →
        Options.read (before ++ "--ast" :: path :: words ++ after) =
          .ok (Options.tuned { Options.ofWords words with runTree := some path } ss) := by
  obtain ⟨ts, ss, hts, hreadBefore⟩ := exists_flags hbefore
  obtain ⟨ts', ss', hts', hreadAfter⟩ := exists_flags hafter
  have hno {words : List String} (h : ∀ w ∈ words, w.toList.head? ≠ some '-') : "--" ∉ words :=
    fun hmem => h _ hmem rfl
  have hplain {words : List String} (h : ∀ w ∈ words, w.toList.head? ≠ some '-') :
      readWords (words ++ after) = .ok (words.map (·, .plain) ++ ts') := by
    have hlast := hreadAfter []
    rw [List.append_nil] at hlast
    rw [readWords_plain h, hlast]
    exact congrArg (fun us => Except.ok (_ ++ us)) (List.append_nil ts')
  refine ⟨ss ++ ss', fun words hwords => ⟨?_, fun path hpath => ?_⟩⟩
  · have hargs : readWords (before ++ words ++ after) =
        .ok (ts ++ (words.map (·, .plain) ++ ts')) := by
      rw [List.append_assoc, hreadBefore, hplain hwords]
      rfl
    obtain ⟨r, hread, hextras, hoptions⟩ :=
      hts'.readAll_words (r := Reading.start.tuned ss) rfl (hno hwords)
    rw [← hts.readAll_append] at hread
    rw [read_of_readAll hargs hread hextras, hoptions]
    exact congrArg Except.ok ((Options.ofWords words).tuned_tuned ss ss')
  · have hword : readWord "--ast" = .ok (.switch .runTree false none) := by rfl
    have hargs : readWords (before ++ "--ast" :: path :: words ++ after) = .ok (ts ++
        ("--ast", .switch .runTree false none) :: (path, .plain) ::
          (words.map (·, .plain) ++ ts')) := by
      rw [List.append_assoc, hreadBefore, List.cons_append, List.cons_append, readWords_cons hword,
        readWords_cons (readWord_plain hpath), hplain hwords]
      rfl
    have happly : (Reading.start.tuned ss).apply .runTree path =
        .ok ⟨{ (Options.ofWords []).tuned ss with runTree := some path }, false, []⟩ := rfl
    obtain ⟨r, hread, hextras, hoptions⟩ := hts'.readAll_words
      (r := ⟨{ (Options.ofWords []).tuned ss with runTree := some path }, false, []⟩)
      rfl (hno hwords)
    rw [← readAll_value rfl happly, ← hts.readAll_append] at hread
    rw [read_of_readAll hargs hread hextras, hoptions]
    exact congrArg Except.ok (Options.tuned_tuned
      { Options.ofWords words with runTree := some path } ss ss')

end Hantec.Cli
