import Hantec.Disk
import Hantec.Proofs.Path

/-!
# Writing files

Writing a file changes what stands at one place of a disk, and all ways that led somewhere still
lead there.
-/

namespace Hantec.Disk

/-! ## Ways -/

/-- Where one part of a path leads to from a directory. -/
def enter? (dir : List String) (p : String) : Option (List String) :=
  if p == "" || p == "." then some dir
  else if p == ".." then some dir.dropLast
  else if nameLimit < p.utf8ByteSize then none
  else some (dir ++ [p])

/-- The parts of a path are a way from one place to another through directories. -/
inductive Way (d : Disk) : List String → List String → List String → Prop where
  | stay (place : List String) : Way d place [] place
  | enter {dir place q ps : List String} {p : String} : d.nodeAt dir = some .dir →
      enter? dir p = some place → Way d place ps q → Way d dir (p :: ps) q

section Ways

variable {d : Disk} {dir place q ps : List String} {p : String} {n : Option DiskNode}

theorem walk_cons (h : d.nodeAt dir = some .dir) (p : String) (ps : List String) :
    d.walk dir (p :: ps) = ((enter? dir p).map (d.walk · ps)).getD (.error .nameTooLong) := by
  rw [walk, h]
  simp only [enter?]
  split
  · rfl
  · split
    · rfl
    · split <;> rfl

theorem walk_eq_ok_iff : d.walk place ps = .ok (q, n) ↔ d.Way place ps q ∧ n = d.nodeAt q := by
  constructor
  · intro h
    induction ps generalizing place with
    | nil =>
      cases h
      exact ⟨.stay _, rfl⟩
    | cons p ps ih =>
      have hdir : d.nodeAt place = some .dir := by
        rw [walk] at h
        split at h
        · cases h
        · cases h
        · assumption
      rw [walk_cons hdir] at h
      cases hp : enter? place p with
      | none =>
        rw [hp] at h
        cases h
      | some next =>
        rw [hp] at h
        exact (ih h).imp (.enter hdir hp) id
  · rintro ⟨h, rfl⟩
    induction h with
    | stay => rfl
    | enter hdir hp _ ih =>
      rw [walk_cons hdir, hp]
      exact ih

/-- The last part of a path leads on from a directory. -/
theorem way_concat_iff : d.Way place (ps ++ [p]) q ↔
    ∃ dir, d.Way place ps dir ∧ d.nodeAt dir = some .dir ∧ enter? dir p = some q := by
  constructor
  · intro h
    induction ps generalizing place with
    | nil =>
      cases h with
      | enter hdir hp hrest =>
        cases hrest
        exact ⟨place, .stay _, hdir, hp⟩
    | cons r ps ih =>
      cases h with
      | enter hdir hr hrest =>
        obtain ⟨dir, hway, hend⟩ := ih hrest
        exact ⟨dir, .enter hdir hr hway, hend⟩
  · rintro ⟨dir, hway, hdir, hp⟩
    induction hway with
    | stay => exact .enter hdir hp (.stay _)
    | enter hdir' hr _ ih => exact .enter hdir' hr (ih hdir hp)

theorem resolve_eq_ok_iff {path : String} : d.resolve path = .ok (q, n) ↔
    path ≠ "" ∧ path.utf8ByteSize ≤ pathLimit ∧
      d.Way (if Path.isAbsolute path then [] else d.home) (Path.rawParts path) q ∧
      n = d.nodeAt q := by
  unfold resolve
  split
  case isTrue h => simp [String.isEmpty_iff.1 h]
  case isFalse h =>
  split
  case isTrue hsize => simp [Nat.not_le.2 hsize]
  case isFalse hsize =>
    rw [walk_eq_ok_iff]
    have hne : path ≠ "" := fun hpath => h (String.isEmpty_iff.2 hpath)
    simp [hne, Nat.not_lt.1 hsize]

theorem Way.unique {q' : List String} (h : d.Way place ps q) (h' : d.Way place ps q') :
    q = q' := by
  have hwalk := walk_eq_ok_iff.2 ⟨h, rfl⟩
  rw [walk_eq_ok_iff.2 ⟨h', rfl⟩] at hwalk
  cases hwalk
  rfl

theorem enter?_name (hp : Path.IsName p) (h : enter? dir p = some q) : q = dir ++ [p] := by
  rw [enter?, if_neg (by simp [hp.ne_empty, hp.ne_dot]), if_neg (by simp [hp.ne_dots])] at h
  split at h
  · cases h
  · exact (Option.some.inj h).symm

/-- Two names after the same text are those of entries of one directory. -/
theorem exists_directory {text p p' : String} (htext : Path.Opens text) (hp : Path.IsName p)
    (hp' : Path.IsName p') {q' : List String} {n' : Option DiskNode}
    (h : d.resolve (text ++ p) = .ok (q, n)) (h' : d.resolve (text ++ p') = .ok (q', n')) :
    ∃ dir, q = dir ++ [p] ∧ q' = dir ++ [p'] := by
  obtain ⟨ps, hps⟩ := htext.exists_rawParts
  obtain ⟨-, -, hq, -⟩ := resolve_eq_ok_iff.1 h
  obtain ⟨-, -, hq', -⟩ := resolve_eq_ok_iff.1 h'
  rw [Path.isAbsolute_append hp.solid, hps p hp.solid] at hq
  rw [Path.isAbsolute_append hp'.solid, hps p' hp'.solid] at hq'
  obtain ⟨dir, hdir, -, henter⟩ := way_concat_iff.1 hq
  obtain ⟨dir', hdir', -, henter'⟩ := way_concat_iff.1 hq'
  obtain rfl := hdir.unique hdir'
  exact ⟨dir, enter?_name hp henter, enter?_name hp' henter'⟩

end Ways

/-! ## Writing -/

/-- What stands where after a file was written at a place. -/
structure Wrote (d : Disk) (place : List String) (bs : List UInt8) (d' : Disk) : Prop where
  home : d'.home = d.home
  notDir : d.nodeAt place ≠ some .dir
  nodeAt : ∀ q, d'.nodeAt q = if q = place then some (.file bs) else d.nodeAt q

section Writing

variable {d d' : Disk} {place q ps : List String} {bs : List UInt8} {path : String}

theorem lookup_putNode (key k : List String) (n : DiskNode) (es : List (List String × DiskNode)) :
    (putNode key n es).lookup k = if k = key then some n else es.lookup k := by
  have hcons (e : List String × DiskNode) (es : List (List String × DiskNode)) :
      (e :: es).lookup k = if k = e.1 then some e.2 else es.lookup k := by
    rw [List.lookup_cons]
    by_cases h : k = e.1
    · simp [h]
    · rw [beq_eq_false_iff_ne.2 h, if_neg h]
  induction es with
  | nil => exact hcons _ _
  | cons e es ih =>
    rw [putNode]
    by_cases he : e.1 = key
    · rw [if_pos he, hcons, hcons, he]
      split <;> rfl
    · rw [if_neg he, hcons, hcons, ih]
      split
      case isTrue hk => rw [if_neg (hk ▸ he)]
      case isFalse => rfl

theorem belowHome?_eq_some_iff {home place key : List String} :
    belowHome? home place = some key ↔ place = home ++ key := by
  fun_induction belowHome? home place with
  | case1 place => simp
  | case2 => simp
  | case3 h hs ps ih => simp [ih]
  | case4 h hs p ps hne => simp [Ne.symm hne]

theorem wrote_put {key : List String} (hkey : belowHome? d.home place = some key)
    (hdir : d.nodeAt place ≠ some .dir) (bs : List UInt8) :
    d.Wrote place bs (d.put key (.file bs)) := by
  refine ⟨rfl, hdir, fun q => ?_⟩
  have hplace := belowHome?_eq_some_iff.1 hkey
  have hbelow : place.isPrefixOf d.home = false := by
    rw [Bool.eq_false_iff]
    intro hpre
    exact hdir (if_pos hpre)
  unfold Disk.nodeAt put
  dsimp only
  split
  case isTrue hpre =>
    rw [if_neg]
    rintro rfl
    exact Bool.false_ne_true (hbelow.symm.trans hpre)
  case isFalse =>
    cases hq : belowHome? d.home q with
    | none =>
      rw [if_neg]
      · rfl
      rintro rfl
      cases hq.symm.trans hkey
    | some k =>
      rw [Option.bind_some, Option.bind_some, lookup_putNode]
      have hiff : q = place ↔ k = key := by
        rw [hplace, belowHome?_eq_some_iff.1 hq, List.append_cancel_left_eq]
      simp only [hiff]

/-- A path along which a file was written leads to the place of the file. -/
theorem exists_wrote (h : d.writeBytes path bs = .ok d') :
    ∃ place n, d.resolve path = .ok (place, n) ∧ d.Wrote place bs d' := by
  unfold writeBytes at h
  split at h
  case h_1 | h_2 => cases h
  case h_3 place n hdir hresolve =>
    split at h
    case h_2 => cases h
    case h_1 key hkey =>
      obtain rfl := Except.ok.inj h
      obtain ⟨-, -, -, rfl⟩ := resolve_eq_ok_iff.1 hresolve
      exact ⟨place, _, hresolve, wrote_put hkey hdir bs⟩

/-- All directories are still there. -/
structure Grows (d d' : Disk) : Prop where
  home : d'.home = d.home
  dirs : ∀ q, d.nodeAt q = some .dir → d'.nodeAt q = some .dir

theorem Wrote.grows (h : d.Wrote place bs d') : d.Grows d' := by
  refine ⟨h.home, fun q hq => ?_⟩
  have hne : q ≠ place := fun heq => h.notDir (heq ▸ hq)
  rw [h.nodeAt, if_neg hne, hq]

theorem Grows.way (h : d.Grows d') {start : List String} (hq : d.Way start ps q) :
    d'.Way start ps q := by
  induction hq with
  | stay => exact .stay _
  | enter hdir hp _ ih => exact .enter (h.dirs _ hdir) hp ih

/-- All paths that led somewhere still lead there. -/
theorem Grows.resolve (h : d.Grows d') {n : Option DiskNode} (hq : d.resolve path = .ok (q, n)) :
    d'.resolve path = .ok (q, d'.nodeAt q) := by
  obtain ⟨hne, hsize, hway, -⟩ := resolve_eq_ok_iff.1 hq
  exact resolve_eq_ok_iff.2 ⟨hne, hsize, h.home ▸ h.way hway, rfl⟩

/-- A file that is written beside another one leaves it as it is. -/
theorem exists_resolve_beside {text p p' : String} (htext : Path.Opens text) (hp : Path.IsName p)
    (hp' : Path.IsName p') (hne : p ≠ p') {n : Option DiskNode}
    (h : d.resolve (text ++ p) = .ok (q, n)) (hwrite : d.writeBytes (text ++ p') bs = .ok d') :
    ∃ dir, d'.resolve (text ++ p) = .ok (dir ++ [p], n) ∧
      d'.resolve (text ++ p') = .ok (dir ++ [p'], some (.file bs)) := by
  obtain ⟨place, n', h', hwrote⟩ := exists_wrote hwrite
  obtain ⟨dir, rfl, rfl⟩ := exists_directory htext hp hp' h h'
  have hplaces : dir ++ [p] ≠ dir ++ [p'] := by simpa using hne
  obtain ⟨-, -, -, rfl⟩ := resolve_eq_ok_iff.1 h
  refine ⟨dir, ?_, ?_⟩
  · rw [hwrote.grows.resolve h, hwrote.nodeAt, if_neg hplaces]
  · rw [hwrote.grows.resolve h', hwrote.nodeAt, if_pos rfl]

end Writing

/-! ## Listing -/

section Listing

variable {d : Disk} {place : List String} {bs : List UInt8}

theorem childOf?_eq_some_iff {dir key : List String} {name : String} :
    childOf? dir key = some name ↔ key = dir ++ [name] := by
  fun_induction childOf? dir key with
  | case1 n => simp
  | case2 k ks ps ih => simp [ih]
  | case3 k ks p ps hne => simp [Ne.symm hne]
  | case4 dir key h₁ h₂ =>
    cases dir with
    | nil =>
      simp
      rintro rfl
      exact h₁ _ rfl rfl
    | cons k ks =>
      cases key with
      | nil => simp
      | cons p ps => exact (h₂ k ks p ps rfl rfl).elim

/-- A directory lists the files that stand in it. -/
theorem mem_children {name : String} (h : d.nodeAt (place ++ [name]) = some (.file bs)) :
    name ∈ d.children place := by
  unfold nodeAt at h
  split at h
  case isTrue => cases h
  case isFalse hhome =>
    obtain ⟨key, hkey, hlookup⟩ := Option.bind_eq_some_iff.1 h
    rw [belowHome?_eq_some_iff] at hkey
    obtain rfl | ⟨key, name', rfl⟩ := key.eq_nil_or_concat
    · rw [List.append_nil] at hkey
      exact absurd (List.isPrefixOf_iff_prefix.2 ⟨[], by rw [hkey, List.append_nil]⟩) hhome
    · rw [List.concat_eq_append] at hkey hlookup
      rw [← List.append_assoc] at hkey
      obtain ⟨rfl, hname⟩ := List.append_inj' hkey rfl
      obtain rfl := List.singleton_inj.1 hname
      obtain ⟨l₁, l₂, hnodes, -⟩ := List.lookup_eq_some_iff.1 hlookup
      rw [children, belowHome?_eq_some_iff.2 rfl]
      refine List.mem_filterMap.2 ⟨(key ++ [name], .file bs), ?_, childOf?_eq_some_iff.2 rfl⟩
      rw [hnodes]
      exact List.mem_append_right _ List.mem_cons_self

theorem nodup_children (d : Disk) (place : List String) : (d.children place).Nodup := by
  unfold children
  split
  case h_1 dir _ =>
    have hnames : d.nodes.filterMap (fun e => childOf? dir e.1) =
        (d.nodes.map Prod.fst).filterMap (childOf? dir) := by rw [List.filterMap_map]; rfl
    show (d.nodes.filterMap fun e => childOf? dir e.1).Nodup
    rw [hnames]
    refine List.Pairwise.filterMap (childOf? dir) ?_ d.distinct.nodup
    rintro a b hne x hx _ hy rfl
    exact hne ((childOf?_eq_some_iff.1 hx).trans (childOf?_eq_some_iff.1 hy).symm)
  case h_2 => cases d.home.drop place.length <;> simp

end Listing

/-! ## Normal forms -/

section Normal

variable {d : Disk} {place q ps : List String} {path : String} {n : Option DiskNode}

/-- All that is above a place is directories. -/
def Founded (d : Disk) (place : List String) : Prop :=
  ∀ q, q <+: place → q ≠ place → d.nodeAt q = some .dir

theorem Way.founded {start : List String} (h : d.Way start ps q) (hstart : d.Founded start) :
    d.Founded q := by
  induction h with
  | stay => exact hstart
  | @enter dir place q ps p hdir hp _ ih =>
    refine ih fun q hq hne => ?_
    unfold enter? at hp
    split at hp
    · obtain rfl := Option.some.inj hp
      exact hstart q hq hne
    · split at hp
      · obtain rfl := Option.some.inj hp
        refine hstart q (hq.trans (List.dropLast_prefix dir)) ?_
        rintro rfl
        exact hne (hq.eq_of_length_le (by simp))
      · split at hp
        · cases hp
        · obtain rfl := Option.some.inj hp
          obtain rfl | hq := List.prefix_concat_iff.1 hq
          · exact absurd rfl hne
          · by_cases heq : q = dir
            · exact heq ▸ hdir
            · exact hstart q hq heq

/-- What a path leads to stands in a directory, unless it is the root. -/
theorem exists_directory_of_resolve (h : d.resolve path = .ok (place, n)) (hroot : place ≠ []) :
    ∃ dir name, place = dir ++ [name] ∧ d.nodeAt dir = some .dir := by
  obtain ⟨-, -, hway, -⟩ := resolve_eq_ok_iff.1 h
  have hfounded : d.Founded place := by
    refine hway.founded ?_
    split
    · intro q hq hne
      exact absurd (List.prefix_nil.1 hq) hne
    · intro q hq _
      exact if_pos (List.isPrefixOf_iff_prefix.2 hq)
  obtain ⟨dir, name, hplace⟩ := (List.eq_nil_or_concat place).resolve_left hroot
  rw [List.concat_eq_append] at hplace
  refine ⟨dir, name, hplace, hfounded dir ⟨[name], hplace.symm⟩ ?_⟩
  simp [hplace]

theorem Way.of_filter {name : String} {start : List String}
    (h : d.Way start (ps.filter (fun p => p != "" && p != ".") ++ [name]) q) :
    d.Way start (ps ++ [name]) q := by
  induction ps generalizing start with
  | nil => exact h
  | cons p ps ih =>
    by_cases hp : (p != "" && p != ".") = true
    · rw [List.filter_cons, if_pos hp] at h
      cases h with
      | enter hdir henter hrest => exact .enter hdir henter (ih hrest)
    · rw [List.filter_cons, if_neg hp] at h
      have hdir : d.nodeAt start = some .dir := by
        generalize hps : ps.filter (fun p => p != "" && p != ".") ++ [name] = ps' at h
        cases h with
        | stay => simp at hps
        | enter hdir => exact hdir
      refine .enter hdir ?_ (ih h)
      rw [enter?, if_pos]
      simpa [Classical.or_iff_not_imp_left] using hp

theorem Way.of_slashes {start : List String} {n : Nat}
    (h : d.Way start (List.replicate n "" ++ ps) q) : d.Way start ps q := by
  induction n with
  | zero => exact h
  | succ n ih =>
    cases h with
    | enter hdir henter hrest => exact ih (Option.some.inj henter ▸ hrest)

/-- A path that ends in a name leads where its normal form does. -/
theorem resolve_of_normal (hpath : Path.NamesEntry path) (hsize : path.utf8ByteSize ≤ pathLimit)
    (h : d.resolve (Path.normal path) = .ok (q, n)) : d.resolve path = .ok (q, n) := by
  obtain ⟨-, -, hway, hn⟩ := resolve_eq_ok_iff.1 h
  refine resolve_eq_ok_iff.2 ⟨hpath.ne_empty, hsize, ?_, hn⟩
  obtain ⟨dir, name, hdir, hname, rfl⟩ := hpath.exists_name
  obtain ⟨ps, hps⟩ := hdir.exists_rawParts
  have hraw := hps name hname.solid
  have hparts : Path.parts (dir ++ name) = ps.filter (fun p => p != "" && p != ".") ++ [name] := by
    rw [Path.parts, hraw]
    simp [hname.ne_empty, hname.ne_dot]
  have hne : Path.parts (dir ++ name) ≠ [] := by simp [hparts]
  obtain ⟨habsolute, n, hnormal⟩ := Path.exists_rawParts_normal hne
  rw [habsolute, hnormal, hparts] at hway
  rw [hraw]
  exact hway.of_slashes.of_filter

end Normal

end Hantec.Disk
