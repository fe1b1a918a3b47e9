import Hantec.Proofs.Disk
import Hantec.Proofs.Policy.Basic
import Hantec.Proofs.Text.Splitting
import Hantec.Proofs.Text.Utf8

/-!
# Files as a store

An operation on files acts on the disk at once and answers when its worker is done. Only a write
that succeeds changes the disk, and it changes one file. The file then holds what was written until
another write to it succeeds, whatever other operations come in between.
-/

namespace Hantec

/-! ## Operations that run alone -/

/-- What a step comes to if nothing else happens while it waits. -/
def Step.alone {α : Type} : Step α → Option (Except Failure α × State)
  | .ret a s => some (.ok a, s)
  | .fail e s => some (.error e, s)
  | .sub _ _ _ => none
  | .wait d s k => (k { s with world := s.world.pass d }).alone

/-- An operation on files. -/
inductive FileUse where
  | exists (path : String)
  | read (path : String)
  | write (path data : String)
  | list (path : String)
  | info (path : String)

namespace FileUse

def call : FileUse → Proc Value
  | .exists path => (Builtin.file .exists).call [.str path]
  | .read path => (Builtin.file .read).call [.str path]
  | .write path data => (Builtin.file .write).call [.str path, .str data]
  | .list path => (Builtin.file .list).call [.str path]
  | .info path => (Builtin.file .info).call [.str path]

def outcome (u : FileUse) (s : State) : Option (Except Failure Value × State) :=
  (u.call.run s).alone

end FileUse

/-- The disk, with all of the trace written to it. -/
def State.disk (s : State) : Disk := s.settle.world.disk

/-- Trouble with files, which a script can catch. -/
def Failure.IsFileTrouble (e : Failure) : Prop :=
  ∃ id name message, e = .raised (.err id name message) none ∧
    (name = "IOError" ∨ name = "TypeError")

/-- What an operation that leaves the disk comes to. -/
structure Leaves (s : State) (r : Except Failure Value) (s' : State) : Prop where
  config : s'.config = s.config
  disk : s'.disk = s.disk
  trouble : ∀ e, r = .error e → e.IsFileTrouble

/-- The operations in between may be any but a write that succeeds at the given place. What else is
done leaves the disk. -/
inductive Meanwhile (place : List String) : State → State → Prop where
  | refl (s : State) : Meanwhile place s s
  | use {s s₁ s₂ s' : State} {u : FileUse} {r : Except Failure Value} :
      u.outcome s = some (r, s₁) →
      (∀ path data n, u = .write path data → s.disk.resolve (Path.normal path) = .ok (place, n) →
        ∃ e, r = .error e) →
      s₂.config = s₁.config → s₂.disk = s₁.disk → Meanwhile place s₂ s' → Meanwhile place s s'

section Operations

variable {b : Builtin} {s s' : State} {α : Type}

theorem Trace.settle_of_pending {t : Trace} (h : t.pending = []) (d : Disk) :
    t.settle d = (t, d) := by
  simp [Trace.settle, h]

theorem Trace.pending_settle (t : Trace) (d : Disk) : (t.settle d).1.pending = [] := by
  unfold Trace.settle
  split
  case isTrue h => exact List.isEmpty_iff.1 h
  case isFalse =>
    dsimp only
    split <;> rfl

theorem State.disk_of_settled (h : s'.traced = s.settle.traced) : s'.disk = s'.world.disk := by
  cases ht : s.traced with
  | none =>
    have hs' : s'.traced = none := by simp [h, State.settle, ht]
    simp [State.disk, State.settle, hs']
  | some t =>
    have hs' : s'.traced = some (t.settle s.world.disk).1 := by simp [h, State.settle, ht]
    simp [State.disk, State.settle, hs', Trace.settle_of_pending (Trace.pending_settle t _)]

/-- A call of a builtin, given by what the builtin does. -/
def Builtin.conclude (b : Builtin) (p : Proc Value) : Proc Value := do
  match ← Proc.attempt p with
  | .error e => b.failWith e
  | .ok v => adopt v

/-- The state when the worker is done. -/
def State.served (s : State) : State :=
  { s.settle with world := s.settle.world.pass .worker }

theorem run_checkFileAccess (h : s.config.fileAccess = true) :
    checkFileAccess.run s = .ret () s.settle := by
  simp [checkFileAccess, h]
  rfl

theorem run_conclude_checked (h : s.config.fileAccess = true) (p : Proc Value) :
    (b.conclude (checkFileAccess >>= fun _ => p)).run s = (b.conclude p).run s.settle := by
  rw [Builtin.conclude, Proc.run_attempt_bind, Proc.run_bind, run_checkFileAccess h,
    Builtin.conclude, Proc.run_attempt_bind]
  rfl

/-- Something is done to the world, and a worker tells of it. -/
theorem alone_onWorld {f : World → α × World} (k : α → Proc Value) :
    ((b.conclude (Proc.onWorld f >>= fun a => Proc.wait .worker >>= fun _ => k a)).run s).alone =
      ((b.conclude (k (f s.world).1)).run
        { s with world := (f s.world).2.pass .worker }).alone := rfl

theorem alone_onDisk (h : s.config.fileAccess = true) (f : Disk → α) (k : α → Proc Value) :
    ((b.conclude (onDisk f >>= k)).run s).alone =
      ((b.conclude (k (f s.disk))).run s.served).alone := by
  have hdisk : (onDisk f).run s = .wait .worker s.settle fun s' => .ret (f s.disk) s' := by
    rw [onDisk, Proc.run_bind, run_checkFileAccess h]
    rfl
  rw [Builtin.conclude, Proc.run_attempt_bind, Proc.run_bind, hdisk, Builtin.conclude,
    Proc.run_attempt_bind]
  rfl

/-- The procedure answers once its worker is done, and it leaves the disk. -/
def Answers (p : Proc Value) : Prop :=
  ∀ s : State, ∃ r s', (p.run s.served).alone = some (r, s') ∧ Leaves s r s'

/-- The procedure fails once its worker is done, and it leaves the disk. -/
def Fails (p : Proc Value) : Prop :=
  ∀ s : State, ∃ e s', (p.run s.served).alone = some (.error e, s') ∧ Leaves s (.error e) s'

theorem Fails.answers {p : Proc Value} (h : Fails p) : Answers p := fun s =>
  (h s).elim fun _ hs => ⟨_, hs⟩

theorem Leaves.of_heap (s : State) (h : Heap) {r : Except Failure Value}
    (htrouble : ∀ e, r = .error e → e.IsFileTrouble) : Leaves s r { s.served with heap := h } :=
  ⟨s.config_settle, State.disk_of_settled (s := s) rfl, htrouble⟩

theorem answers_of_heap {p : Proc Value} (h : ∀ s : State, ∃ v h,
    (p.run s.served).alone = some (.ok v, { s.served with heap := h })) : Answers p := by
  intro s
  obtain ⟨v, h, hp⟩ := h s
  exact ⟨_, _, hp, .of_heap s h fun _ he => by cases he⟩

theorem fails_fault {f : Fault} (h : f.errorName? = some "TypeError") :
    Fails (b.conclude (Proc.fault f)) := by
  intro s
  have hrun : (b.conclude (Proc.fault f)).run s.served = (b.failWith (.fault f)).run s.served := rfl
  rw [hrun, Builtin.failWith]
  simp only [h]
  exact ⟨_, _, rfl, .of_heap s _ fun _ he => ⟨_, _, _, (Except.error.inj he).symm, .inr rfl⟩⟩

theorem fails_diskFailure (verb path : String) (e : DiskError) :
    Fails (b.conclude (diskFailure verb path e)) :=
  fun s => ⟨_, _, rfl, .of_heap s _ fun _ he => ⟨_, _, _, (Except.error.inj he).symm, .inl rfl⟩⟩

/-- An operation that is no write leaves the disk. -/
theorem exists_leaves (h : s.config.fileAccess = true) {u : FileUse}
    (hu : ∀ path data, u ≠ .write path data) :
    ∃ r s', u.outcome s = some (r, s') ∧ Leaves s r s' := by
  have hbody {b : Builtin} {α : Type} {f : Disk → α} {k : α → Proc Value}
      (hk : ∀ a, Answers (b.conclude (k a))) :
      ∃ r s', ((b.conclude (onDisk f >>= k)).run s).alone = some (r, s') ∧ Leaves s r s' :=
    alone_onDisk h f k ▸ hk (f s.disk) s
  cases u with
  | «exists» path => exact hbody fun _ => answers_of_heap fun _ => ⟨_, _, rfl⟩
  | read path =>
    refine hbody (b := .file .read) fun bytes => ?_
    split
    · exact (fails_fault rfl).answers
    · split
      · exact (fails_diskFailure _ _ _).answers
      · split
        · exact answers_of_heap fun _ => ⟨_, _, rfl⟩
        · exact (fails_fault rfl).answers
  | write path data => exact absurd rfl (hu path data)
  | list path =>
    refine hbody (b := .file .list) fun names => ?_
    split
    · exact (fails_fault rfl).answers
    · split
      · exact (fails_diskFailure _ _ _).answers
      · exact answers_of_heap fun _ => ⟨_, _, rfl⟩
  | info path =>
    refine hbody (b := .file .info) fun found => ?_
    split
    · exact (fails_fault rfl).answers
    · split
      · exact (fails_diskFailure _ _ _).answers
      · exact answers_of_heap fun _ => ⟨_, _, rfl⟩

/-- A write fails and leaves the disk, or it succeeds and writes the file. -/
theorem exists_write (h : s.config.fileAccess = true) (path data : String) :
    ∃ r s', (FileUse.write path data).outcome s = some (r, s') ∧
      ((∃ e, r = .error e) ∧ Leaves s r s' ∨
        r = .ok (.bool true) ∧ s'.config = s.config ∧ hasNullByte path = false ∧
          s.disk.writeBytes (Path.normal path) (Text.encodeUtf8 data) = .ok s'.disk) := by
  have hcall : (FileUse.write path data).outcome s = _ :=
    congrArg Step.alone (run_conclude_checked (b := .file .write) h _)
  cases hnull : hasNullByte path with
  | true =>
    simp only [hnull, if_true] at hcall
    obtain ⟨e, s', halone, hleaves⟩ := fails_fault (f := .nullByte) rfl s
    exact ⟨_, s', hcall.trans halone, .inl ⟨⟨e, rfl⟩, hleaves⟩⟩
  | false =>
    simp only [hnull, Bool.false_eq_true, if_false] at hcall
    rw [alone_onWorld] at hcall
    cases hwrite : s.disk.writeBytes (Path.normal path) (Text.encodeUtf8 data) with
    | error e =>
      have hto : writeTo (Path.normal path) data s.settle.world = (some e, s.settle.world) := by
        rw [writeTo, show s.settle.world.disk = s.disk from rfl, hwrite]
      rw [hto] at hcall
      obtain ⟨e, s', halone, hleaves⟩ := fails_diskFailure "write" path e s
      exact ⟨_, s', hcall.trans halone, .inl ⟨⟨e, rfl⟩, hleaves⟩⟩
    | ok disk =>
      have hto : writeTo (Path.normal path) data s.settle.world =
          (none, { s.settle.world with disk := disk }) := by
        rw [writeTo, show s.settle.world.disk = s.disk from rfl, hwrite]
      rw [hto] at hcall
      refine ⟨_, _, hcall, .inr ⟨rfl, s.config_settle, rfl, congrArg Except.ok ?_⟩⟩
      symm
      exact State.disk_of_settled (s := s) rfl

/-! ## Answers after a write -/

section Answered

variable (h : s.config.fileAccess = true) {path : String} (hnull : hasNullByte path = false)

include h hnull

theorem outcome_read {bs : List UInt8} {text : String}
    (hbytes : s.disk.readBytes (Path.normal path) = .ok bs) (htext : fileText bs = .ok text) :
    ∃ s', (FileUse.read path).outcome s = some (.ok (.str text), s') := by
  refine ⟨s.served, (alone_onDisk (b := .file .read) h _ _).trans ?_⟩
  simp only [hnull, hbytes, htext, Bool.false_eq_true, if_false]
  rfl

theorem outcome_exists (hfound : s.disk.exists? path = true) :
    ∃ s', (FileUse.exists path).outcome s = some (.ok (.bool true), s') := by
  refine ⟨s.served, (alone_onDisk (b := .file .exists) h _ _).trans ?_⟩
  simp only [hnull, hfound]
  rfl

theorem outcome_list {names : List String} (hnames : s.disk.list path = .ok names) :
    ∃ r s', (FileUse.list path).outcome s = some (.ok (.arr r), s') ∧
      (s'.heap.array r).toList = names.map .str := by
  have hcall : (FileUse.list path).outcome s = _ := alone_onDisk (b := .file .list) h _ _
  simp only [hnull, hnames, Bool.false_eq_true, if_false] at hcall
  exact ⟨_, _, hcall, by simp [Heap.array]⟩

theorem outcome_info {node : DiskNode} (hfound : s.disk.find path = .ok node) :
    ∃ r s', (FileUse.info path).outcome s = some (.ok (.obj r), s') ∧
      s'.heap.object r = Dict.ofList (entryInfo s.disk path s.served.world.clock node) := by
  have hcall : (FileUse.info path).outcome s = _ := alone_onDisk (b := .file .info) h _ _
  simp only [hnull, hfound, Bool.false_eq_true, if_false, Except.map] at hcall
  exact ⟨_, _, hcall, by simp [Heap.object]⟩

end Answered

end Operations

/-! ## The store -/

section Store

variable {place : List String} {s s' : State}

/-- A later disk on which the file at a place is as it was. -/
structure Disk.Keeps (d : Disk) (place : List String) (d' : Disk) : Prop
    extends Disk.Grows d d' where
  nodeAt : d'.nodeAt place = d.nodeAt place

theorem Disk.Keeps.of_eq {d d' : Disk} (h : d' = d) : d.Keeps place d' := by
  subst h
  exact ⟨⟨rfl, fun _ hq => hq⟩, rfl⟩

theorem Disk.Keeps.trans {d d₁ d₂ : Disk} (h : d.Keeps place d₁) (h' : d₁.Keeps place d₂) :
    d.Keeps place d₂ :=
  ⟨⟨h'.home.trans h.home, fun q hq => h'.dirs q (h.dirs q hq)⟩, h'.nodeAt.trans h.nodeAt⟩

/-- An operation that does not write the file keeps it. -/
theorem keeps_of_outcome (h : s.config.fileAccess = true) {u : FileUse}
    {r : Except Failure Value} (hu : u.outcome s = some (r, s'))
    (hplace : ∀ path data n, u = .write path data →
      s.disk.resolve (Path.normal path) = .ok (place, n) → ∃ e, r = .error e) :
    s'.config = s.config ∧ s.disk.Keeps place s'.disk := by
  by_cases hwrites : ∃ path data, u = .write path data
  · obtain ⟨path, data, rfl⟩ := hwrites
    obtain ⟨r₁, s₁, houtcome, hr⟩ := exists_write h path data
    obtain ⟨rfl, rfl⟩ : r₁ = r ∧ s₁ = s' := by simpa using houtcome.symm.trans hu
    obtain ⟨-, hleaves⟩ | ⟨rfl, hconfig, -, hbytes⟩ := hr
    · exact ⟨hleaves.config, .of_eq hleaves.disk⟩
    · obtain ⟨q, n, hresolve, hwrote⟩ := Disk.exists_wrote hbytes
      have hne : place ≠ q := by
        rintro rfl
        obtain ⟨e, he⟩ := hplace path data n rfl hresolve
        cases he
      exact ⟨hconfig, hwrote.grows, (hwrote.nodeAt place).trans (if_neg hne)⟩
  · obtain ⟨r₁, s₁, houtcome, hleaves⟩ :=
      exists_leaves h fun path data heq => hwrites ⟨path, data, heq⟩
    obtain ⟨rfl, rfl⟩ : r₁ = r ∧ s₁ = s' := by simpa using houtcome.symm.trans hu
    exact ⟨hleaves.config, .of_eq hleaves.disk⟩

theorem Meanwhile.keeps (h : Meanwhile place s s') (haccess : s.config.fileAccess = true) :
    s'.config = s.config ∧ s.disk.Keeps place s'.disk := by
  induction h with
  | refl s => exact ⟨rfl, .of_eq rfl⟩
  | use houtcome hplace hconfig hdisk _ ih =>
    obtain ⟨hconfig₁, hkeeps₁⟩ := keeps_of_outcome haccess houtcome hplace
    obtain ⟨hconfig', hkeeps'⟩ := ih (by rw [hconfig, hconfig₁, haccess])
    exact ⟨hconfig'.trans (hconfig.trans hconfig₁), hkeeps₁.trans (hdisk ▸ hkeeps')⟩

theorem Disk.find_of_resolve {d : Disk} {path : String} {n : DiskNode}
    (h : d.resolve path = .ok (place, some n)) : d.find path = .ok n := by
  rw [Disk.find, h]

/-- A directory is listed without repetitions and in order, with the files that stand in it. -/
theorem Disk.exists_list {d : Disk} {path name : String} {dir : List String}
    {bs : List UInt8} (hdir : d.resolve path = .ok (dir, some .dir))
    (hfile : d.nodeAt (dir ++ [name]) = some (.file bs)) :
    ∃ names, d.list path = .ok names ∧ names.Pairwise (· ≤ ·) ∧ names.Nodup ∧ name ∈ names := by
  have hperm := List.mergeSort_perm (d.children dir) fun a b => !(decide (b < a))
  refine ⟨_, by rw [Disk.list, hdir], ?_, ?_, ?_⟩
  · refine (List.pairwise_mergeSort ?_ ?_ _).imp fun h => ?_
    · intro a b c hab hbc
      simp only [Bool.not_eq_true', decide_eq_false_iff_not, String.not_lt] at hab hbc ⊢
      exact String.le_trans hab hbc
    · intro a b
      simp only [Bool.or_eq_true, Bool.not_eq_true', decide_eq_false_iff_not, String.not_lt]
      exact String.le_total a b
    · simpa only [Bool.not_eq_true', decide_eq_false_iff_not, String.not_lt] using h
  · exact hperm.nodup_iff.2 (d.nodup_children dir)
  · exact hperm.mem_iff.2 (Disk.mem_children hfile)

theorem get?_size (d : Disk) (path : String) (clock : Float) (node : DiskNode) :
    (Dict.ofList (entryInfo d path clock node)).get? "size" =
      some (.num (Float.ofNat (entryNumbers d path node).1)) := by
  simp [entryInfo, Dict.ofList, Dict.putAll, Dict.get?_put]

theorem unifyLines_eq_replace (s : String) : String.ofList (unifyLines s.toList) =
    Text.replace (Text.replace s "\r\n" "\n") "\r" "\n" := by
  have hchars (cs : List Char) : unifyLines cs =
      Text.substitute ['\r'] ['\n'] (Text.substitute ['\r', '\n'] ['\n'] cs) := by
    fun_induction unifyLines cs with
    | case1 cs ih =>
      have hline : Text.substitute ['\r', '\n'] ['\n'] ('\r' :: '\n' :: cs) = _ :=
        Text.substitute_append (by decide) ['\n'] cs
      rw [hline, List.singleton_append, Text.substitute_cons (by simp), ih]
    | case2 cs hcs ih =>
      have hreturn (s : List Char) : Text.substitute ['\r'] ['\n'] ('\r' :: s) = _ :=
        Text.substitute_append (by decide) ['\n'] s
      rw [Text.substitute_cons, hreturn, ih]
      · rfl
      · rintro ⟨s, hs⟩
        obtain ⟨-, hs⟩ := List.cons.inj hs
        exact hcs s hs.symm
    | case3 c cs _ hc ih =>
      rw [Text.substitute_cons, Text.substitute_cons, ih] <;> simp [Ne.symm hc]
    | case4 => rfl
  apply String.toList_injective
  rw [String.toList_ofList, hchars, Text.toList_replace (by decide),
    Text.toList_replace (by decide)]
  rfl

end Store

/-- Of the operations on files only a write that succeeds changes the disk, and the others fail only
with trouble that can be caught. The write changes one file. Until another write to this file
succeeds, its text is read back with unified line ends, and its directory lists it once and in
order. If the path ends in the name of the file and is not too long, then the file is there and has
the size of the text. All of this is below the home of the disk, outside of which there is nothing
but the directories above it. -/
theorem written_file_is_kept {s : State} (haccess : s.config.fileAccess = true)
    (u : FileUse) :
    ∃ r s₁, u.outcome s = some (r, s₁) ∧
      ((∀ path data, u = .write path data → ∃ e, r = .error e) → Leaves s r s₁) ∧
      ∀ path data v, u = .write path data → r = .ok v → ∃ dir name,
        s.disk.Wrote (dir ++ [name]) (Text.encodeUtf8 data) s₁.disk ∧
        ∀ s₂, Meanwhile (dir ++ [name]) s₁ s₂ →
          (∃ s₃, (FileUse.read path).outcome s₂ = some (.ok (.str
            (Text.replace (Text.replace data "\r\n" "\n") "\r" "\n")), s₃)) ∧
          (Path.NamesEntry path → path.utf8ByteSize ≤ Disk.pathLimit →
            (∃ s₃, (FileUse.exists path).outcome s₂ = some (.ok (.bool true), s₃)) ∧
            ∃ o s₃, (FileUse.info path).outcome s₂ = some (.ok (.obj o), s₃) ∧
              (s₃.heap.object o).get? "size" =
                some (.num (Float.ofNat (Text.encodeUtf8 data).length))) ∧
          ∀ parent n, hasNullByte parent = false → s₂.disk.resolve parent = .ok (dir, n) →
            ∃ (a : Nat) (s₃ : State) (names : List String),
              (FileUse.list parent).outcome s₂ = some (.ok (.arr a), s₃) ∧
              (s₃.heap.array a).toList = names.map .str ∧
              names.Pairwise (· ≤ ·) ∧ names.Nodup ∧ name ∈ names := by
  by_cases hwrites : ∃ path data, u = .write path data
  case neg =>
    have hu (path data : String) : u ≠ .write path data := fun heq => hwrites ⟨path, data, heq⟩
    obtain ⟨r, s₁, houtcome, hleaves⟩ := exists_leaves haccess hu
    exact ⟨r, s₁, houtcome, fun _ => hleaves, fun path data _ heq => absurd heq (hu path data)⟩
  obtain ⟨path, data, rfl⟩ := hwrites
  obtain ⟨r, s₁, houtcome, ⟨⟨e, rfl⟩, hleaves⟩ | ⟨rfl, hconfig, hnull, hbytes⟩⟩ :=
    exists_write haccess path data
  · refine ⟨_, s₁, houtcome, fun _ => hleaves, fun _ _ v _ hv => by cases hv⟩
  refine ⟨_, s₁, houtcome, fun hfails => ?_, fun _ _ v heq _ => ?_⟩
  · obtain ⟨e, he⟩ := hfails path data rfl
    cases he
  obtain ⟨rfl, rfl⟩ := FileUse.write.inj heq
  obtain ⟨place, n, hresolve, hwrote⟩ := Disk.exists_wrote hbytes
  have hroot : place ≠ [] := by
    rintro rfl
    exact hwrote.notDir (if_pos rfl)
  obtain ⟨dir, name, rfl, hdir⟩ := Disk.exists_directory_of_resolve hresolve hroot
  refine ⟨dir, name, hwrote, fun s₂ hmeanwhile => ?_⟩
  obtain ⟨hconfig₂, hkeeps⟩ := hmeanwhile.keeps (by rw [hconfig, haccess])
  have haccess₂ : s₂.config.fileAccess = true := by rw [hconfig₂, hconfig, haccess]
  have hgrows := hwrote.grows
  have hnode : s₂.disk.nodeAt (dir ++ [name]) = some (.file (Text.encodeUtf8 data)) := by
    rw [hkeeps.nodeAt, hwrote.nodeAt, if_pos rfl]
  have hresolve₂ := hkeeps.toGrows.resolve (hgrows.resolve hresolve)
  rw [hnode] at hresolve₂
  refine ⟨?_, fun hname hsize => ?_, fun parent n hnull hparent => ?_⟩
  · rw [← unifyLines_eq_replace]
    refine outcome_read haccess₂ hnull ?_ (fileText_unified data)
    rw [Disk.readBytes, Disk.find_of_resolve hresolve₂]
  · have hfind := Disk.find_of_resolve (Disk.resolve_of_normal hname hsize hresolve₂)
    refine ⟨outcome_exists haccess₂ hnull ?_, ?_⟩
    · rw [Disk.exists?, hfind]
      rfl
    · obtain ⟨o, s₃, hinfo, hobject⟩ := outcome_info haccess₂ hnull hfind
      refine ⟨o, s₃, hinfo, ?_⟩
      rw [hobject, get?_size]
      rfl
  · obtain ⟨-, -, -, rfl⟩ := Disk.resolve_eq_ok_iff.1 hparent
    rw [hkeeps.dirs dir (hgrows.dirs dir hdir)] at hparent
    obtain ⟨names, hlist, hsorted⟩ := Disk.exists_list hparent hnode
    obtain ⟨a, s₃, houtcome, hitems⟩ := outcome_list haccess₂ hnull hlist
    exact ⟨a, s₃, names, houtcome, hitems, hsorted⟩

/-- A state with an empty disk that scripts may use. -/
def emptyStore : State :=
  ⟨⟨.absent, true, 0, true, []⟩, .initial, ⟨#[], ⟨[], []⟩, ⟨[], []⟩, [], 0, 0⟩, none, false⟩

/-- After another file is written, the text is read back with its line end of two characters as
one, and the file is there, has its size and is listed. -/
theorem written_file_is_kept_lines :
    emptyStore.config.fileAccess = true ∧
    ∃ s₁ s₂, (FileUse.write "a" "x\r\ny").outcome emptyStore = some (.ok (.bool true), s₁) ∧
      (FileUse.write "b" "z").outcome s₁ = some (.ok (.bool true), s₂) ∧
      (∃ s₃, (FileUse.read "a").outcome s₂ =
        some (.ok (.str (Text.replace (Text.replace "x\r\ny" "\r\n" "\n") "\r" "\n")), s₃)) ∧
      (∃ s₃, (FileUse.exists "a").outcome s₂ = some (.ok (.bool true), s₃)) ∧
      (∃ o s₃, (FileUse.info "a").outcome s₂ = some (.ok (.obj o), s₃) ∧
        (s₃.heap.object o).get? "size" =
          some (.num (Float.ofNat (Text.encodeUtf8 "x\r\ny").length))) ∧
      ∃ (a : Nat) (s₃ : State) (names : List String),
        (FileUse.list ".").outcome s₂ = some (.ok (.arr a), s₃) ∧
        (s₃.heap.array a).toList = names.map .str ∧ names.Nodup ∧ "a" ∈ names := by
  obtain ⟨s₁, s₂, hfirst, hsecond, hfile, hother, hroot⟩ : ∃ s₁ s₂,
      (FileUse.write "a" "x\r\ny").outcome emptyStore = some (.ok (.bool true), s₁) ∧
      (FileUse.write "b" "z").outcome s₁ = some (.ok (.bool true), s₂) ∧
      s₁.disk.nodeAt ["a"] = some (.file (Text.encodeUtf8 "x\r\ny")) ∧
      s₁.disk.resolve (Path.normal "b") = .ok (["b"], none) ∧
      s₂.disk.resolve "." = .ok ([], some .dir) := ⟨_, _, rfl, rfl, rfl, rfl, rfl⟩
  obtain ⟨r, s₁', houtcome, -, hwrite⟩ :=
    written_file_is_kept (s := emptyStore) rfl (.write "a" "x\r\ny")
  obtain ⟨rfl, rfl⟩ := Prod.mk.inj (Option.some.inj (hfirst.symm.trans houtcome))
  obtain ⟨dir, name, hwrote, hkept⟩ := hwrite "a" "x\r\ny" _ rfl rfl
  -- Nothing was there before, so the file that is there now is the one that was written.
  have hplace : dir ++ [name] = ["a"] := by
    refine Decidable.byContradiction fun hne => ?_
    rw [hwrote.nodeAt, if_neg (Ne.symm hne)] at hfile
    cases hfile
  obtain ⟨rfl, rfl⟩ : dir = [] ∧ name = "a" := by simpa [List.append_eq_singleton_iff] using hplace
  have hmeanwhile : Meanwhile ([] ++ ["a"]) s₁ s₂ := by
    refine .use hsecond (fun path data n heq hresolve => ?_) rfl rfl (.refl s₂)
    obtain ⟨rfl, rfl⟩ := FileUse.write.inj heq
    have hplaces : ["b"] = ["a"] := congrArg Prod.fst (Except.ok.inj (hother.symm.trans hresolve))
    exact absurd hplaces (by decide)
  obtain ⟨hread, hthere, hlist⟩ := hkept s₂ hmeanwhile
  obtain ⟨hexists, hinfo⟩ := hthere ⟨"a", by decide⟩ (by decide)
  obtain ⟨a, s₃, names, hlisted, hitems, -, hnodup, hmem⟩ := hlist "." _ rfl hroot
  exact ⟨rfl, s₁, s₂, hfirst, hsecond, hread, hexists, hinfo, a, s₃, names, hlisted, hitems, hnodup,
    hmem⟩

/-- A slash at the end of the path does not keep the file from being written, but from being
found. -/
theorem written_file_not_found :
    ∃ e s₁ s₂ s₃, (FileUse.write "x/" "t").outcome emptyStore = some (.ok (.bool true), s₁) ∧
      (FileUse.exists "x/").outcome s₁ = some (.ok (.bool false), s₂) ∧
      (FileUse.info "x/").outcome s₂ = some (.error e, s₃) :=
  ⟨_, _, _, _, rfl, rfl, rfl⟩

end Hantec
