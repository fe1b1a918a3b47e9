import Hantec.Cli.Command
import Hantec.Proofs.Cli.Options
import Hantec.Proofs.Disk
import Hantec.Proofs.Stored
import Hantec.Proofs.Text.Utf8

/-!
# Running an emitted tree

A command that runs the tree of a program does what a command that runs the program does. The two
differ in what they take for the arguments of the script: where a tree is run, the first plain word
still counts as the program.
-/

namespace Hantec.Cli

/-! ## Sources -/

section Sources

variable {w w' : World} {path text : String} {p : List Stmt}

theorem readSource_eq_ok_iff :
    readSource w path = .ok text ↔ '\x00' ∉ path.toList ∧ ∃ place bytes,
      w.disk.resolve path = .ok (place, some (.file bytes)) ∧ fileText bytes = .ok text := by
  by_cases hnull : path.toList.contains '\x00' = true
  · have hmem : '\x00' ∈ path.toList := List.contains_iff_mem.1 hnull
    simp [readSource, hmem]
  · have hmem : '\x00' ∉ path.toList := fun h => hnull (List.contains_iff_mem.2 h)
    simp only [readSource, World.readText, Disk.readBytes, Disk.find, hnull]
    cases hresolve : w.disk.resolve path with
    | error c => cases c <;> simp
    | ok found =>
      obtain ⟨place, node⟩ := found
      cases node with
      | none => simp
      | some node =>
        cases node with
        | dir => simp
        | file bytes =>
          cases htext : fileText bytes with
          | error e => simp [htext]
          | ok text' =>
            simp only [Bool.false_eq_true, if_false, htext, Except.ok.injEq, Prod.mk.injEq,
              Option.some.injEq, DiskNode.file.injEq, hmem, not_false_eq_true, true_and]
            constructor
            · rintro rfl
              exact ⟨place, bytes, ⟨rfl, rfl⟩, htext⟩
            · rintro ⟨_, _, ⟨-, rfl⟩, htext''⟩
              exact Except.ok.inj (htext.symm.trans htext'')

theorem readProgram_eq_ok_iff :
    readProgram w path = .ok p ↔
      ∃ source, readSource w path = .ok source ∧ parseProgram source = .ok p := by
  unfold readProgram
  cases readSource w path with
  | error e => simp [bind, Except.bind]
  | ok source =>
    simp only [bind, Except.bind, Except.ok.injEq, exists_eq_left']
    cases parseProgram source <;> simp [pure, Except.pure]

/-- The text of a program's tree is read back as the program. -/
theorem readTree_eq_ok (htree : (programJsonTree p).Storable)
    (hp : (programJsonTree p).toProgram = p)
    (htext : readSource w path = .ok (Tree.toProgramJson (programJsonTree p)).render) :
    readTree w path = .ok p := by
  have hparse := Json.parse_render htree.readable_toProgramJson
  have hbody : Tree.ofProgramJson (programJsonTree p).toProgramJson = .ok (programJsonTree p) :=
    htree.ofJson_toJson
  simp only [readTree, htext, hparse, hbody, hp, bind, Except.bind, pure, Except.pure]

end Sources

/-! ## Programs and their trees -/

/-- Both a program and its tree can be read, and they stand in one directory. -/
structure HoldsTree (w : World) (path tree : String) (p : List Stmt) : Prop where
  readProgram : readProgram w path = .ok p
  readTree : readTree w tree = .ok p
  directory : fileDirectory w tree = fileDirectory w path

theorem nonempty?_some {s : String} (h : s ≠ "") : nonempty? (some s) = some s := by
  simp [nonempty?, h]

/-- What is run and in which directory does not depend on which of the two files is given. -/
theorem HoldsTree.perform_eq {w : World} {F A : String} {p : List Stmt}
    (h : HoldsTree w (Path.normal F) (Path.normal A) p) (hF : F ≠ "") (hA : A ≠ "") {o o' : Options}
    (ho : o.emitTree = none ∧ o.runTree = some A)
    (ho' : o'.emitTree = none ∧ o'.runTree = none ∧ o'.program = some F)
    (hconfig : ∀ base, o.config base = o'.config base) (limit : Nat) (input : String) :
    perform limit o w input = runProgram limit o' w (Path.normal F) p ∧
      perform limit o' w input = runProgram limit o' w (Path.normal F) p := by
  have hnone : nonempty? none = none := rfl
  constructor
  · simp only [perform, ho.1, ho.2, hnone, nonempty?_some hA, h.readTree, runProgram, h.directory,
      hconfig]
  · simp only [perform, ho'.1, ho'.2.1, ho'.2.2, hnone, nonempty?_some hF, h.readProgram]

/-- After the tree of a program was written beside it, both can be read. -/
theorem holdsTree_of_writeBytes {w w' : World} {F source : String} {p : List Stmt}
    (hname : Path.NamesEntry F) (hsource : readSource w (Path.normal F) = .ok source)
    (hp : parseProgram source = .ok p) (hstored : IsStorable source)
    (hwrite : w.disk.writeBytes (Path.normal F ++ ".ast.json")
      (Text.encodeUtf8 (Tree.toProgramJson (programJsonTree p)).render) = .ok w'.disk) :
    HoldsTree w' (Path.normal F) (Path.normal (F ++ ".ast.json")) p := by
  obtain ⟨dir, name, hdir, hentry, rfl⟩ := hname.exists_name
  obtain ⟨base, hbase, hnormal⟩ := hdir.exists_normal
  have hentry' : Path.IsName (name ++ ".ast.json") := hentry.append (by decide) (by decide)
  have hne : name ≠ name ++ ".ast.json" := fun heq => by
    simpa using congrArg String.length heq
  rw [String.append_assoc, hnormal _ hentry'.solid hentry'.ne_empty hentry'.ne_dot]
  rw [hnormal _ hentry.solid hentry.ne_empty hentry.ne_dot] at hsource hwrite ⊢
  rw [String.append_assoc] at hwrite
  obtain ⟨hnull, place, bytes, hresolve, htext⟩ := readSource_eq_ok_iff.1 hsource
  obtain ⟨dir, hprogram, htree⟩ :=
    Disk.exists_resolve_beside hbase hentry hentry' hne hresolve hwrite
  have hnull' : '\x00' ∉ (base ++ (name ++ ".ast.json")).toList := by simpa using hnull
  have hstorable := hstored.storable hp
  have hreturn : '\r' ∉ (Tree.toProgramJson (programJsonTree p)).render.toList := by
    rw [Json.render, String.toList_ofList]
    exact hstorable.readable_toProgramJson.notMem_write 0
  have htreeText := fileText_encodeUtf8 hreturn
  refine ⟨readProgram_eq_ok_iff.2 ⟨source, ?_, hp⟩,
    readTree_eq_ok hstorable (toProgram_programJsonTree hp) ?_, ?_⟩
  · exact readSource_eq_ok_iff.2 ⟨hnull, _, _, hprogram, htext⟩
  · exact readSource_eq_ok_iff.2 ⟨hnull', _, _, htree, htreeText⟩
  · simp [fileDirectory, hprogram, htree]

/-! ## Commands -/

theorem run_of_read {limit : Nat} {args : List String} {w : World} {input : String} {o : Options}
    (h : Options.read args = .ok o) : run limit args w input = perform limit o w input := by
  rw [run, h]

/-- A command that has emitted a tree has written it beside the program. -/
theorem writeBytes_of_run {limit : Nat} {w : World} {F input : String} {p : List Stmt} {e : Ended}
    (hF : F ≠ "") (hdash : F.toList.head? ≠ some '-')
    (hp : readProgram w (Path.normal F) = .ok p)
    (hrun : run limit ["--emit-ast", F] w input = some e) (hstatus : e.result = .ok 0) :
    w.disk.writeBytes (Path.normal F ++ ".ast.json")
      (Text.encodeUtf8 (Tree.toProgramJson (programJsonTree p)).render) = .ok e.world.disk := by
  rw [run_of_read (read_emitTree hdash)] at hrun
  simp only [perform, nonempty?_some hF, emitTree, hp, Option.some.injEq] at hrun
  split at hrun
  case h_1 =>
    subst hrun
    cases hstatus
  case h_2 disk hwrite =>
    subst hrun
    exact hwrite

theorem holdsTree_of_run {limit : Nat} {w w' : World} {F source input : String} {p : List Stmt}
    {e : Ended} (hname : Path.NamesEntry F) (hdash : F.toList.head? ≠ some '-')
    (hsource : readSource w (Path.normal F) = .ok source) (hp : parseProgram source = .ok p)
    (hstored : IsStorable source) (hemit : run limit ["--emit-ast", F] w input = some e)
    (hstatus : e.result = .ok 0) (hdisk : w'.disk = e.world.disk) :
    HoldsTree w' (Path.normal F) (Path.normal (F ++ ".ast.json")) p := by
  have hread := readProgram_eq_ok_iff.2 ⟨source, hsource, hp⟩
  have hwrite := writeBytes_of_run hname.ne_empty hdash hread hemit hstatus
  rw [← hdisk] at hwrite
  exact holdsTree_of_writeBytes hname hsource hp hstored hwrite

/-- The first plain word beside a tree is dropped; the others are the arguments of the script. -/
theorem HoldsTree.run_eq {w : World} {F : String} {p : List Stmt}
    (h : HoldsTree w (Path.normal F) (Path.normal (F ++ ".ast.json")) p) (hF : F ≠ "")
    (hdash : F.toList.head? ≠ some '-') (before after xs : List String)
    (hbefore : ∀ f ∈ before, IsFlag f) (hafter : ∀ f ∈ after, IsFlag f)
    (hxs : ∀ x ∈ xs, x.toList.head? ≠ some '-') (limit : Nat) (input : String) :
    ∃ o : Options, o.arguments = xs.tail ∧
      run limit (before ++ "--ast" :: (F ++ ".ast.json") :: xs ++ after) w input =
        runProgram limit o w (Path.normal F) p ∧
      run limit (before ++ F :: xs.tail ++ after) w input =
        runProgram limit o w (Path.normal F) p := by
  obtain ⟨ss, hread⟩ := exists_read hbefore hafter
  have hdash' : (F ++ ".ast.json").toList.head? ≠ some '-' := by
    obtain ⟨c, cs, hcs⟩ := List.exists_cons_of_ne_nil (mt String.toList_eq_nil_iff.1 hF)
    rw [hcs] at hdash
    rwa [String.toList_append, hcs]
  have hrest : ∀ x ∈ F :: xs.tail, x.toList.head? ≠ some '-' :=
    List.forall_mem_cons.2 ⟨hdash, fun x hx => hxs x (List.mem_of_mem_tail hx)⟩
  refine ⟨(Options.ofWords (F :: xs.tail)).tuned ss, rfl, ?_⟩
  rw [run_of_read ((hread xs hxs).2 _ hdash'), run_of_read (hread _ hrest).1]
  refine h.perform_eq hF (by simp) ?_ ?_ ?_ limit input
  · exact ⟨rfl, rfl⟩
  · exact ⟨rfl, rfl, rfl⟩
  · exact fun _ => rfl

/-! ## A program that prints its arguments -/

def printArguments : String := "vyblij(šichta.argv()) piča"

/-- A world with one file, which holds that program. -/
def argumentsWorld : World :=
  ⟨#[], Disk.put ⟨["home"], []⟩ ["p.brno"] (.file (Text.encodeUtf8 printArguments)), ⟨[], []⟩, [],
    0, 0⟩

theorem exists_parse_printArguments :
    ∃ p, parseProgram printArguments = .ok p ∧ IsStorable printArguments := by
  refine ⟨[.mk 1 (.expr (.call (.variable printer)
    [.call (.member (.variable "šichta") "argv") []]))], ?_, ?_⟩
  · cbv
  · decide

theorem namesEntry_program : Path.NamesEntry "p.brno" := ⟨"p.brno", by decide⟩

theorem readSource_printArguments :
    readSource argumentsWorld (Path.normal "p.brno") = .ok printArguments := by
  have hnormal : Path.normal "p.brno" = "p.brno" := by decide
  rw [hnormal]
  exact readSource_eq_ok_iff.2 ⟨by decide, _, _, rfl, fileText_encodeUtf8 (by decide)⟩

/-- The tree can be emitted, and what the program then prints last. -/
theorem exists_run_printArguments :
    ∃ e, run 100 ["--emit-ast", "p.brno"] argumentsWorld "" = some e ∧ e.result = .ok 0 ∧
      (∃ e₁, run 100 ["p.brno", "b"] e.world "" = some e₁ ∧
        e₁.world.output.back? = some "[\"b\"]\n") ∧
      ∃ e₁, run 100 ["p.brno", "a", "b"] e.world "" = some e₁ ∧
        e₁.world.output.back? = some "[\"a\", \"b\"]\n" := by
  have hruns : ((run 100 ["--emit-ast", "p.brno"] argumentsWorld "").bind fun e =>
      (run 100 ["p.brno", "b"] e.world "").bind fun e₁ =>
        (run 100 ["p.brno", "a", "b"] e.world "").map fun e₂ =>
          (e.result.toOption, e₁.world.output.back?, e₂.world.output.back?)) =
      some (some 0, some "[\"b\"]\n", some "[\"a\", \"b\"]\n") := by
    decide +kernel
  obtain ⟨e, he, hruns⟩ := Option.bind_eq_some_iff.1 hruns
  obtain ⟨e₁, he₁, hruns⟩ := Option.bind_eq_some_iff.1 hruns
  obtain ⟨e₂, he₂, hruns⟩ := Option.map_eq_some_iff.1 hruns
  simp only [Prod.mk.injEq] at hruns
  refine ⟨e, he, ?_, ⟨e₁, he₁, hruns.2.1⟩, e₂, he₂, hruns.2.2⟩
  cases hresult : e.result with
  | error f => simp [hresult, Except.toOption] at hruns
  | ok status => simpa [hresult, Except.toOption] using hruns.1

/-- After the tree of a program was emitted, a command that runs the tree with some arguments does
what a command that runs the program with all but the first of them does, for the same flags and
files: it prints and reports the same and has the same exit status, and the script gets the same
arguments. -/
theorem emitted_tree_runs {w : World} {F source : String} {p : List Stmt}
    (hname : Path.NamesEntry F) (hdash : F.toList.head? ≠ some '-')
    (hsource : readSource w (Path.normal F) = .ok source) (hp : parseProgram source = .ok p)
    (hstored : IsStorable source) {limit₀ : Nat} {input₀ : String} {e : Ended}
    (hemit : run limit₀ ["--emit-ast", F] w input₀ = some e) (hstatus : e.result = .ok 0)
    {w' : World} (hdisk : w'.disk = e.world.disk) (before after xs : List String)
    (hbefore : ∀ f ∈ before, IsFlag f) (hafter : ∀ f ∈ after, IsFlag f)
    (hxs : ∀ x ∈ xs, x.toList.head? ≠ some '-') (limit : Nat) (input : String) :
    run limit (before ++ "--ast" :: (F ++ ".ast.json") :: xs ++ after) w' input =
      run limit (before ++ F :: xs.tail ++ after) w' input ∧
    ∃ o : Options, o.arguments = xs.tail ∧
      run limit (before ++ F :: xs.tail ++ after) w' input =
        runProgram limit o w' (Path.normal F) p := by
  have hholds := holdsTree_of_run hname hdash hsource hp hstored hemit hstatus hdisk
  obtain ⟨o, ho, htree, hprogram⟩ :=
    hholds.run_eq hname.ne_empty hdash before after xs hbefore hafter hxs limit input
  exact ⟨htree.trans hprogram.symm, o, ho, hprogram⟩

theorem emitted_tree_runs_flagged :
    ∃ p e, run 100 ["--emit-ast", "p.brno"] argumentsWorld "" = some e ∧ e.result = .ok 0 ∧
      run 100 ["-vv", "--ast", "p.brno.ast.json", "a", "b", "--unsafe-fs"] e.world "" =
        run 100 ["-vv", "p.brno", "b", "--unsafe-fs"] e.world "" ∧
      ∃ o : Options, o.arguments = ["b"] ∧
        run 100 ["-vv", "p.brno", "b", "--unsafe-fs"] e.world "" =
          runProgram 100 o e.world (Path.normal "p.brno") p := by
  have hverbose : expand .verbose true (some ['v']) = .ok ([.verbose, .verbose], .pending) := by
    rw [expand, expandChars]
    rfl
  have hbefore : ∀ f ∈ ["-vv"], IsFlag f := List.forall_mem_singleton.2
    ⟨_, _, rfl, .verbose, true, some ['v'], rfl, hverbose, by simp [Switch.Tunes]⟩
  have hafter : ∀ f ∈ ["--unsafe-fs"], IsFlag f := List.forall_mem_singleton.2
    ⟨_, _, rfl, .fileAccess, false, none, rfl, rfl, by simp [Switch.Tunes]⟩
  obtain ⟨p, hp, hstored⟩ := exists_parse_printArguments
  obtain ⟨e, he, hstatus, -⟩ := exists_run_printArguments
  exact ⟨p, e, he, hstatus, emitted_tree_runs namesEntry_program (by decide)
    readSource_printArguments hp hstored he hstatus rfl ["-vv"] ["--unsafe-fs"] ["a", "b"] hbefore
    hafter (by decide) 100 ""⟩

/-- The script does not get its first argument from a command that runs its tree. -/
theorem emitted_tree_drops_argument :
    ∃ e e₁ e₂, run 100 ["--emit-ast", "p.brno"] argumentsWorld "" = some e ∧ e.result = .ok 0 ∧
      run 100 ["--ast", "p.brno.ast.json", "a", "b"] e.world "" = some e₁ ∧
      run 100 ["p.brno", "a", "b"] e.world "" = some e₂ ∧
      e₁.world.output.back? = some "[\"b\"]\n" ∧
      e₂.world.output.back? = some "[\"a\", \"b\"]\n" := by
  obtain ⟨p, hp, hstored⟩ := exists_parse_printArguments
  obtain ⟨e, he, hstatus, ⟨e₁, he₁, houtput₁⟩, e₂, he₂, houtput₂⟩ := exists_run_printArguments
  have hholds := holdsTree_of_run namesEntry_program (by decide) readSource_printArguments hp
    hstored he hstatus rfl
  obtain ⟨o, -, htree, hprogram⟩ := hholds.run_eq (by decide) (by decide) [] [] ["a", "b"] nofun
    nofun (by decide) 100 ""
  exact ⟨e, e₁, e₂, he, hstatus, (htree.trans hprogram.symm).trans he₁, he₂, houtput₁, houtput₂⟩

end Hantec.Cli
