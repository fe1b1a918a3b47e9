import Hantec.Proofs.FileAccess

/-!
# Tracing

A run that traces does the same as one that traces less or not at all, as long as no text is missing
that it needs for its trace: it prints the same, ends in the same way, at the same line, and leaves
the same values under the same names. A text is missing for an array that contains itself. Such an
array can be declared anew without a trace, but the trace of the declaration fails.
-/

namespace Hantec

/-- A session without its trace, the level of the trace and the disk that holds it. -/
def State.untraced (s : State) : State :=
  ⟨{ s.config with traceLevel := 0 }, s.heap, s.world.withDisk ⟨[], []⟩, none, false⟩

def Ending.untraced {α : Type} (e : Ending α) : Ending α := ⟨e.result, e.state.untraced⟩

/-- Worlds that are the same but for their disks. -/
def World.OffDisk (w w' : World) : Prop := w.withDisk ⟨[], []⟩ = w'.withDisk ⟨[], []⟩

theorem World.IgnoresDisk.offDisk {α : Type} {f : World → α × World} (hf : IgnoresDisk f) :
    Respects OffDisk f := by
  intro w w' hw
  have hsame : f (w.withDisk ⟨[], []⟩) = f (w'.withDisk ⟨[], []⟩) := congrArg f hw
  rw [hf, hf] at hsame
  exact ⟨(congrArg Prod.fst hsame).symm, congrArg Prod.snd hsame⟩

/-- Runs that may not use files, of which the second one traces at a level of its own. -/
def Accord.tracing (c : Config) (level : Nat) : Accord Unit :=
  ⟨.same Unit, c, level, true, fun _ _ => False, fun _ s s' => s.world.OffDisk s'.world⟩

namespace Accord

variable {c : Config} {level : Nat}

theorem admitsChance_tracing : (tracing c level).AdmitsChance :=
  fun hf _ _ _ hs => hf.offDisk _ _ hs

theorem lawful_tracing (hlevel : level ≤ c.traceLevel) (haccess : c.fileAccess = false)
    (hload : c.LoadsOffDisk) : (tracing c level).Lawful where
  toLawful := inferInstanceAs (Scoping.same Unit).Lawful
  level_le := hlevel
  silent h := absurd h.symm Bool.false_ne_true
  provided hm := hm.elim
  outside_of_near _ h := h
  withHeap _ _ h := h
  print _ := admitsChance_tracing fun _ _ => rfl
  environment _ := admitsChance_tracing fun _ _ => rfl
  load path := admitsChance_tracing (hload path)
  files h := absurd (haccess.symm.trans h) Bool.false_ne_true
  settle {_ s s'} h := by
    obtain ⟨d, t, hd⟩ := exists_settle s
    obtain ⟨d', t', hd'⟩ := exists_settle s'
    rw [hd, hd']
    exact h
  trace _ _ h := h
  tear _ h := h
  traceFirst _ _ h := h

theorem states_of_untraced {s s' : State} (hs : s.untraced = s'.untraced) :
    (tracing s.config s'.config.traceLevel).States () s s' where
  config := rfl
  config' := congrArg (fun t => { t.config with traceLevel := s'.config.traceLevel }) hs.symm
  heap := by
    have hheap : s'.heap = s.heap := (congrArg State.heap hs).symm
    rw [hheap]
    exact .refl rfl s.heap
  outside := congrArg State.world hs

theorem States.untraced {w : Unit} {s s' : State} (hs : (tracing c level).States w s s') :
    s.untraced = s'.untraced := by
  have hconfig : { s.config with traceLevel := 0 } = { s'.config with traceLevel := 0 } := by
    rw [hs.config, hs.config']
    rfl
  have hworld : s.world.withDisk ⟨[], []⟩ = s'.world.withDisk ⟨[], []⟩ := hs.outside
  rw [State.untraced, State.untraced, hconfig, hworld, hs.heap.eq rfl rfl fun _ _ => id]

end Accord

/-- Tracing is out of sight, as long as no text is missing in the trace of the run that traces
more. -/
theorem run_untraced {s s' : State} (hlevel : s'.config.traceLevel ≤ s.config.traceLevel)
    (haccess : s.config.fileAccess = false) (hload : s.config.LoadsOffDisk)
    (hs : s.untraced = s'.untraced) {p : List Stmt}
    (hlegible : (Machine.start (programProc p) s).StaysLegible) (limit : Nat) :
    (s.run limit p).map Ending.untraced = (s'.run limit p).map Ending.untraced := by
  have := Accord.lawful_tracing hlevel haccess hload
  have hstates := Accord.states_of_untraced hs
  have hends := hstates.run (fun _ _ => id) Accord.admitsChance_tracing rfl
    (.ofInlined (.reflStmts p)) (fun _ => hlegible) limit
  generalize s.run limit p = e at hends ⊢
  generalize s'.run limit p = e' at hends ⊢
  cases hends with
  | none => rfl
  | some hends =>
    obtain ⟨hr, _, ht⟩ := hends
    rw [Option.map_some, Option.map_some, Ending.untraced, Ending.untraced, hr.eq rfl, ht.untraced]

/-- A session that traces at a level, with an array under a name. -/
def listing (level : Nat) (items : Array Value) : State :=
  ⟨⟨.table [], true, level, false, []⟩,
    ⟨#[items], #[], #[], #[⟨none, .ofList [("a", .arr 0)]⟩], 0, []⟩,
    ⟨#[], ⟨[], []⟩, ⟨[], []⟩, [], 0, 0⟩, some .start, false⟩

/-- `nech b = a` -/
def redeclare : List Stmt := [.mk 1 (.declare "b" (some (.variable "a")))]

theorem staysLegible_redeclare :
    (Machine.start (programProc redeclare) (listing 4 #[.str "x"])).StaysLegible := by
  obtain ⟨s, hs⟩ : ∃ s, programProc redeclare (listing 4 #[.str "x"]) = .ret .normal s := ⟨_, rfl⟩
  have hnext : (Machine.start (programProc redeclare) (listing 4 #[.str "x"])).next =
      .done (.ok .normal) s := congrArg (fun c => Machine.next ⟨c, [], 0⟩) hs
  intro m hm
  cases hm with
  | refl =>
    rintro f t hfail
    simp [Machine.start, hs] at hfail
  | move hmove => simp [hnext] at hmove
  | wake hwake => simp [hnext] at hwake

/-- The text of the array goes into the trace, and nothing else changes. -/
theorem run_untraced_redeclare :
    (listing 4 #[.str "x"]).untraced = (listing 0 #[.str "x"]).untraced ∧
    (Machine.start (programProc redeclare) (listing 4 #[.str "x"])).StaysLegible ∧
    ((listing 4 #[.str "x"]).run 1 redeclare).map Ending.untraced =
      ((listing 0 #[.str "x"]).run 1 redeclare).map Ending.untraced := by
  have hsame : (listing 4 #[.str "x"]).untraced = (listing 0 #[.str "x"]).untraced := rfl
  exact ⟨hsame, staysLegible_redeclare, run_untraced (by decide) rfl
    (Config.loadsOffDisk_of_loader rfl) hsame staysLegible_redeclare 1⟩

/-- An array that contains itself can be declared anew, but not with a trace of the declaration. -/
theorem trace_of_looped_array_fails :
    (listing 2 #[.arr 0]).untraced = (listing 1 #[.arr 0]).untraced ∧
    ((listing 1 #[.arr 0]).run 1 redeclare).map Ending.result = some (.ok ()) ∧
    ((listing 2 #[.arr 0]).run 1 redeclare).map Ending.result = some (.error .overflow) :=
  ⟨rfl, rfl, rfl⟩

end Hantec
