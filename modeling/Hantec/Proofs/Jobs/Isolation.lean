import Hantec.Proofs.Jobs.Events

/-!
# Jobs do not disturb each other

Whatever the order in which those who are ready go on, each job of a schedule prints and comes to
what it does when it is run alone. The order in which a schedule runs on its own is one of them.
-/

namespace Hantec

namespace Schedule

variable {b : Schedule}

/-- Alarms that are due ring one after the other. -/
theorem moves_ring (limit : Nat) (config : Config) {clock : Float} (hopen : b.closed = false)
    (hclock : 0 ≤ clock) (hworld : b.world.clock = clock) {due rest : List (Float × Party)}
    (halarms : b.alarms = due ++ rest) :
    Moves limit config due.length b []
      { b with alarms := rest, ready := b.ready ++ due.map fun a => .due a.2 } := by
  induction due generalizing b with
  | nil =>
    obtain rfl : rest = b.alarms := halarms.symm
    simpa using Moves.refl b
  | cons a due ih =>
    have hsame : { b.world with clock := clock } = b.world := by rw [← hworld]
    have hmove : Move limit config b []
        { b with
          world := { b.world with clock := clock }
          alarms := [] ++ (due ++ rest)
          ready := b.ready ++ [.due a.2] } :=
      .alarm hopen halarms hclock
    rw [hsame] at hmove
    have hrest := ih (b := { b with alarms := due ++ rest, ready := b.ready ++ [.due a.2] }) hopen
      hworld rfl
    simpa [Nat.add_comm] using ((Moves.refl b).move hmove).trans hrest

end Schedule

namespace Forecast

open Schedule (duties sleeper Move Moves)

variable {limit : Nat} {config : Config} {start : World} {jobs : List Job}
  {F : Forecast limit config start jobs} {b : Schedule} {log : List (Nat × String)}
  {turns : Nat → Nat}

/-! ## The order in which a schedule runs on its own -/

theorem Stage.moves_round (h : F.Stage b log turns) (n : Nat) :
    ∃ k texts, Moves limit config k b texts (Schedule.round limit config n b) ∧
      (0 < n → b.ready ≠ [] → 0 < k) := by
  induction n generalizing b log turns with
  | zero => exact ⟨0, [], .refl b, fun h => absurd h (Nat.lt_irrefl 0)⟩
  | succ n ih =>
    cases hready : b.ready with
    | nil =>
      refine ⟨0, [], ?_, fun _ h => absurd rfl h⟩
      rw [Schedule.round, hready]
      exact .refl b
    | cons e es =>
      have hfirst : b.ready = [] ++ e :: es := hready
      have hmove : Move limit config b _ _ := .event (h.isOpen (by simp [hready])) hfirst
      obtain ⟨_, hstage, -⟩ := h.move hmove
      obtain ⟨k, texts, hmoves, -⟩ := ih hstage
      rw [Schedule.round, hready]
      exact ⟨0 + 1 + k, _, ((Moves.refl b).move hmove).trans hmoves, fun _ _ => by omega⟩

/-- When nobody is ready, the alarms that come first ring. -/
theorem Stage.moves_passTime (h : F.Stage b log turns) (hready : b.ready = [])
    (hopen : b.closed = false) : ∃ k, 0 < k ∧ Moves limit config k b [] b.passTime := by
  obtain hover | ⟨past, x, hbooks, hx⟩ := h.over_or_duty
  · obtain ⟨hclose, -⟩ | ⟨-, hclosed⟩ := hover.ready
    · rw [hready] at hclose
      cases hclose
    · rw [hopen] at hclosed
      cases hclosed
  cases halarms : b.alarms with
  | nil => simp [duties, hready, halarms] at hx
  | cons a later =>
    obtain ⟨time, p⟩ := a
    have htime : 0 ≤ time := hbooks.alarms (time, p) (by simp [halarms])
    -- The first alarm is due itself, as a time is not later than itself.
    have hdue : ((time, p) :: later).takeWhile (·.1 ≤ time) =
        (time, p) :: later.takeWhile (·.1 ≤ time) :=
      List.takeWhile_cons_of_pos (by simpa using le_self_of_zero_le htime)
    have hsplit : later = later.takeWhile (·.1 ≤ time) ++ later.dropWhile (·.1 ≤ time) :=
      List.takeWhile_append_dropWhile.symm
    have hdrop : later.drop (later.takeWhile (·.1 ≤ time)).length = later.dropWhile (·.1 ≤ time) :=
      (congrArg (List.drop _) hsplit).trans List.drop_left
    have hmove : Move limit config b []
        { b with
          world := { b.world with clock := time }
          alarms := [] ++ later
          ready := b.ready ++ [.due p] } :=
      .alarm hopen halarms htime
    have hrings := Schedule.moves_ring limit config
      (b := { b with
        world := { b.world with clock := time }
        alarms := [] ++ later
        ready := b.ready ++ [.due p] }) hopen htime rfl hsplit
    have hpass : b.passTime =
        { b with
          world := { b.world with clock := time }
          alarms := later.dropWhile (·.1 ≤ time)
          ready := [.due p] ++ (later.takeWhile (·.1 ≤ time)).map fun a => .due a.2 } := by
      simp only [Schedule.passTime, halarms, hdue, List.length_cons, List.drop_succ_cons, hdrop]
      rfl
    rw [hpass]
    refine ⟨_, ?_, by simpa [hready] using ((Moves.refl b).move hmove).trans hrings⟩
    omega

/-- A schedule that runs on its own long enough makes moves until it is closed. The induction is on
the number of rounds, of which each makes a move. -/
theorem Stage.moves_run (h : F.Stage b log turns) {n : Nat}
    (hn : b.potential jobs.length turns < n) :
    ∃ k texts, Moves limit config k b texts (Schedule.run limit config n b) ∧
      (Schedule.run limit config n b).closed = true := by
  induction n generalizing b log turns with
  | zero => exact absurd hn (Nat.not_lt_zero _)
  | succ n ih =>
    -- A sequence of at least one move leaves less than the bound for the rounds that follow.
    have hgo {k : Nat} {texts : List (Nat × String)} {b' : Schedule} (hk : 0 < k)
        (hmoves : Moves limit config k b texts b') :
        ∃ k texts, Moves limit config k b texts (Schedule.run limit config n b') ∧
          (Schedule.run limit config n b').closed = true := by
      obtain ⟨turns', hstage, hle⟩ := h.moves hmoves
      obtain ⟨k', texts', hmoves', hclosed⟩ := ih hstage (by omega)
      exact ⟨k + k', texts ++ texts', hmoves.trans hmoves', hclosed⟩
    rw [Schedule.run]
    split
    · exact ⟨0, [], .refl b, by assumption⟩
    · rename_i hopen
      split
      · rename_i hready
        obtain ⟨k, hk, hmoves⟩ :=
          h.moves_passTime (List.isEmpty_iff.mp hready) (by simpa using hopen)
        exact hgo hk hmoves
      · rename_i hready
        have hne : b.ready ≠ [] := fun hnil => hready (List.isEmpty_iff.mpr hnil)
        obtain ⟨k, texts, hmoves, hk⟩ := h.moves_round b.ready.length
        exact hgo (hk (List.length_pos_iff.mpr hne) hne) hmoves

/-! ## From the start to the end -/

variable (F) in
/-- The turns that each job has at the start. -/
def allTurns (i : Nat) : Nat := (jobs[i]?.map F.turns).getD 0

theorem stage_start (hclock : 0 ≤ start.clock) : F.Stage (.start start jobs) [] F.allTurns := by
  have hbooks : F.Books (.start start jobs) [] [] F.allTurns :=
    { isOpen := rfl
      undecided := rfl
      close := rfl
      environment := rfl
      clock := hclock
      alarms := nofun
      output := (List.append_nil _).symm
      signers := nofun
      order := .nil
      first := List.nil_prefix
      background := rfl
      results := rfl
      reported := rfl
      foreground := nofun
      status := fun i => ⟨rfl, rfl, rfl⟩ }
  refine .starting hbooks rfl rfl rfl rfl fun e he => ⟨rfl, ?_⟩
  simp [allTurns, mem_numbered.mp he]

end Forecast

namespace Schedule

/-- What has come of the jobs when all is over, if it is known how each of them goes alone: its
result and what it prints. -/
structure Isolated (w : World) (jobs : List Job) (alone : Job → JobResult × List String)
    (b : Schedule) (log : List (Nat × String)) : Prop where
  verdict : b.verdict = some (.ok ())
  /-- There is one result for each job, in the order of the jobs. -/
  results : b.sortedResults jobs = jobs.map fun job => (alone job).1
  /-- Each failed job is reported once, those in the background at the end. -/
  reported : b.reported = ((jobs.filter (!·.detached) ++ jobs.filter (·.detached)).map
    fun job => (alone job).1).filter (!·.isOk)
  texts : ∀ i job, jobs[i]? = some job → textsOf i log = (alone job).2
  /-- The log is all that has been printed. -/
  output : b.world.output.toList = w.output.toList ++ log.map Prod.snd
  /-- All of it has been printed by the jobs. -/
  signers : ∀ x ∈ log, x.1 < jobs.length
  order : InOrder jobs log

end Schedule

theorem Forecast.Over.isolated {limit : Nat} {config : Config} {start : World} {jobs : List Job}
    {F : Forecast limit config start jobs} {b : Schedule} {log : List (Nat × String)}
    (h : F.Over b log) : b.Isolated start jobs (fun job => (F.result job, F.texts job)) log :=
  ⟨h.verdict, h.results, h.reported, h.texts, h.output, h.signers, h.order⟩

/-- How the jobs go in their turns, with a bound on their moves that suits all of them. -/
theorem exists_forecast {config : Config} {w : World} {jobs : List Job}
    (hsilent : config.traceLevel = 0) (hfiles : config.fileAccess = false)
    (hfixed : config.HasFixedLoader) (hsteady : ∀ job ∈ jobs, job.IsSteady config w)
    {alone : Job → JobResult × List String}
    (halone : ∀ job ∈ jobs, ∃ k, job.alone k config w = some (.ok (alone job).1, (alone job).2)) :
    ∃ (turns : Job → Nat) (bound : Nat), ∀ limit, bound ≤ limit → ∀ job ∈ jobs,
      job.Plays limit w.environment (alone job).1 (turns job) (job.start limit config)
        (alone job).2 := by
  have hturns (job : Job) : ∃ n, job ∈ jobs → ∀ limit, n ≤ limit →
      job.Plays limit w.environment (alone job).1 n (job.start limit config) (alone job).2 := by
    by_cases hjob : job ∈ jobs
    · obtain ⟨k, hk⟩ := halone job hjob
      obtain ⟨n, hn⟩ := job.plays_of_alone hsilent hfiles hfixed (hsteady job hjob) hk
      exact ⟨n, fun _ => hn⟩
    · exact ⟨0, fun h => absurd h hjob⟩
  obtain ⟨turns, hplays⟩ := Classical.skolem.mp hturns
  refine ⟨turns, (jobs.map turns).max?.getD 0,
    fun limit hlimit job hjob => hplays job hjob limit ?_⟩
  exact Nat.le_trans (List.le_max?_getD_of_mem (List.mem_map_of_mem hjob)) hlimit

/-- For all jobs without access to files, whose loader is fixed and that use neither the clock nor
chance: if each of them comes to a result when it is run alone, then every order of their turns
ends, and each job has come to the same result and has printed the same. A turn ends wherever a job
sleeps, hashes or loads a module from a loader that waits before it answers. One of these orders is
that in which the jobs are run. -/
theorem jobs_isolated {config : Config} {w : World} {jobs : List Job}
    (hsilent : config.traceLevel = 0) (hfiles : config.fileAccess = false)
    (hfixed : config.HasFixedLoader) (hclock : 0 ≤ w.clock)
    (hsteady : ∀ job ∈ jobs, job.IsSteady config w) {alone : Job → JobResult × List String}
    (halone : ∀ job ∈ jobs, ∃ k, job.alone k config w = some (.ok (alone job).1, (alone job).2)) :
    ∃ bound, ∀ limit, bound ≤ limit →
      (∀ n log b, Schedule.Moves limit config n (.start w jobs) log b →
        n ≤ bound ∧ (b.IsFinal limit config → b.Isolated w jobs alone log)) ∧
      ∃ n log b, Schedule.Moves limit config n (.start w jobs) log b ∧ b.IsFinal limit config ∧
        runJobs limit config w jobs = some ⟨b.world, .ok (b.sortedResults jobs), b.reported⟩ := by
  obtain ⟨turns, bound, hplays⟩ := exists_forecast hsilent hfiles hfixed hsteady halone
  let weight := (Schedule.start w jobs).potential jobs.length fun i => (jobs[i]?.map turns).getD 0
  refine ⟨max bound (weight + 1), fun limit hlimit => ?_⟩
  let F : Forecast limit config w jobs :=
    { result := fun job => (alone job).1
      texts := fun job => (alone job).2
      turns := turns
      plays := hplays limit (by omega) }
  have hstart : F.Stage (.start w jobs) [] F.allTurns := F.stage_start hclock
  have hover {n : Nat} {log : List (Nat × String)} {b : Schedule}
      (hmoves : Schedule.Moves limit config n (.start w jobs) log b) :
      n ≤ weight ∧ (b.IsFinal limit config → F.Over b log) := by
    obtain ⟨turns', hstage, hle⟩ := hstart.moves hmoves
    exact ⟨Nat.le_trans (Nat.le_add_left _ _) hle, hstage.over_of_final⟩
  constructor
  · intro n log b hmoves
    obtain ⟨hn, hfinal⟩ := hover hmoves
    exact ⟨by omega, fun hb => (hfinal hb).isolated⟩
  · obtain ⟨n, log, hmoves, hclosed⟩ := hstart.moves_run (n := limit) (show weight < limit by omega)
    have hfinal := Schedule.isFinal_of_closed limit config hclosed
    refine ⟨n, log, _, hmoves, hfinal, ?_⟩
    simp only [runJobs, ((hover hmoves).2 hfinal).verdict]
    rfl

/-! ## A slow import and a failure -/

/-- Whether a run that is alone comes to its end within `n` moves and waits, and calls no builtin
that depends on the clock or on chance. -/
def Machine.endsSteadily : Nat → Machine → Bool
  | 0, _ => false
  | n + 1, m =>
    (match m.current with
      | .sub (.call (.builtin b) _) _ _ => !b.isChancy
      | _ => true) &&
    match m.next with
    | .running m => endsSteadily n m
    | .waiting d s resume => endsSteadily n (resume { s with world := s.world.pass d })
    | .done _ _ => true

theorem Machine.isSteady_of_endsSteadily {n : Nat} {m : Machine} (h : m.endsSteadily n = true) :
    m.IsSteady := by
  induction n generalizing m with
  | zero => cases h
  | succ n ih =>
    rw [endsSteadily, Bool.and_eq_true] at h
    obtain ⟨hcurrent, hnext⟩ := h
    intro m' hm b args s k hm'
    cases hm with
    | refl =>
      rw [hm'] at hcurrent
      simpa using hcurrent
    | move hmove hreach =>
      rw [hmove] at hnext
      exact ih hnext m' hreach b args s k hm'
    | wake hwait hreach =>
      rw [hwait] at hnext
      exact ih hnext m' hreach b args s k hm'

/-- A loader that has an empty module for each path, after a turn of the others. -/
def Loader.slow : Loader := .function (fun _ => [0]) fun _ => .ok ""

/-- Without files and traces, and with the slow loader. -/
def Config.slow : Config := ⟨.slow, true, 0, false, []⟩

namespace Job

/-- Waits for a module in the background and prints a text when it has it. -/
def importer : Job := ⟨"vokno \"m\" piča vyblij(\"a\") piča", "spáč", true⟩

/-- Has a source that is no program. -/
def broken : Job := ⟨")", "chyba", false⟩

def importerProgram : List Stmt :=
  [.mk 1 (.load (.constant (.str "m"))),
   .mk 1 (.expr (.call (.variable "vyblij") [.constant (.str "a")]))]

theorem parseProgram_importer : parseProgram importer.source = .ok importerProgram := by
  cbv

theorem importer_alone : importer.alone 20 .slow State.bare.world =
    some (.ok ⟨"spáč", none⟩, ["a\n"]) := by
  simp only [alone, parseProgram_importer]
  rfl

theorem importer_isSteady : importer.IsSteady .slow State.bare.world := by
  intro program hprogram
  obtain rfl : importerProgram = program :=
    Except.ok.inj (parseProgram_importer.symm.trans hprogram)
  exact Machine.isSteady_of_endsSteadily (n := 20) rfl

theorem broken_fails : ∃ e, parseProgram broken.source = .error e := ⟨_, rfl⟩

end Job

/-- The importer prints although another job fails while it waits for its module. -/
theorem jobs_isolated_importer : ∃ e limit ending, parseProgram Job.broken.source = .error e ∧
    runJobs limit .slow State.bare.world [.importer, .broken] = some ending ∧
    ending.results.toOption = some [⟨"spáč", none⟩, ⟨"chyba", some (.source e)⟩] ∧
    ending.reported = [⟨"chyba", some (.source e)⟩] ∧
    ending.world.output.toList = ["a\n"] := by
  obtain ⟨e, he⟩ := Job.broken_fails
  let alone (job : Job) : JobResult × List String :=
    if job.detached then (⟨"spáč", none⟩, ["a\n"]) else (⟨"chyba", some (.source e)⟩, [])
  have hfixed : Config.slow.HasFixedLoader := ⟨_, fun _ _ => rfl⟩
  have hsteady : ∀ job ∈ [Job.importer, .broken],
      job.IsSteady .slow State.bare.world := by
    simp only [List.mem_cons, List.not_mem_nil, or_false]
    rintro job (rfl | rfl)
    · exact Job.importer_isSteady
    · intro program hprogram
      cases he.symm.trans hprogram
  have halone : ∀ job ∈ [Job.importer, .broken], ∃ k,
      job.alone k .slow State.bare.world = some (.ok (alone job).1, (alone job).2) := by
    simp only [List.mem_cons, List.not_mem_nil, or_false]
    rintro job (rfl | rfl)
    · exact ⟨20, Job.importer_alone⟩
    · refine ⟨0, ?_⟩
      simp only [Job.alone, he]
      rfl
  obtain ⟨bound, hbound⟩ := jobs_isolated (w := State.bare.world) rfl rfl hfixed (by decide) hsteady
    halone
  obtain ⟨hall, n, log, b, hmoves, hfinal, hrun⟩ := hbound bound (Nat.le_refl _)
  have hisolated := (hall n log b hmoves).2 hfinal
  refine ⟨e, bound, _, he, hrun, congrArg some hisolated.results, hisolated.reported, ?_⟩
  have hsigner (x : Nat × String) (hx : x ∈ log) : x.1 = 0 := by
    have hlt : x.1 < 2 := hisolated.signers x hx
    have hne : x.1 ≠ 1 := fun hone =>
      textsOf_ne_nil_of_mem hx (hone ▸ hisolated.texts 1 .broken rfl)
    omega
  have hlog : textsOf 0 log = log.map Prod.snd := by
    rw [textsOf, List.filter_eq_self.mpr fun x hx => by simp [hsigner x hx]]
  rw [hisolated.output, ← hlog]
  exact hisolated.texts 0 .importer rfl

end Hantec
