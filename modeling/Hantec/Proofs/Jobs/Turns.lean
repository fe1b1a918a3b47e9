import Hantec.Jobs
import Hantec.Proofs.Import
import Hantec.Proofs.Policy.Machine

/-!
# The turns of a job

A job that leaves nothing to chance does in its turns what it does when it is run alone, whatever
others do to the world between the turns: taken together, its turns print the same and come to the
same result. All that a turn does to the world is that it prints.
-/

namespace Hantec

/-! ## Printing -/

namespace World

def printAll (w : World) (texts : List String) : World := { w with output := w.output ++ texts }

@[simp] theorem output_printAll (w : World) (texts : List String) :
    (w.printAll texts).output.toList = w.output.toList ++ texts := by
  simp [printAll]

@[simp] theorem printAll_nil (w : World) : w.printAll [] = w := by simp [printAll]

theorem print_printAll (w : World) (texts : List String) (text : String) :
    (w.printAll texts).print text = w.printAll (texts ++ [text]) := by
  have houtput : (w.output ++ texts).push text = w.output ++ (texts ++ [text]) :=
    Array.toList_inj.mp (by simp)
  simp [print, printAll, houtput]

theorem printAll_inj {w : World} {texts texts' : List String} :
    w.printAll texts = w.printAll texts' ↔ texts = texts' := by
  constructor
  · intro h
    have houtput := congrArg (fun w : World => w.output.toList) h
    simpa using houtput
  · exact congrArg _

end World

/-! ## Jobs that are run alone -/

/-- The loader finds the same in every world, and changes none. -/
def Config.HasFixedLoader (c : Config) : Prop :=
  ∃ f : String → Except LoadError String, ∀ path w, c.loader.load path w = (w, f path)

/-- A run that is alone calls no builtin that depends on the clock or on chance. -/
def Machine.IsSteady (m : Machine) : Prop :=
  ∀ m', m.Reaches m' → ∀ b args s k, m'.current = .sub (.call (.builtin b) args) s k →
    b.isChancy = false

/-- A run that is alone never waits for less than no time. -/
def Machine.WaitsForward (m : Machine) : Prop :=
  ∀ m', m.Reaches m' → ∀ d s resume, m'.next = .waiting d s resume → 0 ≤ d.length

theorem waitsForward_program (p : List Stmt) (s : State) :
    (Machine.start (programProc p) s).WaitsForward := by
  let P := Policy.any s.config
  have hexec : P.Runs (fun _ _ => True) Policy.hard (execAll 0 p) fun _ => True :=
    (Policy.execAll_runs p (stmts_obey (Policy.allowsAll_any _) p) 0).mono
      (fun _ _ _ => trivial) fun _ _ => trivial
  have hruns : P.Runs (fun _ _ => True) Policy.hard (programProc p) fun _ => True := by
    refine (Policy.Runs.traceLine 1 _).bind fun _ _ => hexec.bind fun o _ => ?_
    cases o with
    | normal => exact .pure trivial
    | returned | broke | continued => exact .raiseErrorValue fun _ => trivial
  intro m' hm d s₁ resume hnext
  exact ((hruns.keeps (Policy.admits_any s) 0).leads hm.leads).zero_le_delay hnext

namespace Job

/-- The state that a job starts in. -/
def freshState (config : Config) (w : World) : State := ⟨config, .initial, w, none, false⟩

/-- Runs a job alone: how it ends, and what it prints. There is no answer if it takes more than
`limit` waits, or more than `limit` moves from one wait to the next. -/
def alone (limit : Nat) (config : Config) (w : World) (job : Job) :
    Option (Except Failure JobResult × List String) :=
  match parseProgram job.source with
  | .error e => some (.ok ⟨job.name, some (.source e)⟩, [])
  | .ok program =>
    ((Machine.start (programProc program) (freshState config w)).finish limit limit).map fun e =>
      (job.finish e.1 e.2, e.2.world.output.toList.drop w.output.size)

/-- When it is run alone, the job uses neither the clock nor chance. -/
def IsSteady (config : Config) (w : World) (job : Job) : Prop :=
  ∀ program, parseProgram job.source = .ok program →
    (Machine.start (programProc program) (freshState config w)).IsSteady

/-- In at most `n` turns, of which `turn` is the next one, the job prints the texts and comes to
the result. -/
def Plays (job : Job) (limit : Nat) (environment : List (String × String)) (r : JobResult) :
    Nat → (World → Turn) → List String → Prop
  | 0, _, _ => False
  | n + 1, turn, texts => ∀ w, w.environment = environment →
    turn w = .ended (w.printAll texts) (.ok r) ∨
    ∃ d resume now later, turn w = .paused (w.printAll now) d resume ∧ 0 ≤ d.length ∧
      texts = now ++ later ∧
      Plays job limit environment r n (fun w => job.turn limit (resume w)) later

theorem Plays.mono {job : Job} {limit n n' : Nat} {environment : List (String × String)}
    {r : JobResult} {turn : World → Turn} {texts : List String}
    (h : job.Plays limit environment r n turn texts) (hn : n ≤ n') :
    job.Plays limit environment r n' turn texts := by
  induction n generalizing n' turn texts with
  | zero => exact h.elim
  | succ n ih =>
    obtain ⟨n', rfl⟩ : ∃ l, n' = l + 1 := ⟨n' - 1, by omega⟩
    intro w hw
    obtain hended | ⟨d, resume, now, later, hpaused, hd, htexts, hlater⟩ := h w hw
    · exact .inl hended
    · exact .inr ⟨d, resume, now, later, hpaused, hd, htexts,
        ih hlater (Nat.le_of_succ_le_succ hn)⟩

end Job

/-! ## Runs in worlds that differ -/

/-- Runs that print the same in two worlds, of which only the environments have to agree. -/
def Accord.printing (c : Config) : Accord (World × World) :=
  .silent c true (fun _ _ => False) fun i w w' => i.2.environment = i.1.environment ∧
    ∃ texts, w = i.1.printAll texts ∧ w' = i.2.printAll texts

namespace Accord

variable {c : Config}

theorem lawful_printing (hsilent : c.traceLevel = 0) (hfiles : c.fileAccess = false)
    (hfixed : c.HasFixedLoader) : (printing c).Lawful := by
  refine lawful_silent hsilent ?_ ?_ ?_ (fun h => by simp [hfiles] at h) fun _ _ h => h.elim
  · rintro i text _ _ ⟨henv, texts, rfl, rfl⟩
    exact ⟨rfl, henv, texts ++ [text], World.print_printAll _ _ _, World.print_printAll _ _ _⟩
  · rintro i _ _ ⟨henv, texts, rfl, rfl⟩
    exact henv
  · obtain ⟨f, hf⟩ := hfixed
    rintro i path w w' hw
    simp only [Config.loadFrom, hf]
    exact ⟨trivial, hw⟩

theorem fitting_printing {m : Machine} (h : m.IsSteady) : (printing c).Fitting m := by
  refine fun m' hm => ⟨by rintro ⟨_, _, ⟨⟩⟩, ?_,
    fun hlevel => absurd hlevel (Nat.lt_irrefl _)⟩
  intro b args s k hcurrent hchancy
  rw [h m' hm b args s k hcurrent] at hchancy
  cases hchancy

variable {i : World × World} {p' : Progress} {s : State}

theorem Progresses.of_done {r : Except Failure Outcome}
    (h : (printing c).Progresses i (.done r s) p') :
    ∃ s', p' = .done r s' ∧ (printing c).States i s s' := by
  cases h with
  | done hi hr hs =>
    obtain rfl := hi
    exact ⟨_, by rw [hr.eq rfl], hs⟩

theorem Progresses.of_waiting {d : Delay} {resume : State → Machine}
    (h : (printing c).Progresses i (.waiting d s resume) p') :
    ∃ s' resume', p' = .waiting d s' resume' ∧ (printing c).States i s s' ∧
      ∀ j s s', (printing c).States j s s' → (printing c).Machines j (resume s) (resume' s') := by
  cases h with
  | waiting d hi hs hresume =>
    obtain rfl := hi
    exact ⟨_, _, rfl, hs, fun j s s' => hresume j s s' trivial⟩

end Accord

/-! ## Turns -/

theorem Job.finish_congr (job : Job) (r : Except Failure Outcome) {s s' : State}
    (h : s'.heap = s.heap) : job.finish r s' = job.finish r s := by
  unfold Job.finish
  rw [h]

section

variable {c : Config} (hsilent : c.traceLevel = 0) (hfiles : c.fileAccess = false)
  (hfixed : c.HasFixedLoader)

include hsilent hfiles hfixed in
/-- What a machine that is alone does, the job does in its turns if it goes on like the machine in
every world of the same environment. The induction is on the moves and waits of the machine. -/
theorem Job.plays_of_endsIn {job : Job} {result : JobResult} {limit n : Nat} {v : World}
    {m : Machine} {r : Except Failure Outcome} {s : State} {resume : World → Machine}
    (hend : m.EndsIn n r s) (hlimit : n < limit) (hsteady : m.IsSteady) (hforward : m.WaitsForward)
    (hlike : ∀ w, w.environment = v.environment →
      (Accord.printing c).Machines (v, w) m (resume w))
    (hfinish : job.finish r s = .ok result) :
    ∃ texts, s.world.output.toList = v.output.toList ++ texts ∧
      job.Plays limit v.environment result (n + 1) (fun w => job.turn limit (resume w)) texts := by
  have := Accord.lawful_printing hsilent hfiles hfixed
  induction n using Nat.strongRecOn generalizing m v resume with
  | ind n ih =>
    have hnext (w : World) (hw : w.environment = v.environment) :=
      (hlike w hw).advance (fun _ _ => id) (Accord.fitting_printing hsteady) limit
    obtain hdone | ⟨d, s₁, resume₁, l, hwait, hl, ⟨m₁, hm₁, hnext₁⟩, hend₁, hreach⟩ :=
      hend.advance_cases hlimit
    · rw [hdone] at hnext
      obtain ⟨_, -, hs⟩ := (hnext v rfl).of_done
      obtain ⟨⟨-, texts, htexts, -⟩, -⟩ := hs.outside
      refine ⟨texts, by simp [htexts], fun w hw => .inl ?_⟩
      obtain ⟨s', hdone', hs'⟩ := (hnext w hw).of_done
      obtain ⟨⟨-, texts', htexts', hworld'⟩, -⟩ := hs'.outside
      obtain rfl := World.printAll_inj.mp (htexts'.symm.trans htexts)
      have hresult := (job.finish_congr r (hs'.heap.eq rfl rfl fun _ _ => id)).trans hfinish
      simp only [turn, hdone', hworld', hresult]
    · -- The machine waits. What it has printed by then is the same in every world.
      have hd : 0 ≤ d.length := hforward m₁ hm₁ d s₁ resume₁ hnext₁
      rw [hwait] at hnext
      obtain ⟨_, _, -, hs₁, -⟩ := (hnext v rfl).of_waiting
      obtain ⟨now, hnow⟩ : ∃ now, s₁.world = v.printAll now := by
        obtain ⟨⟨-, now, hnow, -⟩, -⟩ := hs₁.outside
        exact ⟨now, hnow⟩
      have henv : (s₁.world.pass d).environment = v.environment := by
        rw [hnow]
        rfl
      have hbefore : (s₁.world.pass d).output.toList = v.output.toList ++ now := by
        rw [hnow]
        exact World.output_printAll v now
      have hlater (w : World) (hw : w.environment = v.environment) :
          ∃ s' resume' later, (resume w).advance limit = .waiting d s' resume' ∧
            s'.world = w.printAll now ∧
            s.world.output.toList = v.output.toList ++ (now ++ later) ∧
            job.Plays limit v.environment result n
              (fun w => job.turn limit (resume' { s' with world := w })) later := by
        obtain ⟨s', resume', hwait', hs', hresume'⟩ := (hnext w hw).of_waiting
        obtain ⟨⟨-, now', hnow', hworld'⟩, htraced⟩ := hs'.outside
        obtain rfl := World.printAll_inj.mp (hnow'.symm.trans hnow)
        have hlike₁ (w' : World) (hw' : w'.environment = (s₁.world.pass d).environment) :=
          hresume' (s₁.world.pass d, w') { s₁ with world := s₁.world.pass d }
            { s' with world := w' } ⟨hs'.config, hs'.config',
              hs'.heap.withScopes trivial hs'.heap.scopes,
              ⟨hw', [], (World.printAll_nil _).symm, (World.printAll_nil w').symm⟩, htraced⟩
        obtain ⟨later, houtput, hplays⟩ := ih l hl hend₁ (Nat.lt_trans hl hlimit)
          (fun m' hm' => hsteady m' (hreach m' hm')) (fun m' hm' => hforward m' (hreach m' hm'))
          hlike₁
        rw [henv] at hplays
        refine ⟨s', resume', later, hwait', hworld', ?_, hplays.mono hl⟩
        rw [houtput, hbefore, List.append_assoc]
      obtain ⟨_, _, later, -, -, houtput, -⟩ := hlater v rfl
      refine ⟨now ++ later, houtput, fun w hw => .inr ?_⟩
      obtain ⟨s', resume', later', hwait', hworld', houtput', hplays⟩ := hlater w hw
      -- What is still to be printed does not depend on the world either.
      obtain rfl : later' = later := by simpa using houtput'.symm.trans houtput
      exact ⟨d, _, now, later', by simp only [turn, hwait', hworld'], hd, rfl, hplays⟩

include hsilent hfiles hfixed in
/-- What a job does when it is run alone, it does in its turns. -/
theorem Job.plays_of_alone {job : Job} {w : World} (hsteady : job.IsSteady c w) {k : Nat}
    {result : JobResult} {texts : List String}
    (halone : job.alone k c w = some (.ok result, texts)) :
    ∃ n, ∀ limit, n ≤ limit →
      job.Plays limit w.environment result n (job.start limit c) texts := by
  unfold alone at halone
  split at halone
  case h_1 e hparse =>
    cases halone
    refine ⟨1, fun limit _ v _ => .inl ?_⟩
    simp [start, hparse]
  case h_2 program hparse =>
    obtain ⟨⟨r, s⟩, hfinish, hresult⟩ := Option.map_eq_some_iff.mp halone
    obtain ⟨hresult, htexts⟩ := Prod.mk.inj hresult
    obtain ⟨n, hend⟩ := Machine.endsIn_of_finish hfinish
    refine ⟨n + 1, fun limit hlimit => ?_⟩
    have hlike (v : World) (hv : v.environment = w.environment) :
        (Accord.printing c).Machines (w, v)
          (Machine.start (programProc program) (freshState c w))
          (Machine.start (programProc program) (freshState c v)) := by
      have := Accord.lawful_printing hsilent hfiles hfixed
      refine (Accord.Procs.program (.ofInlined (.reflStmts _)) rfl).machines ?_ .nil (.inl rfl)
      refine ⟨rfl, rfl, .refl rfl _, ⟨hv, [], ?_, ?_⟩, rfl, rfl, rfl⟩
      · exact (World.printAll_nil w).symm
      · exact (World.printAll_nil v).symm
    obtain ⟨texts', houtput, hplays⟩ := plays_of_endsIn hsilent hfiles hfixed hend hlimit
      (hsteady program hparse) (waitsForward_program _ _) hlike hresult
    have hsame : texts' = texts := by
      rw [← htexts, houtput]
      simp
    rw [hsame] at hplays
    have hstart : job.start limit c = fun v =>
        job.turn limit (Machine.start (programProc program) (freshState c v)) := by
      funext v
      simp [start, hparse, freshState]
    rw [hstart]
    exact hplays

end

end Hantec
