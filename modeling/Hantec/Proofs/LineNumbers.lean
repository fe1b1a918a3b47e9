import Hantec.Proofs.Run.Ending

/-!
# Lines of statements

The lines of statements have no influence on a run. Programs that differ only there, run in sessions
whose functions differ only there, print the same, end in the same way and leave sessions that again
differ only there. What a run can show of the lines is the one of a raised value that ends it.
-/

namespace Hantec

/-- A function with every line in its body changed. -/
def Closure.relined (φ : Int → Int) (c : Closure) : Closure := c.withBody (relinedBody φ c.body)

/-- A heap with every line in the bodies of its functions changed. -/
def Heap.relined (φ : Int → Int) (h : Heap) : Heap :=
  h.withClosures (h.closures.map (·.relined φ))

/-- A heap without the lines in the bodies of its functions. -/
def Heap.unlined (h : Heap) : Heap := h.relined fun _ => 0

def State.unlined (s : State) : State := { s with heap := s.heap.unlined }

/-- An ending without the line of a raised value and those in functions. -/
def Ending.unlined (e : Ending Unit) : Ending Unit :=
  ⟨e.result.mapError Failure.unlined, e.state.unlined⟩

/-- Runs in equal worlds of programs that may have other lines. -/
def Accord.relining (c : Config) : Accord Unit :=
  .silent c false (fun _ _ => False) fun _ => Eq

namespace Accord

variable {c : Config} {w : Unit} {s s' : State}

theorem lawful_relining (hsilent : c.traceLevel = 0) : (relining c).Lawful :=
  lawful_silent hsilent (fun _ _ => respects_eq _) (fun _ _ _ h => h ▸ rfl)
    (fun _ _ => respects_eq _) (fun _ _ => rfl) fun _ _ h => h.elim

/-- Whatever has no lines has the same program with lines. -/
theorem same_unlinedBody (ss : List Stmt) : (relining c).Same .stmts ss (unlinedBody ss) :=
  ⟨ss, fun _ => 0, .reflStmts ss, fun h => absurd h (by simp [relining, silent]),
    (relinedBody_zero ss).symm⟩

theorem Same.relined_zero {ss ss' : List Stmt} (h : (relining c).Same .stmts ss ss') :
    relinedBody (fun _ => 0) ss' = relinedBody (fun _ => 0) ss := by
  obtain ⟨_, φ, hss, -, rfl⟩ := h
  obtain rfl := hss.eq_of_no_modules fun _ _ => id
  exact (unlinedBody_of_relined φ ss).trans (relinedBody_zero ss).symm

theorem heaps_unlined (h : Heap) : (relining c).Heaps w h h.unlined where
  rest := rfl
  size := by simp [Heap.unlined, Heap.relined, Heap.withClosures]
  closure r := by
    have hclosure : h.unlined.closure r = (h.closure r).relined fun _ => 0 := by
      simp only [Heap.closure, Heap.unlined, Heap.relined, Heap.withClosures,
        Array.getD_eq_getD_getElem?, Array.getElem?_map]
      cases h.closures[r]? <;> rfl
    rw [hclosure]
    refine ⟨rfl, rfl, rfl, ?_⟩
    show (relining c).Same .stmts _ (relinedBody (fun _ => 0) (h.closure r).body)
    rw [relinedBody_zero]
    exact same_unlinedBody _
  scopes := rfl

theorem Heaps.unlined {h h' : Heap} (hh : (relining c).Heaps w h h') :
    h'.unlined = h.unlined := by
  refine hh.ext_closure rfl fun c₁ c₁' hc => ?_
  rw [Closure.relined, Closure.relined, hc.body.relined_zero, Closure.withBody, Closure.withBody,
    hc.name, hc.params, hc.scope_eq rfl]

theorem States.unlined (hs : (relining c).States w s s') : s'.unlined = s.unlined := by
  obtain ⟨hconfig, hconfig', hheap, hworld, htraced, htraced', htorn⟩ := hs
  rw [State.unlined, State.unlined, hheap.unlined, hworld, hconfig, hconfig', htraced, htraced',
    htorn]
  rfl

theorem Results.unlined {r r' : Except Failure Unit} (hr : (relining c).Results r r') :
    r'.mapError Failure.unlined = r.mapError Failure.unlined := by
  cases hr with
  | ok a => rfl
  | error hf => exact congrArg Except.error hf.symm

end Accord

/-- A program ends as it does without its lines, in a session without them. -/
theorem run_unlinedBody {s : State} (hsilent : s.config.traceLevel = 0) (htraced : s.traced = none)
    (p : List Stmt) (limit : Nat) :
    (s.unlined.run limit (unlinedBody p)).map Ending.unlined =
      (s.run limit p).map Ending.unlined := by
  let A := Accord.relining s.config
  have : A.Lawful := Accord.lawful_relining hsilent
  have hstates : A.States () s s.unlined :=
    ⟨rfl, rfl, Accord.heaps_unlined _, rfl, htraced, htraced, rfl⟩
  have hchance : A.AdmitsChance := fun _ => Accord.admits_silent fun _ => respects_eq _
  have hends := hstates.run (fun _ _ => id) hchance rfl (Accord.same_unlinedBody p)
    (fun h => absurd h (Nat.lt_irrefl _)) limit
  generalize s.run limit p = e at hends ⊢
  generalize s.unlined.run limit (unlinedBody p) = e' at hends ⊢
  cases hends with
  | none => rfl
  | some hends =>
    obtain ⟨hr, _, hs⟩ := hends
    rw [Option.map_some, Option.map_some, Ending.unlined, Ending.unlined, hs.unlined, hr.unlined]

/-- Programs that differ only in their lines end alike, up to the line of what they raise. -/
theorem run_unlined {s s' : State} (hsilent : s.config.traceLevel = 0) (htraced : s.traced = none)
    (hs : s.unlined = s'.unlined) {p p' : List Stmt} (hp : unlinedBody p = unlinedBody p')
    (limit : Nat) :
    (s.run limit p).map Ending.unlined = (s'.run limit p').map Ending.unlined := by
  have hconfig : s'.config = s.config := (congrArg State.config hs).symm
  have htraced' : s'.traced = none := (congrArg State.traced hs).symm.trans htraced
  rw [← run_unlinedBody hsilent htraced, ← run_unlinedBody (hconfig ▸ hsilent) htraced', hs, hp]

/-- A session with a function whose only statement throws a text and has a line. -/
def throwing (line : Int) : State :=
  ⟨⟨.absent, true, 0, false, []⟩,
    ⟨#[], #[],
      #[⟨"f", [], [.mk line (.expr (.call (.variable "házej") [.constant (.str "x")]))], 0⟩],
      #[⟨none, .ofList [("f", .fn (.closure 0)), ("házej", .fn (.builtin (.core .throw)))]⟩],
      0, []⟩,
    ⟨#[], ⟨[], []⟩, ⟨[], []⟩, [], 0, 0⟩, none, false⟩

/-- A call of that function. -/
def callAt (line : Int) : Stmt := .mk line (.expr (.call (.variable "f") []))

/-- The call ends alike, whatever lines it and the statement of the function have. -/
theorem run_unlined_throwing :
    (throwing 3).unlined = (throwing 0).unlined ∧ unlinedBody [callAt 7] = unlinedBody [callAt 0] ∧
    ((throwing 3).run 10 [callAt 7]).map Ending.unlined =
      ((throwing 0).run 10 [callAt 0]).map Ending.unlined := by
  have hsession : (throwing 3).unlined = (throwing 0).unlined := by
    simp [throwing, State.unlined, Heap.unlined, Heap.relined, Heap.withClosures, Closure.relined,
      Closure.withBody]
  have hprogram : unlinedBody [callAt 7] = unlinedBody [callAt 0] := rfl
  exact ⟨hsession, hprogram, run_unlined rfl rfl hsession hprogram 10⟩

end Hantec
