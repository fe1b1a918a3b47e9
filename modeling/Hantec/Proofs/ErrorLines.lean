import Mathlib
import Hantec.Proofs.Tidy.Program

/-!
# The lines of errors

A value that is raised gets its line while it leaves the statements around it. It turns out to be
the line of the innermost statement that was executed when the value was raised, whatever lies
between: functions, callbacks of builtins, loops, handlers, finalizers and modules. Only the error
of a signal that reaches the end of a program has no line.
-/

namespace Hantec

namespace State

/-- The state after a line was added to the trace at a level of detail. -/
def noted (s : State) (level : Nat) (line : String) : State :=
  if s.config.traceLevel < level then s else s.trace line

variable (s : State) (level : Nat) (line : String)

@[simp] theorem config_noted : (s.noted level line).config = s.config := by
  unfold noted
  split <;> rfl

@[simp] theorem heap_noted : (s.noted level line).heap = s.heap := by
  unfold noted
  split <;> rfl

@[simp] theorem world_noted : (s.noted level line).world = s.world := by
  unfold noted
  split <;> rfl

end State

theorem Proc.run_note (level : Nat) (line : Heap → String) (s : State) :
    (Proc.trace level fun h => .ok (line h)).run s = .ret () (s.noted level (line s.heap)) := by
  show (if s.config.traceLevel < level then _ else _) = _
  unfold State.noted
  split <;> rfl

variable {d q : Nat} {s s' : State} {v : Value} {line : Option Int}

theorem comesTo_note_iff {level : Nat} {text : Heap → String} {r : Except Failure Unit} :
    ComesTo d (.script (.run (Proc.trace level fun h => .ok (text h))) s) r s' ↔
      r = .ok () ∧ s' = s.noted level (text s.heap) :=
  comesTo_run_ret_iff (Proc.run_note level text s)

/-- The state in which a statement is executed: the statement has been noted in the trace. -/
def Stmt.begun (s : State) : Stmt → State
  | .mk line form => s.noted 4 s!"line {line}: {form.kindName}"

@[simp] theorem Stmt.config_begun (s : State) (x : Stmt) : (x.begun s).config = s.config := by
  cases x
  exact s.config_noted _ _

@[simp] theorem Stmt.heap_begun (s : State) (x : Stmt) : (x.begun s).heap = s.heap := by
  cases x
  exact s.heap_noted _ _

@[simp] theorem Stmt.world_begun (s : State) (x : Stmt) : (x.begun s).world = s.world := by
  cases x
  exact s.world_noted _ _

/-- A statement comes to what its form comes to, with its line if there was none. -/
theorem comesTo_stmt_iff {l : Int} {form : Form} {r : Except Failure Outcome} :
    ComesTo d (.script (Stmt.script q (.mk l form)) s) r s' ↔
      ∃ r₁, r = r₁.mapError (·.atLine l) ∧
        ComesTo d (.script (form.script q) (Stmt.begun s (.mk l form))) r₁ s' := by
  rw [Stmt.script, comesTo_site_iff, comesTo_bind_iff]
  constructor
  · rintro (⟨_, s₀, hnote, h⟩ | ⟨f, -, hnote⟩)
    · obtain rfl := (comesTo_note_iff.1 hnote).2
      cases h with
      | within h => exact ⟨_, rfl, h⟩
    · cases (comesTo_note_iff.1 hnote).1
  · rintro ⟨r₁, rfl, h⟩
    exact .inl ⟨(), _, comesTo_note_iff.2 ⟨rfl, rfl⟩, .within h⟩

/-- Whatever leaves a statement has a line. -/
theorem line_ne_none_of_stmt {x : Stmt} (hx : x.IsTidy)
    (h : ComesTo d (.script (x.script q) s) (.error (.raised v line)) s') : line ≠ none := by
  obtain ⟨l, form⟩ := x
  obtain ⟨r, hr, -⟩ := comesTo_stmt_iff.1 h
  rcases r with (⟨u, l'⟩ | f | code | _) | o
  · rw [mapError_raised hx.1] at hr
    cases hr
    simp
  all_goals cases hr

theorem line_ne_none_of_body {ss : List Stmt} (hss : stmtsTidy ss)
    (h : ComesTo d (.script (bodyScript q ss) s) (.error (.raised v line)) s') : line ≠ none := by
  induction ss generalizing s with
  | nil =>
    rw [bodyScript] at h
    cases h with
    | run h => cases h
  | cons x ss ih =>
    rw [bodyScript] at h
    cases h with
    | stop h => exact line_ne_none_of_stmt hss.1 h
    | @next _ _ _ _ o _ _ _ _ _ _ h =>
      cases o with
      | normal => exact ih hss.2 h
      | returned | broke | continued =>
        cases h with
        | run h => cases h

/-! ## Programs -/

theorem run_endProgram {o : Outcome} (ho : o ≠ .normal) (s : State) :
    (endProgram o).run s = .fail (.raised (.err s.heap.nextId "ControlError" o.strayMessage) none)
      { s with heap := { s.heap with nextId := s.heap.nextId + 1 } } := by
  cases o with
  | normal => exact absurd rfl ho
  | returned | broke | continued => rfl

/-- A program raises a value without a line exactly if its statements end with a signal. -/
theorem comesTo_program_lineless {p : List Stmt} (hp : stmtsTidy p) :
    ComesTo d (.script (programScript p) s) (.error (.raised v none)) s' ↔
      ∃ o s₁, o ≠ .normal ∧
        ComesTo d (.script (bodyScript 0 p) (s.noted 1 s!"run {p.length} statements")) (.ok o) s₁ ∧
        v = .err s₁.heap.nextId "ControlError" o.strayMessage ∧
        s' = { s₁ with heap := { s₁.heap with nextId := s₁.heap.nextId + 1 } } := by
  rw [programScript, comesTo_bind_iff]
  constructor
  · rintro (⟨_, s₀, hnote, h⟩ | ⟨e, -, hnote⟩)
    · obtain rfl := (comesTo_note_iff.1 hnote).2
      obtain ⟨o, s₁, hbody, h⟩ | ⟨e, he, hbody⟩ := comesTo_bind_iff.1 h
      · rw [comesTo_run_iff] at h
        by_cases ho : o = .normal
        · subst ho
          cases (comesTo_ret_iff.1 h).1
        · rw [run_endProgram ho] at h
          obtain ⟨he, rfl⟩ := comesTo_fail_iff.1 h
          cases he
          exact ⟨o, s₁, ho, hbody, rfl, rfl⟩
      · cases he
        exact absurd rfl (line_ne_none_of_body hp hbody)
    · cases (comesTo_note_iff.1 hnote).1
  · rintro ⟨o, s₁, ho, hbody, rfl, rfl⟩
    refine .inl ⟨(), _, comesTo_note_iff.2 ⟨rfl, rfl⟩, .next hbody (comesTo_run_iff.2 ?_)⟩
    rw [run_endProgram ho]
    exact .fail _ _

/-- A value leaves a program that was read, in any session, exactly if it was raised somewhere in
it and nothing took it on the way out. It then has the line of the innermost statement that was
executed when it was raised. It has no line exactly if it is the error of a signal that reached the
end of the program. -/
theorem error_line_innermost (hs : s.InSession) {source : String} {p : List Stmt}
    (hp : parseProgram source = .ok p) (v : Value) (s' : State) :
    (∀ line, (Machine.start (programProc p) s).EndsWith (.error (.raised v line)) s' ↔
      ∃ origin, Raises v origin 0 [] (.script (programScript p) s) s' ∧ line = origin.head?) ∧
    ((Machine.start (programProc p) s).EndsWith (.error (.raised v none)) s' ↔
      ∃ o s₁, o ≠ .normal ∧
        ComesTo 0 (.script (bodyScript 0 p) (s.noted 1 s!"run {p.length} statements")) (.ok o) s₁ ∧
        v = .err s₁.heap.nextId "ControlError" o.strayMessage ∧
        s' = { s₁ with heap := { s₁.heap with nextId := s₁.heap.nextId + 1 } }) := by
  have hmeets := meets_any hs.isTidy hp
  refine ⟨fun line => ?_, ?_⟩
  · rw [endsWith_program_iff]
    constructor
    · intro h
      obtain ⟨new, hraises, hline⟩ := h.raises Policy.lawful_contract hmeets trivial []
      exact ⟨new ++ [], hraises, by rw [hline, List.append_nil]⟩
    · rintro ⟨origin, hraises, rfl⟩
      obtain ⟨new, rfl, h⟩ := hraises.comesTo Policy.lawful_contract hmeets
      rwa [List.append_nil]
  · rw [endsWith_program_iff]
    exact comesTo_program_lineless (tidy_of_parseProgram hp)

/-- An unknown name in a branch has the line of its own statement. -/
theorem error_line_innermost_branch :
    ∃ p v s' origin, parseProgram "esli (\"a\")\nx piča" = .ok p ∧
      (Machine.start (programProc p) State.bare).EndsWith (.error (.raised v (some 2))) s' ∧
      Raises v origin 0 [] (.script (programScript p) State.bare) s' ∧
      origin.head? = some 2 := by
  have hparse : parseProgram "esli (\"a\")\nx piča" =
      .ok [.mk 1 (.cond (.constant (.str "a")) (.mk 2 (.expr (.variable "x"))) none)] := by
    cbv
  have hend : ∃ v s', (Machine.start (programProc
      [.mk 1 (.cond (.constant (.str "a")) (.mk 2 (.expr (.variable "x"))) none)])
      State.bare).EndsWith (.error (.raised v (some 2))) s' := ⟨_, _, _, .refl _, rfl⟩
  obtain ⟨v, s', hend⟩ := hend
  have hbare : State.bare.InSession := .start (c := State.bare.config) (w := State.bare.world) rfl
  obtain ⟨origin, hraises, hline⟩ :=
    ((error_line_innermost hbare hparse v s').1 (some 2)).1 hend
  exact ⟨_, v, s', origin, hparse, hend, hraises, hline.symm⟩

end Hantec
