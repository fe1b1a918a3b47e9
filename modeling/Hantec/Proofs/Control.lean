import Mathlib
import Hantec.Proofs.Policy.Machine
import Hantec.Session

/-!
# Signals stay inside

A program is closed if every statement that leaves or skips a turn lies in the body of a loop of
the same function, and every return in a function. In a run of a closed program whose modules and
functions are closed too, no signal gets to the end of a function or of the program where it is
an error. What can leave a statement at all can be read off its text.
-/

namespace Hantec

/-! ## Closed programs -/

mutual

/-- All functions inside of the expression are closed. -/
def Expr.isClosed : Expr → Bool
  | .constant _ | .compound _ _ | .variable _ | .step _ _ | .misplaced _ | .unlisted _ => true
  | .assign _ e | .unary _ e | .member e _ => e.isClosed
  | .binary _ l r => l.isClosed && r.isClosed
  | .call c args => c.isClosed && exprsClosed args
  | .function _ body => stmtsClosed true false body

def exprsClosed : List Expr → Bool
  | [] => true
  | e :: es => e.isClosed && exprsClosed es

def optionalExprClosed : Option Expr → Bool
  | none => true
  | some e => e.isClosed

/-- Whether each signal is inside of what it needs, where the statement itself is in a function
or in the body of a loop as the flags say. -/
def Stmt.isClosed (function loop : Bool) : Stmt → Bool
  | .mk _ form => form.isClosed function loop

def Form.isClosed (function loop : Bool) : Form → Bool
  | .expr e | .load e => e.isClosed
  | .declare _ init => optionalExprClosed init
  | .block body => stmtsClosed function loop body
  | .cond test yes no =>
    test.isClosed && yes.isClosed function loop && optionalStmtClosed function loop no
  | .loop test body => test.isClosed && body.isClosed function true
  | .circuit init test step body =>
    optionalStmtClosed function loop init && optionalExprClosed test && optionalExprClosed step &&
      body.isClosed function true
  | .define _ _ body => stmtsClosed true false body
  | .ret value => function && optionalExprClosed value
  | .attempt body _ handler finalizer =>
    stmtsClosed function loop body && optionalStmtsClosed function loop handler &&
      optionalStmtsClosed function loop finalizer
  | .leave | .skip => loop
  | .misplaced _ | .unlisted _ => true

def optionalStmtClosed (function loop : Bool) : Option Stmt → Bool
  | none => true
  | some s => s.isClosed function loop

def stmtsClosed (function loop : Bool) : List Stmt → Bool
  | [] => true
  | s :: ss => s.isClosed function loop && stmtsClosed function loop ss

def optionalStmtsClosed (function loop : Bool) : Option (List Stmt) → Bool
  | none => true
  | some ss => stmtsClosed function loop ss

end

/-- A closed program: it stands neither in a function nor in a loop. -/
def programClosed (p : List Stmt) : Bool := stmtsClosed false false p

def bodyClosed (body : List Stmt) : Bool := stmtsClosed true false body

theorem isClosed_of_mem {function loop : Bool} {ss : List Stmt}
    (h : stmtsClosed function loop ss = true) : ∀ s ∈ ss, s.isClosed function loop = true := by
  induction ss with
  | nil => exact fun _ hs => (List.not_mem_nil hs).elim
  | cons s ss ih =>
    obtain ⟨hs, hss⟩ := Bool.and_eq_true_iff.mp h
    exact List.forall_mem_cons.mpr ⟨hs, ih hss⟩

/-- Whether a signal has what it needs around it. -/
def Signal.fits (function loop : Bool) : Signal → Bool
  | .returned => function
  | .broke | .continued => loop

/-- What leaves a closed statement has what it needs around the statement. -/
theorem Stmt.Signals.fits_of_isClosed {modules : List Stmt → Prop} {s : Stmt} {σ : Signal}
    {function loop : Bool} (hmodules : ∀ m, modules m → programClosed m = true)
    (h : s.Signals modules σ) (hs : s.isClosed function loop = true) :
    σ.fits function loop = true := by
  induction h generalizing function loop with
    try simp only [Stmt.isClosed, Form.isClosed, Bool.and_eq_true] at hs
  | ret line value => exact hs.1
  | leave line | skip line => exact hs
  | block hmem _ ih => exact ih (isClosed_of_mem hs _ hmem)
  | yes _ ih => exact ih hs.1.2
  | no _ ih => exact ih hs.2
  | loop _ ih | circuit _ ih =>
    have hbody : Signal.returned.fits function true = true := ih hs.2
    exact hbody
  | @load _ σ _ _ _ hm hmem _ ih =>
    -- Nothing leaves a closed program, as nothing is around it.
    have hnone : σ.fits false false = true := ih (isClosed_of_mem (hmodules _ hm) _ hmem)
    cases σ <;> cases hnone
  | body hmem _ ih => exact ih (isClosed_of_mem hs.1.1 _ hmem)
  | handler hmem _ ih => exact ih (isClosed_of_mem hs.1.2 _ hmem)
  | finalizer hmem _ ih => exact ih (isClosed_of_mem hs.2 _ hmem)

/-! ## Statements without imports -/

/-- An import stands in the statement, outside of all functions. -/
inductive Stmt.Imports : Stmt → Prop where
  | load (line : Int) (path : Expr) : Imports ⟨line, .load path⟩
  | block {line : Int} {body : List Stmt} : s ∈ body → Imports s → Imports ⟨line, .block body⟩
  | yes {line : Int} : Imports yes → Imports ⟨line, .cond test yes no⟩
  | no {line : Int} : Imports no → Imports ⟨line, .cond test yes (some no)⟩
  | loop {line : Int} : Imports body → Imports ⟨line, .loop test body⟩
  | init {line : Int} : Imports init → Imports ⟨line, .circuit (some init) test step body⟩
  | circuit {line : Int} : Imports body → Imports ⟨line, .circuit init test step body⟩
  | body {line : Int} {body : List Stmt} :
      s ∈ body → Imports s → Imports ⟨line, .attempt body name handler finalizer⟩
  | handler {line : Int} {handler : List Stmt} :
      s ∈ handler → Imports s → Imports ⟨line, .attempt body name (some handler) finalizer⟩
  | finalizer {line : Int} {finalizer : List Stmt} :
      s ∈ finalizer → Imports s → Imports ⟨line, .attempt body name handler (some finalizer)⟩

/-- The signal stands in the statement itself, outside of what keeps it. -/
def Stmt.HasFree (s : Stmt) (σ : Signal) : Prop := s.Signals (fun _ => False) σ

/-- Without imports, what leaves a statement stands in it. -/
theorem Stmt.Signals.hasFree {modules : List Stmt → Prop} {s : Stmt} {σ : Signal}
    (h : s.Signals modules σ) (hs : ¬s.Imports) : s.HasFree σ := by
  induction h with
  | ret line value => exact .ret line value
  | leave line => exact .leave line
  | skip line => exact .skip line
  | block hmem _ ih => exact .block hmem (ih fun h => hs (.block hmem h))
  | yes _ ih => exact .yes (ih fun h => hs (.yes h))
  | no _ ih => exact .no (ih fun h => hs (.no h))
  | loop _ ih => exact .loop (ih fun h => hs (.loop h))
  | circuit _ ih => exact .circuit (ih fun h => hs (.circuit h))
  | load => exact absurd (.load _ _) hs
  | body hmem _ ih => exact .body hmem (ih fun h => hs (.body hmem h))
  | handler hmem _ ih => exact .handler hmem (ih fun h => hs (.handler hmem h))
  | finalizer hmem _ ih => exact .finalizer hmem (ih fun h => hs (.finalizer hmem h))

def Outcome.signal? : Outcome → Option Signal
  | .normal => none
  | .returned _ => some .returned
  | .broke => some .broke
  | .continued => some .continued

theorem Policy.Allows.signal {P : Policy} {S : Signal → Prop} {o : Outcome} (h : P.Allows S o)
    {σ : Signal} (hσ : o.signal? = some σ) : S σ := by
  cases o with
  | normal => cases hσ
  | returned v =>
    cases hσ
    exact h.1
  | broke | continued =>
    cases hσ
    exact h

/-! ## Stray errors -/

mutual

/-- Every error about a stray signal in the value is one of those with the given numbers. -/
def Value.StraysWithin (known : Nat → Prop) : Value → Prop
  | .err id name _ => name = "ControlError" → known id
  | .tuple vs => Value.allStrayWithin known vs
  | _ => True

def Value.allStrayWithin (known : Nat → Prop) : List Value → Prop
  | [] => True
  | v :: vs => v.StraysWithin known ∧ Value.allStrayWithin known vs

end

variable {known : Nat → Prop}

theorem Value.allStrayWithin_iff {vs : List Value} :
    Value.allStrayWithin known vs ↔ ∀ v ∈ vs, v.StraysWithin known := by
  induction vs with
  | nil => simp [Value.allStrayWithin]
  | cons v vs ih => simp [Value.allStrayWithin, ih]

theorem Value.IsPlain.straysWithin {v : Value} (h : v.IsPlain) : v.StraysWithin known := by
  cases v with
  | err | tuple => exact h.elim
  | _ => trivial

/-- Everything around a run is closed: the modules that it can load and the functions that there
are. The errors about stray signals that there are have known numbers, and the loader throws
none. -/
structure State.IsClosed (known : Nat → Prop) (s : State) : Prop where
  modules : ∀ m, s.config.Loads m → programClosed m = true
  thrown : ∀ path w w' d, s.config.loader.load path w = (w', .error (.thrown d)) →
    d.Fits (Value.StraysWithin known)
  heap : s.heap.Holds (Value.StraysWithin known) fun body => bodyClosed body = true

namespace Policy

/-- The policy of runs in which everything is closed. -/
def closed (c : Config) (known : Nat → Prop) : Policy :=
  ⟨c, Value.StraysWithin known, fun _ => True, fun body => bodyClosed body = true⟩

variable {c : Config}

theorem fits_tree (t : Tree) : t.Fits (closed c known).value :=
  t.fits (fun _ _ => trivial) fun _ _ => trivial

mutual

theorem obeys_of_isClosed_expr : (e : Expr) → e.isClosed = true → e.Obeys (closed c known).rules
  | .constant _, _ | .variable _, _ | .step _ _, _ | .misplaced _, _ | .unlisted _, _ => trivial
  | .compound _ t, _ => fits_tree t
  | .assign _ e, h | .unary _ e, h | .member e _, h => obeys_of_isClosed_expr e h
  | .binary _ l r, h =>
    have h := Bool.and_eq_true_iff.mp h
    ⟨obeys_of_isClosed_expr l h.1, obeys_of_isClosed_expr r h.2⟩
  | .call e args, h =>
    have h := Bool.and_eq_true_iff.mp h
    ⟨obeys_of_isClosed_expr e h.1, obey_of_exprsClosed args h.2⟩
  | .function _ body, h => ⟨h, obey_of_stmtsClosed body h⟩

theorem obey_of_exprsClosed : (es : List Expr) → exprsClosed es = true →
    exprsObey (closed c known).rules es
  | [], _ => trivial
  | e :: es, h =>
    have h := Bool.and_eq_true_iff.mp h
    ⟨obeys_of_isClosed_expr e h.1, obey_of_exprsClosed es h.2⟩

theorem obeys_of_optionalExprClosed : (o : Option Expr) → optionalExprClosed o = true →
    optionalExprObeys (closed c known).rules o
  | none, _ => trivial
  | some e, h => obeys_of_isClosed_expr e h

theorem obeys_of_isClosed_stmt {function loop : Bool} : (s : Stmt) →
    s.isClosed function loop = true → s.Obeys (closed c known).rules
  | .mk _ form, h => obeys_of_isClosed_form form h

theorem obeys_of_isClosed_form {function loop : Bool} : (f : Form) →
    f.isClosed function loop = true → f.Obeys (closed c known).rules
  | .expr e, h | .load e, h => obeys_of_isClosed_expr e h
  | .declare _ init, h => obeys_of_optionalExprClosed init h
  | .block body, h => obey_of_stmtsClosed body h
  | .cond test yes no, h => by
    simp only [Form.isClosed, Bool.and_eq_true] at h
    exact ⟨obeys_of_isClosed_expr test h.1.1, obeys_of_isClosed_stmt yes h.1.2,
      obeys_of_optionalStmtClosed no h.2⟩
  | .loop test body, h => by
    simp only [Form.isClosed, Bool.and_eq_true] at h
    exact ⟨obeys_of_isClosed_expr test h.1, obeys_of_isClosed_stmt body h.2⟩
  | .circuit init test step body, h => by
    simp only [Form.isClosed, Bool.and_eq_true] at h
    exact ⟨obeys_of_optionalStmtClosed init h.1.1.1, obeys_of_optionalExprClosed test h.1.1.2,
      obeys_of_optionalExprClosed step h.1.2, obeys_of_isClosed_stmt body h.2⟩
  | .define _ _ body, h => ⟨h, obey_of_stmtsClosed body h⟩
  | .ret value, h => obeys_of_optionalExprClosed value (Bool.and_eq_true_iff.mp h).2
  | .attempt body _ handler finalizer, h => by
    simp only [Form.isClosed, Bool.and_eq_true] at h
    exact ⟨obey_of_stmtsClosed body h.1.1, obey_of_optionalStmtsClosed handler h.1.2,
      obey_of_optionalStmtsClosed finalizer h.2⟩
  | .leave, _ | .skip, _ | .misplaced _, _ | .unlisted _, _ => trivial

theorem obeys_of_optionalStmtClosed {function loop : Bool} : (o : Option Stmt) →
    optionalStmtClosed function loop o = true → optionalStmtObeys (closed c known).rules o
  | none, _ => trivial
  | some s, h => obeys_of_isClosed_stmt s h

theorem obey_of_stmtsClosed {function loop : Bool} : (ss : List Stmt) →
    stmtsClosed function loop ss = true → stmtsObey (closed c known).rules ss
  | [], _ => trivial
  | s :: ss, h =>
    have h := Bool.and_eq_true_iff.mp h
    ⟨obeys_of_isClosed_stmt s h.1, obey_of_stmtsClosed ss h.2⟩

theorem obey_of_optionalStmtsClosed {function loop : Bool} : (o : Option (List Stmt)) →
    optionalStmtsClosed function loop o = true → optionalStmtsObey (closed c known).rules o
  | none, _ => trivial
  | some ss, h => obey_of_stmtsClosed ss h

end

variable {s : State}

theorem lawful_closed (h : s.IsClosed known) : (closed s.config known).Lawful where
  plain _ hv := hv.straysWithin
  error _ _ _ hname := fun heq => absurd heq hname
  tuple _ hvs := Value.allStrayWithin_iff.mp hvs
  foreign _ _ _ _ := trivial
  tooLarge := trivial
  empty := rfl
  tame body hbody s hs σ hσ := by
    have hfits := hσ.fits_of_isClosed h.modules (isClosed_of_mem hbody s hs)
    cases σ with
    | returned => exact .inl rfl
    | broke | continued => cases hfits
  thrown := h.thrown
  modules m hm := obey_of_stmtsClosed m (h.modules m hm)

theorem admits_closed (h : s.IsClosed known) : (closed s.config known).Admits s where
  config := rfl
  heap := h.heap.mono (fun _ hv => hv) fun body hbody => ⟨hbody, obey_of_stmtsClosed body hbody⟩

theorem isClosed_of_admits {s' : State} (h : s.IsClosed known)
    (hs : (closed s.config known).Admits s') : s'.IsClosed known where
  modules := by
    rw [hs.config]
    exact h.modules
  thrown := by
    rw [hs.config]
    exact h.thrown
  heap := hs.heap.mono (fun _ hv => hv) fun _ hbody => hbody.1

/-- A closed program ends normally, if it does not fail. -/
theorem runs_programProc (h : s.IsClosed known) {p : List Stmt} (hp : programClosed p = true) :
    (closed s.config known).Runs (fun _ _ => True) hard (programProc p) fun _ => True := by
  have := lawful_closed h
  let P := closed s.config known
  have hexec : P.Runs (fun _ _ => True) hard (execAll 0 p) (P.Allows (P.stmtsSignal p)) :=
    (execAll_runs p (obey_of_stmtsClosed p hp) 0).mono (fun _ _ _ => trivial) fun _ ho => ho
  refine (Runs.traceLine 1 _).bind fun _ _ => hexec.bind fun o ho => ?_
  cases hσ : o.signal? with
  | none =>
    cases o with
    | normal => exact .pure trivial
    | returned | broke | continued => cases hσ
  | some σ =>
    obtain ⟨t, ht, hsignals⟩ := ho.signal hσ
    have hfits := hsignals.fits_of_isClosed h.modules (isClosed_of_mem hp t ht)
    cases σ <;> cases hfits

end Policy

/-! ## Runs -/

theorem stray_free_of_leads {s : State} (h : s.IsClosed known) {p : List Stmt}
    (hp : programClosed p = true) {m : Machine} (hm : (Machine.start (programProc p) s).Leads m)
    {v : Value} {line : Option Int} {s' : State} (hv : m.current = .fail (.raised v line) s') :
    v.StraysWithin known := by
  have := Policy.lawful_closed h
  have hkeeps := (Policy.runs_programProc h hp).keeps (Policy.admits_closed h) 0
  exact (hkeeps.leads hm).tolerates hv

theorem isClosed_of_endsWith {s : State} (h : s.IsClosed known) {p : List Stmt}
    (hp : programClosed p = true) {r : Except Failure Outcome} {s' : State}
    (hend : (Machine.start (programProc p) s).EndsWith r s') : s'.IsClosed known := by
  have := Policy.lawful_closed h
  have hends := (Policy.runs_programProc h hp).ends (Policy.admits_closed h) hend
  exact Policy.isClosed_of_admits h hends.admits

theorem hasFree_of_exec {s s' : State} {scope depth : Nat} {stmt : Stmt} {o : Outcome}
    (hstmt : ¬stmt.Imports) (hend : Machine.EndsWith ⟨stmt.exec scope s, [], depth⟩ (.ok o) s')
    {σ : Signal} (hσ : o.signal? = some σ) : stmt.HasFree σ := by
  have hobeys := stmt.obeys (Policy.allowsAll_any s.config)
  have hends := (Policy.exec_runs stmt hobeys scope).ends (Policy.admits_any s) hend
  exact ((hends.ok o rfl).signal hσ).hasFree hstmt

/-- A function that is not closed can be left over from a program before, and then a closed
program raises the error of a stray signal by a call. -/
theorem stray_signal_of_earlier_function :
    (∀ m, ¬State.bare.config.Loads m) ∧
    programClosed [.mk 1 (.expr (.call (.variable "f") []))] = true ∧
    ∃ e e' id message line,
      State.bare.run 20 [.mk 1 (.define "f" [] [.mk 1 .leave])] = some e ∧
      e.state.run 20 [.mk 1 (.expr (.call (.variable "f") []))] = some e' ∧
      e'.result = .error (.raised (.err id "ControlError" message) line) := by
  refine ⟨?_, rfl, _, _, _, _, _, rfl, rfl, rfl⟩
  rintro m ⟨path, source, w, w', hload, -⟩
  cases hload

/-- Where everything is closed, a closed program raises no errors of stray signals but those that
there were already, and everything is still closed at its end. The outcome of a statement without
imports is a signal only if that stands in the statement itself. -/
theorem signals_stay_inside :
    (∀ (known : Nat → Prop) (s : State) (p : List Stmt), s.IsClosed known →
      programClosed p = true →
      (∀ m, (Machine.start (programProc p) s).Leads m → ∀ v line s',
        m.current = .fail (.raised v line) s' → v.StraysWithin known) ∧
      ∀ r s', (Machine.start (programProc p) s).EndsWith r s' → s'.IsClosed known) ∧
    ∀ (s s' : State) (scope depth : Nat) (stmt : Stmt) (o : Outcome), ¬stmt.Imports →
      Machine.EndsWith ⟨stmt.exec scope s, [], depth⟩ (.ok o) s' →
      ∀ σ, o.signal? = some σ → stmt.HasFree σ := by
  refine ⟨fun known s p h hp => ⟨?_, ?_⟩, ?_⟩
  · exact fun m hm v line s' hv => stray_free_of_leads h hp hm hv
  · exact fun r s' hend => isClosed_of_endsWith h hp hend
  · exact fun s s' scope depth stmt o hstmt hend σ hσ => hasFree_of_exec hstmt hend hσ

/-- A fresh run with a module that leaves a loop. -/
def State.looping : State :=
  { State.bare with config :=
      ⟨.table [("m", .source "šalina (rožni) vypadni piča")], true, 0, false, []⟩ }

theorem isClosed_looping : State.looping.IsClosed fun _ => False := by
  have hparse : parseProgram "šalina (rožni) vypadni piča" =
      .ok [.mk 1 (.loop (.constant (.bool true)) (.mk 1 .leave))] := by
    cbv
  have hload (path : String) (w : World) : State.looping.config.loader.load path w =
      (w, if path = "m" then .ok "šalina (rožni) vypadni piča"
        else .error (.fault (.noModule path))) := by
    by_cases h : path = "m"
    · subst h
      rfl
    · have hnone : [("m", Module.source "šalina (rožni) vypadni piča")].lookup path = none := by
        rw [List.lookup_cons, beq_false_of_ne h]
        rfl
      simp [State.looping, Loader.load, Loader.table, hnone, h]
  constructor
  · rintro m ⟨path, source, w, w', h, hm⟩
    rw [hload] at h
    split at h
    · cases h
      cases hparse.symm.trans hm
      rfl
    · cases h
  · intro path w w' d h
    rw [hload] at h
    split at h <;> cases h
  · exact Heap.holds_initial fun _ hv => hv.straysWithin

/-- Leaves a loop out of a module, a condition and a block. -/
def leavingLoop : Stmt :=
  .mk 1 (.loop (.constant (.bool true)) (.mk 1 (.block
    [importOf 1 "m", .mk 2 (.cond (.constant (.bool true)) (.mk 2 .leave) none)])))

/-- Leaves whatever loop there is around it. -/
def leavingBlock : Stmt := .mk 1 (.block [.mk 1 .leave])

theorem signals_stay_inside_loop :
    (State.looping.IsClosed (fun _ => False) ∧ programClosed [leavingLoop] = true ∧
      ∀ m, (Machine.start (programProc [leavingLoop]) State.looping).Leads m → ∀ v line s',
        m.current = .fail (.raised v line) s' → v.StraysWithin fun _ => False) ∧
    ¬leavingBlock.Imports ∧
    (∃ s', Machine.EndsWith ⟨leavingBlock.exec 0 State.bare, [], 0⟩ (.ok .broke) s') ∧
    leavingBlock.HasFree .broke := by
  have hclosed := isClosed_looping
  have hstmt : ¬leavingBlock.Imports := by
    rintro (_ | ⟨hmem, h⟩)
    obtain rfl := List.mem_singleton.mp hmem
    cases h
  have hend : Machine.EndsWith ⟨leavingBlock.exec 0 State.bare, [], 0⟩ (.ok .broke)
      { State.bare with heap := (State.bare.heap.newScope (some 0)).2 } :=
    ⟨_, .refl _, rfl⟩
  refine ⟨⟨hclosed, rfl, ?_⟩, hstmt, ⟨_, hend⟩, ?_⟩
  · exact (signals_stay_inside.1 _ _ _ hclosed rfl).1
  · exact signals_stay_inside.2 _ _ _ _ _ _ hstmt hend .broke rfl

end Hantec
