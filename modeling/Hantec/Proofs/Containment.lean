import Mathlib
import Hantec.Proofs.Policy.Machine
import Hantec.Session

/-!
# How programs can end

A program that was read from a source holds values of the language only, and so do all states of its
run. Such a run ends normally, with a raised value, with an exit, or because something is nested
without an end. There is one more end, the fault of a text that writes a whole number which is too
large in another base than ten; it comes up wherever such a text is read as a number outside of a
builtin.
-/

namespace Hantec

/-! ## Programs from sources -/

/-- The parts of a phrase keep to the rules. -/
def Grammar.Symbol.Obeys (R : Rules) : (x : Grammar.Symbol) → x.Tree → Prop
  | .expr, e | .level _, e | .power, e | .unary, e | .postfixed, e | .primary, e
  | .condition, e => Expr.Obeys R e
  | .items, es | .someItems, es => exprsObey R es
  | .names, _ | .params, _ => True
  | .optional, o => optionalExprObeys R o
  | .declarations, ss | .braced, ss => stmtsObey R ss
  | .declaration, s | .letDecl, s | .statement, s => Stmt.Obeys R s
  | .init, o => optionalStmtObeys R o
  | .handler, p => optionalStmtsObey R p.2
  | .finalizer, o => optionalStmtsObey R o

/-- A phrase has no literals that are kept as trees and nothing in a wrong place, so only the bodies
of its functions have to keep to the rules. -/
theorem Grammar.Phrase.obeys {R : Rules} (hbody : ∀ body, R.body body) {x : Grammar.Symbol}
    {ts : List Token} {tree : x.Tree} (h : Grammar.Phrase x ts tree) : x.Obeys R tree := by
  induction h with
  | loosest _ ih | tighter _ _ ih | tightest _ ih | base _ ih | unary _ _ ih | operand _ ih
  | primary _ ih | member _ _ _ ih | paren _ ih | items _ ih | condition _ _ _ ih | present _ ih
  | braced _ _ _ ih | letDecl _ ih | statement _ _ ih | declare _ _ _ _ _ ih | letInit _ ih
  | exprInit _ _ ih | handler _ _ _ _ ih | namedHandler _ _ _ _ _ ih | finalizer _ _ ih
  | block _ ih | ret _ _ _ ih | load _ _ _ ih | exprStmt _ _ ih => exact ih
  | assign _ _ _ _ ih =>
    rename_i op _ _ _ _ _
    cases op with
    | none => exact ih
    | some op => exact ⟨trivial, ih⟩
  | binary _ _ _ iha ihb | power _ _ _ iha ihb => exact ⟨iha, ihb⟩
  | call _ _ _ _ ihe ihargs => exact ⟨ihe, ihargs⟩
  | array _ _ _ ih => exact ⟨trivial, ih⟩
  | function _ _ _ _ ih | define _ _ _ _ _ ih => exact ⟨hbody _, ih⟩
  | lastItem _ ih => exact ⟨ih, trivial⟩
  | nextItem _ _ _ ihe ihes => exact ⟨ihe, ihes⟩
  | nextDeclaration _ _ ihs ihss => exact ⟨ihs, ihss⟩
  | cond _ _ _ ihe ihyes => exact ⟨ihe, ihyes, trivial⟩
  | condElse _ _ _ _ _ _ ihe ihyes ihno => exact ⟨ihe, ihyes, ihno⟩
  | loop _ _ _ ihe ihbody => exact ⟨ihe, ihbody⟩
  | circuit _ _ _ _ _ _ _ _ ihinit ihtest ihstep ihbody => exact ⟨ihinit, ihtest, ihstep, ihbody⟩
  | print _ _ _ ih => exact ⟨trivial, ih, trivial⟩
  | attempt _ _ _ _ ihbody ihhandler ihfinalizer => exact ⟨ihbody, ihhandler, ihfinalizer⟩
  | step | literal | truth | falsity | null | ident | noItems | lastName | nextName | noParams
  | params | absent | noDeclarations | declareNull | noInit | noHandler | noFinalizer | leave
  | skip => trivial

theorem obey_of_parseProgram {R : Rules} (hbody : ∀ body, R.body body) {source : String}
    {p : List Stmt} (h : parseProgram source = .ok p) : stmtsObey R p := by
  obtain ⟨ts, -, us, t, -, -, hphrase⟩ := program_of_parseProgram h
  exact hphrase.obeys hbody

/-! ## Values of the language -/

/-- A value of the language. -/
def Value.IsNative (v : Value) : Prop := v.foreign? = none

theorem Value.IsPlain.isNative {v : Value} (h : v.IsPlain) : v.IsNative := by
  cases v with
  | int | tuple | node => exact h.elim
  | _ => rfl

/-- Programs without values from outside and without places that fail. -/
def Rules.native : Rules := ⟨Tree.Fits Value.IsNative, fun f => f = .tooLarge, fun _ => True⟩

/-- All values around a run are of the language, and so are those that the loader throws. -/
structure State.IsNative (s : State) : Prop where
  thrown : ∀ path w w' d, s.config.loader.load path w = (w', .error (.thrown d)) →
    d.Fits Value.IsNative
  heap : s.heap.Holds Value.IsNative (stmtsObey Rules.native)

namespace Policy

/-- The policy of runs with values of the language only. -/
def native (c : Config) : Policy :=
  ⟨c, Value.IsNative, fun f => f = .tooLarge, fun _ => True⟩

variable {s s' : State}

theorem lawful_native (h : s.IsNative) : (native s.config).Lawful where
  plain _ hv := hv.isNative
  error _ _ _ _ := rfl
  tuple _ hvs := nomatch hvs
  foreign _ _ hv hf := nomatch hv.symm.trans hf
  tooLarge := rfl
  empty := trivial
  tame _ _ _ _ _ _ := .inr fun _ _ => rfl
  thrown := h.thrown
  modules := by
    rintro m ⟨path, source, w, w', -, hparse⟩
    exact obey_of_parseProgram (fun _ => trivial) hparse

theorem admits_native (h : s.IsNative) : (native s.config).Admits s where
  config := rfl
  heap := h.heap.mono (fun _ hv => hv) fun _ hbody => ⟨trivial, hbody⟩

theorem isNative_of_admits (h : s.IsNative) (hs : (native s.config).Admits s') : s'.IsNative where
  thrown := by
    rw [hs.config]
    exact h.thrown
  heap := hs.heap.mono (fun _ hv => hv) fun _ hbody => hbody.2

theorem runs_programProc_native (h : s.IsNative) {p : List Stmt}
    (hp : stmtsObey Rules.native p) :
    (native s.config).Runs (fun _ _ => True) hard (programProc p) fun o => o = .normal := by
  have := lawful_native h
  let P := native s.config
  have hobeys : stmtsObey P.rules p := hp
  have hexec : P.Runs (fun _ _ => True) hard (execAll 0 p) fun _ => True :=
    (execAll_runs p hobeys 0).mono (fun _ _ _ => trivial) fun _ _ => trivial
  refine (Runs.traceLine 1 _).bind fun _ _ => hexec.bind fun o _ => ?_
  cases o with
  | normal => exact .pure rfl
  | returned | broke | continued => exact .raiseErrorValue fun _ => rfl

end Policy

/-! ## Ends -/

/-- The ends of a run: normal, with a raised value of the language, with an exit, nested without an
end, or with the fault of a number that is too large. -/
inductive ExpectedEnd : Except Failure Outcome → Prop where
  | normal : ExpectedEnd (.ok .normal)
  | raised {v : Value} (line : Option Int) : v.IsNative → ExpectedEnd (.error (.raised v line))
  | exit (code : Int) : ExpectedEnd (.error (.exit code))
  | overflow : ExpectedEnd (.error .overflow)
  | tooLarge : ExpectedEnd (.error (.fault .tooLarge))

theorem expectedEnd_of_endsWith {s s' : State} (h : s.IsNative) {p : List Stmt}
    (hp : stmtsObey Rules.native p) {r : Except Failure Outcome}
    (hend : (Machine.start (programProc p) s).EndsWith r s') : ExpectedEnd r ∧ s'.IsNative := by
  have := Policy.lawful_native h
  have hends := (Policy.runs_programProc_native h hp).ends (Policy.admits_native h) hend
  refine ⟨?_, Policy.isNative_of_admits h hends.admits⟩
  cases r with
  | ok o =>
    obtain rfl := hends.ok o rfl
    exact .normal
  | error f =>
    have hf := hends.error f rfl
    cases f with
    | raised v line => exact .raised line hf
    | fault f =>
      obtain rfl : f = .tooLarge := hf.resolve_right id
      exact .tooLarge
    | exit code => exact .exit code
    | overflow => exact .overflow

theorem isNative_of_start {c : Config} {w : World} {s : State}
    (hthrown : ∀ path w w' d, c.loader.load path w = (w', .error (.thrown d)) →
      d.Fits Value.IsNative) (hs : State.start c w = .ok s) : s.IsNative := by
  have hstate := State.of_start hs
  refine ⟨hstate.1 ▸ hthrown, ?_⟩
  rw [hstate.2]
  exact Heap.holds_initial fun _ hv => hv.isNative

/-! ## Numbers that are too large -/

/-- The text writes a whole number in another base than ten that has no nearest number. -/
def WritesTooLarge (x : String) : Prop :=
  ∃ mark d ds base n, Text.trimChars x.toList = '0' :: mark :: d :: ds ∧
    Number.base? mark = some base ∧ Number.ofBase? base (d :: ds) = some n ∧ Number.tooLarge ≤ n

theorem tooLarge_le_of_ofInt? {n : Nat} (h : Number.ofInt? n = none) : Number.tooLarge ≤ n := by
  unfold Number.ofInt? at h
  split at h
  · cases h
  · rename_i hn
    exact Nat.le_of_not_lt hn

theorem mem_marks_of_base? {mark : Char} {base : Nat} (h : Number.base? mark = some base) :
    mark ∈ ['x', 'X', 'o', 'O', 'b', 'B'] := by
  unfold Number.base? at h
  split at h
  case h_7 => cases h
  all_goals decide

/-- What starts with a zero and a mark is no decimal. -/
theorem decimal?_eq_none {mark : Char} {base : Nat} (h : Number.base? mark = some base)
    (cs : List Char) : Number.decimal? ('0' :: mark :: cs) = none := by
  have hmarks := mem_marks_of_base? h
  simp only [List.mem_cons, List.not_mem_nil, or_false] at hmarks
  rcases hmarks with rfl | rfl | rfl | rfl | rfl | rfl <;> rfl

theorem writesTooLarge_of_ofText? {x : String} (h : Number.ofText? x = none) :
    WritesTooLarge x := by
  unfold Number.ofText? at h
  dsimp only at h
  generalize hcs : Text.trimChars x.toList = cs at h
  split at h
  · cases h
  · split at h
    · cases h
    · split at h
      · cases h
      · cases h
      · cases h
      · split at h
        · split at h
          · cases h
          · split at h
            · cases h
            · rename_i hbase _ _ hn
              exact ⟨_, _, _, _, _, hcs, hbase, hn, tooLarge_le_of_ofInt? h⟩
        · cases h

theorem ofText?_of_writesTooLarge {x : String} (h : WritesTooLarge x) :
    Number.ofText? x = none := by
  obtain ⟨mark, d, ds, base, n, hcs, hbase, hn, hlarge⟩ := h
  have hne (y : String) (hy : y.toList.head? ≠ some '0') :
      String.ofList ('0' :: mark :: d :: ds) ≠ y := by
    rintro rfl
    simp at hy
  have hint : Number.ofInt? n = none := if_neg (Nat.not_lt.mpr hlarge)
  unfold Number.ofText?
  dsimp only
  rw [hcs]
  dsimp only
  rw [decimal?_eq_none hbase]
  dsimp only
  split
  case h_1 heq => exact absurd heq (hne _ (by decide))
  case h_2 heq => exact absurd heq (hne _ (by decide))
  case h_3 heq => exact absurd heq (hne _ (by decide))
  case h_4 =>
    simp only [hbase, hn]
    exact hint

theorem toText_ne_tooLarge (h : Heap) (v : Value) : h.toText v ≠ .error (.fault .tooLarge) := by
  intro he
  obtain ⟨shape, hshape⟩ := Policy.Grants.foreign_of_toText he
  cases hshape

theorem writesTooLarge_of_numberOfText {x : String} {t : Trouble}
    (he : Heap.numberOfText x = .error t) : WritesTooLarge x := by
  unfold Heap.numberOfText at he
  split at he
  · cases he
  · rename_i hnone
    exact writesTooLarge_of_ofText? hnone

theorem toNumber_str_eq_tooLarge_iff {h : Heap} {x : String} :
    h.toNumber (.str x) = .error (.fault .tooLarge) ↔ WritesTooLarge x := by
  constructor
  · exact writesTooLarge_of_numberOfText
  · intro hx
    rw [Heap.toNumber, Heap.numberOfText, ofText?_of_writesTooLarge hx]

/-- Reading a value of the language as a number comes to one that is too large only through the
text of the value. -/
theorem writesTooLarge_of_toNumber {h : Heap} {v : Value} (hv : v.IsNative)
    (he : h.toNumber v = .error (.fault .tooLarge)) :
    ∃ x, h.toText v = .ok x ∧ WritesTooLarge x := by
  cases v
  case str x =>
    have htext : h.toText (.str x) = .ok x := by
      unfold Heap.toText
      cases h.arrays.size <;> rfl
    exact ⟨x, htext, writesTooLarge_of_numberOfText he⟩
  case arr r =>
    rw [Heap.toNumber] at he
    cases htext : h.toText (.arr r) with
    | error t =>
      rw [htext] at he
      cases he
      exact absurd htext (toText_ne_tooLarge h _)
    | ok x =>
      rw [htext] at he
      exact ⟨x, rfl, writesTooLarge_of_numberOfText he⟩
  case int | tuple | node => cases hv
  all_goals cases he

/-- However a program from a source ends in a state with values of the language only, the end is
one of those that are expected, or the fault of a number that is too large; and there are still
values of the language only. Fresh runs start in such a state, whatever they are allowed to do.
Reading a value as a number comes to that fault only for a text with digits of another base than
ten, and reading a text comes to it exactly if the number it writes so is too large. -/
theorem ends_contained (c : Config)
    (hthrown : ∀ path w w' d, c.loader.load path w = (w', .error (.thrown d)) →
      d.Fits Value.IsNative) :
    (∀ (w : World) (s : State), State.start c w = .ok s → s.IsNative) ∧
    (∀ (s s' : State) (source : String) (p : List Stmt) (r : Except Failure Outcome), s.IsNative →
      parseProgram source = .ok p → (Machine.start (programProc p) s).EndsWith r s' →
      ExpectedEnd r ∧ s'.IsNative) ∧
    (∀ (h : Heap) (v : Value), v.IsNative → h.toNumber v = .error (.fault .tooLarge) →
      ∃ x, h.toText v = .ok x ∧ WritesTooLarge x) ∧
    ∀ (h : Heap) (x : String), h.toNumber (.str x) = .error (.fault .tooLarge) ↔
      WritesTooLarge x := by
  refine ⟨?_, ?_, ?_, ?_⟩
  · exact fun w s hs => isNative_of_start hthrown hs
  · intro s s' source p r hs hparse hend
    exact expectedEnd_of_endsWith hs (obey_of_parseProgram (fun _ => trivial) hparse) hend
  · exact fun h v hv he => writesTooLarge_of_toNumber hv he
  · exact fun h x => toNumber_str_eq_tooLarge_iff

/-- An unknown name ends a run with a raised value. -/
theorem ends_contained_unknown_name :
    ∃ p r s', State.start State.bare.config State.bare.world = .ok State.bare ∧
      State.bare.IsNative ∧ parseProgram "x piča" = .ok p ∧
      (Machine.start (programProc p) State.bare).EndsWith r s' ∧ ExpectedEnd r ∧ s'.IsNative := by
  have hparse : parseProgram "x piča" = .ok [.mk 1 (.expr (.variable "x"))] := by cbv
  have hend : ∃ r s', (Machine.start (programProc [.mk 1 (.expr (.variable "x"))])
      State.bare).EndsWith r s' := ⟨_, _, _, .refl _, rfl⟩
  obtain ⟨r, s', hend⟩ := hend
  have hcontained := ends_contained State.bare.config fun _ _ _ _ h => by cases h
  have hnative : State.bare.IsNative := hcontained.1 State.bare.world State.bare rfl
  have hexpected := hcontained.2.1 State.bare s' "x piča" _ r hnative hparse hend
  exact ⟨_, r, s', rfl, hnative, hparse, hend, hexpected.1, hexpected.2⟩

/-! ## A fault -/

/-- The negation of a text that writes a number that is too large ends a run with a fault. -/
theorem negation_faults {s : State} {x : String} (hs : s.config.traceLevel = 0)
    (hx : WritesTooLarge x) :
    (Machine.start (programProc [.mk 1 (.expr (.unary .neg (.constant (.str x))))]) s).EndsWith
      (.error (.fault .tooLarge)) s := by
  have hnumber : s.heap.toNumber (.str x) = .error (.fault .tooLarge) :=
    toNumber_str_eq_tooLarge_iff.mpr hx
  have hask : (Proc.toNumber (.str x)).run s = .fail (.fault .tooLarge) s :=
    Proc.run_ask_error (f := (·.toNumber (.str x))) s hnumber
  have hform : ((Form.expr (.unary .neg (.constant (.str x)))).exec 0).run s =
      .fail (.fault .tooLarge) s := by
    simp [Form.exec, Expr.eval, Constant.toValue, unaryOp, hask]
  have hprogram : (programProc [.mk 1 (.expr (.unary .neg (.constant (.str x))))]).run s =
      .fail (.fault .tooLarge) s := by
    rw [programProc, Proc.run_bind, Proc.run_trace hs Nat.one_pos, Step.bind_ret, Proc.run_bind,
      execAll_cons, Proc.run_bind, run_exec_mk hs, hform]
    rfl
  exact ⟨_, .refl _, congrArg (fun c => Machine.next ⟨c, [], 0⟩) hprogram⟩

/-- Digits of a number that is too large. -/
def largeText : String := String.ofList ('0' :: 'x' :: List.replicate 256 'f')

theorem writesTooLarge_largeText : WritesTooLarge largeText := by
  have hlist : largeText.toList = '0' :: 'x' :: List.replicate 256 'f' := String.toList_ofList
  have htrim : Text.trimChars ('0' :: 'x' :: List.replicate 256 'f') =
      '0' :: 'x' :: 'f' :: List.replicate 255 'f' := by
    decide +kernel
  have hdigits : Number.ofBase? 16 ('f' :: List.replicate 255 'f') = some (16 ^ 256 - 1) := by
    decide +kernel
  have hlarge : Number.tooLarge ≤ 16 ^ 256 - 1 := by decide +kernel
  exact ⟨_, _, _, _, _, (congrArg Text.trimChars hlist).trans htrim, rfl, hdigits, hlarge⟩

theorem negation_of_largeText_faults :
    (Machine.start (programProc [.mk 1 (.expr (.unary .neg (.constant (.str largeText))))])
      State.bare).EndsWith (.error (.fault .tooLarge)) State.bare :=
  negation_faults rfl writesTooLarge_largeText

end Hantec
