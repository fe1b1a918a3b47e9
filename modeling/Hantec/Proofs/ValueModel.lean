import Hantec.Proofs.Containment
import Hantec.Proofs.Tidy.Program

/-!
# The values of a run

In a run of a program that was read, all values are of the language: those that scopes, arrays and
objects hold whenever an expression, a statement or a task is begun or has ended, those that are
handed to functions and builtins and come back from them, and those that are raised. No part of the
run comes to the fault of a value from outside, not even inside of a builtin, where it would become
an error that a script can catch.
-/

namespace Hantec

variable {α : Type}

def Outcome.IsNative : Outcome → Prop
  | .returned v => v.IsNative
  | .normal | .broke | .continued => True

/-- The arguments of a call are values of the language. -/
def Task.IsNative : Task → Prop
  | .call _ args => ∀ v ∈ args, v.IsNative
  | .loop _ _ _ _ | .module _ _ => True

/-- A result that satisfies `V`, or a failure without values from outside. -/
def NativeResult (V : α → Prop) : Except Failure α → Prop
  | .ok a => V a
  | .error (.raised v _) => v.IsNative
  | .error (.fault f) => ∀ shape, f ≠ .notAValue shape
  | .error (.exit _) | .error .overflow => True

namespace Policy

variable {c : Config} {s s' : State}

theorem nativeResult {V : α → Prop} {soft : Fault → Prop}
    (hsoft : ∀ f, soft f → ∀ shape, f ≠ .notAValue shape) {r : Except Failure α}
    (hok : ∀ a, r = .ok a → V a)
    (herror : ∀ e, r = .error e → (native c).Tolerates soft e) : NativeResult V r := by
  rcases r with (⟨v, line⟩ | f | code | _) | a
  · exact herror _ rfl
  · rcases herror _ rfl with rfl | hf
    · exact nofun
    · exact hsoft f hf
  · trivial
  · trivial
  · exact hok a rfl

theorem isNative_of_allows {S : Signal → Prop} {o : Outcome} (h : (native c).Allows S o) :
    o.IsNative := by
  cases o with
  | returned v => exact h.2
  | normal | broke | continued => trivial

section Fresh

variable (hthrown : ∀ path w w' d, c.loader.load path w = (w', .error (.thrown d)) →
  d.Fits Value.IsNative)

include hthrown

theorem isNative_of_config (hs : (native c).Admits s) : s.IsNative where
  thrown := hs.config ▸ hthrown
  heap := hs.heap.mono (fun _ hv => hv) fun _ hbody => hbody.2

theorem lenient_native : (native c).Lenient where
  toLawful := lawful_native (s := ⟨c, .initial, State.bare.world, none, false⟩)
    ⟨hthrown, Heap.holds_initial fun _ hv => hv.isNative⟩
  control _ _ := rfl

theorem Finishes.isNative {Q V : α → Prop} {r : Except Failure α}
    (h : (native c).Finishes Q s r s') (hV : ∀ a, Q a → V a) :
    NativeResult V r ∧ s'.IsNative :=
  ⟨nativeResult (fun _ => False.elim) (fun a ha => hV a (h.ok a ha)) h.error,
    isNative_of_config hthrown h.admits⟩

end Fresh

end Policy

open Policy

/-- Whatever a fresh run of a program that was read begins, it begins in a state with values of the
language only, and with such arguments; and whatever ends, ends in such a state and with such a
value, or fails without one from outside. The same holds of what builtins do by themselves, before
their faults become errors. -/
theorem value_model_closed (c : Config)
    (hthrown : ∀ path w w' d, c.loader.load path w = (w', .error (.thrown d)) →
      d.Fits Value.IsNative) {w : World} {s : State} (hs : State.start c w = .ok s)
    {source : String} {p : List Stmt} (hp : parseProgram source = .ok p) :
    (∀ d ls (e : Expr) q s', Enters 0 [] (.script (programScript p) s) d ls
        (.script (e.script q) s') → s'.IsNative ∧
      ∀ r s'', ComesTo d (.script (e.script q) s') r s'' →
        NativeResult Value.IsNative r ∧ s''.IsNative) ∧
    (∀ d ls (x : Stmt) q s', Enters 0 [] (.script (programScript p) s) d ls
        (.script (x.script q) s') → s'.IsNative ∧
      ∀ r s'', ComesTo d (.script (x.script q) s') r s'' →
        NativeResult Outcome.IsNative r ∧ s''.IsNative) ∧
    (∀ d ls t s', Enters 0 [] (.script (programScript p) s) d ls (.task t s') →
      t.IsNative ∧ s'.IsNative ∧
      ∀ r s'', ComesTo d (.task t s') r s'' → NativeResult Outcome.IsNative r ∧ s''.IsNative) ∧
    (∀ d ls b args s', Enters 0 [] (.script (programScript p) s) d ls
        (.task (.call (.builtin b) args) s') →
      ∀ r s'', ComesTo (d + 1) (.script (.run (b.run args)) s') r s'' →
        NativeResult Value.IsNative r ∧ s''.IsNative) ∧
    ∀ r s', (Machine.start (programProc p) s).EndsWith r s' →
      NativeResult Outcome.IsNative r ∧ s'.IsNative := by
  have hlenient := lenient_native hthrown
  obtain ⟨rfl, hheap⟩ := State.of_start hs
  have hwelcomes : (native s.config).Welcomes s := by
    refine ⟨admits_native (isNative_of_start hthrown hs), ?_⟩
    rw [hheap]
    exact Heap.isTidy_initial
  have hobeys : stmtsObey (native s.config).rules p := obey_of_parseProgram (fun _ => trivial) hp
  have htidy := tidy_of_parseProgram hp
  refine ⟨?_, ?_, ?_, ?_, ?_⟩
  · intro d ls e q s' henter
    obtain ⟨hs', hends⟩ := hwelcomes.of_enters_expr hobeys htidy henter
    refine ⟨isNative_of_config hthrown hs'.admits, fun r s'' hr => ?_⟩
    exact (hends r s'' hr).isNative hthrown fun _ hv => hv
  · intro d ls x q s' henter
    obtain ⟨hs', -, hends⟩ := hwelcomes.of_enters_stmt hobeys htidy henter
    refine ⟨isNative_of_config hthrown hs'.admits, fun r s'' hr => ?_⟩
    exact (hends r s'' hr).isNative hthrown fun _ => isNative_of_allows
  · intro d ls t s' henter
    obtain ⟨hs', haccepts, hends⟩ := hwelcomes.of_enters_task hobeys htidy henter
    refine ⟨?_, isNative_of_config hthrown hs'.admits, fun r s'' hr => ?_⟩
    · cases t with
      | call f args => exact haccepts
      | loop | module => trivial
    · obtain ⟨hend, -⟩ := hends r s'' hr
      refine ⟨nativeResult (fun _ => False.elim) (fun o ho => ?_) hend.error, ?_⟩
      · exact isNative_of_allows (hend.ok o ho)
      · exact isNative_of_config hthrown hend.admits
  · intro d ls b args s' henter r s'' hr
    obtain ⟨hs', hargs, -⟩ := hwelcomes.of_enters_task hobeys htidy henter
    have hscopeless : Proc.Scopeless (b.isChancy = true) true (b.run args) := .builtinRun b args
    have hworks : (b.run args).Works (native s.config) (b.isChancy = true) true :=
      .builtinRun b hargs
    have hends := (hworks.runs (A := Heap.noNames)).ends_of_comesTo hscopeless.isCalm hs' hr
    exact ⟨nativeResult (fun _ hf => hf.ne_notAValue) hends.ok hends.error,
      isNative_of_config hthrown hends.admits⟩
  · intro r s' hend
    have hends := lawful_contract.of_comesTo (endsWith_program_iff.1 hend)
      (hwelcomes.meets hobeys htidy)
    exact hends.isNative hthrown fun _ => isNative_of_allows

/-- A run that makes an array holds values of the language only. -/
theorem value_model_closed_array :
    ∃ p s', parseProgram "[null] piča" = .ok p ∧
      (Machine.start (programProc p) State.bare).EndsWith (.ok .normal) s' ∧
      s'.heap.arrays.size = 1 ∧ s'.IsNative := by
  have hparse : parseProgram "[null] piča" =
      .ok [.mk 1 (.expr (.call (.variable arrayMaker) [.constant .null]))] := by
    cbv
  have hend : ∃ s', (Machine.start (programProc
      [.mk 1 (.expr (.call (.variable arrayMaker) [.constant .null]))]) State.bare).EndsWith
      (.ok .normal) s' ∧ s'.heap.arrays.size = 1 :=
    ⟨_, ⟨_, .move rfl (.move rfl (.refl _)), rfl⟩, rfl⟩
  obtain ⟨s', hend, hsize⟩ := hend
  have hclosed := value_model_closed State.bare.config (fun _ _ _ _ h => by cases h)
    (w := State.bare.world) rfl hparse
  exact ⟨_, s', hparse, hend, hsize, (hclosed.2.2.2.2 _ _ hend).2⟩

end Hantec
