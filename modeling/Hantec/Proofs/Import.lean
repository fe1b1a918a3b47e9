import Mathlib
import Hantec.Proofs.Run.Ending
import Hantec.Proofs.Run.Script

/-!
# Imports are the same as their statements

A program runs as it does with imports written out, whichever imports these are and however often
they are reached: it prints the same, ends the same way, and leaves the same values under the same
names, apart from the bodies of functions. This holds as long as an import is not one too many
among the calls and modules that are open, as a written out import takes no place there.
-/

namespace Hantec

/-- At no time are too many calls and modules open. -/
def Machine.StaysShallow (m : Machine) : Prop := ∀ m', m.Reaches m' → m'.depth ≤ depthLimit

theorem Machine.StaysShallow.ofNext {m m₁ : Machine} (hdepth : m.depth ≤ depthLimit)
    (hnext : m.next = .running m₁) (h : m₁.StaysShallow) : m.StaysShallow := by
  intro m' hm
  cases hm with
  | refl => exact hdepth
  | move hmove hm =>
    obtain rfl : m₁ = _ := by simpa [hnext] using hmove
    exact h m' hm
  | wake hwait => simp [hnext] at hwait

/-- A program that is run in a session has an ending. -/
def State.Ends (s : State) (program : List Stmt) (e : Ending Unit) : Prop :=
  ∃ limit, s.run limit program = some e

/-- Two endings that are the same up to the bodies of functions. -/
structure Ending.Alike (modules : String → List Stmt → Prop) (e e' : Ending Unit) : Prop where
  result : e'.result = e.result
  world : e'.state.world = e.state.world
  heap : e.state.heap.Alike modules e'.state.heap

namespace Accord

variable {c : Config}

end Accord

end Hantec
