import Hantec.Proofs.Jobs.Moves

/-!
# What is still to happen in a schedule

Each event that is ready and each alarm stands for one duty: a party goes on, the lead takes note
of an end, or the schedule closes. The order of events does not matter for what a schedule comes
to, so it is described by its duties. What is still to happen has a weight, which becomes less with
each move.
-/

namespace Hantec

/-- What an event or an alarm is for. -/
inductive Duty where
  | turn (p : Party)
  | note
  | close
  deriving DecidableEq

namespace Event

def duty : Event → Duty
  | .go p => .turn p
  | .due p => .turn p
  | .noted _ => .note
  | .close => .close

def weight : Event → Nat
  | .go _ => 1
  | .due _ => 2
  | .noted _ => 1
  | .close => 1

end Event

namespace Schedule

/-- What is to be done when these events and alarms are over. -/
def duties (ready : List Event) (alarms : List (Float × Party)) : List Duty :=
  ready.map Event.duty ++ alarms.map fun a => .turn a.2

def totalWeight : List Event → Nat
  | [] => 0
  | e :: es => e.weight + totalWeight es

@[simp] theorem totalWeight_append (es es' : List Event) :
    totalWeight (es ++ es') = totalWeight es + totalWeight es' := by
  induction es with
  | nil => simp [totalWeight]
  | cons e es ih =>
    rw [List.cons_append, totalWeight, totalWeight, ih]
    omega

theorem totalWeight_noted (es : List (Nat × Job)) :
    totalWeight (es.map fun e => .noted e.1) = es.length := by
  induction es with
  | nil => rfl
  | cons e es ih =>
    rw [List.map_cons, totalWeight, ih, Event.weight, List.length_cons]
    omega

def eventWeight (ready : List Event) (alarms : List (Float × Party)) : Nat :=
  totalWeight ready + 3 * alarms.length

section

variable {ready pre post : List Event} {alarms pre' post' : List (Float × Party)} {e : Event}
  {time : Float} {p : Party}

theorem duties_eq_nil_iff : duties ready alarms = [] ↔ ready = [] ∧ alarms = [] := by
  rw [duties, List.append_eq_nil_iff, List.map_eq_nil_iff, List.map_eq_nil_iff]

theorem duties_append (ready events : List Event) (alarms : List (Float × Party)) :
    (duties (ready ++ events) alarms).Perm (events.map Event.duty ++ duties ready alarms) := by
  unfold duties
  rw [List.map_append, ← List.append_assoc]
  exact List.perm_append_comm.append_right _

theorem duties_push (ready : List Event) (alarms : List (Float × Party)) (e : Event) :
    (duties (ready ++ [e]) alarms).Perm (e.duty :: duties ready alarms) :=
  duties_append ready [e] alarms

theorem eventWeight_append (ready events : List Event) (alarms : List (Float × Party)) :
    eventWeight (ready ++ events) alarms =
      eventWeight ready alarms + totalWeight events := by
  simp only [eventWeight, totalWeight_append]
  omega

theorem eventWeight_push (ready : List Event) (alarms : List (Float × Party)) (e : Event) :
    eventWeight (ready ++ [e]) alarms = eventWeight ready alarms + e.weight := by
  simp [eventWeight_append, totalWeight]

theorem duties_take (alarms : List (Float × Party)) (h : ready = pre ++ e :: post) :
    (duties ready alarms).Perm (e.duty :: duties (pre ++ post) alarms) := by
  unfold duties
  simp only [h, List.map_append, List.map_cons, List.append_assoc]
  exact List.perm_middle

theorem eventWeight_take (alarms : List (Float × Party)) (h : ready = pre ++ e :: post) :
    eventWeight ready alarms = eventWeight (pre ++ post) alarms + e.weight := by
  simp only [eventWeight, h, totalWeight_append, totalWeight]
  omega

theorem duties_ring (ready : List Event) (h : alarms = pre' ++ (time, p) :: post') :
    (duties (ready ++ [.due p]) (pre' ++ post')).Perm (duties ready alarms) := by
  unfold duties
  simp only [h, List.map_append, List.map_cons, List.map_nil, List.append_assoc, List.cons_append,
    List.nil_append]
  exact List.Perm.append_left _ List.perm_middle.symm

theorem eventWeight_ring (ready : List Event) (h : alarms = pre' ++ (time, p) :: post') :
    eventWeight ready alarms = eventWeight (ready ++ [.due p]) (pre' ++ post') + 1 := by
  simp only [eventWeight, h, totalWeight_append, totalWeight, Event.weight, List.length_append,
    List.length_cons]
  omega

end

theorem count_of_perm_cons {xs ys : List Duty} {x : Duty} (h : xs.Perm (x :: ys)) (y : Duty) :
    xs.count y = ys.count y + if x = y then 1 else 0 := by
  rw [h.count_eq, List.count_cons]
  simp only [beq_iff_eq]

theorem insertAlarm_perm (time : Float) (p : Party) (alarms : List (Float × Party)) :
    (insertAlarm time p alarms).Perm ((time, p) :: alarms) := by
  induction alarms with
  | nil => exact .refl _
  | cons a rest ih =>
    rw [insertAlarm]
    split
    · exact .refl _
    · exact (ih.cons a).trans (.swap _ _ _)

/-- A party that waits has one duty more. -/
theorem exists_pause (b : Schedule) (p : Party) {w : World} {d : Delay} (hd : 0 ≤ d.length)
    (hclock : 0 ≤ w.clock) (halarms : ∀ a ∈ b.alarms, 0 ≤ a.1) (resume : World → Machine) :
    ∃ ready alarms, b.pause p w d resume =
        { b with world := w, asleep := (p, resume) :: b.asleep, ready := ready, alarms := alarms } ∧
      (duties ready alarms).Perm (.turn p :: duties b.ready b.alarms) ∧
      eventWeight ready alarms ≤ eventWeight b.ready b.alarms + 3 ∧ ∀ a ∈ alarms, 0 ≤ a.1 := by
  have hperm := insertAlarm_perm (w.clock + d.length) p b.alarms
  have hduties : (duties b.ready (insertAlarm (w.clock + d.length) p b.alarms)).Perm
      (.turn p :: duties b.ready b.alarms) :=
    ((hperm.map _).append_left _).trans List.perm_middle
  have hweight : eventWeight b.ready (insertAlarm (w.clock + d.length) p b.alarms) ≤
      eventWeight b.ready b.alarms + 3 := by
    simp only [eventWeight, hperm.length_eq, List.length_cons]
    omega
  have htimes : ∀ a ∈ insertAlarm (w.clock + d.length) p b.alarms, 0 ≤ a.1 := by
    intro a ha
    obtain rfl | ha := List.mem_cons.mp (hperm.mem_iff.mp ha)
    · exact zero_le_add hclock hd
    · exact halarms a ha
  cases d with
  | turn =>
    refine ⟨b.ready ++ [.go p], b.alarms, rfl, duties_push _ _ _, ?_, halarms⟩
    rw [eventWeight_push, Event.weight]
    omega
  | millis x => exact ⟨b.ready, _, rfl, hduties, hweight, htimes⟩
  | worker => exact ⟨b.ready, _, rfl, hduties, hweight, htimes⟩

/-! ## Those who wait -/

/-- How a party goes on that waits. -/
def sleeper (asleep : List (Party × (World → Machine))) (p : Party) : Option (World → Machine) :=
  (asleep.find? (·.1 == p)).map Prod.snd

theorem wake_eq (b : Schedule) (p : Party) :
    b.wake p = (sleeper b.asleep p, { b with asleep := b.asleep.filter (·.1 != p) }) :=
  rfl

theorem sleeper_cons (asleep : List (Party × (World → Machine))) (p q : Party)
    (resume : World → Machine) :
    sleeper ((p, resume) :: asleep) q = if p = q then some resume else sleeper asleep q := by
  by_cases h : p = q <;> simp [sleeper, h]

theorem sleeper_filter (asleep : List (Party × (World → Machine))) (p q : Party) :
    sleeper (asleep.filter (·.1 != p)) q = if p = q then none else sleeper asleep q := by
  induction asleep with
  | nil => simp [sleeper]
  | cons a rest ih =>
    obtain ⟨r, resume⟩ := a
    rw [List.filter_cons]
    by_cases hr : r = p
    · simp only [hr, bne_self_eq_false, Bool.false_eq_true, if_false, ih, sleeper_cons]
      split <;> rfl
    · simp only [bne_iff_ne, ne_eq, hr, not_false_eq_true, if_true, sleeper_cons, ih]
      split
      · rename_i hq
        subst hq
        rw [if_neg (Ne.symm hr)]
      · rfl

end Schedule

end Hantec
