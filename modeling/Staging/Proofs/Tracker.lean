import Staging.Proofs.SortedMap
import Staging.Tracker

/-!
What a tracker of stamps knows. It is told of items that have been staged and of outputs that are
cleared, and the last that it was told of an output decides whether the output is current.
-/
namespace Staging

/-- What a tracker is told of. -/
inductive Event where
  | staged (item : Candidate)
  | cleared (output : String)

namespace Event

def output : Event → String
  | staged item => item.output
  | cleared output => output

/-- The stamp that is known of an output after the event. -/
def stamp? : Event → Option Stamp
  | staged item => some item.stamp
  | cleared _ => none

/-- The last event at exactly this output. -/
def last? (output : String) (history : List Event) : Option Event :=
  (history.filter (·.output == output)).getLast?

theorem last?_concat (output : String) (history : List Event) (e : Event) :
    last? output (history ++ [e]) = if output = e.output then some e else last? output history := by
  rw [last?, List.filter_append]
  by_cases same : output = e.output
  · simp [same]
  · have other : (e.output == output) = false := beq_eq_false_iff_ne.mpr (Ne.symm same)
    rw [List.filter_cons_of_neg (by simp [other]), List.filter_nil, List.append_nil, if_neg same]
    rfl

end Event

namespace Stamps

theorem isCurrent_eq (t : Stamps) (c : Candidate) : Tracker.isCurrent t c =
    (c.stamp.isKnown && t.byOutput.get? c.output == some c.stamp) := rfl

theorem get?_record (t : Stamps) (c : Candidate) (output : String) :
    (Tracker.record t c : Stamps).byOutput.get? output =
      if output = c.output then some c.stamp else t.byOutput.get? output := by
  change (t.byOutput.insert c.output c.stamp).get? output = _
  simp only [SortedMap.get?_insert, SortedMap.compare_eq_iff]

theorem get?_forget (t : Stamps) (cleared output : String) :
    (Tracker.forget t cleared : Stamps).byOutput.get? output =
      if output = cleared then none else t.byOutput.get? output :=
  SortedMap.get?_erase _ _ _

/-- The tracker knows the stamps that the last events have left. -/
def Follows (t : Stamps) (history : List Event) : Prop :=
  ∀ output, t.byOutput.get? output = (Event.last? output history).bind Event.stamp?

theorem follows_empty : Follows .empty [] := fun _ => rfl

namespace Follows

variable {t : Stamps} {history : List Event}

theorem told {t' : Stamps} (h : t.Follows history) (e : Event)
    (known : ∀ output, t'.byOutput.get? output =
      if output = e.output then e.stamp? else t.byOutput.get? output) :
    t'.Follows (history ++ [e]) := by
  intro output
  rw [known, Event.last?_concat]
  split
  · rfl
  · exact h output

theorem staged (h : t.Follows history) (item : Candidate) :
    Follows (Tracker.record t item) (history ++ [.staged item]) :=
  h.told (.staged item) (get?_record t item)

theorem cleared (h : t.Follows history) (path : String) :
    Follows (Tracker.forget t path) (history ++ [.cleared path]) :=
  h.told (.cleared path) (get?_forget t path)

/-- Current is what has a known stamp and was last staged with the same one. -/
theorem isCurrent_iff (h : t.Follows history) (c : Candidate) :
    Tracker.isCurrent t c = true ↔ c.stamp.isKnown = true ∧
      ∃ staged, Event.last? c.output history = some (.staged staged) ∧ staged.stamp = c.stamp := by
  rw [isCurrent_eq, Bool.and_eq_true, beq_iff_eq, h, Option.bind_eq_some_iff]
  refine and_congr_right fun _ => ⟨?_, ?_⟩
  · rintro ⟨e, last, left⟩
    cases e with
    | staged item => exact ⟨item, last, Option.some.inj left⟩
    | cleared _ => cases left
  · rintro ⟨staged, last, same⟩
    exact ⟨_, last, congrArg some same⟩

end Follows
end Stamps
end Staging
