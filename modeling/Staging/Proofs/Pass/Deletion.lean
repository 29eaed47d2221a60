import Staging.Proofs.Memory.Sweep
import Staging.Proofs.Pass.Record

/-!
What a pass deletes. The plan deletes the recorded outputs of a unit that no candidate of the unit
has any more, up to case; after a pass over a tree in memory such a path is gone, unless the same
pass put something there or could not remove what was there.
-/
namespace Staging

namespace Memory
open Pass

variable {τ : Type} [Tracker τ] {s : Stager τ} {w : Applied τ} {item : Candidate} {st : Memory}
variable {key : List Part}

theorem Stepped.free {r : Applied τ × Memory} (h : Stepped s w item st r)
    (free : st.kindAt key = none) :
    r.2.kindAt key = none ∨ (key = place item.output ∧ item ∈ r.1.processed) ∨
      (Above key (place item.output) ∧ r.2.kindAt key = some .dir) := by
  cases h with
  | kept => exact .inl free
  | opened =>
    simp only
    rw [kindAt_openedFor]
    rcases Kinds.openedFor_cases (k := st.kindAt) ⟨item.output⟩ key with same | made
    · exact .inl (same.trans free)
    · exact .inr (.inr made)
  | written w' content processed =>
    simp only
    rw [kindAt_addFile, kindAt_openedFor]
    rcases Kinds.withFile_cases (k := Kinds.openedFor st.kindAt ⟨item.output⟩)
      (place item.output) key with same | same | made
    · rcases Kinds.openedFor_cases (k := st.kindAt) ⟨item.output⟩ key with same' | made
      · exact .inl (same.trans (same'.trans free))
      · exact .inr (.inr ⟨made.1, same.trans made.2⟩)
    · exact .inr (.inl ⟨same, by simp [processed]⟩)
    · exact .inr (.inr made)

end Memory

namespace Pass
open Memory

variable {τ : Type} [Tracker τ]

/-- The tree and the record of the pass when its deletions and so many candidates are done. -/
def stagedUpTo (s : Stager τ) (plan : Plan) (st : Memory) (done : List Candidate) :
    Applied τ × Memory :=
  let swept := sweepFrom (deleteStep : Applied τ → String → StateM Memory _) plan.deletions
    { tracker := s.tracker } st
  sweepFrom (stageStep s : Applied τ → Candidate → StateM Memory _) done swept.1 swept.2

theorem applied_eq (s : Stager τ) (plan : Plan) (st : Memory) :
    applied (m := StateM Memory) s plan st = stagedUpTo s plan st plan.candidates := rfl

theorem stagedUpTo_eq (s : Stager τ) (plan : Plan) (st : Memory) (done : List Candidate) :
    stagedUpTo s plan st done =
      sweepFrom (stageStep s : Applied τ → Candidate → StateM Memory _) done
        (stagedUpTo s plan st []).1 (stagedUpTo s plan st []).2 := rfl

theorem stagedUpTo_concat (s : Stager τ) (plan : Plan) (st : Memory) (done : List Candidate)
    (item : Candidate) : stagedUpTo s plan st (done ++ [item]) =
      exec (stageStep s (stagedUpTo s plan st done).1 item : StateM Memory _)
        (stagedUpTo s plan st done).2 :=
  sweepFrom_append _ done [item] _ _

theorem Stepped.processed_subset {s : Stager τ} {w : Applied τ} {item : Candidate} {st : Memory}
    {r : Applied τ × Memory} (h : Stepped s w item st r) :
    ∀ c ∈ w.processed, c ∈ r.1.processed := by
  intro c mem
  cases h with
  | kept _ same => exact same ▸ mem
  | opened _ same => exact same ▸ mem
  | written _ _ more => exact more ▸ List.mem_append_left _ mem

theorem Stepped.told {s : Stager τ} {w : Applied τ} {item : Candidate} {st : Memory}
    {r : Applied τ × Memory} (h : Stepped s w item st r) :
    ∀ message ∈ w.messages, message ∈ r.1.messages := by
  cases h with
  | kept _ _ told => exact told
  | opened _ _ told => exact told
  | written _ _ _ told => exact told

end Pass
end Staging
