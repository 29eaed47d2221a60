import Staging.Proofs.PropertySet.Fingerprint

/-!
Sets that are built step by step. A step puts in one pair or lays a whole set over what is there; of
all steps only the value last written for each key is left, and it settles the set and its
fingerprint.
-/
namespace Staging.PropertySet

/-- One step of building a set. -/
inductive Step where
  | insert (key value : String)
  | overlay (other : PropertySet)

namespace Step

def apply (p : PropertySet) : Step → PropertySet
  | insert key value => SortedMap.insert p key value
  | overlay other => SortedMap.overlay p other

/-- The value that the step writes for the key, if it writes one. -/
def written (key : String) : Step → Option String
  | insert k value => if k = key then some value else none
  | overlay other => other.get? key

end Step

/-- The set that the steps build from nothing. -/
def build (steps : List Step) : PropertySet := steps.foldl Step.apply .empty

/-- What the last step that writes the key writes for it. -/
def lastWritten (key : String) (steps : List Step) : Option String :=
  steps.reverse.findSome? (Step.written key)

theorem build_concat (steps : List Step) (step : Step) :
    build (steps ++ [step]) = step.apply (build steps) := by
  simp [build, List.foldl_append]

theorem lastWritten_concat (key : String) (steps : List Step) (step : Step) :
    lastWritten key (steps ++ [step]) = (step.written key).or (lastWritten key steps) := by
  simp only [lastWritten, List.reverse_append, List.reverse_singleton, List.singleton_append,
    List.findSome?_cons]
  cases step.written key <;> rfl

theorem get?_apply (p : PropertySet) (step : Step) (key : String) :
    (step.apply p).get? key = (step.written key).or (p.get? key) := by
  cases step with
  | insert k value =>
    simp only [Step.apply, Step.written]
    by_cases same : k = key
    · subst same
      simp [SortedMap.get?_insert_self]
    · simp [same, SortedMap.get?_insert_of_ne _ _ (Ne.symm same)]
  | overlay other => exact SortedMap.get?_overlay p other key

theorem get?_build (steps : List Step) (key : String) :
    (build steps).get? key = lastWritten key steps := by
  induction steps using List.reverseRecOn with
  | nil => rfl
  | append_singleton steps step ih => rw [build_concat, lastWritten_concat, get?_apply, ih]

/-- Putting in pairs one by one builds the set that is made of them. -/
theorem build_inserts (pairs : List (String × String)) :
    build (pairs.map fun pair => .insert pair.1 pair.2) = SortedMap.ofList pairs := by
  rw [build, List.foldl_map]
  rfl

theorem build_eq_iff (steps steps' : List Step) :
    build steps = build steps' ↔ ∀ key, lastWritten key steps = lastWritten key steps' := by
  constructor
  · intro same key
    rw [← get?_build, ← get?_build, same]
  · intro same
    refine SortedMap.ext_get? fun key => ?_
    rw [get?_build, get?_build, same]

/-- However the pairs of a set are listed, they are hashed as the same lines. -/
theorem sortedLines_of_listing {p : PropertySet} {pairs : List (String × String)}
    (distinct : pairs.Nodup) (lists : ∀ k v, (k, v) ∈ pairs ↔ p.get? k = some v) :
    p.sortedLines = (pairs.map line).mergeSort fun a b => decide (a ≤ b) := by
  rw [sortedLines, mergeSort_eq_iff]
  refine ((List.perm_ext_iff_of_nodup p.nodup_toList distinct).mpr ?_).map line
  rintro ⟨k, v⟩
  rw [lists, p.get?_eq_some_iff]

/-- Two sequences of steps build one set exactly if they leave the same value for every key, and
then the fingerprints are equal. What is hashed are the lines of the values left, in an order that
does not depend on how they are listed. -/
theorem fingerprint_of_written (steps steps' : List Step) :
    (build steps = build steps' ↔ ∀ key, lastWritten key steps = lastWritten key steps') ∧
    ((∀ key, lastWritten key steps = lastWritten key steps') →
      (build steps).fingerprint = (build steps').fingerprint) ∧
    ∀ pairs : List (String × String), pairs.Nodup →
      (∀ key value, (key, value) ∈ pairs ↔ lastWritten key steps = some value) →
      (build steps).sortedLines = (pairs.map line).mergeSort fun a b => decide (a ≤ b) := by
  refine ⟨build_eq_iff steps steps', fun same => ?_, fun pairs distinct lists => ?_⟩
  · rw [(build_eq_iff steps steps').mpr same]
  · refine sortedLines_of_listing distinct fun key value => ?_
    rw [lists, get?_build]

/-- Keys in one order and lines in the other, with a value that is written over. -/
theorem fingerprint_of_written_sample :
    let steps : List Step := [.insert "a" "1", .insert "a!" "2", .overlay (.ofList [("a", "3")])]
    let pairs := [("a!", "2"), ("a", "3")]
    (∀ key, lastWritten key steps =
      lastWritten key (pairs.map fun pair => .insert pair.1 pair.2)) ∧
    (build steps).fingerprint = fingerprint (.ofList pairs) ∧
    (build steps).keys = ["a", "a!"] ∧ (build steps).sortedLines = ["a!->2", "a->3"] := by
  intro steps pairs
  obtain ⟨equal, stable, hashed⟩ :=
    fingerprint_of_written steps (pairs.map fun pair => .insert pair.1 pair.2)
  have same := equal.mp (by decide +kernel)
  have listed : (build steps).toList = [("a", "3"), ("a!", "2")] := by decide +kernel
  have lists : ∀ key value, (key, value) ∈ pairs ↔ lastWritten key steps = some value := by
    intro key value
    rw [← get?_build, SortedMap.get?_eq_some_iff, listed]
    simp [pairs, or_comm]
  refine ⟨same, ?_, by decide +kernel, ?_⟩
  · rw [stable same, build_inserts]
  · rw [hashed pairs (by decide) lists]
    exact List.mergeSort_of_pairwise (by decide +kernel)

end Staging.PropertySet
