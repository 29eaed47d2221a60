import Staging.Proofs.PathSet.Spellings

/-!
Equality of path sets. Only the sizes and one inclusion of the keys are looked at. No key stands twice
in a set, so the other inclusion follows, and equal sets are those that lack nothing of one another.
-/
namespace Staging.PathSet

variable {s t : PathSet}

/-- Equal sets have the same keys, and these in the same order. -/
theorem same_iff_keys :
    s.same t = true ↔ s.casing = t.casing ∧ s.entries.keys = t.entries.keys := by
  simp only [same, Bool.and_eq_true, beq_iff_eq, List.all_eq_true]
  constructor
  · rintro ⟨⟨casing, size⟩, known⟩
    have within : s.entries.keys ⊆ t.entries.keys := by
      intro key mem
      exact (SortedMap.mem_keys_iff _ key).mpr (known key mem)
    exact ⟨casing, SortedMap.keys_eq_of_subset within (Nat.le_of_eq size.symm)⟩
  · rintro ⟨casing, keys⟩
    refine ⟨⟨casing, ?_⟩, ?_⟩
    · have length := congrArg List.length keys
      rwa [SortedMap.keys, SortedMap.keys, List.length_map, List.length_map] at length
    · intro key mem
      rw [keys] at mem
      exact (SortedMap.mem_keys_iff _ key).mp mem

/-- Of two sets with one casing the first has nothing that the second lacks if its keys are among
those of the second. -/
theorem difference_eq_nil_iff (casing : s.casing = t.casing) :
    s.difference t = [] ↔ s.entries.keys ⊆ t.entries.keys := by
  simp only [difference, casing, if_true, List.map_eq_nil_iff, List.filter_eq_nil_iff,
    Bool.not_eq_true, Bool.not_eq_false']
  constructor
  · intro known key mem
    obtain ⟨entry, listed, rfl⟩ := List.mem_map.mp mem
    exact (SortedMap.mem_keys_iff _ _).mpr (known entry listed)
  · intro within entry listed
    exact (SortedMap.mem_keys_iff _ _).mp (within (List.mem_map_of_mem listed))

/-- Two sets, however they were made, are equal if and only if they have one casing and neither has a
path that the other lacks. This is an equivalence, although one inclusion only is looked at. -/
theorem same_iff_no_difference :
    (∀ s t : PathSet, s.same t = true ↔
      s.casing = t.casing ∧ s.difference t = [] ∧ t.difference s = []) ∧
    Equivalence fun s t : PathSet => s.same t = true := by
  constructor
  · intro s t
    rw [same_iff_keys]
    apply and_congr_right
    intro casing
    rw [difference_eq_nil_iff casing, difference_eq_nil_iff casing.symm]
    constructor
    · intro keys
      rw [keys]
      exact ⟨List.Subset.refl _, List.Subset.refl _⟩
    · rintro ⟨within, within'⟩
      exact SortedMap.keys_eq_of_subset within (SortedMap.size_le_of_subset within')
  · simp only [same_iff_keys]
    constructor
    · intro s
      exact ⟨rfl, rfl⟩
    · rintro s t ⟨casing, keys⟩
      exact ⟨casing.symm, keys.symm⟩
    · rintro s t u ⟨casing, keys⟩ ⟨casing', keys'⟩
      exact ⟨casing.trans casing', keys.trans keys'⟩

/-- Sets of two casings can lack nothing of one another and are not equal. -/
example :
    let s := ofList .sensitive ["out/a.txt"]
    let t := ofList .insensitive ["out/a.txt"]
    s.difference t = [] ∧ t.difference s = [] ∧ s.same t = false := by
  decide +kernel

end Staging.PathSet
