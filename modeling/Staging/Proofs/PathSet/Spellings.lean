import Mathlib.Data.List.Dedup
import Staging.Proofs.PathSet

/-!
Path sets up to case. Of the paths that are put in a set has one spelling for each comparison key,
the last one, and lists them by key. What a set has and another lacks is decided by the casing of
the other one.
-/
namespace Staging.PathSet

variable {s t : PathSet} {casing : Casing} {paths : List String}

/-- The path stands in the list at a place after which nothing has its key. -/
def IsLast (casing : Casing) (paths : List String) (path : String) : Prop :=
  ∃ front back, paths = front ++ path :: back ∧ ∀ q ∈ back, casing.key q ≠ casing.key path

theorem isLast_iff (path : String) :
    IsLast casing paths path ↔
      (paths.filter (casing.key · == casing.key path)).getLast? = some path := by
  rw [List.getLast?_filter, List.find?_eq_some_iff_append, beq_self_eq_true, eq_self_iff_true,
    true_and]
  constructor
  · rintro ⟨front, back, rfl, others⟩
    exact ⟨back.reverse, front.reverse, by simp, by simpa using others⟩
  · rintro ⟨back, front, whole, others⟩
    refine ⟨front.reverse, back.reverse, ?_, by simpa using others⟩
    rw [← List.reverse_reverse paths, whole]
    simp

theorem Keyed.map_key_toList (h : s.Keyed) : s.toList.map s.casing.key = s.entries.keys := by
  rw [toList, SortedMap.values, SortedMap.keys, List.map_map]
  refine List.map_congr_left fun entry mem => ?_
  exact (h entry.1 entry.2 ((SortedMap.get?_eq_some_iff _ _ _).mpr mem)).symm

/-- No two listed spellings have one key. -/
theorem Keyed.eq_of_key_eq (h : s.Keyed) {p q : String} (memp : p ∈ s.toList) (memq : q ∈ s.toList)
    (same : s.casing.key p = s.casing.key q) : p = q := by
  obtain ⟨k, foundp⟩ := (SortedMap.mem_values_iff s.entries p).mp memp
  obtain ⟨k', foundq⟩ := (SortedMap.mem_values_iff s.entries q).mp memq
  rw [h k p foundp] at foundp
  rw [h k' q foundq, ← same, foundp] at foundq
  exact Option.some.inj foundq

/-- By its own listing a set tells what it has. -/
theorem Keyed.contains_iff (h : s.Keyed) (path : String) :
    s.contains path = true ↔ ∃ q ∈ s.toList, s.casing.key q = s.casing.key path :=
  h.collects_toList.contains_iff path

namespace Collects

theorem mem_toList_iff (h : s.Collects casing paths) (path : String) :
    path ∈ s.toList ↔ IsLast casing paths path := by
  rw [isLast_iff, ← h.get?_eq, toList, SortedMap.mem_values_iff]
  constructor
  · rintro ⟨key, found⟩
    have own := h.keyed key path found
    rw [h.casing_eq] at own
    rwa [← own]
  · exact fun found => ⟨_, found⟩

/-- Every spelling that a set lists is one of those that it was made of. -/
theorem mem_of_mem_toList (h : s.Collects casing paths) {path : String} (mem : path ∈ s.toList) :
    path ∈ paths := by
  obtain ⟨front, back, rfl, -⟩ := (h.mem_toList_iff path).mp mem
  simp

theorem has_key_iff (h : s.Collects casing paths) (key : String) :
    s.entries.contains key = true ↔ ∃ p ∈ paths, casing.key p = key := by
  rw [SortedMap.contains, h.get?_eq, Option.isSome_iff_ne_none, ne_eq, List.getLast?_eq_none_iff,
    List.filter_eq_nil_iff]
  simp

/-- Each key has one spelling. -/
theorem existsUnique_iff (h : s.Collects casing paths) (key : String) :
    (∃! p, p ∈ s.toList ∧ casing.key p = key) ↔ ∃ p ∈ paths, casing.key p = key := by
  rw [← h.has_key_iff, SortedMap.contains, ← SortedMap.mem_keys_iff, ← h.keyed.map_key_toList,
    List.mem_map, h.casing_eq]
  constructor
  · rintro ⟨p, found, -⟩
    exact ⟨p, found⟩
  · rintro ⟨p, mem, rfl⟩
    refine ⟨p, ⟨mem, rfl⟩, fun q other => ?_⟩
    have same := other.2
    rw [← h.casing_eq] at same
    exact h.keyed.eq_of_key_eq other.1 mem same

theorem size_eq (h : s.Collects casing paths) : s.size = (paths.map casing.key).dedup.length := by
  have distinct : s.entries.keys.Perm (paths.map casing.key).dedup := by
    rw [List.perm_ext_iff_of_nodup s.entries.nodup_keys (List.nodup_dedup _)]
    intro key
    rw [List.mem_dedup, List.mem_map, SortedMap.mem_keys_iff]
    exact h.has_key_iff key
  rw [← distinct.length_eq, SortedMap.keys, List.length_map]
  rfl

theorem add_eq (h : s.Collects casing paths) (path : String) :
    s.add path = (s.insert path, decide (∀ p ∈ paths, casing.key p ≠ casing.key path)) := by
  have known := h.contains_iff path
  rw [contains, SortedMap.contains] at known
  rw [add, Prod.mk.injEq]
  refine ⟨rfl, ?_⟩
  rw [Bool.eq_iff_iff, decide_eq_true_iff, ← Option.not_isSome, Bool.not_eq_true', ← Bool.not_eq_true,
    known]
  simp

end Collects

/-- A set is what was put in, up to case. It has the paths that share a key with one that was put in;
it lists one spelling for each key, the one that was put in last, by increasing keys; putting a path
in adds an element if no earlier one has its key; and under another casing it is the set of the
spellings that it lists. -/
theorem one_spelling_per_key (policy : CasePolicy) (paths : List String) :
    let casing := policy.resolve
    let s := ofList casing paths
    (∀ q, s.contains q = true ↔ ∃ p ∈ paths, casing.key p = casing.key q) ∧
    (∀ key, (∃! p, p ∈ s.toList ∧ casing.key p = key) ↔ ∃ p ∈ paths, casing.key p = key) ∧
    (∀ p, p ∈ s.toList ↔ IsLast casing paths p) ∧
    s.toList.Pairwise (fun p q => casing.key p < casing.key q) ∧
    (∀ q, s.add q = (ofList casing (paths ++ [q]),
      decide (∀ p ∈ paths, casing.key p ≠ casing.key q))) ∧
    s.size = (paths.map casing.key).dedup.length ∧
    ∀ policy' : CasePolicy,
      let t := s.withCasing policy'.resolve
      t.casing = policy'.resolve ∧
        ∀ key, t.entries.contains key = true ↔ ∃ p ∈ s.toList, policy'.resolve.key p = key := by
  intro casing s
  have h : s.Collects casing paths := collects_ofList casing paths
  refine ⟨h.contains_iff, h.existsUnique_iff, h.mem_toList_iff, ?_, fun q => ?_, h.size_eq,
    fun policy' => ?_⟩
  · refine h.keyed.toList_increasing.imp fun {p q} less => ?_
    rw [h.casing_eq] at less
    exact compareOfLessAndEq_eq_lt.mp less
  · have more : ofList casing (paths ++ [q]) = s.insert q := List.foldl_append
    rw [h.add_eq, more]
  · have rekeyed := collects_ofList policy'.resolve s.toList
    exact ⟨rekeyed.casing_eq, rekeyed.has_key_iff⟩

/-- The paths of a set that no path of another is equal to as the casing compares, in the order of
the set. -/
def lacking (casing : Casing) (s t : PathSet) : List String :=
  s.toList.filter fun p => decide (∀ q ∈ t.toList, casing.key q ≠ casing.key p)

theorem mem_lacking_iff (casing : Casing) (s t : PathSet) (p : String) :
    p ∈ lacking casing s t ↔ p ∈ s.toList ∧ ∀ q ∈ t.toList, casing.key q ≠ casing.key p := by
  rw [lacking, List.mem_filter, decide_eq_true_iff]

theorem lacking_eq_iff (casing casing' : Casing) (s t : PathSet) :
    lacking casing s t = lacking casing' s t ↔
      ∀ p ∈ s.toList, (∃ q ∈ t.toList, casing.key q = casing.key p) ↔
        ∃ q ∈ t.toList, casing'.key q = casing'.key p := by
  constructor
  · intro same p mem
    have alike := mem_lacking_iff casing' s t p
    rw [← same, mem_lacking_iff] at alike
    have alike := and_congr_right_iff.mp alike mem
    rw [← not_iff_not]
    simpa using alike
  · intro alike
    refine List.filter_congr fun p mem => ?_
    rw [decide_eq_decide, ← not_iff_not]
    simpa using alike p mem

theorem Keyed.difference_eq_lacking (hs : s.Keyed) (ht : t.Keyed) :
    s.difference t = lacking t.casing s t := by
  rw [hs.difference_eq, lacking]
  refine List.filter_congr fun p _ => ?_
  rw [Bool.eq_iff_iff, Bool.not_eq_true', ← Bool.not_eq_true, ht.contains_iff, decide_eq_true_iff]
  simp

/-- The difference of two sets lists what the first has and the second lacks as the second compares.
That is what it lacks as the first compares if and only if both casings find the same paths of the
first in the second, so always between sets of one casing. -/
theorem difference_as_right_compares (hs : s.Built) (ht : t.Built) :
    s.difference t = lacking t.casing s t ∧
    (s.difference t = lacking s.casing s t ↔
      ∀ p ∈ s.toList, (∃ q ∈ t.toList, t.casing.key q = t.casing.key p) ↔
        ∃ q ∈ t.toList, s.casing.key q = s.casing.key p) ∧
    (s.casing = t.casing → s.difference t = lacking s.casing s t) := by
  have same := hs.keyed.difference_eq_lacking ht.keyed
  rw [same]
  exact ⟨rfl, lacking_eq_iff _ _ s t, fun casing => by rw [casing]⟩

/-- A set that folds case still lists a path that the other set has in another spelling. -/
theorem difference_as_right_compares_sample :
    let s := ofList .insensitive ["out/Foo.txt", "out/gone.txt"]
    let t := ofList .sensitive ["out/foo.txt"]
    s.Built ∧ t.Built ∧ s.difference t = ["out/Foo.txt", "out/gone.txt"] ∧
      lacking s.casing s t = ["out/gone.txt"] := by
  intro s t
  have hs : s.Built := built_ofList _ _
  have ht : t.Built := built_ofList _ _
  refine ⟨hs, ht, ?_, by decide +kernel⟩
  rw [(difference_as_right_compares hs ht).1]
  decide +kernel

/-- The casing of the first set does not decide. A set that tells case apart does not list a path that
the other set has only up to case. -/
theorem difference_of_mixed_casing :
    ¬∀ s t : PathSet, s.Built → t.Built → s.difference t = lacking s.casing s t := by
  intro all
  have same := all (ofList .sensitive ["out/Foo.txt"]) (ofList .insensitive ["out/foo.txt"])
    (built_ofList _ _) (built_ofList _ _)
  revert same
  decide +kernel

end Staging.PathSet
