import Staging.PathSet
import Staging.Proofs.SortedMap

/-!
Path sets as sets of comparison keys. `Collects` says which set a list of paths amounts to, and
`difference` is then a filter on the spellings, in key order.
-/
namespace Staging.PathSet

/-- Every spelling stands under its own comparison key. -/
def Keyed (s : PathSet) : Prop :=
  ∀ key path, s.entries.get? key = some path → key = s.casing.key path

/-- The paths up to case: under each key the one with that key that comes last. -/
structure Collects (s : PathSet) (casing : Casing) (paths : List String) : Prop where
  casing_eq : s.casing = casing
  get?_eq : ∀ key, s.entries.get? key = (paths.filter (casing.key · == key)).getLast?

theorem casing_foldl_insert (s : PathSet) (paths : List String) :
    (paths.foldl insert s).casing = s.casing := by
  induction paths generalizing s with
  | nil => rfl
  | cons path rest ih => exact ih (s.insert path)

theorem get?_foldl_insert (s : PathSet) (paths : List String) (key : String) :
    (paths.foldl insert s).entries.get? key =
      (paths.filter (s.casing.key · == key)).getLast?.or (s.entries.get? key) := by
  induction paths generalizing s with
  | nil => rfl
  | cons path rest ih =>
    rw [List.foldl_cons, ih, List.filter_cons]
    change ((rest.filter (s.casing.key · == key)).getLast?).or
      ((s.entries.insert (s.casing.key path) path).get? key) = _
    by_cases h : s.casing.key path = key
    · subst h
      rw [SortedMap.get?_insert_self, if_pos (beq_self_eq_true _), List.getLast?_cons]
      cases (rest.filter (s.casing.key · == s.casing.key path)).getLast? <;> rfl
    · rw [SortedMap.get?_insert_of_ne _ _ (Ne.symm h), if_neg (by simpa using h)]

theorem collects_ofList (casing : Casing) (paths : List String) :
    (ofList casing paths).Collects casing paths := by
  refine ⟨casing_foldl_insert (empty casing) paths, fun key => ?_⟩
  rw [ofList, get?_foldl_insert]
  simp [empty]

/-- The list decides the set, spellings included. -/
theorem Collects.eq_ofList {s : PathSet} {casing : Casing} {paths : List String}
    (h : s.Collects casing paths) : s = ofList casing paths := by
  have other := collects_ofList casing paths
  have entries : s.entries = (ofList casing paths).entries :=
    SortedMap.ext_get? fun key => (h.get?_eq key).trans (other.get?_eq key).symm
  have casing : s.casing = (ofList casing paths).casing := h.casing_eq.trans other.casing_eq.symm
  cases s
  simp_all

namespace Collects

variable {s : PathSet} {casing : Casing} {paths : List String}

theorem keyed (h : s.Collects casing paths) : s.Keyed := by
  intro key path found
  rw [h.get?_eq] at found
  have mem := List.of_mem_filter (List.mem_of_getLast? found)
  rw [h.casing_eq]
  exact (eq_of_beq mem).symm

theorem contains_iff (h : s.Collects casing paths) (path : String) :
    s.contains path = true ↔ ∃ q ∈ paths, casing.key q = casing.key path := by
  rw [contains, SortedMap.contains, h.get?_eq, h.casing_eq, Option.isSome_iff_ne_none, ne_eq,
    List.getLast?_eq_none_iff, List.filter_eq_nil_iff]
  simp

end Collects

theorem keyed_empty (casing : Casing) : (empty casing).Keyed := by
  intro key path found
  simp [empty] at found

theorem Keyed.insert {s : PathSet} (h : s.Keyed) (path : String) : (s.insert path).Keyed := by
  intro key other found
  by_cases same : key = s.casing.key path
  · subst same
    have : some path = some other := (SortedMap.get?_insert_self _ _ _).symm.trans found
    cases this
    rfl
  · exact h key other ((SortedMap.get?_insert_of_ne _ _ same).symm.trans found)

theorem keyed_withCasing (s : PathSet) (casing : Casing) : (s.withCasing casing).Keyed :=
  (collects_ofList casing s.toList).keyed

/-- A set that comes from the operations on sets. -/
inductive Built : PathSet → Prop
  | empty (casing : Casing) : Built (empty casing)
  | insert {s : PathSet} (path : String) : Built s → Built (s.insert path)
  | withCasing {s : PathSet} (casing : Casing) : Built s → Built (s.withCasing casing)

theorem built_ofList (casing : Casing) (paths : List String) : (ofList casing paths).Built := by
  suffices all : ∀ s : PathSet, s.Built → (paths.foldl PathSet.insert s).Built from
    all _ (.empty casing)
  induction paths with
  | nil => exact fun _ built => built
  | cons path rest ih => exact fun s built => ih (s.insert path) (.insert path built)

theorem Built.keyed {s : PathSet} (h : s.Built) : s.Keyed := by
  induction h with
  | empty casing => exact keyed_empty casing
  | insert path _ ih => exact ih.insert path
  | withCasing casing _ _ => exact keyed_withCasing _ casing

/-- Listing goes by strictly increasing comparison keys, so no two listed paths are the same up to
case. -/
theorem Keyed.toList_increasing {s : PathSet} (h : s.Keyed) :
    s.toList.Pairwise fun a b => compare (s.casing.key a) (s.casing.key b) = .lt := by
  refine List.pairwise_map.mpr (s.entries.increasing.imp_of_mem ?_)
  intro a b ha hb lt
  rw [← h a.1 a.2 ((SortedMap.get?_eq_some_iff _ _ _).mpr ha),
    ← h b.1 b.2 ((SortedMap.get?_eq_some_iff _ _ _).mpr hb)]
  exact lt

/-- A keyed set is the set of the spellings that it lists. -/
theorem Keyed.collects_toList {s : PathSet} (h : s.Keyed) : s.Collects s.casing s.toList := by
  refine ⟨rfl, fun key => ?_⟩
  have listed : ∀ path ∈ s.toList.filter (s.casing.key · == key),
      s.entries.get? key = some path := by
    intro path mem
    obtain ⟨mem, same⟩ := List.mem_filter.mp mem
    obtain ⟨key', found⟩ := (SortedMap.mem_values_iff s.entries path).mp mem
    rw [← eq_of_beq same, ← h key' path found]
    exact found
  cases found : s.entries.get? key with
  | none =>
    symm
    rw [List.getLast?_eq_none_iff, List.eq_nil_iff_forall_not_mem]
    intro path mem
    rw [found] at listed
    exact nomatch listed path mem
  | some path =>
    have mem : path ∈ s.toList.filter (s.casing.key · == key) := by
      refine List.mem_filter.mpr ⟨(SortedMap.mem_values_iff s.entries path).mpr ⟨key, found⟩, ?_⟩
      rw [← h key path found]
      exact beq_self_eq_true key
    have nonempty := List.ne_nil_of_mem mem
    rw [List.getLast?_eq_some_getLast nonempty, ← found]
    exact listed _ (List.getLast_mem nonempty)

theorem Keyed.withCasing_self {s : PathSet} (h : s.Keyed) : s.withCasing s.casing = s :=
  h.collects_toList.eq_ofList.symm

/-- What a set has and another lacks, in the order of the first. -/
theorem Keyed.difference_eq {s : PathSet} (h : s.Keyed) (t : PathSet) :
    s.difference t = s.toList.filter fun path => !t.contains path := by
  rw [toList, SortedMap.values, List.filter_map, difference]
  congr 1
  apply List.filter_congr
  rintro ⟨key, path⟩ mem
  have key_eq := h key path ((SortedMap.get?_eq_some_iff _ _ _).mpr mem)
  simp only [Function.comp]
  split
  · rename_i same
    rw [contains, same, ← key_eq]
  · rfl

end Staging.PathSet
