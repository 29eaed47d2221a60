import Mathlib.Data.List.Perm.Basic
import Staging.SortedMap

/-!
Look-ups in sorted maps: what removing and filtering do to them, and that they determine the map. A
map made from entries holds the last value of each key.
-/
namespace Staging.SortedMap

variable {κ ν : Type} [Ord κ]

theorem compare_eq_iff [Std.TransOrd κ] [Std.LawfulEqOrd κ] {a b : κ} :
    compare a b = .eq ↔ a = b :=
  Std.LawfulEqCmp.compare_eq_iff_eq

variable [Std.TransOrd κ] [Std.LawfulEqOrd κ]

theorem get?_insert_self (m : SortedMap κ ν) (k : κ) (v : ν) : (m.insert k v).get? k = some v := by
  rw [get?_insert, if_pos Std.ReflCmp.compare_self]

theorem get?_insert_of_ne (m : SortedMap κ ν) {k x : κ} (v : ν) (h : x ≠ k) :
    (m.insert k v).get? x = m.get? x := by
  rw [get?_insert, if_neg (mt compare_eq_iff.mp h)]

theorem get?_filter_eq_some_iff (m : SortedMap κ ν) (p : κ → ν → Bool) (k : κ) (v : ν) :
    (m.filter p).get? k = some v ↔ m.get? k = some v ∧ p k v = true := by
  rw [get?_eq_some_iff, get?_eq_some_iff, filter, List.mem_filter]

theorem get?_filter_keys (m : SortedMap κ ν) (p : κ → Bool) (k : κ) :
    (m.filter fun k _ => p k).get? k = if p k then m.get? k else none := by
  apply Option.ext
  intro v
  rw [get?_filter_eq_some_iff]
  split <;> simp_all

theorem get?_erase [DecidableEq κ] (m : SortedMap κ ν) (k x : κ) :
    (m.erase k).get? x = if x = k then none else m.get? x := by
  rw [erase, get?_filter_keys m (fun k' => compare k k' != .eq)]
  by_cases h : x = k
  · subst h
    simp [Std.ReflCmp.compare_self]
  · have ne : compare k x ≠ .eq := fun e => h (compare_eq_iff.mp e).symm
    simp [h, ne]

/-- The same keys, with what `f` makes of their values. -/
def mapValues {μ : Type} (m : SortedMap κ ν) (f : ν → μ) : SortedMap κ μ where
  toList := m.toList.map fun e => (e.1, f e.2)
  increasing := by
    rw [Increasing, List.pairwise_map]
    exact m.increasing

omit [Std.TransOrd κ] [Std.LawfulEqOrd κ] in
theorem get?_mapValues {μ : Type} (m : SortedMap κ ν) (f : ν → μ) (k : κ) :
    (m.mapValues f).get? k = (m.get? k).map f := by
  change lookup k (m.toList.map fun e => (e.1, f e.2)) = (lookup k m.toList).map f
  induction m.toList with
  | nil => rfl
  | cons e rest ih =>
    simp only [List.map_cons, lookup, ih]
    split <;> rfl

theorem mem_keys_iff (m : SortedMap κ ν) (k : κ) : k ∈ m.keys ↔ (m.get? k).isSome := by
  rw [keys, List.mem_map, Option.isSome_iff_exists]
  constructor
  · rintro ⟨⟨_, v⟩, mem, rfl⟩
    exact ⟨v, (get?_eq_some_iff m _ v).mpr mem⟩
  · rintro ⟨v, found⟩
    exact ⟨(k, v), (get?_eq_some_iff m k v).mp found, rfl⟩

theorem mem_values_iff (m : SortedMap κ ν) (v : ν) : v ∈ m.values ↔ ∃ k, m.get? k = some v := by
  rw [values, List.mem_map]
  constructor
  · rintro ⟨⟨k, _⟩, mem, rfl⟩
    exact ⟨k, (get?_eq_some_iff m k _).mpr mem⟩
  · rintro ⟨k, found⟩
    exact ⟨(k, v), (get?_eq_some_iff m k v).mp found, rfl⟩

omit [Std.LawfulEqOrd κ] in
theorem nodup_toList (m : SortedMap κ ν) : m.toList.Nodup := by
  refine m.increasing.imp ?_
  rintro a b lt rfl
  exact Std.OrientedCmp.not_lt_of_lt lt lt

omit [Std.LawfulEqOrd κ] in
theorem nodup_keys (m : SortedMap κ ν) : m.keys.Nodup := by
  refine List.pairwise_map.mpr (m.increasing.imp ?_)
  intro a b lt same
  rw [same] at lt
  exact Std.OrientedCmp.not_lt_of_lt lt lt

omit [Std.LawfulEqOrd κ] in
theorem size_le_of_subset {μ : Type} {m : SortedMap κ ν} {n : SortedMap κ μ}
    (within : m.keys ⊆ n.keys) : m.size ≤ n.size := by
  have length := (List.subperm_of_subset m.nodup_keys within).length_le
  rwa [keys, keys, List.length_map, List.length_map] at length

omit [Std.LawfulEqOrd κ] in
/-- A map with all keys of another one, and no more of them, has the same keys. -/
theorem keys_eq_of_subset {μ : Type} {m : SortedMap κ ν} {n : SortedMap κ μ}
    (within : m.keys ⊆ n.keys) (size : n.size ≤ m.size) : m.keys = n.keys := by
  have antisymm : ∀ a b : κ, a ∈ m.keys → b ∈ n.keys →
      compare a b = .lt → compare b a = .lt → a = b :=
    fun a b _ _ lt gt => absurd gt (Std.OrientedCmp.not_lt_of_lt lt)
  have length : n.keys.length ≤ m.keys.length := by
    rw [keys, keys, List.length_map, List.length_map]
    exact size
  apply List.Perm.eq_of_pairwise antisymm
  · exact List.pairwise_map.mpr m.increasing
  · exact List.pairwise_map.mpr n.increasing
  · exact (List.subperm_of_subset m.nodup_keys within).perm_of_length_le length

/-- Two strictly increasing lists with the same entries are one list. -/
theorem ext_get? {m n : SortedMap κ ν} (h : ∀ k, m.get? k = n.get? k) : m = n := by
  apply ext_toList
  have same : ∀ e, e ∈ m.toList ↔ e ∈ n.toList := by
    rintro ⟨k, v⟩
    rw [← get?_eq_some_iff, ← get?_eq_some_iff, h]
  have antisymm : ∀ a b : κ × ν, a ∈ m.toList → b ∈ n.toList →
      compare a.1 b.1 = .lt → compare b.1 a.1 = .lt → a = b :=
    fun a b _ _ lt gt => absurd gt (Std.OrientedCmp.not_lt_of_lt lt)
  exact List.Perm.eq_of_pairwise antisymm m.increasing n.increasing
    ((List.perm_ext_iff_of_nodup m.nodup_toList n.nodup_toList).mpr same)

section LastWrites

variable [DecidableEq κ]

/-- The value of the last entry with the key. -/
def lastValue (k : κ) (entries : List (κ × ν)) : Option ν :=
  (entries.reverse.find? fun e => decide (e.1 = k)).map (·.2)

omit [Ord κ] [Std.TransOrd κ] [Std.LawfulEqOrd κ] in
theorem lastValue_append (k : κ) (entries entries' : List (κ × ν)) :
    lastValue k (entries ++ entries') = (lastValue k entries').or (lastValue k entries) := by
  simp only [lastValue, List.reverse_append, List.find?_append, Option.map_or]

theorem get?_foldl_insert (m : SortedMap κ ν) (entries : List (κ × ν)) (k : κ) :
    (entries.foldl (fun m e => m.insert e.1 e.2) m).get? k =
      (lastValue k entries).or (m.get? k) := by
  induction entries generalizing m with
  | nil => rfl
  | cons e entries ih =>
    have split := lastValue_append k [e] entries
    rw [List.singleton_append] at split
    rw [List.foldl_cons, ih, split, Option.or_assoc]
    congr 1
    by_cases same : e.1 = k
    · subst same
      simp [lastValue, get?_insert_self]
    · simp [lastValue, same, get?_insert_of_ne _ _ (Ne.symm same)]

theorem get?_ofList (entries : List (κ × ν)) (k : κ) :
    (ofList entries).get? k = lastValue k entries := by
  rw [ofList, get?_foldl_insert, get?_empty, Option.or_none]

/-- Listing a map loses nothing. -/
theorem lastValue_toList (m : SortedMap κ ν) (k : κ) : lastValue k m.toList = m.get? k := by
  rw [lastValue]
  cases found : m.toList.reverse.find? fun e => decide (e.1 = k) with
  | none =>
    rw [List.find?_eq_none] at found
    cases value : m.get? k with
    | none => rfl
    | some v =>
      have entry := (get?_eq_some_iff m k v).mp value
      have absent := found (k, v) (List.mem_reverse.mpr entry)
      simp at absent
  | some e =>
    have key : e.1 = k := by simpa using List.find?_some found
    have entry := List.mem_reverse.mp (List.mem_of_find?_eq_some found)
    subst key
    exact ((get?_eq_some_iff m e.1 e.2).mpr entry).symm

theorem get?_overlay (m n : SortedMap κ ν) (k : κ) :
    (m.overlay n).get? k = (n.get? k).or (m.get? k) := by
  rw [overlay, get?_foldl_insert, lastValue_toList]

theorem ofList_append (entries entries' : List (κ × ν)) :
    ofList (entries ++ entries') = (ofList entries).overlay (ofList entries') := by
  refine ext_get? fun k => ?_
  rw [get?_overlay, get?_ofList, get?_ofList, get?_ofList, lastValue_append]

end LastWrites

end Staging.SortedMap
