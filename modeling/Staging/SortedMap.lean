/-!
Finite maps as lists of entries in strictly increasing key order. The order is part of the type,
so two maps with the same look-ups are equal, and listing a map is listing it by key.
-/
namespace Staging

/-- Keys strictly increase along the list. -/
def Increasing {κ ν : Type} [Ord κ] (entries : List (κ × ν)) : Prop :=
  entries.Pairwise fun a b => compare a.1 b.1 = .lt

structure SortedMap (κ ν : Type) [Ord κ] where
  toList : List (κ × ν)
  increasing : Increasing toList

namespace SortedMap

variable {κ ν : Type} [Ord κ]

/-- Puts an entry in its place, over one with the same key. -/
def insertEntry (k : κ) (v : ν) : List (κ × ν) → List (κ × ν)
  | [] => [(k, v)]
  | (k', v') :: rest =>
    match compare k k' with
    | .lt => (k, v) :: (k', v') :: rest
    | .eq => (k, v) :: rest
    | .gt => (k', v') :: insertEntry k v rest

def lookup (k : κ) : List (κ × ν) → Option ν
  | [] => none
  | (k', v) :: rest => if compare k k' = .eq then some v else lookup k rest

theorem mem_insertEntry {k : κ} {v : ν} {e : κ × ν} {l : List (κ × ν)}
    (h : e ∈ insertEntry k v l) : e = (k, v) ∨ e ∈ l := by
  induction l with
  | nil => simpa [insertEntry] using h
  | cons head rest ih =>
    obtain ⟨k', v'⟩ := head
    rw [insertEntry] at h
    split at h <;> grind

theorem increasing_insertEntry [Std.TransOrd κ] (k : κ) (v : ν) {l : List (κ × ν)}
    (h : Increasing l) : Increasing (insertEntry k v l) := by
  induction l with
  | nil => simp [insertEntry, Increasing]
  | cons head rest ih =>
    obtain ⟨k', v'⟩ := head
    have hrest : ∀ e ∈ rest, compare k' e.1 = .lt := fun _ => List.rel_of_pairwise_cons h
    rw [insertEntry]
    split
    · rename_i lt
      refine List.Pairwise.cons (fun e he => ?_) h
      rcases List.mem_cons.mp he with rfl | he
      · exact lt
      · exact Std.TransCmp.lt_trans lt (hrest _ he)
    · rename_i eq
      refine List.Pairwise.cons (fun e he => ?_) (List.Pairwise.of_cons h)
      exact Std.TransCmp.lt_of_eq_of_lt eq (hrest _ he)
    · rename_i gt
      refine List.Pairwise.cons (fun e he => ?_) (ih (List.Pairwise.of_cons h))
      rcases mem_insertEntry he with rfl | he
      · exact Std.OrientedCmp.lt_of_gt gt
      · exact hrest _ he

def empty : SortedMap κ ν := ⟨[], List.Pairwise.nil⟩

instance : Inhabited (SortedMap κ ν) := ⟨empty⟩

variable [Std.TransOrd κ]

def insert (m : SortedMap κ ν) (k : κ) (v : ν) : SortedMap κ ν :=
  ⟨insertEntry k v m.toList, increasing_insertEntry k v m.increasing⟩

/-- The map of the entries, the last one winning for a repeated key. -/
def ofList (entries : List (κ × ν)) : SortedMap κ ν :=
  entries.foldl (fun m e => m.insert e.1 e.2) empty

/-- `m` with every entry of `n` put over it. -/
def overlay (m n : SortedMap κ ν) : SortedMap κ ν :=
  n.toList.foldl (fun m e => m.insert e.1 e.2) m

omit [Std.TransOrd κ]

def get? (m : SortedMap κ ν) (k : κ) : Option ν := lookup k m.toList

def contains (m : SortedMap κ ν) (k : κ) : Bool := (m.get? k).isSome

/-- The entries whose key and value pass the test. -/
def filter (m : SortedMap κ ν) (p : κ → ν → Bool) : SortedMap κ ν :=
  ⟨m.toList.filter fun e => p e.1 e.2, List.Pairwise.filter _ m.increasing⟩

def erase (m : SortedMap κ ν) (k : κ) : SortedMap κ ν := m.filter fun k' _ => compare k k' != .eq

def keys (m : SortedMap κ ν) : List κ := m.toList.map (·.1)

def values (m : SortedMap κ ν) : List ν := m.toList.map (·.2)

def size (m : SortedMap κ ν) : Nat := m.toList.length

def isEmpty (m : SortedMap κ ν) : Bool := m.toList.isEmpty

theorem ext_toList {m n : SortedMap κ ν} (h : m.toList = n.toList) : m = n := by
  cases m; cases n; simp_all

instance [DecidableEq κ] [DecidableEq ν] : DecidableEq (SortedMap κ ν) := fun m n =>
  if h : m.toList = n.toList then .isTrue (ext_toList h)
  else .isFalse fun e => h (e ▸ rfl)

@[simp] theorem get?_empty (k : κ) : (empty : SortedMap κ ν).get? k = none := rfl

theorem lookup_insertEntry [Std.TransOrd κ] (k x : κ) (v : ν) (l : List (κ × ν)) :
    lookup x (insertEntry k v l) = if compare x k = .eq then some v else lookup x l := by
  induction l with
  | nil => simp [insertEntry, lookup]
  | cons head rest ih =>
    obtain ⟨k', v'⟩ := head
    rw [insertEntry]
    split
    · simp [lookup]
    · rename_i eq
      have same : compare x k = compare x k' := Std.TransCmp.congr_right eq
      simp only [lookup, same]
      split <;> rfl
    · rename_i gt
      simp only [lookup, ih]
      by_cases h : compare x k' = .eq
      · have : compare x k ≠ .eq := by
          intro e
          have e : compare k x = .eq := Std.OrientedCmp.eq_symm e
          have : compare k k' = compare x k' := Std.TransCmp.congr_left e
          rw [h, gt] at this
          exact absurd this (by decide)
        simp [h, this]
      · simp [h]

theorem get?_insert [Std.TransOrd κ] (m : SortedMap κ ν) (k x : κ) (v : ν) :
    (m.insert k v).get? x = if compare x k = .eq then some v else m.get? x :=
  lookup_insertEntry k x v m.toList

theorem lookup_eq_some_iff [Std.TransOrd κ] [Std.LawfulEqOrd κ] {l : List (κ × ν)}
    (h : Increasing l) (k : κ) (v : ν) : lookup k l = some v ↔ (k, v) ∈ l := by
  induction l with
  | nil => simp [lookup]
  | cons head rest ih =>
    obtain ⟨k', v'⟩ := head
    have hrest : ∀ e ∈ rest, compare k' e.1 = .lt := fun _ => List.rel_of_pairwise_cons h
    rw [lookup, List.mem_cons, Prod.mk.injEq]
    split
    · rename_i eq
      have eq := Std.LawfulEqCmp.eq_of_compare eq
      subst eq
      constructor
      · intro e; exact .inl ⟨rfl, (Option.some.inj e).symm⟩
      · rintro (⟨-, rfl⟩ | he)
        · rfl
        · have := hrest _ he
          simp [Std.ReflCmp.compare_self] at this
    · rename_i ne
      rw [ih (List.Pairwise.of_cons h)]
      constructor
      · exact .inr
      · rintro (⟨rfl, -⟩ | he)
        · exact absurd Std.ReflCmp.compare_self ne
        · exact he

theorem get?_eq_some_iff [Std.TransOrd κ] [Std.LawfulEqOrd κ] (m : SortedMap κ ν) (k : κ) (v : ν) :
    m.get? k = some v ↔ (k, v) ∈ m.toList :=
  lookup_eq_some_iff m.increasing k v

end SortedMap
end Staging
