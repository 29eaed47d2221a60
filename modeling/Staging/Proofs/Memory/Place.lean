import Mathlib.Data.List.Infix
import Staging.FileSystem.Memory
import Staging.Proofs.Path
import Staging.Proofs.SortedMap
import Staging.Proofs.Text.Spelling

/-!
Places in memory: the keys that paths stand for, what is found at them, and the directories above
them. A relative path with one part lies in the starting directory.
-/
namespace Staging

/-- What takes a place. -/
inductive Kind where
  | file
  | dir
  deriving DecidableEq

namespace Entry

def kind : Entry → Kind
  | file _ _ => .file
  | dir _ => .dir

def content? : Entry → Option Bytes
  | file content _ => some content
  | dir _ => none

/-- The content and the time of a file. -/
def file? : Entry → Option (Bytes × Int64)
  | file content time => some (content, time)
  | dir _ => none

end Entry

namespace Memory

/-- The entry at a place. -/
def at? (s : Memory) (key : List Part) : Option Entry := (s.nodes.get? key).map (·.entry)

def kindAt (s : Memory) (key : List Part) : Option Kind := (s.at? key).map Entry.kind

def contentAt (s : Memory) (key : List Part) : Option Bytes := (s.at? key).bind Entry.content?

def fileAt (s : Memory) (key : List Part) : Option (Bytes × Int64) := (s.at? key).bind Entry.file?

variable (s : Memory)

theorem entry?_eq (p : Path) : s.entry? p = s.at? p.parts := rfl

theorem content?_eq (p : Path) : s.content? p = s.contentAt p.parts := by
  rw [content?, contentAt, entry?_eq]
  generalize s.at? p.parts = entry
  rcases entry with _ | _ | _ <;> rfl

theorem entry?_eq_file_iff (p : Path) (content : Bytes) (time : Int64) :
    s.entry? p = some (.file content time) ↔ s.fileAt p.parts = some (content, time) := by
  rw [fileAt, entry?_eq]
  generalize s.at? p.parts = entry
  rcases entry with _ | _ | _ <;> simp [Entry.file?]

theorem contentAt_eq_map (key : List Part) : s.contentAt key = (s.fileAt key).map (·.1) := by
  rw [contentAt, fileAt]
  generalize s.at? key = entry
  rcases entry with _ | _ | _ <;> rfl

theorem isPresent_eq (p : Path) : s.isPresent p = (s.kindAt p.parts).isSome := by
  rw [isPresent, kindAt, entry?_eq, Option.isSome_map]

theorem isFile_iff (p : Path) : s.isFile p = true ↔ s.kindAt p.parts = some .file := by
  rw [isFile, kindAt, entry?_eq]
  generalize s.at? p.parts = entry
  rcases entry with _ | _ | _ <;> simp [Entry.kind]

theorem isDir_iff (p : Path) : s.isDir p = true ↔ s.kindAt p.parts = some .dir := by
  rw [isDir, kindAt, entry?_eq]
  generalize s.at? p.parts = entry
  rcases entry with _ | _ | _ <;> simp [Entry.kind]

variable {s}

theorem kindAt_eq_file_iff {key : List Part} :
    s.kindAt key = some .file ↔ (s.contentAt key).isSome := by
  rw [kindAt, contentAt]
  generalize s.at? key = entry
  rcases entry with _ | _ | _ <;> simp [Entry.kind, Entry.content?]

theorem listedName_eq_some_iff {p : Path} {name : String} :
    listedName p = some name ↔ p.fileName = some (.ofString name) := by
  simp [listedName, Option.bind_eq_some_iff, Spelling.text?_eq_some_iff]

theorem isName_of_listedName {p : Path} {name : String} (h : listedName p = some name) :
    Path.IsName name :=
  Path.isName_of_fileName (listedName_eq_some_iff.mp h)

/-- The place of the directory that lists a place. -/
def above (key : List Part) : Option (List Part) :=
  if key = [] ∨ key = [.root] then none
  else some (if key.dropLast = [] then [.here] else key.dropLast)

theorem parts_here : here.parts = [.here] := by decide

theorem parts_parentOf (p : Path) : (parentOf p).map (·.parts) = above p.parts := by
  have parent := Path.parts_parent p
  rw [parentOf, above]
  split at parent
  · rename_i bare
    rw [Option.map_eq_none_iff] at parent
    rw [parent, if_pos bare]
    rfl
  · rename_i some
    obtain ⟨q, found, dropped⟩ := Option.map_eq_some_iff.mp parent
    rw [found, if_neg some, ← dropped, Option.map_some, Option.map_some]
    congr 1
    by_cases bare : q.parts = []
    · rw [Path.bytes_of_parent found bare, if_pos bare]
      exact parts_here
    · have spelled : q.bytes.isEmpty = false :=
        List.isEmpty_eq_false_iff.mpr (mt Path.parts_of_empty bare)
      rw [spelled, if_neg bare]
      rfl

theorem above_here : above [.here] = some [.here] := by decide

/-- Only the starting directory lies in itself. -/
theorem eq_here_of_above_self {key : List Part} (h : above key = some key) : key = [.here] := by
  rw [above] at h
  split at h
  · cases h
  · rename_i some
    rw [Option.some.injEq] at h
    split at h
    · exact h.symm
    · have shorter := congrArg List.length h
      have := List.length_pos_of_ne_nil (not_or.mp some).1
      rw [List.length_dropLast] at shorter
      omega

/-- How far a place is from where going up ends. -/
def height (key : List Part) : Nat := if key = [.here] then 0 else key.length + 1

theorem height_above {key dir : List Part} (h : above key = some dir) (other : dir ≠ key) :
    height dir < height key := by
  rw [above] at h
  split at h
  · cases h
  · rename_i some
    rw [not_or] at some
    have length : 0 < key.length := List.length_pos_of_ne_nil some.1
    have not_here : key ≠ [.here] := by
      rintro rfl
      simp at h
      exact other h.symm
    rw [height, height, if_neg not_here]
    rw [Option.some.injEq] at h
    subst h
    split
    · simp
    · rename_i more
      split
      · omega
      · rw [List.length_dropLast]
        omega

/-- The place and the directories above it, going up. -/
def ascent (key : List Part) : List (List Part) :=
  key :: match _found : above key with
    | none => []
    | some dir => if _same : dir = key then [] else ascent dir
  termination_by height key
  decreasing_by exact height_above _found _same

theorem ascent_of_none {key : List Part} (h : above key = none) : ascent key = [key] := by
  rw [ascent]
  split
  · rfl
  · rename_i found
    rw [h] at found
    cases found

theorem ascent_of_some {key dir : List Part} (h : above key = some dir) (other : dir ≠ key) :
    ascent key = key :: ascent dir := by
  rw [ascent]
  split
  · rename_i found
    rw [h] at found
    cases found
  · rename_i found
    rw [h, Option.some.injEq] at found
    subst found
    rw [dif_neg other]

theorem ascent_of_self {key : List Part} (h : above key = some key) : ascent key = [key] := by
  rw [ascent]
  split
  · rfl
  · rename_i found
    rw [h, Option.some.injEq] at found
    subst found
    rw [dif_pos rfl]

theorem self_mem_ascent (key : List Part) : key ∈ ascent key := by
  rw [ascent]
  exact List.mem_cons_self

/-- Going up one step at a time. -/
theorem ascent_induction {motive : List Part → Prop}
    (top : ∀ key, ascent key = [key] → (∀ dir, above key = some dir → dir = key) → motive key)
    (up : ∀ key dir, above key = some dir → dir ≠ key → ascent key = key :: ascent dir →
      motive dir → motive key) (key : List Part) : motive key := by
  induction n : height key using Nat.strongRecOn generalizing key with
  | ind n ih =>
    subst n
    cases h : above key with
    | none => exact top key (ascent_of_none h) fun dir found => by simp [h] at found
    | some dir =>
      by_cases same : dir = key
      · subst same
        exact top dir (ascent_of_self h) fun _ found => (Option.some.inj (h.symm.trans found)).symm
      · exact up key dir h same (ascent_of_some h same) (ih _ (height_above h same) dir rfl)

theorem height_le_of_mem_ascent {key dir : List Part} (h : dir ∈ ascent key) :
    height dir ≤ height key := by
  induction key using ascent_induction with
  | top key whole _ =>
    rw [whole, List.mem_singleton] at h
    rw [h]
  | up key next found other whole ih =>
    rw [whole, List.mem_cons] at h
    rcases h with rfl | h
    · exact le_rfl
    · exact (ih h).trans (height_above found other).le

/-- Nothing lies above itself. -/
theorem not_mem_ascent_above {key dir : List Part} (found : above key = some dir)
    (other : dir ≠ key) : key ∉ ascent dir := fun mem =>
  absurd (height_le_of_mem_ascent mem) (Nat.not_le.mpr (height_above found other))

/-- `key` is `dir` or lies below it. Relative places lie below the starting directory. -/
def Encloses (dir key : List Part) : Prop :=
  dir <+: key ∨ dir = [.here] ∧ ∃ part ∈ key.head?, part ≠ .root

instance (dir key : List Part) : Decidable (Encloses dir key) :=
  inferInstanceAs (Decidable (dir <+: key ∨ dir = [.here] ∧ ∃ part ∈ key.head?, part ≠ .root))

namespace Encloses

variable {a b c : List Part}

theorem refl (a : List Part) : Encloses a a := .inl (List.prefix_refl a)

theorem trans (h : Encloses a b) (k : Encloses b c) : Encloses a c := by
  rcases h with h | ⟨rfl, part, first, relative⟩
  · rcases k with k | ⟨rfl, rest⟩
    · exact .inl (h.trans k)
    · rcases List.prefix_cons_iff.mp h with rfl | ⟨tail, rfl, none⟩
      · exact .inl List.nil_prefix
      · rw [List.prefix_nil] at none
        subst none
        exact .inr ⟨rfl, rest⟩
  · rcases k with k | ⟨rfl, rest⟩
    · refine .inr ⟨rfl, part, ?_, relative⟩
      obtain ⟨tail, rfl⟩ := k
      rw [List.head?_append]
      simp_all
    · exact .inr ⟨rfl, rest⟩

end Encloses

/-- `dir` is one of the directories that `key` lies in. -/
def Above (dir key : List Part) : Prop := dir ≠ key ∧ Encloses dir key

instance (dir key : List Part) : Decidable (Above dir key) :=
  inferInstanceAs (Decidable (dir ≠ key ∧ Encloses dir key))

theorem encloses_above {key dir : List Part} (h : above key = some dir) : Encloses dir key := by
  rw [above] at h
  split at h
  · cases h
  · rename_i some
    rw [Option.some.injEq] at h
    subst h
    split
    · rename_i single
      refine .inr ⟨rfl, ?_⟩
      cases key with
      | nil => simp at some
      | cons part rest =>
        refine ⟨part, rfl, ?_⟩
        rintro rfl
        cases rest with
        | nil => simp at some
        | cons => simp at single
    · exact .inl (List.dropLast_prefix key)

theorem encloses_of_mem_ascent {key dir : List Part} (h : dir ∈ ascent key) :
    Encloses dir key := by
  induction key using ascent_induction with
  | top key whole _ =>
    rw [whole, List.mem_singleton] at h
    rw [h]
    exact .refl key
  | up key next found _ whole ih =>
    rw [whole, List.mem_cons] at h
    rcases h with rfl | h
    · exact .refl dir
    · exact (ih h).trans (encloses_above found)

theorem length_le_of_mem_ascent {key dir : List Part} (h : dir ∈ ascent key) :
    dir = [.here] ∨ dir.length ≤ key.length := by
  rcases encloses_of_mem_ascent h with shorter | ⟨here, -⟩
  · exact .inr shorter.length_le
  · exact .inl here

/-- What a path's parent opens lies above the path. -/
theorem above_of_parent {p dir : Path} (h : p.parent = some dir) {key : List Part}
    (mem : key ∈ ascent dir.parts) : Above key p.parts := by
  have dropped := Path.parts_parent p
  rw [h, Option.map_some] at dropped
  split at dropped
  · cases dropped
  · rename_i some
    rw [Option.some.injEq] at dropped
    rw [not_or] at some
    refine ⟨?_, (encloses_of_mem_ascent mem).trans (.inl (dropped ▸ List.dropLast_prefix p.parts))⟩
    rintro rfl
    rcases length_le_of_mem_ascent mem with here | shorter
    · rw [dropped, here] at mem
      have top : ascent ([] : List Part) = [[]] := ascent_of_none (by simp [above])
      simp [top] at mem
    · rw [dropped, List.length_dropLast] at shorter
      have := List.length_pos_of_ne_nil some.1
      omega

end Memory
end Staging
