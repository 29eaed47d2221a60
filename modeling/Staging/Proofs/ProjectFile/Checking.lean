import Staging.Discovery
import Staging.ProjectFile

/-!
What is checked of a project file, and what of that is left in the project made from it: its trees
have the patterns that were checked, and the charsets are looked up under names that were checked.
-/
namespace Staging

/-- A list is gone through to its end exactly if nothing in it fails. -/
theorem forM_eq_ok_iff {ε α : Type} {f : α → Except ε PUnit} {xs : List α} :
    xs.forM f = .ok () ↔ ∀ x ∈ xs, f x = .ok () := by
  induction xs with
  | nil => simp [pure, Except.pure]
  | cons x xs ih =>
    rw [List.forall_mem_cons, ← ih]
    change (f x).bind (fun _ => xs.forM f) = .ok () ↔ _
    cases f x <;> simp [Except.bind]

/-- A resource tree that is accepted. -/
structure TreeEntry.Sound (t : TreeEntry) : Prop where
  directory : Text.isBlankText t.directory = false
  patterns : ∃ selection, Selection.compile t.includes t.excludes = .ok selection

namespace ProjectFile

/-- A project file that is accepted. -/
structure Sound (f : ProjectFile) : Prop where
  units : f.units.isEmpty = false
  general : ∃ charset, Charset.ofName f.encodings.general = .ok charset
  properties : ∃ charset, Charset.ofName f.encodings.properties = .ok charset
  cacheDir : f.cacheDir.any Text.isBlankText = false
  names : ∀ entry ∈ f.units.toList, Text.isBlankText entry.1 = false
  trees : ∀ entry ∈ f.units.toList, ∀ t ∈ entry.2.resources ++ entry.2.testResources, t.Sound

theorem checkCharset_eq_ok_iff (setting name : String) :
    checkCharset setting name = .ok () ↔ ∃ charset, Charset.ofName name = .ok charset := by
  rw [checkCharset]
  split
  · rename_i charset found
    simp [found]
  · rename_i plain unknown
    simp [unknown]

theorem checkTree_eq_ok_iff (unit list : String) (index : Nat) (t : TreeEntry) :
    checkTree unit list index t = .ok () ↔ t.Sound := by
  rw [checkTree]
  split
  · rename_i blank
    simp only [reduceCtorEq, false_iff]
    intro sound
    rw [sound.directory] at blank
    cases blank
  · rename_i directory
    rw [Bool.not_eq_true] at directory
    split
    · rename_i selection compiled
      exact iff_of_true rfl ⟨directory, selection, compiled⟩
    · rename_i e refused
      simp only [reduceCtorEq, false_iff]
      rintro ⟨-, selection, compiled⟩
      rw [refused] at compiled
      cases compiled

theorem checkTrees_eq_ok_iff (unit list : String) (trees : List TreeEntry) :
    checkTrees unit list trees = .ok () ↔ ∀ t ∈ trees, t.Sound := by
  rw [checkTrees, forM_eq_ok_iff]
  simp only [checkTree_eq_ok_iff]
  conv => rhs; rw [← List.zipIdx_map_fst 0 trees]
  exact List.forall_mem_map.symm

theorem checkUnit_eq_ok_iff (name : String) (u : UnitEntry) :
    checkUnit name u = .ok () ↔
      Text.isBlankText name = false ∧ ∀ t ∈ u.resources ++ u.testResources, t.Sound := by
  rw [List.forall_mem_append, ← checkTrees_eq_ok_iff name "resources",
    ← checkTrees_eq_ok_iff name "test_resources", checkUnit]
  cases Text.isBlankText name <;> cases checkTrees name "resources" u.resources <;>
    simp [bind, Except.bind, throw, throwThe, MonadExceptOf.throw]

theorem check_eq_ok_iff_each (f : ProjectFile) :
    f.check = .ok () ↔ f.units.isEmpty = false ∧
      checkCharset "encoding" f.encodings.general = .ok () ∧
      checkCharset "properties_encoding" f.encodings.properties = .ok () ∧
      f.cacheDir.any Text.isBlankText = false ∧
      (f.units.toList.forM fun (name, u) => checkUnit name u) = .ok () := by
  rw [check]
  cases f.units.isEmpty <;> cases checkCharset "encoding" f.encodings.general <;>
    cases checkCharset "properties_encoding" f.encodings.properties <;>
    cases f.cacheDir.any Text.isBlankText <;>
    simp [bind, Except.bind, throw, throwThe, MonadExceptOf.throw]

/-- A file passes the check exactly if it is sound. -/
theorem check_eq_ok_iff (f : ProjectFile) : f.check = .ok () ↔ f.Sound := by
  rw [check_eq_ok_iff_each, checkCharset_eq_ok_iff, checkCharset_eq_ok_iff, forM_eq_ok_iff]
  simp only [checkUnit_eq_ok_iff]
  constructor
  · rintro ⟨units, general, properties, cacheDir, each⟩
    exact ⟨units, general, properties, cacheDir, fun entry mem => (each entry mem).1,
      fun entry mem => (each entry mem).2⟩
  · rintro ⟨units, general, properties, cacheDir, names, trees⟩
    exact ⟨units, general, properties, cacheDir, fun entry mem =>
      ⟨names entry mem, trees entry mem⟩⟩

namespace Sound

variable {f : ProjectFile}

/-- Whatever source is asked for, its charset is one of the two that were checked. -/
theorem forSource (h : f.Sound) (source : Path) :
    ∃ charset, Charset.ofName (f.encodings.forSource source) = .ok charset := by
  rw [Encodings.forSource]
  split
  · split
    · exact h.properties
    · exact h.general
  · exact h.general

theorem mem_treesFor {root : Path} {name : String} {u : UnitEntry} {purpose : Purpose}
    {tree : ResourceTree} (mem : tree ∈ (UnitEntry.toUnit root name u).treesFor purpose) :
    ∃ t ∈ u.resources ++ u.testResources, tree = TreeEntry.toTree root t := by
  cases purpose with
  | main =>
    obtain ⟨t, known, rfl⟩ := List.mem_map.mp mem
    exact ⟨t, List.mem_append_left _ known, rfl⟩
  | test =>
    obtain ⟨t, known, rfl⟩ := List.mem_map.mp mem
    exact ⟨t, List.mem_append_right _ known, rfl⟩

/-- The patterns of every tree of the project are read. -/
theorem compile_of_treesOf (h : f.Sound) {root : Path} {u : BuildUnit}
    (unit : u ∈ (f.toProject root).units) {pair : Path × ResourceTree}
    (mem : pair ∈ Discovery.treesOf u) :
    ∃ selection, Selection.compile pair.2.includes pair.2.excludes = .ok selection := by
  obtain ⟨entry, known, rfl⟩ := List.mem_map.mp unit
  obtain ⟨purpose, -, mem⟩ := List.mem_flatMap.mp mem
  split at mem
  · cases mem
  · obtain ⟨tree, own, rfl⟩ := List.mem_map.mp mem
    obtain ⟨t, declared, rfl⟩ := mem_treesFor own
    exact (h.trees entry known t declared).patterns

end Sound
end ProjectFile
end Staging
