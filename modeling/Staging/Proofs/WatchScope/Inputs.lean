import Staging.Proofs.WatchScope

/-!
What starts the next pass. Every change of an input counts, except in the directories that are kept
for what passes write. These are left out as a whole, whether or not the changed file in there is
one that a pass writes.
-/
namespace Staging.WatchScope
open Discovery

/-- The path lies in a declared resource tree, or is a declared property file. -/
def Input (project : Project) (p : Path) : Prop :=
  ∃ u ∈ project.units,
    (∃ purpose, ∃ tree ∈ u.treesFor purpose, p.startsWith tree.directory = true) ∨
    ∃ filter ∈ u.filters, p.same filter = true

/-- The path lies in a declared output directory, or in the directory of the ledger. -/
def Reserved (project : Project) (ledgerFile p : Path) : Prop :=
  (∃ u ∈ project.units, ∃ purpose dir, u.outputFor purpose = some dir ∧ p.startsWith dir = true) ∨
    ∃ dir, ledgerFile.parent = some dir ∧ p.startsWith dir = true

/-- No pass writes the path: no discovery has a candidate with it for an output, and it is neither
the ledger nor the scratch file. -/
structure Unwritten (m : Type → Type) {σ : Type} [Monad m] [Stateful m σ] [FileSystem m]
    (project : Project) (ledgerFile p : Path) : Prop where
  output : ∀ (scope : Scope) (s t : σ) (d : Discovery),
    exec (Discovery.ofProject project scope : ExceptT Cancelled m _).run s = (.ok d, t) →
    ∀ e ∈ d.units, ∀ c ∈ e.candidates, p.same ⟨c.output⟩ = false
  ledger : p.same ledgerFile = false
  scratch : p.same (Ledger.scratchFor ledgerFile) = false

section
variable {m : Type → Type} {σ : Type} [Monad m] [LawfulMonad m] [Stateful m σ] [FileSystem m]

/-- Outputs start where the output directories of the project do. -/
theorem unwritten_of_outside {project : Project} {ledgerFile p : Path}
    (outside : ∀ u ∈ project.units, ∀ dir ∈ outputPaths u, ¬Path.base dir <+: p.parts)
    (ledger : p.same ledgerFile = false) (scratch : p.same (Ledger.scratchFor ledgerFile) = false) :
    Unwritten m project ledgerFile p where
  output scope s t d found e discovered c candidate := by
    obtain ⟨u, unit, -, tree, mem, rel, -, output⟩ := output_of_found found discovered candidate
    rw [Path.same, beq_eq_false_iff_ne, output, Path.parts_outputPath]
    intro same
    refine outside u unit tree.1 (mem_outputPaths_of_treesOf mem) ?_
    rw [same]
    exact List.prefix_append _ _
  ledger := ledger
  scratch := scratch

end

theorem mem_treePaths_iff {u : BuildUnit} {dir : Path} :
    dir ∈ treePaths u ↔ ∃ purpose, ∃ tree ∈ u.treesFor purpose, tree.directory = dir := by
  simp only [treePaths, List.mem_flatMap, List.mem_map, Purpose.mem_all, true_and]

theorem mem_outputPaths_iff {u : BuildUnit} {dir : Path} :
    dir ∈ outputPaths u ↔ ∃ purpose, u.outputFor purpose = some dir := by
  simp only [outputPaths, List.mem_filterMap, Purpose.mem_all, true_and]

/-- The scope with the paths as they are declared. -/
def asDeclared (project : Project) (ledgerFile : Path) : WatchScope where
  inputs := project.units.flatMap treePaths
  filters := project.units.flatMap (·.filters)
  ignored := project.units.flatMap outputPaths ++ ledgerFile.parent.toList

variable {project : Project} {ledgerFile p : Path}

theorem any_ignored_iff :
    (asDeclared project ledgerFile).ignored.any p.startsWith = true ↔
      Reserved project ledgerFile p := by
  simp only [asDeclared, List.any_append, Bool.or_eq_true, List.any_eq_true, List.mem_flatMap,
    mem_outputPaths_iff, Option.mem_toList, Reserved]
  constructor
  · rintro (⟨dir, ⟨u, unit, purpose, placed⟩, below⟩ | own)
    · exact .inl ⟨u, unit, purpose, dir, placed, below⟩
    · exact .inr own
  · rintro (⟨u, unit, purpose, dir, placed, below⟩ | own)
    · exact .inl ⟨dir, ⟨u, unit, purpose, placed⟩, below⟩
    · exact .inr own

theorem any_inputs_iff :
    ((asDeclared project ledgerFile).filters.any p.same = true ∨
      (asDeclared project ledgerFile).inputs.any p.startsWith = true) ↔ Input project p := by
  simp only [asDeclared, List.any_eq_true, List.mem_flatMap, mem_treePaths_iff, Input]
  constructor
  · rintro (⟨filter, ⟨u, unit, mem⟩, same⟩ | ⟨_, ⟨u, unit, purpose, tree, mem, rfl⟩, below⟩)
    · exact ⟨u, unit, .inr ⟨filter, mem, same⟩⟩
    · exact ⟨u, unit, .inl ⟨purpose, tree, mem, below⟩⟩
  · rintro ⟨u, unit, ⟨purpose, tree, mem, below⟩ | ⟨filter, mem, same⟩⟩
    · exact .inr ⟨tree.directory, ⟨u, unit, purpose, tree, mem, rfl⟩, below⟩
    · exact .inl ⟨filter, ⟨u, unit, mem⟩, same⟩

theorem isRelevant_asDeclared :
    (asDeclared project ledgerFile).isRelevant p = true ↔
      Input project p ∧ ¬Reserved project ledgerFile p := by
  rw [isRelevant, Bool.and_eq_true, Bool.or_eq_true, any_inputs_iff, Bool.not_eq_true',
    ← Bool.not_eq_true, any_ignored_iff, and_comm]

/-- Whether a change counts depends on no spelling. -/
theorem isRelevant_congr {s t : WatchScope} {q : Path}
    (inputs : s.inputs.map Path.parts = t.inputs.map Path.parts)
    (filters : s.filters.map Path.parts = t.filters.map Path.parts)
    (ignored : s.ignored.map Path.parts = t.ignored.map Path.parts)
    (same : p.parts = q.parts) : s.isRelevant p = t.isRelevant q := by
  have below (dirs : List Path) (p : Path) :
      dirs.any p.startsWith = (dirs.map Path.parts).any (·.isPrefixOf p.parts) := by
    simp only [List.any_map]
    rfl
  have among (files : List Path) (p : Path) :
      files.any p.same = (files.map Path.parts).any (p.parts == ·) := by
    simp only [List.any_map]
    rfl
  simp only [isRelevant, below, among, inputs, filters, ignored, same]

section
variable {n : Type → Type} [Monad n] [LawfulMonad n] {canonical : Path → n (Option Path)}

/-- Settling the path gives the same path, though perhaps in another spelling. -/
def Stays (canonical : Path → n (Option Path)) (p : Path) : Prop :=
  ∃ q, settle canonical p = pure q ∧ q.parts = p.parts

/-- A path that is nowhere stays, if the directory above it is nowhere as well, or its canonical
spelling leads through no links. -/
theorem stays_of_absent (absent : canonical p = pure none)
    (parent : ∀ dir, p.parent = some dir → canonical dir = pure none ∨
      ∃ q, canonical dir = pure (some q) ∧ q.parts = dir.parts) : Stays canonical p := by
  rw [Stays, settle, absent, pure_bind]
  simp only
  split
  · rename_i dir name found named
    rcases parent dir found with nowhere | ⟨q, spelled, same⟩
    · exact ⟨p, by rw [nowhere, pure_bind]; rfl, rfl⟩
    · refine ⟨q.join name, by rw [spelled, pure_bind]; rfl, ?_⟩
      rw [Path.parts_join q (Path.isName_of_fileName named), same, Path.parts_of_parent found]
      exact (Path.parts_of_fileName named).symm
  · exact ⟨p, rfl, rfl⟩

theorem mapM_settle_of_stays {paths : List Path} (stays : ∀ p ∈ paths, Stays canonical p) :
    ∃ settled, paths.mapM (settle canonical) = pure settled ∧
      settled.map Path.parts = paths.map Path.parts := by
  obtain ⟨settled, ran, same⟩ := mapM_of_each stays
  refine ⟨settled, ran, ?_⟩
  rw [← List.forall₂_eq_eq_eq, List.forall₂_map_left_iff, List.forall₂_map_right_iff]
  exact same.flip

/-- The scope of a project whose paths stay has the paths as they are declared, up to spelling. -/
theorem ofProject_of_stays (stay : ∀ p ∈ declared project ledgerFile, Stays canonical p) :
    ∃ watched, ofProject canonical project ledgerFile = pure watched ∧
      watched.inputs.map Path.parts = (asDeclared project ledgerFile).inputs.map Path.parts ∧
      watched.filters.map Path.parts = (asDeclared project ledgerFile).filters.map Path.parts ∧
      watched.ignored.map Path.parts = (asDeclared project ledgerFile).ignored.map Path.parts := by
  rw [declared, List.forall_mem_append, List.forall_mem_append] at stay
  obtain ⟨⟨inputs, filters⟩, ignored⟩ := stay
  obtain ⟨inputs', settled, sameInputs⟩ := mapM_settle_of_stays inputs
  obtain ⟨filters', settled', sameFilters⟩ := mapM_settle_of_stays filters
  obtain ⟨ignored', settled'', sameIgnored⟩ := mapM_settle_of_stays ignored
  refine ⟨⟨inputs', filters', ignored'⟩, ?_, sameInputs, sameFilters, sameIgnored⟩
  simp only [ofProject, settled, settled', settled'', pure_bind]

variable {m : Type → Type} {σ : Type} [Monad m] [Stateful m σ] [FileSystem m]

/-- A change of an input that no pass writes counts, unless it lies in a directory that is reserved
for what passes write. -/
theorem relevant_of_input (project : Project) (ledgerFile : Path)
    (stay : ∀ p ∈ declared project ledgerFile, Stays canonical p) :
    ∃ watched, ofProject canonical project ledgerFile = pure watched ∧
      ∀ p, Stays canonical p → Input project p → Unwritten m project ledgerFile p →
        (¬Reserved project ledgerFile p → judge canonical watched p = pure true) ∧
        (Reserved project ledgerFile p → judge canonical watched p = pure false) := by
  obtain ⟨watched, ran, sameInputs, sameFilters, sameIgnored⟩ := ofProject_of_stays stay
  refine ⟨watched, ran, ?_⟩
  -- Directories decide alone: whether a pass writes the path is never looked at.
  rintro p ⟨q, itself, same⟩ input -
  have declared : watched.isRelevant q = (asDeclared project ledgerFile).isRelevant p :=
    isRelevant_congr sameInputs sameFilters sameIgnored same
  simp only [judge, itself, pure_bind, declared]
  constructor
  · intro free
    rw [isRelevant_asDeclared.mpr ⟨input, free⟩]
  · intro reserved
    rw [Bool.eq_false_iff.mpr fun relevant => (isRelevant_asDeclared.mp relevant).2 reserved]

end

namespace Sample

/-- One unit with an output directory in its resource tree, and a property file beside the ledger. -/
def nested : Project where
  units := [{
    name := "app"
    output := some ⟨"/nx/res/gen"⟩
    resources := [{ directory := ⟨"/nx/res"⟩ }]
    filters := [⟨"/nx/.resflow/dev.properties"⟩] }]

def nestedLedger : Path := ⟨"/nx/.resflow/outputs.bin"⟩

/-- A resource beside the output directory. -/
def beside : Path := ⟨"/nx/res/general/a.txt"⟩

def properties : Path := ⟨"/nx/.resflow/dev.properties"⟩

theorem input_beside : Input nested beside :=
  ⟨_, List.mem_singleton_self _, .inl ⟨.main, _, List.mem_singleton_self _, by decide⟩⟩

theorem input_properties : Input nested properties :=
  ⟨_, List.mem_singleton_self _, .inr ⟨_, List.mem_singleton_self _, by decide⟩⟩

theorem unwritten_beside : Unwritten (StateM Memory) nested nestedLedger beside :=
  unwritten_of_outside (by decide +kernel) (by decide +kernel) (by decide +kernel)

theorem unwritten_properties : Unwritten (StateM Memory) nested nestedLedger properties :=
  unwritten_of_outside (by decide +kernel) (by decide +kernel) (by decide +kernel)

end Sample

/-- Told of the resource, and not of the property file beside the ledger. -/
theorem relevant_of_input_nested :
    ∃ watched, ofProject Sample.nowhere Sample.nested Sample.nestedLedger = pure watched ∧
      judge Sample.nowhere watched Sample.beside = pure true ∧
      judge Sample.nowhere watched Sample.properties = pure false := by
  have stays : ∀ p, Stays Sample.nowhere p := fun p => stays_of_absent rfl fun _ _ => .inl rfl
  have free : ¬Reserved Sample.nested Sample.nestedLedger Sample.beside := by
    rw [← any_ignored_iff]
    decide
  have reserved : Reserved Sample.nested Sample.nestedLedger Sample.properties := by
    rw [← any_ignored_iff]
    decide
  obtain ⟨watched, scope, relevant⟩ := relevant_of_input (m := StateM Memory) Sample.nested
    Sample.nestedLedger fun p _ => stays p
  refine ⟨watched, scope, ?_, ?_⟩
  · exact (relevant _ (stays _) Sample.input_beside Sample.unwritten_beside).1 free
  · exact (relevant _ (stays _) Sample.input_properties Sample.unwritten_properties).2 reserved

/-- A change of a property file beside the ledger is missed, though no pass writes it. -/
theorem missed_beside_ledger :
    ¬∀ (project : Project) (ledgerFile p : Path), Input project p →
      Unwritten (StateM Memory) project ledgerFile p →
      ∀ watched, ofProject Sample.nowhere project ledgerFile = pure watched →
        judge Sample.nowhere watched p = pure true := by
  intro relevant
  have claimed := relevant Sample.nested Sample.nestedLedger Sample.properties
    Sample.input_properties Sample.unwritten_properties _ rfl
  have both : false = true := claimed
  cases both

end Staging.WatchScope
