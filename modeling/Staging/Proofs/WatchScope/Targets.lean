import Staging.Proofs.WatchScope.Inputs

/-!
What a watching program asks to be told of. Targets are added one after the other, each for a path that
those before it do not cover. Outer directories come first, so no target lies in a later one, and
property files come last, so their directories lie in none.
-/
namespace Staging

namespace WatchTarget

variable {t : WatchTarget} {p q : Path}

/-- A target covers what is at or below it, or what lies directly in it. -/
theorem covers_iff :
    t.covers p = true ↔ (t.recursive = true ∧ p.startsWith t.path = true) ∨
      (t.recursive = false ∧ ∃ dir, p.parent = some dir ∧ dir.parts = t.path.parts) := by
  rw [covers]
  cases t.recursive with
  | true => simp
  | false =>
    simp only [Bool.false_eq_true, if_false, false_and, false_or, true_and, Option.any_eq_true,
      Path.same, beq_iff_eq]
    constructor
    · rintro ⟨dir, parent, same⟩
      exact ⟨dir, parent, same.symm⟩
    · rintro ⟨dir, parent, same⟩
      exact ⟨dir, parent, same.symm⟩

theorem covers_self (t : WatchTarget) (recursive : t.recursive = true) : t.covers t.path = true := by
  apply covers_iff.mpr
  left
  exact ⟨recursive, Path.startsWith_iff.mpr (List.prefix_refl _)⟩

/-- Whether a path is covered depends on no spelling. -/
theorem covers_congr (same : p.parts = q.parts) (covered : t.covers p = true) :
    t.covers q = true := by
  apply covers_iff.mpr
  rcases covers_iff.mp covered with ⟨recursive, below⟩ | ⟨flat, dir, parent, place⟩
  · left
    rw [Path.startsWith, same] at below
    exact ⟨recursive, below⟩
  · right
    have parents : p.parent.map Path.parts = q.parent.map Path.parts := by
      rw [Path.parts_parent, Path.parts_parent, same]
    rw [parent, Option.map_some] at parents
    obtain ⟨dir', parent', same'⟩ := Option.map_eq_some_iff.mp parents.symm
    exact ⟨flat, dir', parent', same'.trans place⟩

/-- The two targets are not both needed to tell of what they cover. -/
structure Apart (t t' : WatchTarget) : Prop where
  outside : t.recursive = true → t'.path.startsWith t.path = false
  outside' : t'.recursive = true → t.path.startsWith t'.path = false
  distinct : t.recursive = false → t'.recursive = false → t.path.same t'.path = false

end WatchTarget

namespace WatchScope
open WatchTarget (Apart)

/-- Nothing among the targets after the root is told twice. -/
structure Tidy (root : Path) (rest : List WatchTarget) : Prop where
  outside : ∀ t ∈ rest, t.path.startsWith root = false
  apart : rest.Pairwise Apart

variable {root p : Path} {target : WatchTarget} {found rest : List WatchTarget}

/-! Adding a target -/

theorem prefix_cover (target : WatchTarget) (p : Path) (found : List WatchTarget) :
    found <+: cover target p found := by
  rw [cover]
  split
  · exact List.prefix_refl _
  · exact List.prefix_append _ _

theorem covered_cover (own : target.covers p = true) (found : List WatchTarget) :
    ∃ t ∈ cover target p found, t.covers p = true := by
  rw [cover]
  split
  · rename_i known
    exact List.any_eq_true.mp known
  · exact ⟨target, List.mem_append_right _ (List.mem_singleton_self _), own⟩

/-- A path that is covered already adds nothing; any other path adds its target at the end. -/
theorem cover_cases (target : WatchTarget) (p : Path) (found : List WatchTarget) :
    cover target p found = found ∨
      (cover target p found = found ++ [target] ∧ ∀ t ∈ found, t.covers p = false) := by
  rw [cover]
  split
  · exact .inl rfl
  · rename_i unknown
    right
    refine ⟨rfl, fun t mem => ?_⟩
    rw [List.any_eq_true, not_exists] at unknown
    exact Bool.eq_false_iff.mpr fun covered => unknown t ⟨mem, covered⟩

theorem Tidy.concat (tidy : Tidy root rest) (outside : target.path.startsWith root = false)
    (apart : ∀ t ∈ rest, Apart t target) : Tidy root (rest ++ [target]) where
  outside := by
    intro t mem
    rcases List.mem_append.mp mem with mem | mem
    · exact tidy.outside t mem
    · rw [List.mem_singleton.mp mem]
      exact outside
  apart := by
    apply List.pairwise_append.mpr
    refine ⟨tidy.apart, List.pairwise_singleton _ _, ?_⟩
    intro t mem t' mem'
    rw [List.mem_singleton.mp mem']
    exact apart t mem

/-- A directory with at least as many parts as the targets so far lies in one of them, or apart from
all of them. -/
theorem Tidy.cover_tree (tidy : Tidy root rest)
    (outer : ∀ t ∈ rest, t.recursive = true ∧ t.path.parts.length ≤ p.parts.length) :
    ∃ rest', cover ⟨p, true⟩ p (⟨root, true⟩ :: rest) = ⟨root, true⟩ :: rest' ∧ Tidy root rest' ∧
      ∀ t ∈ rest', t ∈ rest ∨ t = ⟨p, true⟩ := by
  rcases cover_cases ⟨p, true⟩ p (⟨root, true⟩ :: rest) with same | ⟨more, unknown⟩
  · exact ⟨rest, same, tidy, fun t mem => .inl mem⟩
  · have below : ∀ t ∈ (⟨root, true⟩ :: rest), t.recursive = true → p.startsWith t.path = false := by
      intro t mem recursive
      have uncovered := unknown t mem
      rwa [WatchTarget.covers, if_pos recursive] at uncovered
    have outside : (⟨p, true⟩ : WatchTarget).path.startsWith root = false :=
      below ⟨root, true⟩ List.mem_cons_self rfl
    refine ⟨rest ++ [(⟨p, true⟩ : WatchTarget)], more, tidy.concat outside ?_, ?_⟩
    · intro t mem
      obtain ⟨recursive, shorter⟩ := outer t mem
      have outside := below t (List.mem_cons_of_mem _ mem) recursive
      refine ⟨fun _ => outside, fun _ => ?_, fun flat => ?_⟩
      · -- Equally many parts and one path at the start of the other: the paths are the same.
        apply Bool.eq_false_iff.mpr
        intro inside
        have front := Path.startsWith_iff.mp inside
        have same := front.eq_of_length_le shorter
        have within : p.startsWith t.path = true :=
          Path.startsWith_iff.mpr (same ▸ List.prefix_refl _)
        rw [outside] at within
        cases within
      · rw [recursive] at flat
        cases flat
    · intro t mem
      rcases List.mem_append.mp mem with mem | mem
      · exact .inl mem
      · exact .inr (List.mem_singleton.mp mem)

/-- The directory of a property file that no target covers lies in none of the targets. -/
theorem Tidy.cover_filter {dir : Path} (tidy : Tidy root rest) (parent : p.parent = some dir) :
    ∃ rest', cover ⟨dir, false⟩ p (⟨root, true⟩ :: rest) = ⟨root, true⟩ :: rest' ∧
      Tidy root rest' := by
  rcases cover_cases ⟨dir, false⟩ p (⟨root, true⟩ :: rest) with same | ⟨more, unknown⟩
  · exact ⟨rest, same, tidy⟩
  · have below : ∀ t ∈ (⟨root, true⟩ :: rest), t.recursive = true →
        dir.startsWith t.path = false := by
      intro t mem recursive
      apply Bool.eq_false_iff.mpr
      intro inside
      have own := Path.startsWith_iff.mp (Path.startsWith_parent parent)
      have whole := (Path.startsWith_iff.mp inside).trans own
      have covered : t.covers p = true :=
        WatchTarget.covers_iff.mpr (.inl ⟨recursive, Path.startsWith_iff.mpr whole⟩)
      rw [unknown t mem] at covered
      cases covered
    have outside : (⟨dir, false⟩ : WatchTarget).path.startsWith root = false :=
      below ⟨root, true⟩ List.mem_cons_self rfl
    refine ⟨rest ++ [(⟨dir, false⟩ : WatchTarget)], more, tidy.concat outside ?_⟩
    intro t mem
    refine ⟨below t (List.mem_cons_of_mem _ mem), nofun, fun flat _ => ?_⟩
    apply Bool.eq_false_iff.mpr
    intro same
    have place := (eq_of_beq same).symm
    have covered : t.covers p = true :=
      WatchTarget.covers_iff.mpr (.inr ⟨flat, dir, parent, place⟩)
    rw [unknown t (List.mem_cons_of_mem _ mem)] at covered
    cases covered

/-! Adding targets for one path after the other -/

section
variable {α β : Type} {step : List α → β → List α}

theorem prefix_foldl (grows : ∀ found x, found <+: step found x) (xs : List β) (found : List α) :
    found <+: xs.foldl step found := by
  induction xs generalizing found with
  | nil => exact List.prefix_refl _
  | cons x xs ih => exact (grows found x).trans (ih (step found x))

/-- What one step adds stays. -/
theorem exists_mem_foldl {P : α → Prop} {x : β} (grows : ∀ found x, found <+: step found x)
    (here : ∀ found, ∃ t ∈ step found x, P t) {xs : List β} (mem : x ∈ xs) (found : List α) :
    ∃ t ∈ xs.foldl step found, P t := by
  obtain ⟨front, back, rfl⟩ := List.append_of_mem mem
  rw [List.foldl_append, List.foldl_cons]
  obtain ⟨t, added, holds⟩ := here (front.foldl step found)
  exact ⟨t, (prefix_foldl grows back _).subset added, holds⟩

end

/-- The target of a directory. -/
def coverTree (found : List WatchTarget) (p : Path) : List WatchTarget := cover ⟨p, true⟩ p found

/-- The target of a property file, which is its directory. -/
def coverFilter (found : List WatchTarget) (p : Path) : List WatchTarget :=
  match p.parent with
  | none => found
  | some parent => cover ⟨parent, false⟩ p found

theorem targets_eq (s : WatchScope) (root : Path) :
    s.targets root = s.filters.foldl coverFilter
      ((s.inputs.mergeSort fun p q => p.parts.length ≤ q.parts.length).foldl coverTree
        [⟨root, true⟩]) := rfl

theorem prefix_coverTree (found : List WatchTarget) (p : Path) : found <+: coverTree found p :=
  prefix_cover ⟨p, true⟩ p found

theorem prefix_coverFilter (found : List WatchTarget) (p : Path) : found <+: coverFilter found p := by
  rw [coverFilter]
  split
  · exact List.prefix_refl _
  · exact prefix_cover _ p found

theorem covered_coverFilter (placed : p.parent ≠ none) (found : List WatchTarget) :
    ∃ t ∈ coverFilter found p, t.covers p = true := by
  obtain ⟨dir, parent⟩ := Option.ne_none_iff_exists'.mp placed
  have own : (⟨dir, false⟩ : WatchTarget).covers p = true :=
    WatchTarget.covers_iff.mpr (.inr ⟨rfl, dir, parent, rfl⟩)
  simp only [coverFilter, parent]
  exact covered_cover own found

/-- The targets of directories, outer ones first: none is told twice, and each tells of everything
below it. -/
theorem Tidy.trees {inputs : List Path} (tidy : Tidy root rest)
    (sorted : inputs.Pairwise fun p q => p.parts.length ≤ q.parts.length)
    (outer : ∀ t ∈ rest, t.recursive = true ∧
      ∀ p ∈ inputs, t.path.parts.length ≤ p.parts.length) :
    ∃ rest', inputs.foldl coverTree (⟨root, true⟩ :: rest) = ⟨root, true⟩ :: rest' ∧
      Tidy root rest' ∧ ∀ t ∈ rest', t.recursive = true := by
  induction inputs generalizing rest with
  | nil => exact ⟨rest, rfl, tidy, fun t mem => (outer t mem).1⟩
  | cons p inputs ih =>
    obtain ⟨longer, sorted⟩ := List.pairwise_cons.mp sorted
    obtain ⟨rest', step, tidy', new⟩ := tidy.cover_tree (p := p) fun t mem =>
      ⟨(outer t mem).1, (outer t mem).2 p List.mem_cons_self⟩
    rw [List.foldl_cons, coverTree, step]
    apply ih tidy' sorted
    intro t mem
    rcases new t mem with known | rfl
    · exact ⟨(outer t known).1, fun q later => (outer t known).2 q (List.mem_cons_of_mem _ later)⟩
    · exact ⟨rfl, longer⟩

theorem Tidy.filters (tidy : Tidy root rest) (filters : List Path) :
    ∃ rest', filters.foldl coverFilter (⟨root, true⟩ :: rest) = ⟨root, true⟩ :: rest' ∧
      Tidy root rest' := by
  induction filters generalizing rest with
  | nil => exact ⟨rest, rfl, tidy⟩
  | cons p filters ih =>
    rw [List.foldl_cons, coverFilter]
    split
    · exact ih tidy
    · rename_i dir parent
      obtain ⟨rest', step, tidy'⟩ := tidy.cover_filter parent
      rw [step]
      exact ih tidy'

theorem sorted_inputs (s : WatchScope) :
    (s.inputs.mergeSort fun p q => p.parts.length ≤ q.parts.length).Pairwise
      fun p q => p.parts.length ≤ q.parts.length := by
  have transitive (p q r : Path) (le : decide (p.parts.length ≤ q.parts.length) = true)
      (le' : decide (q.parts.length ≤ r.parts.length) = true) :
      decide (p.parts.length ≤ r.parts.length) = true :=
    decide_eq_true ((of_decide_eq_true le).trans (of_decide_eq_true le'))
  have total (p q : Path) : (decide (p.parts.length ≤ q.parts.length) ||
      decide (q.parts.length ≤ p.parts.length)) = true := by
    rw [Bool.or_eq_true, decide_eq_true_iff, decide_eq_true_iff]
    exact Nat.le_total _ _
  exact (List.pairwise_mergeSort transitive total s.inputs).imp of_decide_eq_true

/-- The targets before those of the property files. -/
theorem exists_trees (s : WatchScope) (root : Path) :
    ∃ trees, (s.inputs.mergeSort fun p q => p.parts.length ≤ q.parts.length).foldl coverTree
        [⟨root, true⟩] = ⟨root, true⟩ :: trees ∧ Tidy root trees ∧
      (∀ t ∈ trees, t.recursive = true) ∧ ⟨root, true⟩ :: trees <+: s.targets root := by
  have nothing : ∀ t ∈ ([] : List WatchTarget), t.recursive = true ∧
      ∀ p ∈ s.inputs.mergeSort fun p q => p.parts.length ≤ q.parts.length,
        t.path.parts.length ≤ p.parts.length :=
    List.forall_mem_nil _
  obtain ⟨trees, found, tidy, recursive⟩ :=
    (⟨List.forall_mem_nil _, .nil⟩ : Tidy root []).trees s.sorted_inputs nothing
  refine ⟨trees, found, tidy, recursive, ?_⟩
  rw [targets_eq, found]
  exact prefix_foldl prefix_coverFilter s.filters _

theorem tidy_targets (s : WatchScope) (root : Path) :
    ∃ rest, s.targets root = ⟨root, true⟩ :: rest ∧ Tidy root rest := by
  obtain ⟨trees, found, tidy, -⟩ := s.exists_trees root
  rw [targets_eq, found]
  exact tidy.filters s.filters

theorem covered_input {s : WatchScope} (mem : p ∈ s.inputs) (root : Path) :
    ∃ t ∈ s.targets root, t.recursive = true ∧ t.covers p = true := by
  obtain ⟨trees, all, -, recursive, kept⟩ := s.exists_trees root
  have here (found : List WatchTarget) : ∃ t ∈ coverTree found p, t.covers p = true :=
    covered_cover (WatchTarget.covers_self ⟨p, true⟩ rfl) found
  obtain ⟨t, found, covered⟩ :=
    exists_mem_foldl prefix_coverTree here (List.mem_mergeSort.mpr mem) [⟨root, true⟩]
  rw [all] at found
  refine ⟨t, kept.subset found, ?_, covered⟩
  rcases List.mem_cons.mp found with rfl | mem
  · rfl
  · exact recursive t mem

theorem covered_filter {s : WatchScope} (mem : p ∈ s.filters) (placed : p.parent ≠ none)
    (root : Path) : ∃ t ∈ s.targets root, t.covers p = true := by
  rw [targets_eq]
  exact exists_mem_foldl prefix_coverFilter (covered_coverFilter placed) mem _

theorem covered_relevant {s : WatchScope} (placed : ∀ p ∈ s.filters, p.parent ≠ none)
    (relevant : s.isRelevant p = true) (root : Path) :
    ∃ t ∈ s.targets root, t.covers p = true := by
  rw [isRelevant, Bool.and_eq_true, Bool.or_eq_true, List.any_eq_true, List.any_eq_true] at relevant
  rcases relevant.2 with ⟨filter, mem, same⟩ | ⟨dir, mem, below⟩
  · obtain ⟨t, found, covered⟩ := covered_filter mem (placed filter mem) root
    exact ⟨t, found, WatchTarget.covers_congr (eq_of_beq same).symm covered⟩
  · obtain ⟨t, found, recursive, covered⟩ := covered_input mem root
    rw [WatchTarget.covers, if_pos recursive] at covered
    have within := (Path.startsWith_iff.mp covered).trans (Path.startsWith_iff.mp below)
    refine ⟨t, found, WatchTarget.covers_iff.mpr (.inl ⟨recursive, ?_⟩)⟩
    exact Path.startsWith_iff.mpr within

/-- A path among others has a spelling among theirs. -/
theorem exists_spelled {paths paths' : List Path}
    (same : paths'.map Path.parts = paths.map Path.parts) (mem : p ∈ paths) :
    ∃ q ∈ paths', q.parts = p.parts := by
  have known : p.parts ∈ paths'.map Path.parts := by
    rw [same]
    exact List.mem_map_of_mem mem
  exact List.mem_map.mp known

theorem parent_ne_none_congr {q : Path} (same : q.parts = p.parts) (placed : p.parent ≠ none) :
    q.parent ≠ none := by
  intro none
  apply placed
  have parents : p.parent.map Path.parts = q.parent.map Path.parts := by
    rw [Path.parts_parent, Path.parts_parent, same]
  rw [none] at parents
  exact Option.map_eq_none_iff.mp parents

section
variable {n : Type → Type} [Monad n] [LawfulMonad n] {canonical : Path → n (Option Path)}

/-- Each declared directory lies in a target that is told of as a whole, each property file lies in
such a target or directly in another one, and so does whatever counts. The root comes first, and none
of the other targets lies in a target that is told of as a whole or is told of twice. -/
theorem targets_cover_inputs (project : Project) (ledgerFile root : Path)
    (stay : ∀ p ∈ root :: declared project ledgerFile, Stays canonical p)
    (placed : ∀ u ∈ project.units, ∀ filter ∈ u.filters, filter.parent ≠ none) :
    ∃ watched start, ofProject canonical project ledgerFile = pure watched ∧
      settle canonical root = pure start ∧ start.parts = root.parts ∧
      (∀ u ∈ project.units, ∀ dir ∈ treePaths u,
        ∃ t ∈ watched.targets start, t.recursive = true ∧ t.covers dir = true) ∧
      (∀ u ∈ project.units, ∀ filter ∈ u.filters,
        ∃ t ∈ watched.targets start, t.covers filter = true) ∧
      (∀ p, watched.isRelevant p = true → ∃ t ∈ watched.targets start,
        (t.recursive = true ∧ p.startsWith t.path = true) ∨
          (t.recursive = false ∧ ∃ dir, p.parent = some dir ∧ dir.parts = t.path.parts)) ∧
      ∃ rest, watched.targets start = ⟨start, true⟩ :: rest ∧ Tidy start rest := by
  obtain ⟨⟨start, settled, same⟩, stay⟩ := List.forall_mem_cons.mp stay
  obtain ⟨watched, ran, inputs, filters, -⟩ := ofProject_of_stays stay
  refine ⟨watched, start, ran, settled, same, ?_, ?_, ?_, watched.tidy_targets start⟩
  · intro u unit dir mem
    obtain ⟨dir', mem', spelled⟩ := exists_spelled inputs (List.mem_flatMap.mpr ⟨u, unit, mem⟩)
    obtain ⟨t, found, recursive, covered⟩ := covered_input mem' start
    exact ⟨t, found, recursive, WatchTarget.covers_congr spelled covered⟩
  · intro u unit filter mem
    obtain ⟨filter', mem', spelled⟩ := exists_spelled filters (List.mem_flatMap.mpr ⟨u, unit, mem⟩)
    have placed' := parent_ne_none_congr spelled (placed u unit filter mem)
    obtain ⟨t, found, covered⟩ := covered_filter mem' placed' start
    exact ⟨t, found, WatchTarget.covers_congr spelled covered⟩
  · intro p relevant
    have placed' : ∀ filter ∈ watched.filters, filter.parent ≠ none := by
      intro filter' mem
      obtain ⟨filter, mem', spelled⟩ := exists_spelled filters.symm mem
      obtain ⟨u, unit, declared⟩ := List.mem_flatMap.mp mem'
      exact parent_ne_none_congr spelled.symm (placed u unit filter declared)
    obtain ⟨t, found, covered⟩ := covered_relevant placed' relevant start
    exact ⟨t, found, WatchTarget.covers_iff.mp covered⟩

end

namespace Sample

/-- Directories and property files outside the root, an inner directory before the outer one. -/
def outside : Project where
  units := [{
    name := "app"
    output := some ⟨"/nx/out"⟩
    resources := [{ directory := ⟨"/ny/res/nested"⟩ }, { directory := ⟨"/nx/res"⟩ }]
    testOutput := some ⟨"/nx/out-test"⟩
    testResources := [{ directory := ⟨"/ny/res"⟩ }]
    filters := [⟨"/ny/filters/ci.properties"⟩, ⟨"/ny/filters/prod.properties"⟩] }]

end Sample

/-- The inner directory and both property files are covered, and nothing is told twice. -/
theorem targets_cover_inputs_outside :
    (∀ p ∈ (⟨"/nx"⟩ : Path) :: declared Sample.outside Sample.nestedLedger,
      Stays Sample.nowhere p) ∧
    (∀ u ∈ Sample.outside.units, ∀ filter ∈ u.filters, filter.parent ≠ none) ∧
    ∃ watched start, ofProject Sample.nowhere Sample.outside Sample.nestedLedger = pure watched ∧
      settle Sample.nowhere ⟨"/nx"⟩ = pure start ∧
      (∃ t ∈ watched.targets start, t.recursive = true ∧ t.covers ⟨"/ny/res/nested"⟩ = true) ∧
      (∃ t ∈ watched.targets start, t.covers ⟨"/ny/filters/prod.properties"⟩ = true) ∧
      ∃ rest, watched.targets start = ⟨start, true⟩ :: rest ∧ Tidy start rest := by
  have stays : ∀ p, Stays Sample.nowhere p := fun p => stays_of_absent rfl fun _ _ => .inl rfl
  have placed : ∀ u ∈ Sample.outside.units, ∀ filter ∈ u.filters, filter.parent ≠ none := by
    decide
  refine ⟨fun p _ => stays p, placed, ?_⟩
  obtain ⟨watched, start, ran, settled, -, trees, filters, -, tidy⟩ :=
    targets_cover_inputs Sample.outside Sample.nestedLedger ⟨"/nx"⟩ (fun p _ => stays p) placed
  have unit : Sample.outside.units.head (by decide) ∈ Sample.outside.units := List.mem_cons_self
  refine ⟨watched, start, ran, settled, ?_, ?_, tidy⟩
  · exact trees _ unit _ List.mem_cons_self
  · exact filters _ unit _ (List.mem_cons_of_mem _ List.mem_cons_self)

end WatchScope
end Staging
