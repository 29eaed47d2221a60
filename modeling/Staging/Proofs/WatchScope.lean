import Staging.Ledger.Storage
import Staging.Proofs.Discovery.Sources
import Staging.Proofs.Memory.Growth
import Staging.Proofs.Memory.Listing
import Staging.Proofs.Path.Relative
import Staging.WatchScope

/-!
What a pass writes does not start the next one. The watcher ignores the output directories as they
are spelled, while an output is spelled as text, with slashes for backslashes: it lies below its
directory exactly if that directory's spelling is text and has no backslash.
-/
namespace Staging

namespace Path

/-- An output lies below its destination as that is spelled exactly if the spelling is text and has no
backslash. -/
theorem startsWith_outputPath {root p : Path} {rel : String}
    (below : Candidate.relative root p = some rel) (destination : Path) :
    (⟨Candidate.outputPath destination rel⟩ : Path).startsWith destination = true ↔
      destination.spelling.Plain := by
  rw [startsWith_iff]
  constructor
  · intro lies
    exact plain_of_above lies (plain_outputPath (plain_relative below) destination)
  · intro plain
    rw [parts_outputPath]
    exact (prefix_base_of_plain plain).trans (List.prefix_append _ _)

theorem startsWith_parent {p dir : Path} (h : p.parent = some dir) : p.startsWith dir = true := by
  rw [startsWith_iff, parts_of_parent h]
  exact List.dropLast_prefix p.parts

/-- The scratch file lies in the directory of its ledger. -/
theorem startsWith_scratchFor {p dir : Path} (h : p.parent = some dir) :
    (Ledger.scratchFor p).startsWith dir = true := by
  obtain ⟨front, name, scratch, place⟩ := Memory.parts_scratchFor p
  rw [startsWith_iff, parts_of_parent h, scratch]
  rcases place with rfl | ⟨other, same, -⟩
  · exact (List.dropLast_prefix p.parts).trans (List.prefix_append _ _)
  · rw [same, List.dropLast_concat]
    exact List.prefix_append _ _

end Path

namespace WatchScope
open Discovery

theorem irrelevant_of_ignored {s : WatchScope} {p dir : Path} (mem : dir ∈ s.ignored)
    (below : p.startsWith dir = true) : s.isRelevant p = false := by
  have ignored : s.ignored.any p.startsWith = true := List.any_eq_true.mpr ⟨dir, mem, below⟩
  rw [isRelevant, ignored]
  rfl

theorem mem_outputPaths_of_treesOf {u : BuildUnit} {pair : Path × ResourceTree}
    (mem : pair ∈ treesOf u) : pair.1 ∈ outputPaths u := by
  obtain ⟨purpose, known, mem⟩ := List.mem_flatMap.mp mem
  split at mem
  · cases mem
  · rename_i destination found
    obtain ⟨tree, -, rfl⟩ := List.mem_map.mp mem
    exact List.mem_filterMap.mpr ⟨purpose, known, found⟩

section
variable {n : Type → Type} [Monad n] [LawfulMonad n] {canonical : Path → n (Option Path)}

/-- A path that is nowhere, like its parent, is settled as it is. -/
theorem settle_of_absent {p : Path} (absent : canonical p = pure none)
    (parent : ∀ dir, p.parent = some dir → canonical dir = pure none) :
    settle canonical p = pure p := by
  rw [settle, absent, pure_bind]
  simp only
  split
  · rename_i dir name found named
    rw [parent dir found, pure_bind]
    rfl
  · rfl

/-- Where each element has a pure result, so has the list. -/
theorem mapM_of_each {α β : Type} {R : α → β → Prop} {f : α → n β} {xs : List α}
    (each : ∀ x ∈ xs, ∃ y, f x = pure y ∧ R x y) :
    ∃ ys, xs.mapM f = pure ys ∧ List.Forall₂ R xs ys := by
  induction xs with
  | nil => exact ⟨[], List.mapM_nil, .nil⟩
  | cons x xs ih =>
    obtain ⟨⟨y, first, holds⟩, others⟩ := List.forall_mem_cons.mp each
    obtain ⟨ys, rest, all⟩ := ih others
    refine ⟨y :: ys, ?_, .cons holds all⟩
    simp only [List.mapM_cons, first, rest, pure_bind]

theorem mapM_settle {paths : List Path}
    (settled : ∀ p ∈ paths, settle canonical p = pure p) :
    paths.mapM (settle canonical) = pure paths := by
  obtain ⟨same, ran, all⟩ := mapM_of_each (R := Eq) fun p mem => ⟨p, settled p mem, rfl⟩
  rw [List.forall₂_eq_eq_eq] at all
  rw [ran, all]

/-- The paths that a scope is made of. -/
def declared (project : Project) (ledgerFile : Path) : List Path :=
  project.units.flatMap treePaths ++ project.units.flatMap (·.filters) ++
    (project.units.flatMap outputPaths ++ ledgerFile.parent.toList)

/-- The scope of a project whose paths are settled as they are. -/
theorem ofProject_of_settled {project : Project} {ledgerFile : Path}
    (settled : ∀ p ∈ declared project ledgerFile, settle canonical p = pure p) :
    ofProject canonical project ledgerFile = pure {
      inputs := project.units.flatMap treePaths
      filters := project.units.flatMap (·.filters)
      ignored := project.units.flatMap outputPaths ++ ledgerFile.parent.toList } := by
  rw [declared, List.forall_mem_append, List.forall_mem_append] at settled
  obtain ⟨⟨inputs, filters⟩, ignored⟩ := settled
  simp only [ofProject, mapM_settle inputs, mapM_settle filters, mapM_settle ignored, pure_bind]

theorem judge_of_ignored {s : WatchScope} {p dir : Path} (settled : settle canonical p = pure p)
    (mem : dir ∈ s.ignored) (below : p.startsWith dir = true) :
    judge canonical s p = pure false := by
  rw [judge, settled, pure_bind, irrelevant_of_ignored mem below]

variable {m : Type → Type} {σ : Type} [Monad m] [LawfulMonad m] [Stateful m σ] [FileSystem m]

/-- A candidate's output is made from a tree of its unit and the path of its source below it. -/
theorem output_of_found {project : Project} {scope : Scope} {s t : σ} {d : Discovery}
    (found : exec (Discovery.ofProject project scope : ExceptT Cancelled m _).run s = (.ok d, t))
    {e : UnitDiscovery} (discovered : e ∈ d.units) {c : Candidate} (candidate : c ∈ e.candidates) :
    ∃ u ∈ project.units, u.name = e.unit ∧
      ∃ tree ∈ treesOf u, ∃ rel, Candidate.relative tree.2.directory c.source = some rel ∧
        c.output = Candidate.outputPath tree.1 rel := by
  obtain ⟨u, covered, before, after, messages, ran⟩ :=
    mem_of_forall₂ (found_ofProject found) discovered
  have arise := (arises_ofUnit (.any m) u before trivial).2
  rw [ran] at arise
  obtain ⟨tree, mem, spec, root, destination, -, arises⟩ := arise _ rfl c candidate
  obtain ⟨rel, below, output⟩ := arises.output
  rw [root] at below
  rw [destination] at output
  exact ⟨u, (Project.mem_covered.mp covered).1, (unit_of_ofUnit ran).symm, tree, mem, rel, below,
    output⟩

/-- The output of every candidate lies below its output directory exactly if the spelling of that
directory is text without a backslash, and is then not relevant; the ledger and its scratch file are
not relevant where the ledger lies in a directory at all. -/
theorem ignored_of_discovered {project : Project} (ledgerFile : Path)
    (settled : ∀ p ∈ declared project ledgerFile, settle canonical p = pure p)
    {scope : Scope} {s t : σ} {d : Discovery}
    (found : exec (Discovery.ofProject project scope : ExceptT Cancelled m _).run s = (.ok d, t)) :
    ∃ watched, ofProject canonical project ledgerFile = pure watched ∧
      (∀ e ∈ d.units, ∀ c ∈ e.candidates, ∃ u ∈ project.units, u.name = e.unit ∧
        ∃ tree ∈ treesOf u, ∃ rel, Candidate.relative tree.2.directory c.source = some rel ∧
          c.output = Candidate.outputPath tree.1 rel ∧
          ((⟨c.output⟩ : Path).startsWith tree.1 = true ↔ tree.1.spelling.Plain) ∧
          (tree.1.spelling.Plain → settle canonical ⟨c.output⟩ = pure ⟨c.output⟩ →
            judge canonical watched ⟨c.output⟩ = pure false)) ∧
      (ledgerFile.parent ≠ none → ∀ p ∈ [ledgerFile, Ledger.scratchFor ledgerFile],
        settle canonical p = pure p → judge canonical watched p = pure false) := by
  refine ⟨_, ofProject_of_settled settled, ?_, ?_⟩
  · intro e discovered c candidate
    obtain ⟨u, unit, name, tree, mem, rel, below, output⟩ := output_of_found found discovered candidate
    have lies := Path.startsWith_outputPath below tree.1
    rw [← output] at lies
    have ignored : tree.1 ∈ project.units.flatMap outputPaths :=
      List.mem_flatMap.mpr ⟨u, unit, mem_outputPaths_of_treesOf mem⟩
    refine ⟨u, unit, name, tree, mem, rel, below, output, lies, fun plain itself => ?_⟩
    exact judge_of_ignored itself (List.mem_append_left _ ignored) (lies.mpr plain)
  · intro some p written itself
    obtain ⟨dir, parent⟩ := Option.ne_none_iff_exists'.mp some
    have below : p.startsWith dir = true := by
      rcases List.mem_pair.mp written with rfl | rfl
      · exact Path.startsWith_parent parent
      · exact Path.startsWith_scratchFor parent
    refine judge_of_ignored itself (List.mem_append_right _ ?_) below
    rw [parent]
    exact List.mem_singleton_self dir

end

/-- No path is anywhere. -/
def Sample.nowhere : Path → Id (Option Path) := fun _ => none

/-- One unit whose outputs go into its own resource tree. -/
def Sample.project (destination : String) : Project where
  units := [{ name := "app", output := some ⟨destination⟩, resources := [{ directory := ⟨"res"⟩ }] }]

/-- What is discovered in a tree with one resource. -/
def Sample.discovered (destination : String) : Except Cancelled Discovery × Memory :=
  exec (Discovery.ofProject (Sample.project destination) .all :
    ExceptT Cancelled (StateM Memory) _).run (Memory.empty.addFile ⟨"res/f.txt"⟩ [120])

theorem Sample.candidate (destination output : String)
    (outputs : (Sample.discovered destination).1.toOption.map (fun d =>
      d.units.flatMap fun e => e.candidates.map (·.output)) = some [output]) :
    ∃ d, Sample.discovered destination = (.ok d, (Sample.discovered destination).2) ∧
      ∃ e ∈ d.units, ∃ c ∈ e.candidates, c.output = output := by
  cases result : (Sample.discovered destination).1 with
  | error stop =>
    rw [result] at outputs
    cases outputs
  | ok d =>
    rw [result] at outputs
    have listed : (d.units.flatMap fun e => e.candidates.map (·.output)) = [output] :=
      Option.some.inj outputs
    have mem := listed ▸ List.mem_singleton_self output
    obtain ⟨e, discovered, mem⟩ := List.mem_flatMap.mp mem
    obtain ⟨c, candidate, same⟩ := List.mem_map.mp mem
    exact ⟨d, Prod.ext result rfl, e, discovered, c, candidate, same⟩

/-- Nothing is told of the output in `res/gen`, nor of the ledger, though both lie in the resource
tree. -/
theorem ignored_of_discovered_sample :
    (∀ p ∈ declared (Sample.project "res/gen") ⟨"res/cache/outputs.bin"⟩,
        settle Sample.nowhere p = pure p) ∧
      ∃ d t, exec (Discovery.ofProject (Sample.project "res/gen") .all :
          ExceptT Cancelled (StateM Memory) _).run (Memory.empty.addFile ⟨"res/f.txt"⟩ [120]) =
            (.ok d, t) ∧
        ∃ watched, ofProject Sample.nowhere (Sample.project "res/gen")
            ⟨"res/cache/outputs.bin"⟩ = pure watched ∧
          (∃ e ∈ d.units, ∃ c ∈ e.candidates, c.output = "res/gen/f.txt" ∧
            judge Sample.nowhere watched ⟨c.output⟩ = pure false) ∧
          judge Sample.nowhere watched ⟨"res/cache/outputs.bin"⟩ = pure false := by
  have settled : ∀ p, settle Sample.nowhere p = pure p :=
    fun p => settle_of_absent rfl fun _ _ => rfl
  obtain ⟨d, ran, e, discovered, c, candidate, output⟩ :=
    Sample.candidate "res/gen" "res/gen/f.txt" (by decide +kernel)
  obtain ⟨watched, scope, ignored, ledger⟩ :=
    ignored_of_discovered ⟨"res/cache/outputs.bin"⟩ (fun p _ => settled p) ran
  refine ⟨fun p _ => settled p, d, _, ran, watched, scope,
    ⟨e, discovered, c, candidate, output, ?_⟩,
    ledger (by decide +kernel) _ List.mem_cons_self (settled _)⟩
  obtain ⟨u, unit, -, tree, mem, -, -, -, -, plain⟩ := ignored e discovered c candidate
  have destinations : ∀ u ∈ (Sample.project "res/gen").units, ∀ tree ∈ treesOf u,
      tree.1.spelling.Plain := by
    decide +kernel
  exact plain (destinations u unit tree mem) (settled _)

/-- With a backslash in the spelling of the output directory, the output is relevant. -/
theorem relevant_of_backslash :
    ¬∀ (project : Project) (ledgerFile : Path) (st st' : Memory) (d : Discovery), st.Made →
      exec (Discovery.ofProject project .all : ExceptT Cancelled (StateM Memory) _).run st =
        (.ok d, st') →
      ∀ watched, ofProject Sample.nowhere project ledgerFile = pure watched →
        ∀ e ∈ d.units, ∀ c ∈ e.candidates,
          judge Sample.nowhere watched ⟨c.output⟩ = pure false := by
  intro ignored
  obtain ⟨d, ran, e, discovered, c, candidate, output⟩ :=
    Sample.candidate "res\\gen" "res/gen/f.txt" (by decide +kernel)
  have claimed := ignored (Sample.project "res\\gen") ⟨"cache/outputs.bin"⟩ _ _ d
    (.addFile _ _ .empty) ran _ rfl e discovered c candidate
  rw [output] at claimed
  have both : true = false := claimed
  cases both

end WatchScope
end Staging
