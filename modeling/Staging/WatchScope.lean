import Staging.Project

/-!
What a watching program reacts to. A change counts when it is at or below a resource tree or is a
property file, and is not at or below an output directory or the directory of the ledger: what a
pass writes must not start the next pass.
-/
namespace Staging

structure WatchScope where
  inputs : List Path
  filters : List Path
  ignored : List Path
  deriving DecidableEq, Repr

/-- A directory to be told about, with or without everything below it. -/
structure WatchTarget where
  path : Path
  recursive : Bool
  deriving DecidableEq, Repr

/-- Whether changes of a path are told. -/
def WatchTarget.covers (t : WatchTarget) (p : Path) : Bool :=
  if t.recursive then p.startsWith t.path else p.parent.any t.path.same

namespace WatchScope

section
variable {m : Type → Type} [Monad m]

/-- The canonical spelling of a path, or of its parent if only that exists. -/
def settle (canonical : Path → m (Option Path)) (p : Path) : m Path := do
  match ← canonical p with
  | some q => return q
  | none =>
    match p.parent, p.fileName with
    | some parent, some name => return ((← canonical parent).map (·.join name)).getD p
    | _, _ => return p

def treePaths (u : BuildUnit) : List Path :=
  Purpose.all.flatMap fun purpose => (u.treesFor purpose).map (·.directory)

def outputPaths (u : BuildUnit) : List Path := Purpose.all.filterMap u.outputFor

def ofProject (canonical : Path → m (Option Path)) (project : Project) (ledgerFile : Path) :
    m WatchScope := do
  let settleAll := List.mapM (settle canonical)
  return {
    inputs := ← settleAll (project.units.flatMap treePaths)
    filters := ← settleAll (project.units.flatMap (·.filters))
    ignored := ← settleAll (project.units.flatMap outputPaths ++ ledgerFile.parent.toList) }

end

/-- Whether a change of a settled path counts. -/
def isRelevant (s : WatchScope) (p : Path) : Bool :=
  !s.ignored.any p.startsWith && (s.filters.any p.same || s.inputs.any p.startsWith)

/-- Whether a change of a path counts, once the path is settled. -/
def judge {m : Type → Type} [Monad m] (canonical : Path → m (Option Path)) (s : WatchScope)
    (p : Path) : m Bool :=
  return s.isRelevant (← settle canonical p)

def isEmpty (s : WatchScope) : Bool := s.inputs.isEmpty && s.filters.isEmpty

/-- Adds a target for a path that no target covers yet. -/
def cover (target : WatchTarget) (p : Path) (targets : List WatchTarget) : List WatchTarget :=
  if targets.any (·.covers p) then targets else targets ++ [target]

/-- The settled root with everything below it; resource trees elsewhere, outer ones first; and the
directories of property files elsewhere. -/
def targets (s : WatchScope) (root : Path) : List WatchTarget :=
  let inputs := s.inputs.mergeSort fun p q => p.parts.length ≤ q.parts.length
  let found := inputs.foldl (fun found p => cover ⟨p, true⟩ p found) [⟨root, true⟩]
  s.filters.foldl (fun found p =>
    match p.parent with
    | none => found
    | some parent => cover ⟨parent, false⟩ p found) found

end WatchScope
end Staging
