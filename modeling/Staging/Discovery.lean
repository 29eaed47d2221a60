import Staging.Candidate
import Staging.Charset
import Staging.Message
import Staging.PropertySet.Reader

/-!
Discovery: the candidates of every unit that a pass covers. A unit that cannot be discovered is
misconfigured; it says why, has no candidates, and leaves the other units alone. Only cancelling
ends discovery early.
-/
namespace Staging

inductive Readiness where
  | ready
  | misconfigured
  deriving DecidableEq, Repr

structure UnitDiscovery where
  unit : String
  readiness : Readiness
  candidates : List Candidate
  deriving DecidableEq

structure Discovery where
  units : List UnitDiscovery
  messages : List Message
  deriving DecidableEq

/-- The pass has been cancelled. -/
structure Cancelled where
  deriving DecidableEq, Repr

/-- What the property files of a unit give, and the files that could not be read. -/
structure FilterFiles where
  properties : PropertySet := .empty
  failures : List (Path × FsError) := []

namespace FilterFiles

/-- Property files are read as ISO-8859-1. -/
def ofBytes (bytes : Bytes) : PropertySet := PropertySet.read (Charset.latin1.decode bytes)

def add (f : FilterFiles) (p : Path) : Except FsError Bytes → FilterFiles
  | .ok bytes => { f with properties := f.properties.overlay (ofBytes bytes) }
  | .error e => { f with failures := f.failures ++ [(p, e)] }

/-- Reads the files in order, later ones winning. -/
def load {m : Type → Type} [Monad m] [FileSystem m] (paths : List Path) : m FilterFiles :=
  paths.foldlM (fun f p => return f.add p (← FileSystem.read p)) {}

end FilterFiles

namespace Discovery

def missingOutput (u : BuildUnit) (p : Purpose) : Message where
  severity := .error
  unit := u.name
  text := "output directory is not specified for " ++ p.name ++ " resources of unit '" ++
    u.name ++ "'"

def unreadFilter (u : BuildUnit) (failure : Path × FsError) : Message where
  severity := .warning
  unit := u.name
  location := failure.1
  text := "cannot read the filter: " ++ failure.2.message

def badPattern (u : BuildUnit) (tree : ResourceTree) (e : PatternError) : Message where
  severity := .error
  unit := u.name
  location := tree.directory
  text := e.message

def unlistedTree (u : BuildUnit) (tree : ResourceTree) (why : String) : Message where
  severity := .error
  unit := u.name
  location := tree.directory
  text := "cannot list resources: " ++ why

def unknownUnit (name : String) : Message where
  severity := .warning
  text := "Unit not found: " ++ name

/-- Why a unit has no candidates. -/
inductive UnitStop where
  | cancelled
  | failed (message : Message)

def UnitStop.ofWalk (u : BuildUnit) (tree : ResourceTree) : WalkStop → UnitStop
  | .cancelled => cancelled
  | .unlisted e => failed (unlistedTree u tree e.summary)
  | .tooDeep => failed (unlistedTree u tree "directories lie too deep")

/-- The trees of a unit with their destinations, main before test, in the order declared. -/
def treesOf (u : BuildUnit) : List (Path × ResourceTree) :=
  Purpose.all.flatMap fun p =>
    match u.outputFor p with
    | none => []
    | some destination => (u.treesFor p).map fun tree => (destination, tree)

variable {m : Type → Type} [Monad m] [FileSystem m]

/-- The candidates of one tree of a unit. -/
def ofTree (u : BuildUnit) (properties : PropertySet) (fingerprint : UInt64) :
    Path × ResourceTree → ExceptT UnitStop m (List Candidate) := fun (destination, tree) => do
  match Selection.compile tree.includes tree.excludes with
  | .error e => throw (.failed (badPattern u tree e))
  | .ok selection =>
    (Candidate.collect ⟨u.name, tree.directory, destination, selection, tree.filtered,
      properties, fingerprint⟩).adapt (UnitStop.ofWalk u tree)

/-- One unit and what there is to say about it. -/
def ofUnit (u : BuildUnit) : ExceptT Cancelled m (UnitDiscovery × List Message) := do
  match u.missingOutputs with
  | [] =>
    let files ← (FilterFiles.load u.filters : m FilterFiles)
    let warnings := files.failures.map (unreadFilter u)
    let properties := u.properties.overlay files.properties
    let fingerprint := PropertySet.fingerprint properties
    match ← (((treesOf u).mapM (ofTree u properties fingerprint)).run : m _) with
    | .ok found => return (⟨u.name, .ready, found.flatten⟩, warnings)
    | .error (.failed why) => return (⟨u.name, .misconfigured, []⟩, warnings ++ [why])
    | .error .cancelled => throw {}
  | missing => return (⟨u.name, .misconfigured, []⟩, missing.map (missingOutput u))

def pollUnit : ExceptT Cancelled m Unit := do
  if ← (FileSystem.isCancelled : m Bool) then throw {}

/-- All units in scope, in project order. -/
def ofProject (p : Project) (scope : Scope) : ExceptT Cancelled m Discovery := do
  let unknown := scope.names.filter fun name => (p.unit? name).isNone
  let found ← (p.units.filter fun u => scope.covers u.name).mapM fun u => do
    pollUnit
    ofUnit u
  return ⟨found.map (·.1), unknown.map unknownUnit ++ found.flatMap (·.2)⟩

end Discovery
end Staging
