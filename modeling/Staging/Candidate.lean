import Staging.FileSystem
import Staging.Project
import Staging.Selection
import Staging.Stamp

/-!
Candidates: the files of a resource tree that are to be staged. A tree is walked depth first in
order of file names, so the order of candidates does not depend on how directories list their
entries. A directory that cannot be listed fails the whole tree: half a listing would make the
outputs it leaves out look obsolete.
-/
namespace Staging

/-- One file to copy or filter. -/
structure Candidate where
  unit : String
  source : Path
  /-- The output path as the ledger records it. -/
  output : String
  filtered : Bool
  properties : PropertySet
  stamp : Stamp
  deriving DecidableEq

/-- A resource tree with everything that its candidates take from their unit. -/
structure TreeSpec where
  unit : String
  root : Path
  destination : Path
  selection : Selection
  filtered : Bool
  properties : PropertySet
  fingerprint : UInt64

/-- Why a walk has no result. -/
inductive WalkStop where
  | cancelled
  | unlisted (e : FsError)
  /-- Directories lie deeper inside one another than the file system said they could. Walking as such
  has no limit: this stop comes of the bound on the recursion alone, which is not reached in a file
  system that lists as a tree does. -/
  | tooDeep
  deriving DecidableEq, Repr

namespace Candidate

/-- Backslashes count as separators. -/
def forwardSlashes (s : String) : List Char :=
  s.toList.map fun c => if c = '\\' then '/' else c

/-- A path below the root as text with forward slashes. What is no text in it is lost. -/
def relative (root p : Path) : Option String :=
  (p.stripPrefix root).map fun q => String.ofList (forwardSlashes q.text)

/-- The destination, as text with forward slashes, and the relative path with one separator between
them. What is no text in the destination is lost. -/
def outputPath (destination : Path) (rel : String) : String :=
  let front := ((forwardSlashes destination.text).reverse.dropWhile (· == '/')).reverse
  String.ofList front ++ "/" ++ rel

/-- File names in byte order; a path without a name comes first. -/
def nameOrder (p q : Path) : Bool :=
  match p.fileName, q.fileName with
  | none, _ => true
  | some _, none => false
  | some a, some b => decide (a.bytes ≤ b.bytes)

def ofFile (spec : TreeSpec) (source : Path) (rel : String) (time : Int64) : Candidate where
  unit := spec.unit
  source
  output := outputPath spec.destination rel
  filtered := spec.filtered
  properties := spec.properties
  stamp := ⟨time, spec.filtered, spec.fingerprint⟩

variable {m : Type → Type} [Monad m] [FileSystem m]

/-- Stops here if the pass has been cancelled. -/
def poll : ExceptT WalkStop m Unit := do
  if ← (FileSystem.isCancelled : m Bool) then throw .cancelled

/-- The candidate of a file, if the tree selects it. A file whose time cannot be read gets a stamp
that is never current. -/
def visitFile (spec : TreeSpec) (p : Path) : m (List Candidate) := do
  match relative spec.root p with
  | none => return []
  | some rel =>
    if spec.selection.selects rel then
      let time ← FileSystem.modified p
      return [ofFile spec p rel (time.toOption.getD Stamp.unknownTime)]
    else return []

/-- The candidates of one directory entry, subdirectories being left to `descend`. -/
def visit (spec : TreeSpec) (descend : Path → ExceptT WalkStop m (List Candidate)) (p : Path) :
    ExceptT WalkStop m (List Candidate) := do
  if ← (FileSystem.isDir p : m Bool) then descend p
  else if ← (FileSystem.isFile p : m Bool) then do
    poll
    (visitFile spec p : m _)
  else return []

/-- The candidates below a directory, no more than so many levels down. -/
def walk (spec : TreeSpec) : (levels : Nat) → Path → ExceptT WalkStop m (List Candidate)
  | 0, _ => throw .tooDeep
  | levels + 1, dir => do
    poll
    match ← (FileSystem.list dir : m _) with
    | .error e => throw (.unlisted e)
    | .ok entries =>
      return (← (entries.mergeSort nameOrder).mapM (visit spec (walk spec levels))).flatten

/-- The candidates of a tree; a root that is no directory has none. -/
def collect (spec : TreeSpec) : ExceptT WalkStop m (List Candidate) := do
  if ← (FileSystem.isDir spec.root : m Bool) then
    walk spec ((← (FileSystem.depth : m Nat)) + 1) spec.root
  else return []

end Candidate
end Staging
