import Staging.FileSystem
import Staging.SortedMap

/-!
A file tree in memory. Entries are kept by the parts of their path, directories list the names of
their children as far as these are text, and a logical clock gives every written file its
modification time.
-/
namespace Staging

inductive Entry where
  | file (content : Bytes) (modified : Int64)
  | dir (children : List String)
  deriving DecidableEq

/-- An entry and the spelling of the path it was first put at. -/
structure Node where
  path : Path
  entry : Entry
  deriving DecidableEq

structure Memory where
  nodes : SortedMap (List Part) Node
  clock : Int64
  /-- Paths that cannot be read. -/
  unreadable : List (List Part)

namespace Memory

def here : Path := ⟨"."⟩

/-- Nothing but the directory that relative paths start from. -/
def empty : Memory :=
  ⟨SortedMap.empty.insert here.parts ⟨here, .dir []⟩, 0, []⟩

def entry? (s : Memory) (p : Path) : Option Entry := (s.nodes.get? p.parts).map (·.entry)

def isPresent (s : Memory) (p : Path) : Bool := (s.entry? p).isSome

def isFile (s : Memory) (p : Path) : Bool :=
  match s.entry? p with
  | some (.file _ _) => true
  | _ => false

def isDir (s : Memory) (p : Path) : Bool :=
  match s.entry? p with
  | some (.dir _) => true
  | _ => false

/-- The content of a file, if there is one. -/
def content? (s : Memory) (p : Path) : Option Bytes :=
  match s.entry? p with
  | some (.file content _) => some content
  | _ => none

/-- Puts an entry at a path. A path that is taken keeps its first spelling. -/
def put (s : Memory) (p : Path) (e : Entry) : Memory :=
  let spelling := ((s.nodes.get? p.parts).map (·.path)).getD p
  { s with nodes := s.nodes.insert p.parts ⟨spelling, e⟩ }

def drop (s : Memory) (p : Path) : Memory := { s with nodes := s.nodes.erase p.parts }

/-- The directory that lists a path. -/
def parentOf (p : Path) : Option Path :=
  p.parent.map fun q => if q.bytes.isEmpty then here else q

/-- The name that a path is listed by: its file name, if that is text. -/
def listedName (p : Path) : Option String := p.fileName.bind Spelling.text?

/-- Lists a path in the directory above it, if that is a directory and there is a name to list. -/
def link (s : Memory) (parent p : Path) : Memory :=
  match s.entry? parent, listedName p with
  | some (.dir children), some name =>
    if children.contains name then s else s.put parent (.dir (children ++ [name]))
  | _, _ => s

def unlink (s : Memory) (p : Path) : Memory :=
  match parentOf p, listedName p with
  | some parent, some name =>
    match s.entry? parent with
    | some (.dir children) => s.put parent (.dir (children.filter (· != name)))
    | _ => s
  | _, _ => s

/-- Makes a directory at a path that is free, and the directories above it, at most `height` of
them. -/
def ensureDirUpTo : (height : Nat) → Memory → Path → Memory
  | 0, s, _ => s
  | height + 1, s, p =>
    if s.isPresent p then s
    else
      let s := s.put p (.dir [])
      match parentOf p with
      | none => s
      | some parent =>
        if parent.same p then s else (ensureDirUpTo height s parent).link parent p

/-- A path has no more directories above it than parts, and the starting directory. -/
def ensureDir (s : Memory) (p : Path) : Memory := ensureDirUpTo (p.parts.length + 2) s p

def insertFile (s : Memory) (p : Path) (content : Bytes) (modified : Int64) : Memory :=
  let s := s.put p (.file content modified)
  match parentOf p with
  | none => s
  | some parent => (s.ensureDir parent).link parent p

/-- Puts a file at a path, whatever stands there. -/
def addFile (s : Memory) (p : Path) (content : Bytes) : Memory :=
  let clock := s.clock + 1
  { s with clock }.insertFile p content clock

def addDir (s : Memory) (p : Path) : Memory := s.ensureDir p

def setModified (s : Memory) (p : Path) (time : Int64) : Memory :=
  match s.entry? p with
  | some (.file content _) => s.put p (.file content time)
  | _ => s

def makeUnreadable (s : Memory) (p : Path) : Memory :=
  { s with unreadable := p.parts :: s.unreadable }

/-- The files by path, with their times and contents. -/
def files (s : Memory) : List (Path × Int64 × Bytes) :=
  s.nodes.values.filterMap fun n =>
    match n.entry with
    | .file content modified => some (n.path, modified, content)
    | .dir _ => none

def read (s : Memory) (p : Path) : Except FsError Bytes :=
  if s.unreadable.contains p.parts then .error (.denied p)
  else
    match s.entry? p with
    | some (.file content _) => .ok content
    | some (.dir _) => .error (.isDirectory p)
    | none => .error (.notFound p)

def write (s : Memory) (p : Path) (content : Bytes) : Except FsError Memory :=
  if s.isDir p then .error (.isDirectory p) else .ok (s.addFile p content)

def copy (s : Memory) (source target : Path) : Except FsError Memory :=
  (s.read source).bind (s.write target)

def removeFile (s : Memory) (p : Path) : Except FsError Memory :=
  match s.entry? p with
  | some (.file _ _) => .ok ((s.drop p).unlink p)
  | some (.dir _) => .error (.isDirectory p)
  | none => .error (.notFound p)

/-- Moves a file with its time. A directory stays, under the spelling it was called by. -/
def rename (s : Memory) (source target : Path) : Except FsError Unit × Memory :=
  if s.isDir target then (.error (.isDirectory target), s)
  else
    match s.entry? source with
    | some (.file content modified) =>
      (.ok (), ((s.drop source).unlink source).insertFile target content modified)
    | some (.dir children) =>
      (.error (.movesDirectory source), (s.drop source).put source (.dir children))
    | none => (.error (.notFound source), s)

def createDirs (s : Memory) (p : Path) : Except FsError Memory :=
  if s.isFile p then .error (.notDirectory p) else .ok (s.ensureDir p)

def modified (s : Memory) (p : Path) : Except FsError Int64 :=
  match s.entry? p with
  | some (.file _ modified) => .ok modified
  | some (.dir _) => .ok 0
  | none => .error (.notFound p)

def list (s : Memory) (p : Path) : Except FsError (List Path) :=
  match s.entry? p with
  | some (.dir children) => .ok (children.map fun (name : String) => p.join name)
  | _ => .error (.notListable p)

/-- Runs a change that leaves the tree as it is when it fails. -/
def change (f : Memory → Except FsError Memory) : StateM Memory (Except FsError Unit) := fun s =>
  match f s with
  | .ok s' => (.ok (), s')
  | .error e => (.error e, s)

/-- Every directory on a way down is another entry, so there are enough of them for any depth. -/
instance : FileSystem (StateM Memory) where
  read p := fun s => (s.read p, s)
  write p content := change (·.write p content)
  copy source target := change (·.copy source target)
  removeFile p := change (·.removeFile p)
  rename source target := fun s => s.rename source target
  createDirs p := change (·.createDirs p)
  isPresent p := fun s => (s.isPresent p, s)
  isFile p := fun s => (s.isFile p, s)
  isDir p := fun s => (s.isDir p, s)
  modified p := fun s => (s.modified p, s)
  list p := fun s => (s.list p, s)
  isCancelled := fun s => (false, s)
  depth := fun s => (s.nodes.size, s)

end Memory
end Staging
