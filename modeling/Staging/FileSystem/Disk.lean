import Staging.FileSystem
import Staging.SortedMap

/-!
A disk: a tree of named files and directories with the rules of POSIX for looking paths up and for
which fault a refused call has. A place is the list of names that leads to it from the root. The
file system on it is one that keeps names as text and refuses a path with any other name.
-/
namespace Staging

/-- What stands at a place, with its modification time in milliseconds. -/
inductive Inode where
  | file (content : Bytes) (modified : Int64)
  | dir (modified : Int64)
  /-- A pipe whose reader waits until it is interrupted, and then reads nothing. -/
  | pipe
  deriving DecidableEq

abbrev Place := List String

structure Disk where
  nodes : SortedMap Place Inode
  workingDir : Place
  /-- The time of the latest change. -/
  clock : Int64
  /-- Somebody has been interrupted. -/
  interrupted : Bool

namespace Disk

def longestName : Nat := 255

/-- No path is as long as this. -/
def pathBound : Nat := 4096

/-- One step of a path as the system takes it. -/
inductive Step where
  | stay
  | up
  | down (name : String)
  deriving DecidableEq, Repr

def stepOf (piece : Bytes) : Except SystemFault Step :=
  if piece = [Path.dot] then .ok .stay
  else if piece = [Path.dot, Path.dot] then .ok .up
  else
    match Utf8.decode? piece with
    | some name => .ok (.down name)
    | none => .error .notName

/-- Where a path starts, its steps, and whether it asks for a directory by a separator at its
end. -/
structure Route where
  start : Place
  steps : List Step
  wantsDir : Bool

/-- A path with a zero character does not reach the system. -/
def checkText (p : Path) : Except SystemFault Unit :=
  if p.bytes.contains 0 then .error .nulInName else .ok ()

def route (d : Disk) (p : Path) : Except SystemFault Route := do
  checkText p
  if p.bytes.isEmpty then throw .notFound
  if pathBound ≤ p.bytes.length then throw .nameTooLong
  let steps ← ((Path.splitSlash p.bytes).filter (!·.isEmpty)).mapM stepOf
  return ⟨if p.isAbsolute then [] else d.workingDir, steps, p.bytes.getLast? == some Path.slash⟩

def isDirAt (d : Disk) (place : Place) : Bool :=
  match d.nodes.get? place with
  | some (.dir _) => true
  | _ => false

/-- Whether a name can be looked up. -/
def checkName (name : String) : Except SystemFault Unit :=
  if longestName < (Utf8.encode name).length then .error .nameTooLong else .ok ()

/-- Steps are taken from directories only. The root is the directory above itself. -/
def take (d : Disk) (place : Place) (s : Step) : Except SystemFault Place :=
  if d.isDirAt place then
    match s with
    | .stay => .ok place
    | .up => .ok place.dropLast
    | .down name => do
      checkName name
      if d.nodes.contains (place ++ [name]) then return place ++ [name] else throw .notFound
  else .error .notDirectory

def follow (d : Disk) (start : Place) (steps : List Step) : Except SystemFault Place :=
  steps.foldlM d.take start

/-- The place that a path leads to. -/
def find (d : Disk) (p : Path) : Except SystemFault Place := do
  let r ← d.route p
  let place ← d.follow r.start r.steps
  if r.wantsDir && !d.isDirAt place then throw .notDirectory
  return place

/-- A directory and what a path names in it; a path that ends in the root or in dots names
nothing in it. -/
structure Slot where
  dir : Place
  name : Option String
  wantsDir : Bool

def slot (d : Disk) (p : Path) : Except SystemFault Slot := do
  let r ← d.route p
  let dir ← d.follow r.start r.steps.dropLast
  if !d.isDirAt dir then throw .notDirectory
  match r.steps.getLast? with
  | some (.down name) => return ⟨dir, some name, r.wantsDir⟩
  | _ => return ⟨dir, none, r.wantsDir⟩

def nodeAt? (d : Disk) (p : Path) : Option Inode := do
  let place ← (d.find p).toOption
  d.nodes.get? place

def isPresent (d : Disk) (p : Path) : Bool := (d.nodeAt? p).isSome

def isFile (d : Disk) (p : Path) : Bool :=
  match d.nodeAt? p with
  | some (.file _ _) => true
  | _ => false

def isDir (d : Disk) (p : Path) : Bool :=
  match d.nodeAt? p with
  | some (.dir _) => true
  | _ => false

/-- The spelling of a place. -/
def spell (place : Place) : Path := .mk ("/" ++ "/".intercalate place)

/-- The one spelling of an existing path without dots. -/
def canonical (d : Disk) (p : Path) : Option Path := (d.find p).toOption.map spell

def tick (d : Disk) : Disk := { d with clock := d.clock + 1 }

/-- Changes what stands at a place, and with it the directory that lists the place. -/
def set (d : Disk) (place : Place) (node : Inode) : Disk :=
  let nodes := if d.isDirAt place.dropLast then d.nodes.insert place.dropLast (.dir d.clock)
    else d.nodes
  { d with nodes := nodes.insert place node }

/-- Drops a place and everything below it. -/
def dropTree (d : Disk) (place : Place) : Disk :=
  { d with nodes := d.nodes.filter fun other _ => !place.isPrefixOf other }

/-- The names in a directory. -/
def children (d : Disk) (place : Place) : List String :=
  d.nodes.keys.filterMap fun other => if other.dropLast = place then other.getLast? else none

def read (d : Disk) (p : Path) : Except SystemFault Bytes × Disk :=
  match d.find p with
  | .error e => (.error e, d)
  | .ok place =>
    match d.nodes.get? place with
    | some (.file content _) => (.ok content, d)
    | some .pipe => (.ok [], { d with interrupted := true })
    | _ => (.error .isDirectory, d)

/-- Opens a file for writing, empties it and writes. -/
def put (d : Disk) (p : Path) (content : Bytes) : Except SystemFault Disk := do
  let s ← d.slot p
  match s.name with
  | none => throw .isDirectory
  | some name =>
    if s.wantsDir then throw .isDirectory
    checkName name
    let place := s.dir ++ [name]
    let d := d.tick
    match d.nodes.get? place with
    | some (.dir _) => throw .isDirectory
    | some .pipe => return d
    | some (.file _ _) => return { d with nodes := d.nodes.insert place (.file content d.clock) }
    | none => return d.set place (.file content d.clock)

def makeDir (d : Disk) (p : Path) : Except SystemFault Disk := do
  let s ← d.slot p
  match s.name with
  | none => throw .alreadyThere
  | some name =>
    checkName name
    let place := s.dir ++ [name]
    if d.nodes.contains place then throw .alreadyThere
    let d := d.tick
    return d.set place (.dir d.clock)

/-- Makes a directory and at most so many of those above it. Those that could be made stay. -/
def makeDirsUpTo : (height : Nat) → Disk → Path → Except SystemFault Unit × Disk
  | 0, d, _ => (.error .notFound, d)
  | height + 1, d, p =>
    if p.bytes.isEmpty then (.ok (), d)
    else
      match d.makeDir p, p.parent with
      | .ok d, _ => (.ok (), d)
      | .error .notFound, some parent =>
        match makeDirsUpTo height d parent with
        | (.error e, d) => (.error e, d)
        | (.ok (), d) =>
          match d.makeDir p with
          | .ok d => (.ok (), d)
          | .error e => if d.isDir p then (.ok (), d) else (.error e, d)
      | .error e, _ => if d.isDir p then (.ok (), d) else (.error e, d)

def makeDirs (d : Disk) (p : Path) : Except SystemFault Unit × Disk :=
  makeDirsUpTo (p.parts.length + 2) d p

def remove (d : Disk) (p : Path) : Except SystemFault Disk := do
  let s ← d.slot p
  match s.name with
  | none => throw .isDirectory
  | some name =>
    checkName name
    let place := s.dir ++ [name]
    match d.nodes.get? place with
    | none => throw .notFound
    | some (.dir _) => throw .isDirectory
    | some _ =>
      if s.wantsDir then throw .notDirectory
      return d.tick.dropTree place

/-- Everything at and below one place put at and below another. -/
def moveTree (d : Disk) (source target : Place) : Disk :=
  let moved := d.nodes.toList.filter fun (place, _) => source.isPrefixOf place
  let rest := (d.dropTree target).dropTree source
  let nodes := moved.foldl (fun nodes (place, node) =>
    nodes.insert (target ++ place.drop source.length) node) rest.nodes
  { rest with nodes }

/-- A directory only replaces an empty directory, and a file only what is no directory. -/
def replaceable (d : Disk) (source target : Place) : Except SystemFault Unit :=
  match d.isDirAt source, d.nodes.get? target with
  | _, none => .ok ()
  | true, some (.dir _) => if (d.children target).isEmpty then .ok () else .error .notEmpty
  | true, some _ => .error .notDirectory
  | false, some (.dir _) => .error .isDirectory
  | false, some _ => .ok ()

/-- Both paths are read before either is looked up. -/
def move (d : Disk) (source target : Path) : Except SystemFault Disk := do
  checkText source
  checkText target
  let s ← d.slot source
  let t ← d.slot target
  match s.name, t.name with
  | some a, some b =>
    checkName a
    let source := s.dir ++ [a]
    let target := t.dir ++ [b]
    if !d.nodes.contains source then throw .notFound
    checkName b
    if !d.isDirAt source && (s.wantsDir || t.wantsDir) then throw .notDirectory
    if source = target then return d
    if source.isPrefixOf target then throw .invalid
    if target.isPrefixOf source then throw .notEmpty
    d.replaceable source target
    return d.tick.moveTree source target
  | _, _ => throw .busy

/-- The source has to be a file. It is opened before the target is emptied and read after. -/
def duplicate (d : Disk) (source target : Path) : Except SystemFault Disk := do
  let place ← d.find source
  match d.nodes.get? place with
  | some (.file content _) =>
    let emptied ← d.put target []
    match emptied.nodes.get? place with
    | some (.file [] _) => return emptied
    | _ => d.put target content
  | _ => throw .notRegular

def modified (d : Disk) (p : Path) : Except SystemFault Int64 := do
  match d.nodes.get? (← d.find p) with
  | some (.file _ time) => return max 0 time
  | some (.dir time) => return max 0 time
  | _ => return 0

def list (d : Disk) (p : Path) : Except SystemFault (List Path) := do
  let place ← d.find p
  if !d.isDirAt place then throw .notDirectory
  return (d.children place).map fun (name : String) => p.join name

/-- Sets a modification time from outside. -/
def setModified (d : Disk) (p : Path) (time : Int64) : Disk :=
  match (d.find p).toOption with
  | none => d
  | some place =>
    match d.nodes.get? place with
    | some (.file content _) => { d with nodes := d.nodes.insert place (.file content time) }
    | some (.dir _) => { d with nodes := d.nodes.insert place (.dir time) }
    | _ => d

/-- Every file with its place, in order of places. -/
def files (d : Disk) : List (Place × Bytes) :=
  d.nodes.toList.filterMap fun (place, node) =>
    match node with
    | .file content _ => some (place, content)
    | _ => none

/-- A disk that holds nothing but some directories, the last of which is the working directory. -/
def withDirs (dirs : List String) (clock : Int64) : Disk :=
  let places := (List.range (dirs.length + 1)).map dirs.take
  ⟨SortedMap.ofList (places.map fun place => (place, .dir clock)), dirs, clock, false⟩

def failing {α : Type} (action : Action) : Except SystemFault α → Except FsError α :=
  Except.mapError (.system action)

def change (action : Action) (f : Disk → Except SystemFault Disk) :
    StateM Disk (Except FsError Unit) := fun d =>
  match f d with
  | .ok d => (.ok (), d)
  | .error e => (.error (.system action e), d)

def createDirs (p : Path) : StateM Disk (Except FsError Unit) := fun d =>
  let (result, d) := d.makeDirs p
  (failing (.creatingDir p) result, d)

/-- Makes the directory above a path, and goes on if that is there. -/
def below (p : Path) (next : StateM Disk (Except FsError Unit)) :
    StateM Disk (Except FsError Unit) := do
  match p.parent with
  | none => next
  | some parent =>
    match ← createDirs parent with
    | .ok () => next
    | .error e => return .error e

instance : FileSystem (StateM Disk) where
  read p := fun d => ((failing (.readingFile p) (d.read p).1), (d.read p).2)
  write p content := below p (change (.creatingFile p) (·.put p content))
  copy source target := below target (change (.copying source target) (·.duplicate source target))
  removeFile p := change (.removingFile p) (·.remove p)
  rename source target := change (.moving source target) (·.move source target)
  createDirs p := createDirs p
  isPresent p := fun d => (d.isPresent p, d)
  isFile p := fun d => (d.isFile p, d)
  isDir p := fun d => (d.isDir p, d)
  modified p := fun d => (failing (.readingTime p) (d.modified p), d)
  list p := fun d => (failing (.readingDir p) (d.list p), d)
  isCancelled := fun d => (d.interrupted, d)
  depth := fun d => (d.nodes.size, d)

instance : Host (StateM Disk) where
  canonical p := fun d => (d.canonical p, d)
  workingDir := fun d => (some (spell d.workingDir), d)

end Disk
end Staging
