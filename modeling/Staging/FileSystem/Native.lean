import Staging.FileSystem

/-!
The file system of the machine the program runs on. Paths reach it as text, so what is no text in a
path is lost on the way.
-/
namespace Staging.Native

def faultOf : IO.Error → SystemFault
  | .alreadyExists _ n text | .invalidArgument _ n text | .permissionDenied _ n text
  | .resourceExhausted _ n text | .inappropriateType _ n text | .noSuchThing _ n text
  | .interrupted _ n text | .noFileOrDirectory _ n text | .otherError n text
  | .resourceBusy n text | .resourceVanished n text | .unsupportedOperation n text
  | .hardwareFault n text | .unsatisfiedConstraints n text | .illegalOperation n text
  | .protocolError n text | .timeExpired n text => .ofNumber n.toNat text
  | .unexpectedEof => .other "end of file"
  | .userError text => .other text

/-- Runs an action whose failure is a value. -/
def attempt {α : Type} (action : Action) (run : IO α) : IO (Except FsError α) := do
  match ← run.toBaseIO with
  | .ok a => return .ok a
  | .error e => return .error (.system action (faultOf e))

/-- The kind of file and the modification time in milliseconds, links followed. -/
def look (p : Path) : IO (IO.FS.FileType × Int) := do
  let found ← (← IO.FS.realPath p.text).metadata
  let time := found.modified
  return (found.type, time.sec * 1000 + time.nsec.toNat / 1000000)

def isKind (kind : IO.FS.FileType) (p : Path) : IO Bool := do
  match ← (look p).toBaseIO with
  | .ok (found, _) => return found == kind
  | .error _ => return false

def isPresent (p : Path) : IO Bool := do
  match ← (look p).toBaseIO with
  | .ok _ => return true
  | .error _ => return false

def createDirs (p : Path) : IO (Except FsError Unit) :=
  if p.bytes.isEmpty then return .ok ()
  else attempt (.creatingDir p) (IO.FS.createDirAll p.text)

/-- Makes the directory above a path, and goes on if that is there. -/
def below (p : Path) (next : IO (Except FsError Unit)) : IO (Except FsError Unit) := do
  match p.parent with
  | none => next
  | some parent =>
    match ← createDirs parent with
    | .ok () => next
    | .error e => return .error e

def writeFile (p : Path) (content : Bytes) : IO Unit :=
  IO.FS.writeBinFile p.text (ByteArray.mk content.toArray)

/-- Times before the epoch count as the epoch. -/
def clampTime (time : Int) : Int64 := Int64.ofInt (max 0 (min time Int64.maxValue.toInt))

instance : FileSystem IO where
  read p := attempt (.readingFile p) do return (← IO.FS.readBinFile p.text).toList
  write p content := below p (attempt (.creatingFile p) (writeFile p content))
  copy source target := below target do
    if ← isKind .dir source then return .error (.system (.copying source target) .notRegular)
    attempt (.copying source target) do
      IO.FS.writeBinFile target.text (← IO.FS.readBinFile source.text)
  removeFile p := attempt (.removingFile p) (IO.FS.removeFile p.text)
  rename source target := attempt (.moving source target) (IO.FS.rename source.text target.text)
  createDirs := createDirs
  isPresent := isPresent
  isFile := isKind .file
  isDir := isKind .dir
  modified p := attempt (.readingTime p) do return clampTime (← look p).2
  list p := attempt (.readingDir p) do
    return ((← (← IO.FS.realPath p.text).readDir).map fun e => p.join e.fileName).toList
  isCancelled := return false
  depth := return 4096

instance : Host IO where
  canonical p := do
    if ← isPresent p then return some ⟨(← IO.FS.realPath p.text).toString⟩ else return none
  workingDir := do
    match ← IO.currentDir.toBaseIO with
    | .ok dir => return some ⟨dir.toString⟩
    | .error _ => return none

end Staging.Native
