import Staging.FileSystem
import Staging.Ledger.Format

/-!
Where ledgers are kept. Loading never fails: a file that is missing, unreadable or rejected counts
as an empty ledger. Saving writes a file beside the target and renames it, so the target is at
every moment the old file or the new one.
-/
namespace Staging.Ledger

/-- The directory of ledgers below a project root. -/
def defaultDir : String := ".resflow"

/-- The file for a project in a directory of ledgers, named after a hash of the project's root. -/
def fileFor (dir root : Path) : Path :=
  let digits := (Bytes.hex (Blake3.hash (Utf8.encode root.text))).take 16
  dir.join ("outputs-" ++ String.ofList digits ++ ".bin" : String)

/-- The hidden file beside a ledger that is written first. Its name is text in any case. -/
def scratchFor (p : Path) : Path :=
  p.withFileName ("." ++ (p.fileName.map Spelling.shown).getD "outputs" ++ ".tmp" : String)

/-- Which half of saving failed. -/
inductive SaveError where
  | writing (scratch : Path) (cause : FsError)
  | replacing (target : Path) (cause : FsError)
  deriving DecidableEq, Repr

/-- The failure without its cause. -/
def SaveError.summary : SaveError → String
  | writing scratch _ => "writing output cache to " ++ scratch.quoted
  | replacing target _ => "replacing output cache at " ++ target.quoted

def ofBytes (casing : Casing) (bytes : Bytes) : Ledger :=
  match decode bytes casing with
  | .ok units => ⟨casing, units⟩
  | .error _ => empty casing

variable {m : Type → Type} [Monad m] [FileSystem m]

def load (p : Path) (casing : Casing) : m Ledger := do
  if ← FileSystem.isPresent p then
    match ← FileSystem.read p with
    | .ok bytes => return ofBytes casing bytes
    | .error _ => return empty casing
  else return empty casing

def save (l : Ledger) (p : Path) : m (Except SaveError Unit) := do
  match ← FileSystem.write (scratchFor p) (encode l.units) with
  | .error e => return .error (.writing (scratchFor p) e)
  | .ok () =>
    match ← FileSystem.rename (scratchFor p) p with
    | .error e => return .error (.replacing p e)
    | .ok () => return .ok ()

end Staging.Ledger
