import Staging.Glob.Library
import Staging.Text.Blank
import Staging.Text.Quoted

/-!
Which files of a resource tree are taken: those that some include pattern matches and no exclude
pattern does. Patterns are written for people and brought into glob syntax first; what the globs
mean is up to the library that reads them.
-/
namespace Staging

/-- Why a list of patterns is of no use. -/
inductive BadPatterns (Fault : Type) where
  /-- No glob: the pattern as it was written. -/
  | malformed (pattern : String) (fault : Fault)
  /-- Globs that cannot be looked up together. -/
  | ungathered (fault : Fault)
  deriving DecidableEq, Repr

/-- The patterns of a tree, compiled. -/
structure PatternMatcher (L : GlobLibrary) where
  includes : L.GlobSet
  /-- `none` if nothing is excluded. -/
  excludes : Option L.GlobSet

/-- Whether a path below the tree, with forward slashes, is taken. -/
def PatternMatcher.selects {L : GlobLibrary} (s : PatternMatcher L) (path : String) : Bool :=
  let bytes := Utf8.encode path
  L.isMatch s.includes bytes && !s.excludes.any fun set => L.isMatch set bytes

namespace Selection

/-- The include pattern of a tree that declares none. -/
def defaultInclude : String := "**/*"

def dropHere : List Char → List Char
  | '.' :: '/' :: cs => dropHere cs
  | cs => cs

/-- Glob syntax of a pattern: backslashes separate too, a leading `./` or `/` says nothing, and a
separator at the end stands for everything below. -/
def normalize (pattern : String) : List Char :=
  let cs := dropHere ((Text.trim pattern.toList).map fun c => if c = '\\' then '/' else c)
  let cs := match cs with
    | '/' :: rest => rest
    | cs => cs
  if cs.isEmpty || cs.getLast? == some '/' then cs ++ ['*', '*'] else cs

/-- The patterns that an include list stands for. -/
def orDefault (includes : List String) : List String :=
  if includes.isEmpty then [defaultInclude] else includes

end Selection

namespace GlobLibrary

variable (L : GlobLibrary)

def readPattern (pattern : String) : Except (BadPatterns L.Fault) L.Glob :=
  (L.build (Selection.normalize pattern)).mapError (.malformed pattern)

/-- Reads the patterns of one list in order. That they are globs is checked of all of them before
anything else. -/
def readList (patterns : List String) : Except (BadPatterns L.Fault) L.GlobSet := do
  let globs ← patterns.mapM L.readPattern
  (L.gather globs).mapError .ungathered

/-- Reads both lists, includes first. -/
def compile (includes excludes : List String) :
    Except (BadPatterns L.Fault) (PatternMatcher L) := do
  let included ← L.readList (Selection.orDefault includes)
  if excludes.isEmpty then return ⟨included, none⟩
  return ⟨included, some (← L.readList excludes)⟩

def message : BadPatterns L.Fault → String
  | .malformed pattern fault =>
    "Invalid pattern " ++ Text.quote pattern ++ ": " ++ L.describe fault
  | .ungathered fault => L.describe fault

end GlobLibrary

/-- Why patterns are refused by the library that programs are run with. -/
abbrev PatternError := BadPatterns Glob.Fault

def PatternError.message (e : PatternError) : String := Glob.library.message e

abbrev Selection := PatternMatcher Glob.library

namespace Selection

def readList (patterns : List String) : Except PatternError (List Glob) :=
  Glob.library.readList patterns

def compile (includes excludes : List String) : Except PatternError Selection :=
  Glob.library.compile includes excludes

end Selection
end Staging
