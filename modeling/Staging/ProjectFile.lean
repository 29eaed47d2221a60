import Staging.Casing
import Staging.Charset
import Staging.Ledger.Storage
import Staging.Project
import Staging.Selection

/-!
Project files: what a project declares, with its paths as they are written. A file is checked
before it is used; after that no pattern and no charset that it names can be wrong.
-/
namespace Staging

structure TreeEntry where
  directory : String
  filtered : Bool := false
  includes : List String := []
  excludes : List String := []
  deriving DecidableEq, Repr

structure UnitEntry where
  output : Option String := none
  testOutput : Option String := none
  resources : List TreeEntry := []
  testResources : List TreeEntry := []
  filters : List String := []
  properties : PropertySet := .empty

structure ProjectFile where
  /-- Where the ledger is kept. -/
  cacheDir : Option String := none
  casePolicy : CasePolicy := .auto
  encodings : Encodings := {}
  units : SortedMap String UnitEntry := .empty

namespace ProjectFile

def defaultName : String := "Resflow.toml"

/-- Why a project file is not accepted. -/
inductive Refusal where
  | noUnits
  | unknownCharset (setting plain : String)
  | emptyCacheDir
  | emptyUnitName
  | emptyDirectory (unit list : String) (index : Nat)
  | badPattern (unit list : String) (index : Nat) (e : PatternError)
  deriving DecidableEq, Repr

def placeOf (unit list : String) (index : Nat) : String :=
  "unit '" ++ unit ++ "' " ++ list ++ "[" ++ toString index ++ "]"

def Refusal.message : Refusal → String
  | noUnits => "config must contain at least one [unit.<name>] section"
  | unknownCharset setting plain =>
    "[project]." ++ setting ++ ": " ++ Charset.unsupportedMessage plain
  | emptyCacheDir => "[project].cache_dir must not be empty"
  | emptyUnitName => "unit names must not be empty"
  | emptyDirectory unit list index =>
    placeOf unit list index ++ " has an empty \x60directory\x60"
  | badPattern unit list index e => placeOf unit list index ++ ": " ++ e.message

def checkCharset (setting name : String) : Except Refusal Unit :=
  match Charset.ofName name with
  | .ok _ => .ok ()
  | .error plain => .error (.unknownCharset setting plain)

def checkTree (unit list : String) (index : Nat) (t : TreeEntry) : Except Refusal Unit :=
  if Text.isBlankText t.directory then .error (.emptyDirectory unit list index)
  else
    match Selection.compile t.includes t.excludes with
    | .ok _ => .ok ()
    | .error e => .error (.badPattern unit list index e)

def checkTrees (unit list : String) (trees : List TreeEntry) : Except Refusal Unit :=
  trees.zipIdx.forM fun (t, index) => checkTree unit list index t

def checkUnit (name : String) (u : UnitEntry) : Except Refusal Unit := do
  if Text.isBlankText name then throw .emptyUnitName
  checkTrees name "resources" u.resources
  checkTrees name "test_resources" u.testResources

/-- Whether a project file is accepted. Its parts are looked at in order, units by name, and the
first fault counts. -/
def check (f : ProjectFile) : Except Refusal Unit := do
  if f.units.isEmpty then throw .noUnits
  checkCharset "encoding" f.encodings.general
  checkCharset "properties_encoding" f.encodings.properties
  if f.cacheDir.any Text.isBlankText then throw .emptyCacheDir
  f.units.toList.forM fun (name, u) => checkUnit name u

def TreeEntry.toTree (root : Path) (t : TreeEntry) : ResourceTree where
  directory := root.join t.directory
  filtered := t.filtered
  includes := t.includes
  excludes := t.excludes

def UnitEntry.toUnit (root : Path) (name : String) (u : UnitEntry) : BuildUnit where
  name
  output := u.output.map fun (dir : String) => root.join dir
  testOutput := u.testOutput.map fun (dir : String) => root.join dir
  resources := u.resources.map (TreeEntry.toTree root)
  testResources := u.testResources.map (TreeEntry.toTree root)
  filters := u.filters.map fun (file : String) => root.join file
  properties := u.properties

/-- The project with its paths seen from a root, its units by name. -/
def toProject (f : ProjectFile) (root : Path) : Project :=
  ⟨f.units.toList.map fun (name, u) => UnitEntry.toUnit root name u⟩

def ledgerFile (f : ProjectFile) (root : Path) : Path :=
  Ledger.fileFor (root.join (f.cacheDir.getD Ledger.defaultDir)) root

end ProjectFile
end Staging
