import Staging.FileSystem
import Staging.ProjectFile
import Staging.Toml.Document
import Staging.Toml.Record

/-!
Loading project files from TOML.
-/
namespace Staging.ProjectFile
open Toml (Fault Record Value)

def treeFields : List String := ["directory", "filtering", "includes", "excludes"]

def readTree (v : Value) : Except Fault TreeEntry := do
  let r ← Record.ofValue treeFields v
  return {
    directory := ← r.required "directory" Value.asString
    filtered := ← r.withDefault "filtering" Value.asBool false
    includes := ← r.withDefault "includes" (Value.asList Value.asString) []
    excludes := ← r.withDefault "excludes" (Value.asList Value.asString) [] }

def readProperties (v : Value) : Except Fault PropertySet :=
  (Value.asEntries Value.asString v).map SortedMap.ofList

def unitFields : List String :=
  ["output", "test_output", "resources", "test_resources", "filters", "properties"]

def readUnit (v : Value) : Except Fault UnitEntry := do
  let r ← Record.ofValue unitFields v
  return {
    output := ← r.optional "output" Value.asString
    testOutput := ← r.optional "test_output" Value.asString
    resources := ← r.withDefault "resources" (Value.asList readTree) []
    testResources := ← r.withDefault "test_resources" (Value.asList readTree) []
    filters := ← r.withDefault "filters" (Value.asList Value.asString) []
    properties := ← r.withDefault "properties" readProperties .empty }

def casePolicies : List (String × CasePolicy) :=
  [("auto", .auto), ("sensitive", .sensitive), ("insensitive", .insensitive)]

def settingFields : List String :=
  ["cache_dir", "case_sensitivity", "encoding", "properties_encoding"]

/-- The settings of the project section, with no units yet. -/
def readSettings (v : Value) : Except Fault ProjectFile := do
  let r ← Record.ofValue settingFields v
  let d : Encodings := {}
  return {
    cacheDir := ← r.optional "cache_dir" Value.asString
    casePolicy := ← r.withDefault "case_sensitivity" (Value.asName casePolicies) .auto
    encodings := {
      general := ← r.withDefault "encoding" Value.asString d.general
      properties := ← r.withDefault "properties_encoding" Value.asString d.properties } }

def ofDocument (entries : List (String × Value)) : Except Fault ProjectFile := do
  let r ← Record.ofEntries ["project", "unit"] entries
  let settings ← r.withDefault "project" readSettings {}
  let units ← r.withDefault "unit" (Value.asEntries readUnit) []
  return { settings with units := SortedMap.ofList units }

/-- Why a project file could not be loaded. -/
inductive LoadError where
  | unreadable (fault : SystemFault)
  | malformed (fault : Fault)
  | refused (why : Refusal)
  deriving DecidableEq, Repr

def LoadError.message : LoadError → String
  | unreadable fault => "IO error: " ++ fault.message
  | malformed fault => "TOML parsing error: " ++ fault.message
  | refused why => "Configuration error: " ++ why.message

/-- The error and what caused it. -/
def LoadError.chain : LoadError → List String
  | unreadable fault => [message (unreadable fault), fault.message]
  | malformed fault => [message (malformed fault), fault.message]
  | refused why => [message (refused why)]

def ofText (text : String) : Except LoadError ProjectFile :=
  match Toml.parse text >>= ofDocument with
  | .error fault => .error (.malformed fault)
  | .ok f =>
    match f.check with
    | .error why => .error (.refused why)
    | .ok () => .ok f

def ofBytes (bytes : Bytes) : Except LoadError ProjectFile :=
  match Utf8.decode? bytes with
  | some text => ofText text
  | none => .error (.unreadable .notUtf8)

/-- Loads and checks the project file at a path. -/
def load {m : Type → Type} [Monad m] [FileSystem m] (p : Path) :
    m (Except LoadError ProjectFile) := do
  match ← FileSystem.read p with
  | .ok bytes => return ofBytes bytes
  | .error e => return .error (.unreadable e.fault)

end Staging.ProjectFile
