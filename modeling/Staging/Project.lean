import Staging.Path
import Staging.PropertySet

/-!
Projects: units whose resource trees are staged into output directories.
-/
namespace Staging

/-- What a resource tree is for; each purpose has its own output directory. -/
inductive Purpose where
  | main
  | test
  deriving DecidableEq, Repr

def Purpose.name : Purpose → String
  | main => "main"
  | test => "test"

def Purpose.all : List Purpose := [.main, .test]

@[simp] theorem Purpose.mem_all (p : Purpose) : p ∈ all := by
  cases p <;> decide

/-- A directory of resources and which of its files are staged. -/
structure ResourceTree where
  directory : Path
  filtered : Bool := false
  /-- None means every file. -/
  includes : List String := []
  excludes : List String := []
  deriving DecidableEq, Repr

structure BuildUnit where
  name : String
  output : Option Path := none
  testOutput : Option Path := none
  resources : List ResourceTree := []
  testResources : List ResourceTree := []
  /-- Property files, later ones winning over earlier ones and over `properties`. -/
  filters : List Path := []
  properties : PropertySet := .empty
  deriving DecidableEq

namespace BuildUnit

def outputFor (u : BuildUnit) : Purpose → Option Path
  | .main => u.output
  | .test => u.testOutput

def treesFor (u : BuildUnit) : Purpose → List ResourceTree
  | .main => u.resources
  | .test => u.testResources

/-- The purposes that have resources and nowhere to put them. -/
def missingOutputs (u : BuildUnit) : List Purpose :=
  Purpose.all.filter fun p => !(u.treesFor p).isEmpty && (u.outputFor p).isNone

end BuildUnit

structure Project where
  units : List BuildUnit
  deriving DecidableEq

namespace Project

def unit? (p : Project) (name : String) : Option BuildUnit := p.units.find? (·.name == name)

def unitNames (p : Project) : List String := p.units.map (·.name)

end Project

/-- Which units a pass covers. -/
inductive Scope where
  | all
  | only (names : List String)
  deriving DecidableEq, Repr

namespace Scope

def ofNames : List String → Scope
  | [] => all
  | names => only names

def covers : Scope → String → Bool
  | all, _ => true
  | only names, unit => names.contains unit

def names : Scope → List String
  | all => []
  | only names => names

end Scope
end Staging
