import Staging.PathSet

/-!
The ledger of outputs: for each unit, the output paths of the last completed pass. Deletions are
what the ledger lists and the current pass no longer produces.
-/
namespace Staging

structure Ledger where
  casing : Casing
  units : SortedMap String PathSet
  deriving DecidableEq

namespace Ledger

def empty (casing : Casing) : Ledger := ⟨casing, .empty⟩

def get? (l : Ledger) (unit : String) : Option PathSet := l.units.get? unit

def size (l : Ledger) : Nat := l.units.size

def isEmpty (l : Ledger) : Bool := l.units.isEmpty

/-- Replaces the outputs of a unit. A set of another casing is keyed anew. -/
def record (l : Ledger) (unit : String) (outputs : PathSet) : Ledger :=
  let outputs := if outputs.casing = l.casing then outputs else outputs.withCasing l.casing
  { l with units := l.units.insert unit outputs }

/-- The recorded units that are not among the existing ones, by name. -/
def strangers (l : Ledger) (existing : List String) : List String :=
  l.units.keys.filter fun unit => !existing.contains unit

/-- Forgets the units that do not exist any more. -/
def prune (l : Ledger) (existing : List String) : Ledger :=
  { l with units := l.units.filter fun unit _ => existing.contains unit }

end Ledger
end Staging
