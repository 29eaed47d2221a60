import Staging.Discovery
import Staging.Ledger

/-!
Plans: what a pass will stage, delete and record. Deletions are the recorded outputs of a unit
that none of its candidates produces any more. A misconfigured unit deletes nothing and keeps its
record.
-/
namespace Staging

structure UnitPlan where
  unit : String
  readiness : Readiness
  candidates : List Candidate
  /-- The outputs to record; none for a unit whose record stays. -/
  current : Option PathSet
  deletions : List String
  deriving DecidableEq

structure Plan where
  units : List UnitPlan
  messages : List Message
  deriving DecidableEq

def UnitPlan.ofDiscovery (l : Ledger) (d : UnitDiscovery) : UnitPlan :=
  match d.readiness with
  | .misconfigured => ⟨d.unit, d.readiness, [], none, []⟩
  | .ready =>
    let current := PathSet.ofList l.casing (d.candidates.map (·.output))
    let deletions := match l.get? d.unit with
      | some previous => previous.difference current
      | none => []
    ⟨d.unit, d.readiness, d.candidates, some current, deletions⟩

namespace Plan

def ofDiscovery (l : Ledger) (d : Discovery) : Plan :=
  ⟨d.units.map (UnitPlan.ofDiscovery l), d.messages⟩

/-- Unit by unit, as candidates are. -/
def deletions (p : Plan) : List String := p.units.flatMap (·.deletions)

/-- In processing order. -/
def candidates (p : Plan) : List Candidate := p.units.flatMap (·.candidates)

def unit? (p : Plan) (name : String) : Option UnitPlan := p.units.find? (·.unit == name)

def hasErrors (p : Plan) : Bool := p.messages.any Message.isError

end Plan
end Staging
