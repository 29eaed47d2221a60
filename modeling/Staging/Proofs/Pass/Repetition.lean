import Staging.Proofs.Pass.Record

/-!
A pass after a pass. Over the same candidates and with the ledger that the first pass left, the
second one has nothing to delete, and it leaves the ledger as it is.
-/
namespace Staging

namespace PathSet

theorem difference_self (s : PathSet) : s.difference s = [] := by
  rw [difference, List.map_eq_nil_iff, List.filter_eq_nil_iff]
  rintro ⟨key, path⟩ mem
  have found := (SortedMap.get?_eq_some_iff s.entries key path).mpr mem
  simp [SortedMap.contains, found]

end PathSet

namespace Plan

variable {d d' : Discovery}

/-- What a plan says about units depends on nothing that discovery has to say. -/
theorem units_congr (l : Ledger) (same : d'.units = d.units) :
    (ofDiscovery l d').units = (ofDiscovery l d).units :=
  congrArg (List.map (UnitPlan.ofDiscovery l)) same

theorem deletions_congr {p q : Plan} (same : p.units = q.units) : p.deletions = q.deletions := by
  rw [deletions, deletions, same]

/-- The candidates of a plan do not depend on the ledger. -/
theorem candidates_congr (l l' : Ledger) (same : d'.units = d.units) :
    (ofDiscovery l' d').candidates = (ofDiscovery l d).candidates := by
  have each : ∀ (l : Ledger) (e : UnitDiscovery), (UnitPlan.ofDiscovery l e).candidates =
      if e.readiness = .ready then e.candidates else [] := by
    intro l e
    rw [UnitPlan.ofDiscovery]
    split <;> rename_i readiness <;> simp [readiness]
  rw [candidates, candidates, ofDiscovery, ofDiscovery, List.flatMap_map, List.flatMap_map, same]
  simp only [each]

end Plan

namespace Pass
open Ledger

variable {τ : Type} {s : Stager τ} {project : Project} {scope : Scope} {d : Discovery}

theorem renewed_congr (s : Stager τ) (project : Project) {p q : Plan} (same : p.units = q.units) :
    renewed s project p = renewed s project q := by
  rw [renewed, renewed, recordPlan_eq, recordPlan_eq, same]

theorem casing_renewed (s : Stager τ) (project : Project) (plan : Plan) :
    (renewed s project plan).casing = s.ledger.casing :=
  casing_recordPlan s.ledger plan

theorem uniform_renewed (uniform : s.ledger.Uniform) (project : Project) (d : Discovery) :
    (renewed s project (Plan.ofDiscovery s.ledger d)).Uniform := by
  refine (uniform_recordPlan uniform fun u mem outputs current => ?_).prune _
  obtain ⟨e, -, rfl⟩ := List.mem_map.mp mem
  cases ready : e.readiness with
  | ready =>
    rw [UnitPlan.current_ofDiscovery_ready s.ledger e ready] at current
    cases current
    exact (PathSet.collects_ofList _ _).keyed
  | misconfigured =>
    rw [UnitPlan.current_ofDiscovery_misconfigured s.ledger e ready] at current
    cases current

section
variable (distinct : project.unitNames.Nodup)
variable (names : d.units.map (·.unit) = (project.covered scope).map (·.name))
include distinct names

theorem deletions_renewed :
    (Plan.ofDiscovery (renewed s project (Plan.ofDiscovery s.ledger d)) d).deletions = [] := by
  rw [Plan.deletions, Plan.ofDiscovery, List.flatMap_map, List.flatMap_eq_nil_iff]
  intro e mem
  rw [UnitPlan.ofDiscovery]
  cases ready : e.readiness with
  | misconfigured => rfl
  | ready =>
    simp only
    rw [get?_renewed_ready distinct names mem ready, casing_renewed]
    exact PathSet.difference_self _

theorem renewed_renewed {s' : Stager τ}
    (ledger : s'.ledger = renewed s project (Plan.ofDiscovery s.ledger d)) :
    renewed s' project (Plan.ofDiscovery s'.ledger d) = s'.ledger := by
  refine ext_get? (casing_renewed _ _ _) fun name => ?_
  by_cases known : name ∈ project.unitNames
  · by_cases ready : ∃ e ∈ d.units, name = e.unit ∧ e.readiness = .ready
    · obtain ⟨e, mem, rfl, ready⟩ := ready
      rw [get?_renewed_ready distinct names mem ready, ledger, casing_renewed,
        get?_renewed_ready distinct names mem ready]
    · refine get?_renewed_kept known fun e mem same => ?_
      cases readiness : e.readiness with
      | misconfigured => rfl
      | ready => exact absurd ⟨e, mem, same, readiness⟩ ready
  · rw [get?_renewed, if_neg known, ledger, get?_renewed, if_neg known]

end

end Pass
end Staging
