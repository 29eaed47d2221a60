import Mathlib.Data.List.Nodup
import Staging.Proofs.Discovery.Units
import Staging.Proofs.Memory.Discovery

/-!
What a completed pass records. Every unit of the project ends with the entry that the next pass
needs: what it was to produce if it was discovered, what it had if it was not, and nothing for units
that do not exist.
-/
namespace Staging

/-! A small project: one unit with one file to stage, and one output of an earlier pass whose source
is gone. -/

namespace Sample

def project : Project :=
  ⟨[{ name := "app", output := some ⟨"out"⟩, resources := [{ directory := ⟨"res"⟩ }] }]⟩

def tree : Memory := (Memory.empty.addFile ⟨"res/a.txt"⟩ [104, 105]).addFile ⟨"out/b.txt"⟩ [98]

def stager : Stager NoTracking where
  ledgerPath := ⟨"cache/outputs.bin"⟩
  ledger := (Ledger.empty .sensitive).record "app" (PathSet.ofList .sensitive ["out/b.txt"])
  filter := .placeholders
  charsetFor _ := "UTF-8"
  tracker := {}

end Sample

/-- The ledger after a pass, unit by unit, from the ledger before it and the discovery. -/
structure Ledger.Renewed (project : Project) (scope : Scope) (d : Discovery) (old new : Ledger) :
    Prop where
  casing_eq : new.casing = old.casing
  ready : ∀ e ∈ d.units, e.readiness = .ready → ∃ outputs, new.get? e.unit = some outputs ∧
    outputs.Collects old.casing (e.candidates.map (·.output))
  misconfigured : ∀ e ∈ d.units, e.readiness = .misconfigured →
    new.get? e.unit = old.get? e.unit
  uncovered : ∀ name ∈ project.unitNames, scope.covers name = false →
    new.get? name = old.get? name
  unknown : ∀ name, name ∉ project.unitNames → new.get? name = none

namespace Pass
open Ledger

theorem units_ofDiscovery (l : Ledger) (d : Discovery) :
    (Plan.ofDiscovery l d).units.map (·.unit) = d.units.map (·.unit) := by
  rw [Plan.ofDiscovery, List.map_map]
  exact List.map_congr_left fun e _ => UnitPlan.unit_ofDiscovery l e

variable {τ : Type}

theorem get?_renewed (s : Stager τ) (project : Project) (plan : Plan) (name : String) :
    (renewed s project plan).get? name =
      if name ∈ project.unitNames then (recordPlan s.ledger plan).get? name else none :=
  get?_prune _ _ _

theorem known_of_discovered {project : Project} {scope : Scope} {d : Discovery}
    (names : d.units.map (·.unit) = (project.covered scope).map (·.name)) {e : UnitDiscovery}
    (mem : e ∈ d.units) : ∃ u ∈ project.covered scope, u.name = e.unit := by
  have covered : e.unit ∈ (project.covered scope).map (·.name) := names ▸ List.mem_map_of_mem mem
  exact List.mem_map.mp covered

theorem mem_unitNames_of_discovered {project : Project} {scope : Scope} {d : Discovery}
    (names : d.units.map (·.unit) = (project.covered scope).map (·.name)) {e : UnitDiscovery}
    (mem : e ∈ d.units) : e.unit ∈ project.unitNames := by
  obtain ⟨u, covered, name⟩ := known_of_discovered names mem
  exact List.mem_map.mpr ⟨u, (Project.mem_covered.mp covered).1, name⟩

/-- The entry of a unit that was discovered. -/
theorem get?_renewed_ready {s : Stager τ} {project : Project} {scope : Scope} {d : Discovery}
    (distinct : project.unitNames.Nodup)
    (names : d.units.map (·.unit) = (project.covered scope).map (·.name)) {e : UnitDiscovery}
    (mem : e ∈ d.units) (ready : e.readiness = .ready) :
    (renewed s project (Plan.ofDiscovery s.ledger d)).get? e.unit =
      some (PathSet.ofList s.ledger.casing (e.candidates.map (·.output))) := by
  have nodup : ((Plan.ofDiscovery s.ledger d).units.map (·.unit)).Nodup := by
    rw [units_ofDiscovery, names]
    exact Project.nodup_covered distinct scope
  have recorded := get?_recordPlan_of_some s.ledger (Plan.ofDiscovery s.ledger d) nodup
    (List.mem_map_of_mem mem) (UnitPlan.current_ofDiscovery_ready s.ledger e ready)
  rw [UnitPlan.unit_ofDiscovery] at recorded
  rw [get?_renewed, if_pos (mem_unitNames_of_discovered names mem), recorded, recased, if_pos]
  exact (PathSet.collects_ofList _ _).casing_eq

/-- The entry of a unit that the plan does not record. -/
theorem get?_renewed_kept {s : Stager τ} {project : Project} {d : Discovery} {name : String}
    (known : name ∈ project.unitNames)
    (kept : ∀ e ∈ d.units, name = e.unit → e.readiness = .misconfigured) :
    (renewed s project (Plan.ofDiscovery s.ledger d)).get? name = s.ledger.get? name := by
  rw [get?_renewed, if_pos known, get?_recordPlan_of_none]
  intro u mem same
  obtain ⟨e, found, rfl⟩ := List.mem_map.mp mem
  rw [UnitPlan.unit_ofDiscovery] at same
  exact UnitPlan.current_ofDiscovery_misconfigured s.ledger e (kept e found same)

theorem renewed_of_discovery {s : Stager τ} {project : Project} {scope : Scope} {d : Discovery}
    (distinct : project.unitNames.Nodup)
    (names : d.units.map (·.unit) = (project.covered scope).map (·.name)) :
    Renewed project scope d s.ledger (renewed s project (Plan.ofDiscovery s.ledger d)) where
  casing_eq := casing_recordPlan s.ledger _
  ready e mem ready := ⟨_, get?_renewed_ready distinct names mem ready,
    PathSet.collects_ofList _ _⟩
  misconfigured e mem stopped := by
    have nodup : (d.units.map (·.unit)).Nodup := by
      rw [names]
      exact Project.nodup_covered distinct scope
    refine get?_renewed_kept (mem_unitNames_of_discovered names mem) fun e' mem' same => ?_
    rwa [List.inj_on_of_nodup_map nodup mem mem' same] at stopped
  uncovered name known outside := by
    refine get?_renewed_kept known fun e mem same => ?_
    obtain ⟨u, covered, unit_name⟩ := known_of_discovered names mem
    rw [same, ← unit_name, (Project.mem_covered.mp covered).2] at outside
    cases outside
  unknown name stranger := by rw [get?_renewed, if_neg stranger]

variable {m : Type → Type} {σ : Type} [Monad m] [LawfulMonad m] [Stateful m σ] [FileSystem m]
variable [Tracker τ]

/-- After a completed pass the ledger has, for each unit of the project, all outputs of what was
discovered in it, whatever became of the single items and of saving; it keeps the entries of units
that were not covered or not discovered, and has no others. -/
theorem ledger_of_completed {s s' : Stager τ} {project : Project} {scope : Scope} {st st' : σ}
    {r : Report} (distinct : project.unitNames.Nodup)
    (ran : exec (run s project scope : m _) st = ((r, s'), st'))
    (completed : r.outcome = .completed) :
    ∃ d found,
      exec (Discovery.ofProject project scope : ExceptT Cancelled m _).run st = (.ok d, found) ∧
      List.Forall₂ (fun u e => e.unit = u.name ∧ Discovery.Found m u e)
        (project.covered scope) d.units ∧
      Renewed project scope d s.ledger s'.ledger := by
  obtain ⟨d, found, w, applied, discovered, -, finished⟩ := completed_inversion ran completed
  refine ⟨d, found, discovered, ?_, ?_⟩
  · exact (Discovery.found_ofProject discovered).imp fun u e h => ⟨h.unit_eq, h⟩
  · rw [exec_finish, Prod.mk.injEq, Prod.mk.injEq] at finished
    obtain ⟨⟨-, rfl⟩, -⟩ := finished
    exact renewed_of_discovery distinct (Discovery.units_ofProject discovered)

/-- The pass over the small project completes, so its ledger is renewed. -/
theorem ledger_of_completed_sample :
    let outcome := exec (run Sample.stager Sample.project .all : StateM Memory _) Sample.tree
    outcome.1.1.outcome = .completed ∧ ∃ d found,
      exec (Discovery.ofProject Sample.project .all : ExceptT Cancelled (StateM Memory) _).run
        Sample.tree = (.ok d, found) ∧
      List.Forall₂ (fun u e => e.unit = u.name ∧ Discovery.Found (StateM Memory) u e)
        (Sample.project.covered .all) d.units ∧
      Renewed Sample.project .all d Sample.stager.ledger outcome.1.2.ledger :=
  have completed := Memory.completes Sample.stager Sample.project .all Sample.tree
  ⟨completed, ledger_of_completed (by decide) rfl completed⟩

end Pass
end Staging
