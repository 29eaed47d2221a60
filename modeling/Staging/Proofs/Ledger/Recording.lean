import Staging.Pass
import Staging.Proofs.PathSet

/-!
What recording and pruning do to a ledger, entry by entry. A ledger is uniform when all its sets
have its casing and stand under their own keys; every way to make a ledger keeps that.
-/
namespace Staging

namespace Ledger

/-- All sets have the casing of the ledger, and every spelling stands under its own key. -/
def Uniform (l : Ledger) : Prop :=
  ∀ unit outputs, l.get? unit = some outputs → outputs.casing = l.casing ∧ outputs.Keyed

/-- The set as a ledger of this casing keeps it. -/
def recased (casing : Casing) (outputs : PathSet) : PathSet :=
  if outputs.casing = casing then outputs else outputs.withCasing casing

theorem casing_recased (casing : Casing) (outputs : PathSet) :
    (recased casing outputs).casing = casing := by
  rw [recased]
  split
  · assumption
  · exact (PathSet.collects_ofList casing outputs.toList).casing_eq

theorem get?_record_self (l : Ledger) (unit : String) (outputs : PathSet) :
    (l.record unit outputs).get? unit = some (recased l.casing outputs) :=
  SortedMap.get?_insert_self _ _ _

theorem get?_record_of_ne (l : Ledger) {unit other : String} (outputs : PathSet)
    (h : other ≠ unit) : (l.record unit outputs).get? other = l.get? other :=
  SortedMap.get?_insert_of_ne _ _ h

theorem get?_prune (l : Ledger) (existing : List String) (unit : String) :
    (l.prune existing).get? unit = if unit ∈ existing then l.get? unit else none := by
  rw [get?, prune, SortedMap.get?_filter_keys l.units (fun unit => existing.contains unit)]
  simp [get?]

theorem ext_get? {l k : Ledger} (casing : l.casing = k.casing)
    (h : ∀ unit, l.get? unit = k.get? unit) : l = k := by
  have units : l.units = k.units := SortedMap.ext_get? h
  cases l
  simp_all

theorem uniform_empty (casing : Casing) : (empty casing).Uniform := by
  intro unit outputs found
  simp [empty, get?] at found

theorem Uniform.record {l : Ledger} (h : l.Uniform) (unit : String) {outputs : PathSet}
    (keyed : outputs.Keyed) : (l.record unit outputs).Uniform := by
  intro other found eq
  by_cases same : other = unit
  · subst same
    rw [get?_record_self, Option.some.injEq] at eq
    subst eq
    refine ⟨casing_recased _ _, ?_⟩
    rw [recased]
    split
    · exact keyed
    · exact PathSet.keyed_withCasing _ _
  · rw [get?_record_of_ne _ _ same] at eq
    exact h other found eq

theorem Uniform.prune {l : Ledger} (h : l.Uniform) (existing : List String) :
    (l.prune existing).Uniform := by
  intro unit outputs eq
  rw [get?_prune] at eq
  split at eq
  · exact h unit outputs eq
  · cases eq

end Ledger

namespace UnitPlan

variable (l : Ledger) (d : UnitDiscovery)

theorem unit_ofDiscovery : (ofDiscovery l d).unit = d.unit := by
  rw [ofDiscovery]
  split <;> rfl

theorem current_ofDiscovery_ready (ready : d.readiness = .ready) :
    (ofDiscovery l d).current = some (PathSet.ofList l.casing (d.candidates.map (·.output))) := by
  simp [ofDiscovery, ready]

theorem current_ofDiscovery_misconfigured (stopped : d.readiness = .misconfigured) :
    (ofDiscovery l d).current = none := by
  simp [ofDiscovery, stopped]

/-- All that a unit's plan takes from a ledger is the casing and the unit's own record. -/
theorem ofDiscovery_congr {l l' : Ledger} (casing : l'.casing = l.casing)
    (record : l'.get? d.unit = l.get? d.unit) : ofDiscovery l' d = ofDiscovery l d := by
  rw [ofDiscovery, ofDiscovery, casing, record]

end UnitPlan

/-- The plan for a part of the units is that part of the plan. -/
theorem Plan.units_part (l : Ledger) {d d' : Discovery} (keep : String → Bool)
    (part : d'.units = d.units.filter fun e => keep e.unit) :
    (ofDiscovery l d').units = (ofDiscovery l d).units.filter fun u => keep u.unit := by
  simp only [ofDiscovery, part, List.filter_map]
  congr 1
  refine List.filter_congr fun e _ => ?_
  simp only [Function.comp_apply, UnitPlan.unit_ofDiscovery]

theorem Plan.unit?_ofDiscovery (l : Ledger) {d : Discovery} (distinct : (d.units.map (·.unit)).Nodup)
    {e : UnitDiscovery} (mem : e ∈ d.units) :
    (ofDiscovery l d).unit? e.unit = some (UnitPlan.ofDiscovery l e) := by
  rw [unit?, ofDiscovery]
  generalize d.units = units at distinct mem
  induction units with
  | nil => cases mem
  | cons first rest ih =>
    rw [List.map_cons, List.nodup_cons] at distinct
    rw [List.map_cons, List.find?_cons, UnitPlan.unit_ofDiscovery]
    rcases List.mem_cons.mp mem with rfl | mem
    · rw [beq_self_eq_true]
    · have other : (first.unit == e.unit) = false := by
        rw [beq_eq_false_iff_ne]
        intro same
        exact distinct.1 (List.mem_map.mpr ⟨e, mem, same.symm⟩)
      rw [other]
      exact ih distinct.2 mem

namespace Pass
open Ledger

/-- What the ledger does with one unit of a plan. -/
def recordUnit (l : Ledger) (u : UnitPlan) : Ledger :=
  match u.current with
  | some outputs => l.record u.unit outputs
  | none => l

theorem recordPlan_eq (l : Ledger) (plan : Plan) :
    recordPlan l plan = plan.units.foldl recordUnit l := rfl

theorem casing_recordUnit (l : Ledger) (u : UnitPlan) : (recordUnit l u).casing = l.casing := by
  rw [recordUnit]
  split <;> rfl

theorem casing_recordPlan (l : Ledger) (plan : Plan) :
    (recordPlan l plan).casing = l.casing := by
  rw [recordPlan_eq]
  induction plan.units generalizing l with
  | nil => rfl
  | cons u rest ih => rw [List.foldl_cons, ih, casing_recordUnit]

theorem get?_recordUnit_of_ne (l : Ledger) {u : UnitPlan} {name : String}
    (h : name = u.unit → u.current = none) : (recordUnit l u).get? name = l.get? name := by
  rw [recordUnit]
  split
  · rename_i found
    exact get?_record_of_ne _ _ fun same => by simp [h same] at found
  · rfl

/-- A unit without a new record keeps the one it has. -/
theorem get?_recordPlan_of_none (l : Ledger) (plan : Plan) {name : String}
    (h : ∀ u ∈ plan.units, name = u.unit → u.current = none) :
    (recordPlan l plan).get? name = l.get? name := by
  rw [recordPlan_eq]
  generalize plan.units = units at h
  induction units generalizing l with
  | nil => rfl
  | cons u rest ih =>
    rw [List.foldl_cons, ih _ fun v mem => h v (List.mem_cons_of_mem _ mem)]
    exact get?_recordUnit_of_ne l (h u List.mem_cons_self)

theorem get?_recordPlan_of_some (l : Ledger) (plan : Plan) {u : UnitPlan} {outputs : PathSet}
    (distinct : (plan.units.map (·.unit)).Nodup) (mem : u ∈ plan.units)
    (current : u.current = some outputs) :
    (recordPlan l plan).get? u.unit = some (recased l.casing outputs) := by
  rw [recordPlan_eq]
  obtain ⟨units, messages⟩ := plan
  simp only at distinct mem ⊢
  induction units generalizing l with
  | nil => cases mem
  | cons v rest ih =>
    rw [List.map_cons, List.nodup_cons] at distinct
    rcases List.mem_cons.mp mem with rfl | mem
    · have others : ∀ w ∈ rest, u.unit = w.unit → w.current = none := fun w hw same =>
        absurd (List.mem_map.mpr ⟨w, hw, same.symm⟩) distinct.1
      have := get?_recordPlan_of_none (recordUnit l u) ⟨rest, messages⟩ others
      rw [recordPlan_eq] at this
      rw [List.foldl_cons, this, recordUnit, current]
      exact get?_record_self _ _ _
    · rw [List.foldl_cons, ih _ distinct.2 mem, casing_recordUnit]

theorem uniform_recordPlan {l : Ledger} (h : l.Uniform) {plan : Plan}
    (keyed : ∀ u ∈ plan.units, ∀ outputs, u.current = some outputs → outputs.Keyed) :
    (recordPlan l plan).Uniform := by
  rw [recordPlan_eq]
  generalize plan.units = units at keyed
  induction units generalizing l with
  | nil => exact h
  | cons u rest ih =>
    refine ih ?_ fun v mem => keyed v (List.mem_cons_of_mem _ mem)
    rw [recordUnit]
    split
    · rename_i outputs found
      exact h.record _ (keyed u List.mem_cons_self outputs found)
    · exact h

end Pass
end Staging
