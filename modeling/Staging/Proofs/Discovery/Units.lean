import Staging.Discovery
import Staging.Proofs.Execution

/-!
Which units a discovery speaks of: exactly those in scope, each once, in project order, whatever
the file system does.
-/
namespace Staging

namespace Project

/-- The units that a pass covers. -/
def covered (p : Project) (scope : Scope) : List BuildUnit :=
  p.units.filter fun u => scope.covers u.name

@[simp] theorem covered_all (p : Project) : p.covered .all = p.units :=
  List.filter_eq_self.mpr fun _ _ => rfl

theorem mem_covered {p : Project} {scope : Scope} {u : BuildUnit} :
    u ∈ p.covered scope ↔ u ∈ p.units ∧ scope.covers u.name = true :=
  List.mem_filter

theorem nodup_covered {p : Project} (distinct : p.unitNames.Nodup) (scope : Scope) :
    ((p.covered scope).map (·.name)).Nodup :=
  distinct.sublist (List.filter_sublist.map _)

end Project

namespace Discovery

variable {m : Type → Type} {σ : Type} [Monad m] [LawfulMonad m] [Stateful m σ] [FileSystem m]

/-- What discovering the unit gave, in some state of the files. -/
def Found (m : Type → Type) {σ : Type} [Monad m] [Stateful m σ] [FileSystem m] (u : BuildUnit)
    (e : UnitDiscovery) : Prop :=
  ∃ (before after : σ) (messages : List Message),
    exec (ofUnit u : ExceptT Cancelled m _).run before = (.ok (e, messages), after)

omit [LawfulMonad m] in
theorem unit_of_ofUnit {u : BuildUnit} {e : UnitDiscovery} {messages : List Message} {s t : σ}
    (h : exec (ofUnit u : ExceptT Cancelled m _).run s = (.ok (e, messages), t)) :
    e.unit = u.name := by
  unfold ofUnit at h
  split at h
  · obtain ⟨files, r, _, h⟩ := exec_run_bind_ok h
    obtain ⟨found, q, _, h⟩ := exec_run_bind_ok h
    split at h
    · rw [ExceptT.run_pure, exec_pure] at h
      cases h
      rfl
    · rw [ExceptT.run_pure, exec_pure] at h
      cases h
      rfl
    · rw [ExceptT.run_throw, exec_pure] at h
      cases h
  · rw [ExceptT.run_pure, exec_pure] at h
    cases h
    rfl

omit [LawfulMonad m] in
theorem Found.unit_eq {u : BuildUnit} {e : UnitDiscovery} (h : Found m u e) : e.unit = u.name := by
  obtain ⟨_, _, _, h⟩ := h
  exact unit_of_ofUnit h

theorem found_ofProject {p : Project} {scope : Scope} {d : Discovery} {s t : σ}
    (h : exec (ofProject p scope : ExceptT Cancelled m _).run s = (.ok d, t)) :
    List.Forall₂ (Found m) (p.covered scope) d.units := by
  obtain ⟨found, r, h, rest⟩ := exec_run_bind_ok h
  rw [ExceptT.run_pure, exec_pure] at rest
  cases rest
  rw [List.forall₂_map_right_iff]
  refine (exec_mapM_ok h).imp ?_
  rintro u ⟨e, messages⟩ ⟨a, b, run⟩
  obtain ⟨_, c, _, run⟩ := exec_run_bind_ok run
  exact ⟨c, b, messages, run⟩

theorem units_ofProject {p : Project} {scope : Scope} {d : Discovery} {s t : σ}
    (h : exec (ofProject p scope : ExceptT Cancelled m _).run s = (.ok d, t)) :
    d.units.map (·.unit) = (p.covered scope).map (·.name) := by
  have each := found_ofProject h
  generalize p.covered scope = units, d.units = entries at each
  induction each with
  | nil => rfl
  | cons found _ ih => rw [List.map_cons, List.map_cons, ih, found.unit_eq]

end Discovery
end Staging
