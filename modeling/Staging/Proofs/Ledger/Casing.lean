import Staging.Proofs.Ledger.Saving
import Staging.Proofs.PathSet.Spellings

/-!
Ledgers keep one casing. Whatever file a ledger is loaded from and whatever sets are recorded in it,
its sets have the casing that it was made for and stand under their own keys, so that a plan only
ever compares sets of one casing.
-/
namespace Staging.Ledger

section
variable (m : Type → Type) {σ : Type} [Monad m] [Stateful m σ] [FileSystem m]

/-- A ledger and the files around it: made or loaded under a policy, with units recorded from sets of
any casing, with units pruned, and saved, whether or not that succeeds. -/
inductive Kept (policy : CasePolicy) : Ledger → σ → Prop
  | empty (st : σ) : Kept policy (empty policy.resolve) st
  | load (p : Path) (st : σ) :
    Kept policy (exec (load p policy.resolve : m _) st).1 (exec (load p policy.resolve : m _) st).2
  | record {l : Ledger} {st : σ} {outputs : PathSet} (unit : String) :
    Kept policy l st → outputs.Built → Kept policy (l.record unit outputs) st
  | prune {l : Ledger} {st : σ} (existing : List String) :
    Kept policy l st → Kept policy (l.prune existing) st
  | save {l : Ledger} {st : σ} (p : Path) :
    Kept policy l st → Kept policy l (exec (l.save p : m _) st).2

end

variable {m : Type → Type} {σ : Type} [Monad m] [Stateful m σ] [FileSystem m]

/-- A loaded ledger is what the bytes of some file say, or empty. -/
theorem load_cases (p : Path) (casing : Casing) (st : σ) :
    (exec (load p casing : m _) st).1 = empty casing ∨
      ∃ bytes, (exec (load p casing : m _) st).1 = ofBytes casing bytes := by
  rw [load, exec_bind]
  split
  · rw [exec_bind]
    cases (exec (FileSystem.read p : m _) (exec (FileSystem.isPresent p : m _) st).2).1 with
    | ok bytes => exact .inr ⟨bytes, by rw [exec_pure]⟩
    | error e => exact .inl (by rw [exec_pure])
  · exact .inl (by rw [exec_pure])

namespace Kept

variable {policy : CasePolicy} {l : Ledger} {st : σ}

theorem casing_eq (h : Kept m policy l st) : l.casing = policy.resolve := by
  induction h with
  | empty st => rfl
  | load p st =>
    rcases load_cases (m := m) p policy.resolve st with nothing | ⟨bytes, read⟩
    · rw [nothing]
      rfl
    · rw [read, casing_ofBytes]
  | record unit _ _ ih => exact ih
  | prune existing _ ih => exact ih
  | save p _ ih => exact ih

theorem uniform (h : Kept m policy l st) : l.Uniform := by
  induction h with
  | empty st => exact uniform_empty policy.resolve
  | load p st =>
    rcases load_cases (m := m) p policy.resolve st with nothing | ⟨bytes, read⟩
    · rw [nothing]
      exact uniform_empty policy.resolve
    · rw [read]
      exact uniform_ofBytes policy.resolve bytes
  | record unit _ outputs ih => exact ih.record unit outputs.keyed
  | prune existing _ ih => exact ih.prune existing
  | save p _ ih => exact ih

end Kept

/-- What a plan compares: the record of a unit with the outputs of its candidates. -/
theorem deletions_of_current {l : Ledger} {d : UnitDiscovery} {previous current : PathSet}
    (recorded : l.get? d.unit = some previous)
    (planned : (UnitPlan.ofDiscovery l d).current = some current) :
    current = .ofList l.casing (d.candidates.map (·.output)) ∧
      (UnitPlan.ofDiscovery l d).deletions = previous.difference current := by
  cases ready : d.readiness with
  | misconfigured =>
    rw [UnitPlan.current_ofDiscovery_misconfigured l d ready] at planned
    cases planned
  | ready =>
    rw [UnitPlan.current_ofDiscovery_ready l d ready] at planned
    cases planned
    exact ⟨rfl, by simp [UnitPlan.ofDiscovery, ready, recorded]⟩

/-- All sets of a ledger have the casing that its policy resolves to, which is the ledger's own, and
have every spelling under its key in this casing. So a plan compares sets of this casing, and
deletes the recorded paths that no candidate produces up to it. -/
theorem one_casing_of_kept {policy : CasePolicy} {l : Ledger} {st : σ} (h : Kept m policy l st) :
    l.casing = policy.resolve ∧
    (∀ unit outputs, l.get? unit = some outputs →
      outputs.casing = policy.resolve ∧
        ∀ key path, outputs.entries.get? key = some path → key = policy.resolve.key path) ∧
    ∀ (d : UnitDiscovery) (previous current : PathSet), l.get? d.unit = some previous →
      (UnitPlan.ofDiscovery l d).current = some current →
      previous.casing = current.casing ∧
        (UnitPlan.ofDiscovery l d).deletions = previous.difference current ∧
        previous.difference current = PathSet.lacking policy.resolve previous current := by
  have own := h.casing_eq
  have sets : ∀ unit outputs, l.get? unit = some outputs →
      outputs.casing = policy.resolve ∧ outputs.Keyed := own ▸ h.uniform
  refine ⟨own, fun unit outputs found => ?_, fun d previous current recorded planned => ?_⟩
  · obtain ⟨casing, keyed⟩ := sets unit outputs found
    exact ⟨casing, casing ▸ keyed⟩
  · obtain ⟨casing, keyed⟩ := sets d.unit previous recorded
    obtain ⟨rfl, deletions⟩ := deletions_of_current recorded planned
    have collects := PathSet.collects_ofList l.casing (d.candidates.map fun c => c.output)
    have same := collects.casing_eq.trans own
    refine ⟨casing.trans same.symm, deletions, ?_⟩
    rw [keyed.difference_eq_lacking collects.keyed, same]

/-- A ledger loaded from a file that is none, with outputs that tell case apart recorded in it, keeps
them up to case. -/
theorem one_casing_of_kept_sample :
    let p : Path := ⟨".resflow/outputs.bin"⟩
    let loaded := exec (load p CasePolicy.insensitive.resolve : StateM Memory _) Sample.shelf
    let l := (loaded.1.record "app" (.ofList .sensitive ["out/A.txt", "out/a.txt"])).prune ["app"]
    let after := exec (l.save p : StateM Memory _) loaded.2
    let d : UnitDiscovery := ⟨"app", .ready, []⟩
    Kept (StateM Memory) .insensitive l after.2 ∧ l.casing = .insensitive ∧
      ∃ previous current, l.get? "app" = some previous ∧
        (UnitPlan.ofDiscovery l d).current = some current ∧ previous.casing = .insensitive ∧
        previous.casing = current.casing ∧ previous.difference current = ["out/a.txt"] := by
  intro p loaded l after d
  have kept : Kept (StateM Memory) .insensitive l after.2 :=
    .save p (.prune _ (.record _ (.load p Sample.shelf) (PathSet.built_ofList _ _)))
  obtain ⟨casing, sets, plans⟩ := one_casing_of_kept kept
  have recorded : l.get? "app" = some (.ofList .insensitive ["out/A.txt", "out/a.txt"]) := by
    decide +kernel
  have planned : (UnitPlan.ofDiscovery l d).current = some (.empty .insensitive) := by
    decide +kernel
  obtain ⟨same, -, listed⟩ := plans d _ _ recorded planned
  refine ⟨kept, casing, _, _, recorded, planned, (sets _ _ recorded).1, same, ?_⟩
  rw [listed]
  decide +kernel

end Staging.Ledger
