import Staging.FileSystem.Memory
import Staging.Proofs.Discovery.Alike
import Staging.Proofs.Pass.Run

/-!
Passes over a tree in memory: discovery always has a result and leaves the tree alone, nothing
cancels, and so every pass completes.
-/
namespace Staging.Memory

theorem calm (st : Memory) :
    exec (FileSystem.isCancelled : StateM Memory Bool) st = (false, st) := rfl

theorem answersAlike (st : Memory) (p : Path) :
    AnswersAlike (StateM Memory) (StateM Memory) Eq st st p :=
  ⟨⟨_, _, rfl, rfl, rfl⟩, ⟨_, _, rfl, rfl, rfl⟩, ⟨_, _, rfl, rfl, rfl⟩, ⟨_, _, rfl, rfl, rfl⟩⟩

theorem sameInputs (st : Memory) (u : BuildUnit) :
    SameInputs (StateM Memory) (StateM Memory) Eq st st u where
  filters p _ := by
    refine ⟨_, _, rfl, rfl, ?_⟩
    cases st.read p with
    | ok bytes => exact rfl
    | error e => exact trivial
  trees pair _ := by
    refine ⟨fun _ => True, fun i j _ => i = j, ⟨fun p _ => answersAlike st p, ?_, ?_, ?_⟩, trivial,
      ⟨_, _, rfl, rfl, rfl⟩⟩
    · exact fun _ _ _ _ _ _ => trivial
    · rintro i _ _ rfl
      exact Iff.rfl
    · rintro i j _ _ _ same _ _ _ _
      exact Nat.succ.inj same

theorem exec_ofProject (p : Project) (scope : Scope) (st : Memory) :
    ∃ d, exec (Discovery.ofProject p scope : ExceptT Cancelled (StateM Memory) _).run st =
      (.ok d, st) := by
  obtain ⟨d, _, found, -, -⟩ := Discovery.ofProject_alike (m := StateM Memory)
    (n := StateM Memory) (p := p) (calm st) (calm st) fun u _ => sameInputs st u
  exact ⟨d, found⟩

open Pass

variable {τ : Type} [Tracker τ]

/-- A pass discovers, applies the plan, and saves. -/
theorem exec_run (s : Stager τ) (project : Project) (scope : Scope) (st : Memory) :
    ∃ d, exec (Discovery.ofProject project scope : ExceptT Cancelled (StateM Memory) _).run st =
        (.ok d, st) ∧
      let plan := Plan.ofDiscovery s.ledger d
      let done := applied (m := StateM Memory) s plan st
      exec (run s project scope : StateM Memory _) st =
        exec (finish s project plan done.1 : StateM Memory _) done.2 := by
  obtain ⟨d, found⟩ := exec_ofProject project scope st
  refine ⟨d, found, ?_⟩
  simp only
  rw [run, exec_bind, found]
  simp only
  rw [exec_bind, exec_apply calm]
  rfl

theorem completes (s : Stager τ) (project : Project) (scope : Scope) (st : Memory) :
    (exec (run s project scope : StateM Memory _) st).1.1.outcome = .completed := by
  obtain ⟨d, -, ran⟩ := exec_run s project scope st
  rw [ran, exec_finish]
  rfl

end Staging.Memory
