import Staging.Proofs.Execution
import Staging.Proofs.Ledger.Recording

/-!
The course of a pass. A sweep that nobody cancels folds its step over the list, and a completed
pass went through discovery, deletions, candidates and saving in this order.
-/
namespace Staging.Pass

variable {m : Type → Type} {σ τ α ω : Type} [Monad m] [Stateful m σ]

/-- The step over a whole list, with the state between. -/
def sweepFrom (step : ω → α → m ω) (xs : List α) (w : ω) (s : σ) : ω × σ :=
  xs.foldl (fun r x => exec (step r.1 x) r.2) (w, s)

theorem sweepFrom_cons (step : ω → α → m ω) (x : α) (xs : List α) (w : ω) (s : σ) :
    sweepFrom step (x :: xs) w s =
      sweepFrom step xs (exec (step w x) s).1 (exec (step w x) s).2 := rfl

theorem sweepFrom_append (step : ω → α → m ω) (xs ys : List α) (w : ω) (s : σ) :
    sweepFrom step (xs ++ ys) w s =
      sweepFrom step ys (sweepFrom step xs w s).1 (sweepFrom step xs w s).2 :=
  List.foldl_append

theorem sweepFrom_concat (step : ω → α → m ω) (xs : List α) (x : α) (w : ω) (s : σ) :
    sweepFrom step (xs ++ [x]) w s =
      exec (step (sweepFrom step xs w s).1 x) (sweepFrom step xs w s).2 :=
  sweepFrom_append step xs [x] w s

/-- What holds after every prefix of a sweep holds after the sweep. -/
theorem sweepFrom_invariant {step : ω → α → m ω} (P : List α → ω → σ → Prop) {xs : List α}
    {w : ω} {s : σ} (start : P [] w s)
    (next : ∀ done x rest w s, xs = done ++ x :: rest → P done w s →
      P (done ++ [x]) (exec (step w x) s).1 (exec (step w x) s).2) :
    P xs (sweepFrom step xs w s).1 (sweepFrom step xs w s).2 := by
  suffices go : ∀ done todo w s, xs = done ++ todo → P done w s →
      P xs (sweepFrom step todo w s).1 (sweepFrom step todo w s).2 from go [] xs w s rfl start
  intro done todo
  induction todo generalizing done with
  | nil =>
    rintro w s rfl holds
    rw [List.append_nil]
    exact holds
  | cons x todo ih =>
    intro w s whole holds
    rw [sweepFrom_cons]
    refine ih (done ++ [x]) _ _ ?_ (next done x todo w s whole holds)
    rw [List.append_assoc, List.singleton_append, whole]

variable [FileSystem m]

/-- Without cancelling, a sweep takes all its steps. -/
theorem exec_sweep (calm : ∀ s : σ, exec (FileSystem.isCancelled : m Bool) s = (false, s))
    (step : ω → α → m ω) (xs : List α) (w : ω) (s : σ) :
    exec (sweep step xs w) s = (((sweepFrom step xs w s).1, false), (sweepFrom step xs w s).2) := by
  induction xs generalizing w s with
  | nil => exact exec_pure _ _
  | cons x xs ih =>
    rw [sweep, exec_bind, calm]
    simp only [Bool.false_eq_true, if_false]
    rw [exec_bind, ih, sweepFrom_cons]

variable [Tracker τ]

/-- The deletions of a plan, and then its candidates. -/
def applied (s : Stager τ) (plan : Plan) (st : σ) : Applied τ × σ :=
  let swept := sweepFrom (deleteStep : Applied τ → String → m (Applied τ)) plan.deletions
    { tracker := s.tracker } st
  sweepFrom (stageStep s : Applied τ → Candidate → m (Applied τ)) plan.candidates swept.1 swept.2

theorem exec_apply (calm : ∀ s : σ, exec (FileSystem.isCancelled : m Bool) s = (false, s))
    (s : Stager τ) (plan : Plan) (st : σ) :
    exec (apply s plan : m _) st =
      (((applied (m := m) s plan st).1, false), (applied (m := m) s plan st).2) := by
  rw [apply, exec_bind, exec_sweep calm]
  simp only [Bool.false_eq_true, if_false]
  exact exec_sweep calm _ _ _ _

/-- What there is to say about saving. -/
def savingMessages (ledgerPath : Path) : Except Ledger.SaveError Unit → List Message
  | .ok () => []
  | .error e => [unsaved ledgerPath e]

/-- The ledger after a completed pass. -/
def renewed (s : Stager τ) (project : Project) (plan : Plan) : Ledger :=
  (recordPlan s.ledger plan).prune project.unitNames

/-- The report of a completed pass. -/
def completedReport (s : Stager τ) (project : Project) (plan : Plan) (w : Applied τ)
    (saved : Except Ledger.SaveError Unit) : Report where
  outcome := .completed
  processed := w.processed
  skipped := w.skipped
  deleted := w.deleted
  messages := plan.messages ++ w.messages ++
    ((recordPlan s.ledger plan).strangers project.unitNames).map forgotten ++
    savingMessages s.ledgerPath saved

omit [Tracker τ] in
theorem exec_finish (s : Stager τ) (project : Project) (plan : Plan) (w : Applied τ) (st : σ) :
    exec (finish s project plan w : m _) st =
      let saved := exec ((renewed s project plan).save s.ledgerPath : m _) st
      ((completedReport s project plan w saved.1,
        { s with ledger := renewed s project plan, tracker := w.tracker }), saved.2) := by
  unfold finish
  simp only [exec_bind]
  simp only [renewed]
  generalize exec (((recordPlan s.ledger plan).prune project.unitNames).save s.ledgerPath : m _) st
    = saved
  obtain ⟨_ | _, after⟩ := saved <;> simp [completedReport, savingMessages]

/-- A completed pass found a discovery, applied its plan to the end, and saved. -/
theorem completed_inversion {s s' : Stager τ} {project : Project} {scope : Scope} {st st' : σ}
    {r : Report} (ran : exec (run s project scope : m _) st = ((r, s'), st'))
    (completed : r.outcome = .completed) :
    ∃ d found w applied,
      exec (Discovery.ofProject project scope : ExceptT Cancelled m _).run st = (.ok d, found) ∧
      exec (apply s (Plan.ofDiscovery s.ledger d) : m _) found = ((w, false), applied) ∧
      exec (finish s project (Plan.ofDiscovery s.ledger d) w : m _) applied = ((r, s'), st') := by
  rw [run, exec_bind] at ran
  rcases disc : exec (Discovery.ofProject project scope : ExceptT Cancelled m _).run st with
    ⟨_ | d, found⟩
  · rw [disc] at ran
    simp only [exec_pure, Prod.mk.injEq] at ran
    obtain ⟨⟨rfl, -⟩, -⟩ := ran
    cases completed
  · rw [disc] at ran
    simp only [exec_bind] at ran
    rcases app : exec (apply s (Plan.ofDiscovery s.ledger d) : m _) found with ⟨⟨w, stopped⟩, applied⟩
    rw [app] at ran
    cases stopped with
    | true =>
      simp only [if_true, exec_pure, Prod.mk.injEq] at ran
      obtain ⟨⟨rfl, -⟩, -⟩ := ran
      cases completed
    | false => exact ⟨d, found, w, applied, rfl, app, ran⟩

end Staging.Pass
