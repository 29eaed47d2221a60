import Staging.Proofs.Discovery.Polling
import Staging.Proofs.Memory.Steps

/-!
Cancelling in the course of a pass. The steps of a pass do not poll, so that over a schedule they do
what they do without one; a sweep is stopped by the poll before one of its elements. This gives the
course of a pass over any file system and any schedule.
-/
namespace Staging

namespace Polls
open Pass

variable {m : Type → Type} {σ α β ε τ ω : Type} [Monad m] [Stateful m σ]

/-- A program does with a schedule what another does without one, and does not poll. -/
def Lifts (x : m α) (y : StateT Polls m α) : Prop :=
  ∀ t : Polls × σ, exec y t = ((exec x t.2).1, t.1, (exec x t.2).2)

namespace Lifts

theorem pure (a : α) : Lifts (pure a : m α) (pure a) := fun t => by rw [exec_pure, exec_pure]

theorem call (x : m α) : Lifts x (StateT.lift x) := exec_lift x

theorem bind {x : m α} {y : StateT Polls m α} {f : α → m β} {g : α → StateT Polls m β}
    (h : Lifts x y) (rest : ∀ a, Lifts (f a) (g a)) : Lifts (x >>= f) (y >>= g) := fun t => by
  rw [exec_bind, h, exec_bind, rest]

theorem map [LawfulMonad m] {x : m α} {y : StateT Polls m α} (f : α → β) (h : Lifts x y) :
    Lifts (f <$> x) (f <$> y) := fun t => by rw [exec_map, exec_map, h]

theorem bindRun {x : ExceptT ε m α} {y : ExceptT ε (StateT Polls m) α} {f : α → ExceptT ε m β}
    {g : α → ExceptT ε (StateT Polls m) β} (h : Lifts x.run y.run)
    (rest : ∀ a, Lifts (f a).run (g a).run) : Lifts (x >>= f).run (y >>= g).run := by
  rw [ExceptT.run_bind, ExceptT.run_bind]
  refine h.bind fun result => ?_
  cases result with
  | ok a => exact rest a
  | error e => exact .pure _

end Lifts

variable [LawfulMonad m] [FileSystem m]

omit [FileSystem m] in
theorem lifts_calling {x : m (Except FsError α)} {y : StateT Polls m (Except FsError α)}
    (wrap : FsError → ItemError) (h : Lifts x y) :
    Lifts (calling x wrap).run (calling y wrap).run :=
  h.map (Except.mapError wrap)

theorem lifts_stageItem (s : Stager τ) (item : Candidate) :
    Lifts (stageItem s item : ExceptT ItemError m Unit).run
      (stageItem s item : ExceptT ItemError (StateT Polls m) Unit).run := by
  have filled : Lifts (fill s item : ExceptT ItemError m Unit).run
      (fill s item : ExceptT ItemError (StateT Polls m) Unit).run := by
    unfold fill
    simp only
    split
    · split
      · exact .pure _
      · exact .bindRun (lifts_calling _ (.call _)) fun bytes => lifts_calling _ (.call _)
    · exact lifts_calling _ (.call _)
  rw [stageItem_eq, stageItem_eq]
  cases (⟨item.output⟩ : Path).parent with
  | none => exact filled
  | some dir => exact .bindRun (lifts_calling _ (.call _)) fun _ => filled

omit [LawfulMonad m] in
theorem lifts_save (l : Ledger) (p : Path) :
    Lifts (l.save p : m _) (l.save p : StateT Polls m _) := by
  refine .bind (.call _) fun drafted => ?_
  cases drafted with
  | error e => exact .pure _
  | ok _ =>
    refine .bind (.call _) fun renamed => ?_
    cases renamed with
    | error e => exact .pure _
    | ok _ => exact .pure _

section
variable [Tracker τ]

omit [LawfulMonad m] in
theorem lifts_deleteStep (w : Applied τ) (path : String) :
    Lifts (deleteStep w path : m _) (deleteStep w path : StateT Polls m _) := by
  refine .bind (.call _) fun here => ?_
  split
  · refine .bind (.call _) fun removed => ?_
    cases removed with
    | error e => exact .pure _
    | ok _ => exact .pure _
  · exact .pure _

theorem lifts_stageStep (s : Stager τ) (w : Applied τ) (item : Candidate) :
    Lifts (stageStep s w item : m _) (stageStep s w item : StateT Polls m _) := by
  refine .bind (x := isCurrent w item) (y := isCurrent w item) ?_ fun current => ?_
  · unfold isCurrent
    split
    · exact .call _
    · exact .pure _
  · split
    · exact .pure _
    · refine .bind (lifts_stageItem s item) fun staged => ?_
      cases staged with
      | error e => exact .pure _
      | ok _ => exact .pure _

end

/-- How a sweep ends: before the element whose poll is the first to find the flag raised, or after
all of them. -/
inductive Swept (step : ω → α → m ω) (xs : List α) (w : ω) (t : Polls × σ) :
    (ω × Bool) × Polls × σ → Prop
  | stopped (done : List α) (x : α) (rest : List α) : xs = done ++ x :: rest →
      t.1.Alarm done.length →
      Swept step xs w t (((sweepFrom step done w t.2).1, true), t.1.after (done.length + 1),
        (sweepFrom step done w t.2).2)
  | through : t.1.Calm xs.length →
      Swept step xs w t (((sweepFrom step xs w t.2).1, false), t.1.after xs.length,
        (sweepFrom step xs w t.2).2)

omit [LawfulMonad m] in
theorem swept {step : ω → α → m ω} {step' : ω → α → StateT Polls m ω}
    (each : ∀ w x, Lifts (step w x) (step' w x)) (xs : List α) (w : ω) (t : Polls × σ) :
    Swept step xs w t (exec (sweep step' xs w) t) := by
  induction xs generalizing w t with
  | nil =>
    rw [sweep, exec_pure]
    exact .through .zero
  | cons x xs ih =>
    rw [sweep, exec_bind, exec_isCancelled]
    cases seen : t.1.raised t.1.made with
    | true =>
      simp only [if_true]
      rw [exec_pure]
      exact .stopped [] x xs rfl (alarm_zero seen)
    | false =>
      simp only [Bool.false_eq_true, if_false]
      rw [exec_bind, each]
      have first := calm_one seen
      have rest := ih (exec (step w x) t.2).1 (t.1.after 1, (exec (step w x) t.2).2)
      generalize exec (sweep step' xs (exec (step w x) t.2).1)
        (t.1.after 1, (exec (step w x) t.2).2) = r at rest ⊢
      cases rest with
      | stopped done y rest whole alarm =>
        have counted : (t.1.after 1).after (done.length + 1) =
            t.1.after ((x :: done).length + 1) := by
          rw [after_after, List.length_cons, Nat.add_comm 1, Nat.add_assoc]
        rw [counted]
        refine .stopped (x :: done) y rest (congrArg (x :: ·) whole) ?_
        rw [List.length_cons, Nat.add_comm]
        exact first.alarm alarm
      | through calm =>
        have counted : (t.1.after 1).after xs.length = t.1.after (x :: xs).length := by
          rw [after_after, List.length_cons, Nat.add_comm]
        rw [counted]
        refine .through ?_
        rw [List.length_cons, Nat.add_comm]
        exact first.add calm

end Polls

namespace Pass
open Polls

variable {m : Type → Type} {σ τ : Type} [Monad m] [Stateful m σ] [FileSystem m] [Tracker τ]

section
variable (m)

/-- The record of a pass and the files after so many of its deletions. -/
def deletedFrom (s : Stager τ) (st : σ) (deletions : List String) : Applied τ × σ :=
  sweepFrom (deleteStep : Applied τ → String → m (Applied τ)) deletions { tracker := s.tracker } st

/-- The same after all of its deletions and so many of its candidates. -/
def stagedFrom (s : Stager τ) (plan : Plan) (st : σ) (items : List Candidate) : Applied τ × σ :=
  sweepFrom (stageStep s : Applied τ → Candidate → m (Applied τ)) items
    (deletedFrom m s st plan.deletions).1 (deletedFrom m s st plan.deletions).2

/-- The course of a pass over a schedule: the first poll that finds the flag raised belongs to its
discovery, comes before one of the deletions, or before one of the candidates when all deletions are
done; or no poll finds it raised, and the pass is finished. -/
inductive Course (s : Stager τ) (project : Project) (scope : Scope) (t : Polls × σ) :
    (Report × Stager τ) × Polls × σ → Prop
  | discovering (t' : Polls × σ) :
      exec (Discovery.ofProject project scope : ExceptT Cancelled (StateT Polls m) _).run t =
        (.error {}, t') →
      Course s project scope t ((.cancelled, s), t')
  | deleting (d : Discovery) (found : Polls × σ) (done : List String) (x : String)
      (rest : List String) :
      exec (Discovery.ofProject project scope : ExceptT Cancelled (StateT Polls m) _).run t =
        (.ok d, found) →
      (Plan.ofDiscovery s.ledger d).deletions = done ++ x :: rest → found.1.Alarm done.length →
      Course s project scope t
        ((.cancelled, { s with tracker := (deletedFrom m s found.2 done).1.tracker }),
          found.1.after (done.length + 1), (deletedFrom m s found.2 done).2)
  | staging (d : Discovery) (plan : Plan) (found : Polls × σ) (done : List Candidate)
      (item : Candidate) (rest : List Candidate) :
      exec (Discovery.ofProject project scope : ExceptT Cancelled (StateT Polls m) _).run t =
        (.ok d, found) →
      plan = Plan.ofDiscovery s.ledger d → plan.candidates = done ++ item :: rest →
      found.1.Alarm (plan.deletions.length + done.length) →
      Course s project scope t
        ((.cancelled, { s with tracker := (stagedFrom m s plan found.2 done).1.tracker }),
          found.1.after (plan.deletions.length + done.length + 1),
          (stagedFrom m s plan found.2 done).2)
  | finished (d : Discovery) (plan : Plan) (found : Polls × σ) (result : Report × Stager τ)
      (st : σ) :
      exec (Discovery.ofProject project scope : ExceptT Cancelled (StateT Polls m) _).run t =
        (.ok d, found) →
      plan = Plan.ofDiscovery s.ledger d →
      found.1.Calm (plan.deletions.length + plan.candidates.length) →
      exec (finish s project plan (stagedFrom m s plan found.2 plan.candidates).1 : m _)
        (stagedFrom m s plan found.2 plan.candidates).2 = (result, st) →
      Course s project scope t
        (result, found.1.after (plan.deletions.length + plan.candidates.length), st)

end

variable [LawfulMonad m]

omit [LawfulMonad m] [Tracker τ] in
theorem lifts_finish (s : Stager τ) (project : Project) (plan : Plan) (w : Applied τ) :
    Lifts (finish s project plan w : m _) (finish s project plan w : StateT Polls m _) := by
  intro t
  rw [exec_finish, exec_finish, lifts_save]

/-- Every pass takes one of these courses. -/
theorem course (s : Stager τ) (project : Project) (scope : Scope) (t : Polls × σ) :
    Course m s project scope t (exec (run s project scope : StateT Polls m _) t) := by
  rw [run, exec_bind]
  rcases discovered : exec (Discovery.ofProject project scope :
    ExceptT Cancelled (StateT Polls m) _).run t with ⟨⟨⟩ | d, found⟩
  · simp only
    rw [exec_pure]
    exact .discovering found discovered
  · simp only
    rw [exec_bind, apply, exec_bind]
    generalize planned : Plan.ofDiscovery s.ledger d = plan
    have deletions := swept (m := m) lifts_deleteStep plan.deletions { tracker := s.tracker } found
    generalize exec (sweep deleteStep plan.deletions { tracker := s.tracker } :
      StateT Polls m _) found = r at deletions ⊢
    cases deletions with
    | stopped done x rest whole alarm =>
      simp only [if_true, exec_pure]
      exact .deleting d found done x rest discovered (planned ▸ whole) alarm
    | through calm =>
      simp only [Bool.false_eq_true, if_false]
      have candidates := swept (m := m) (lifts_stageStep s) plan.candidates
        (deletedFrom m s found.2 plan.deletions).1
        (found.1.after plan.deletions.length, (deletedFrom m s found.2 plan.deletions).2)
      rw [← deletedFrom]
      generalize exec (sweep (stageStep s) plan.candidates
        (deletedFrom m s found.2 plan.deletions).1 : StateT Polls m _)
        (found.1.after plan.deletions.length, (deletedFrom m s found.2 plan.deletions).2) = r
        at candidates ⊢
      cases candidates with
      | stopped done item rest whole alarm =>
        simp only [if_true, exec_pure, after_after]
        exact .staging d plan found done item rest discovered planned.symm whole (calm.alarm alarm)
      | through calm' =>
        simp only [Bool.false_eq_true, if_false, after_after]
        rw [lifts_finish]
        exact .finished d plan found _ _ discovered planned.symm (calm.add calm') rfl

end Pass
end Staging
