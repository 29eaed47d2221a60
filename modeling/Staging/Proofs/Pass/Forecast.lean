import Staging.Proofs.Discovery.Schedule
import Staging.Proofs.Pass.Cancellation

/-!
What a plan foretells of a pass. A pass that nobody cancels reports on the plan that a discovery of
the same files gives: what there was to say about it comes first, and every deletion and every
candidate of it meets one fate when its turn comes and is reported in its place.
-/
namespace Staging

namespace Sample

/-- Two units that have one output on record, which neither has a candidate for any more. -/
def stumbling : Project :=
  ⟨[{ name := "a", output := some ⟨"out"⟩, resources := [{ directory := ⟨"a"⟩ }] },
    { name := "b", output := some ⟨"out"⟩,
      resources := [{ directory := ⟨"b"⟩, filtered := true }] }]⟩

def stumblingTree : Memory :=
  ((Memory.empty.addFile ⟨"a/k.txt"⟩ [107]).addFile ⟨"b/t.txt"⟩ [116]).addFile ⟨"out/x.txt"⟩ [120]

def stumbler : Stager NoTracking where
  ledgerPath := ⟨"cache/outputs.bin"⟩
  ledger := ((Ledger.empty .sensitive).record "a" (PathSet.ofList .sensitive ["out/x.txt"])).record
    "b" (PathSet.ofList .sensitive ["out/x.txt"])
  filter := .placeholders
  charsetFor _ := "EBCDIC"
  tracker := {}

end Sample

/-- What becomes of a deletion. -/
inductive DeletionFate where
  | deleted
  | refused (e : FsError)
  | absent
  deriving DecidableEq

/-- What becomes of a candidate. -/
inductive ItemFate where
  | processed
  | skipped
  | failed (e : ItemError)
  deriving DecidableEq

namespace DeletionFate

def deleted? : String × DeletionFate → Option String
  | (path, deleted) => some path
  | _ => none

def warning? : String × DeletionFate → Option Message
  | (path, refused e) => some (Pass.undeleted ⟨path⟩ e)
  | _ => none

/-- The record of a pass with one more deletion. -/
def note {τ : Type} [Tracker τ] (w : Applied τ) (path : String) (fate : DeletionFate) : Applied τ :=
  { w with
    tracker := Tracker.forget w.tracker path
    deleted := w.deleted ++ (deleted? (path, fate)).toList
    messages := w.messages ++ (warning? (path, fate)).toList }

end DeletionFate

namespace ItemFate

def processed? : Candidate × ItemFate → Option Candidate
  | (item, processed) => some item
  | _ => none

def skipped? : Candidate × ItemFate → Option String
  | (item, skipped) => some item.output
  | _ => none

def error? : Candidate × ItemFate → Option Message
  | (item, failed e) => some (Pass.unprocessed item e)
  | _ => none

/-- The record of a pass with one more candidate. -/
def note {τ : Type} [Tracker τ] (w : Applied τ) (item : Candidate) (fate : ItemFate) : Applied τ :=
  { w with
    tracker := if fate = processed then Tracker.record w.tracker item else w.tracker
    processed := w.processed ++ (processed? (item, fate)).toList
    skipped := w.skipped ++ (skipped? (item, fate)).toList
    messages := w.messages ++ (error? (item, fate)).toList }

end ItemFate

namespace Pass
open Polls

section
variable (m : Type → Type) {σ τ : Type} [Monad m] [Stateful m σ] [FileSystem m] [Tracker τ]

/-- What a deletion meets in a state. -/
inductive Deletes (st : σ) (path : String) : DeletionFate → Prop
  | deleted : (exec (FileSystem.isPresent ⟨path⟩ : m Bool) st).1 = true →
      (exec (FileSystem.removeFile ⟨path⟩ : m _)
        (exec (FileSystem.isPresent ⟨path⟩ : m Bool) st).2).1 = .ok () →
      Deletes st path .deleted
  | refused (e : FsError) : (exec (FileSystem.isPresent ⟨path⟩ : m Bool) st).1 = true →
      (exec (FileSystem.removeFile ⟨path⟩ : m _)
        (exec (FileSystem.isPresent ⟨path⟩ : m Bool) st).2).1 = .error e →
      Deletes st path (.refused e)
  | absent : (exec (FileSystem.isPresent ⟨path⟩ : m Bool) st).1 = false → Deletes st path .absent

/-- What a candidate meets after what a pass has done so far. -/
inductive Stages (s : Stager τ) (w : Applied τ) (st : σ) (item : Candidate) : ItemFate → Prop
  | processed : (exec (isCurrent w item : m Bool) st).1 = false →
      (exec (stageItem s item : ExceptT ItemError m Unit).run
        (exec (isCurrent w item : m Bool) st).2).1 = .ok () →
      Stages s w st item .processed
  | skipped : (exec (isCurrent w item : m Bool) st).1 = true → Stages s w st item .skipped
  | failed (e : ItemError) : (exec (isCurrent w item : m Bool) st).1 = false →
      (exec (stageItem s item : ExceptT ItemError m Unit).run
        (exec (isCurrent w item : m Bool) st).2).1 = .error e →
      Stages s w st item (.failed e)

/-- A report on a plan: every deletion and every candidate has one fate, met when those before it
had met theirs, and each list of the report takes from the fates what belongs there, in order. -/
structure Accounts (s : Stager τ) (project : Project) (plan : Plan) (st : σ) (r : Report)
    (ends : List (String × DeletionFate)) (items : List (Candidate × ItemFate)) : Prop where
  deletions : ends.map (·.1) = plan.deletions
  candidates : items.map (·.1) = plan.candidates
  deletes (before : List (String × DeletionFate)) (path : String) (fate : DeletionFate)
    (after : List (String × DeletionFate)) : ends = before ++ (path, fate) :: after →
    Deletes m (deletedFrom m s st (before.map (·.1))).2 path fate
  stages (before : List (Candidate × ItemFate)) (item : Candidate) (fate : ItemFate)
    (after : List (Candidate × ItemFate)) : items = before ++ (item, fate) :: after →
    Stages m s (stagedFrom m s plan st (before.map (·.1))).1
      (stagedFrom m s plan st (before.map (·.1))).2 item fate
  deleted : r.deleted = ends.filterMap DeletionFate.deleted?
  processed : r.processed = items.filterMap ItemFate.processed?
  skipped : r.skipped = items.filterMap ItemFate.skipped?
  messages : ∃ saved, r.messages = plan.messages ++ ends.filterMap DeletionFate.warning? ++
    items.filterMap ItemFate.error? ++
    ((recordPlan s.ledger plan).strangers project.unitNames).map forgotten ++
    savingMessages s.ledgerPath saved

end

variable {m : Type → Type} {σ τ α φ ω : Type} [Monad m] [Stateful m σ]

/-- The fates of the elements of a sweep, when each step gives its element one. -/
theorem sweepFrom_fates {step : ω → α → m ω} {meets : ω → σ → α → φ → Prop} {note : ω → α → φ → ω}
    (each : ∀ w x st, ∃ fate, meets w st x fate ∧ (exec (step w x) st).1 = note w x fate)
    (xs : List α) (w : ω) (st : σ) :
    ∃ fates : List (α × φ), fates.map (·.1) = xs ∧
      (sweepFrom step xs w st).1 = fates.foldl (fun w x => note w x.1 x.2) w ∧
      ∀ before x fate after, fates = before ++ (x, fate) :: after →
        meets (sweepFrom step (before.map (·.1)) w st).1
          (sweepFrom step (before.map (·.1)) w st).2 x fate := by
  induction xs generalizing w st with
  | nil =>
    refine ⟨[], rfl, rfl, fun before x fate after whole => ?_⟩
    simp at whole
  | cons x xs ih =>
    obtain ⟨fate, met, noted⟩ := each w x st
    obtain ⟨fates, all, result, turns⟩ := ih (exec (step w x) st).1 (exec (step w x) st).2
    refine ⟨(x, fate) :: fates, ?_, ?_, fun before y other after whole => ?_⟩
    · rw [List.map_cons, all]
    · rw [sweepFrom_cons, result, List.foldl_cons, noted]
    · cases before with
      | nil =>
        cases whole
        exact met
      | cons first before =>
        obtain ⟨rfl, rest⟩ := List.cons_eq_cons.mp whole
        exact turns before y other after rest

variable [FileSystem m] [Tracker τ]

theorem deleteStep_fate (w : Applied τ) (path : String) (st : σ) :
    ∃ fate, Deletes m st path fate ∧ (exec (deleteStep w path : m _) st).1 = fate.note w path := by
  unfold deleteStep
  rw [exec_bind]
  cases here : (exec (FileSystem.isPresent ⟨path⟩ : m Bool) st).1 with
  | false => exact ⟨.absent, .absent here, by simp [DeletionFate.note, DeletionFate.deleted?,
      DeletionFate.warning?]⟩
  | true =>
    simp only [if_true, exec_bind]
    cases removed : (exec (FileSystem.removeFile ⟨path⟩ : m _)
        (exec (FileSystem.isPresent ⟨path⟩ : m Bool) st).2).1 with
    | ok _ => exact ⟨.deleted, .deleted here removed, by simp [DeletionFate.note,
        DeletionFate.deleted?, DeletionFate.warning?]⟩
    | error e => exact ⟨.refused e, .refused e here removed, by simp [DeletionFate.note,
        DeletionFate.deleted?, DeletionFate.warning?]⟩

theorem stageStep_fate (s : Stager τ) (w : Applied τ) (item : Candidate) (st : σ) :
    ∃ fate, Stages m s w st item fate ∧ (exec (stageStep s w item : m _) st).1 = fate.note w item := by
  unfold stageStep
  rw [exec_bind]
  cases current : (exec (isCurrent w item : m Bool) st).1 with
  | true => exact ⟨.skipped, .skipped current, by simp [ItemFate.note, ItemFate.processed?,
      ItemFate.skipped?, ItemFate.error?]⟩
  | false =>
    simp only [Bool.false_eq_true, if_false, exec_bind]
    cases staged : (exec (stageItem s item : ExceptT ItemError m Unit).run
        (exec (isCurrent w item : m Bool) st).2).1 with
    | ok _ => exact ⟨.processed, .processed current staged, by simp [ItemFate.note,
        ItemFate.processed?, ItemFate.skipped?, ItemFate.error?]⟩
    | error e => exact ⟨.failed e, .failed e current staged, by simp [ItemFate.note,
        ItemFate.processed?, ItemFate.skipped?, ItemFate.error?]⟩

theorem append_filterMap_cons {β : Type} (f : α → Option β) (x : α) (xs : List α) (ys : List β) :
    ys ++ (f x).toList ++ xs.filterMap f = ys ++ (x :: xs).filterMap f := by
  rw [List.append_assoc, List.filterMap_cons]
  cases f x <;> rfl

theorem noted_deletions (ends : List (String × DeletionFate)) (w : Applied τ) :
    let w' := ends.foldl (fun w x => x.2.note w x.1) w
    w'.deleted = w.deleted ++ ends.filterMap DeletionFate.deleted? ∧
      w'.messages = w.messages ++ ends.filterMap DeletionFate.warning? ∧
      w'.processed = w.processed ∧ w'.skipped = w.skipped := by
  induction ends generalizing w with
  | nil => simp
  | cons first ends ih =>
    obtain ⟨deleted, messages, processed, skipped⟩ := ih (first.2.note w first.1)
    rw [List.foldl_cons]
    exact ⟨deleted.trans (append_filterMap_cons _ first ends _),
      messages.trans (append_filterMap_cons _ first ends _), processed, skipped⟩

theorem noted_items (items : List (Candidate × ItemFate)) (w : Applied τ) :
    let w' := items.foldl (fun w x => x.2.note w x.1) w
    w'.processed = w.processed ++ items.filterMap ItemFate.processed? ∧
      w'.skipped = w.skipped ++ items.filterMap ItemFate.skipped? ∧
      w'.messages = w.messages ++ items.filterMap ItemFate.error? ∧ w'.deleted = w.deleted := by
  induction items generalizing w with
  | nil => simp
  | cons first items ih =>
    obtain ⟨processed, skipped, messages, deleted⟩ := ih (first.2.note w first.1)
    rw [List.foldl_cons]
    exact ⟨processed.trans (append_filterMap_cons _ first items _),
      skipped.trans (append_filterMap_cons _ first items _),
      messages.trans (append_filterMap_cons _ first items _), deleted⟩

/-- A plan that is carried out to the end is accounted for. -/
theorem accounts_of_staged (s : Stager τ) (project : Project) (plan : Plan) (st : σ)
    (saved : Except Ledger.SaveError Unit) :
    ∃ ends items, Accounts m s project plan st
      (completedReport s project plan (stagedFrom m s plan st plan.candidates).1 saved)
      ends items := by
  obtain ⟨ends, deletions, swept, deletes⟩ :=
    sweepFrom_fates (deleteStep_fate (m := m)) plan.deletions ({ tracker := s.tracker } : Applied τ) st
  obtain ⟨items, candidates, staged, stages⟩ :=
    sweepFrom_fates (stageStep_fate (m := m) s) plan.candidates (deletedFrom m s st plan.deletions).1
      (deletedFrom m s st plan.deletions).2
  obtain ⟨deleted, warnings, processed, skipped⟩ :=
    noted_deletions ends ({ tracker := s.tracker } : Applied τ)
  rw [← swept, ← deletedFrom] at deleted warnings processed skipped
  obtain ⟨processed', skipped', errors, deleted'⟩ :=
    noted_items items (deletedFrom m s st plan.deletions).1
  rw [← staged, ← stagedFrom] at processed' skipped' errors deleted'
  refine ⟨ends, items, deletions, candidates, deletes, stages, ?_, ?_, ?_, saved, ?_⟩
  · rw [completedReport, deleted', deleted, List.nil_append]
  · rw [completedReport, processed', processed, List.nil_append]
  · rw [completedReport, skipped', skipped, List.nil_append]
  · simp only [completedReport, errors, warnings, List.nil_append, List.append_assoc]

namespace Accounts

variable {s : Stager τ} {project : Project} {plan : Plan} {st : σ} {r : Report}
variable {ends : List (String × DeletionFate)} {items : List (Candidate × ItemFate)}

/-- What there was to say about the plan comes first. -/
theorem messages_prefix (h : Accounts m s project plan st r ends items) :
    plan.messages <+: r.messages := by
  obtain ⟨saved, messages⟩ := h.messages
  simp only [messages, List.append_assoc]
  exact List.prefix_append _ _

theorem hasErrors (h : Accounts m s project plan st r ends items)
    (foretold : plan.hasErrors = true) : r.hasErrors = true := by
  obtain ⟨message, mem, error⟩ := List.any_eq_true.mp foretold
  exact List.any_eq_true.mpr ⟨message, h.messages_prefix.subset mem, error⟩

/-- Taking some elements of a list keeps their order. -/
theorem filterMap_fst_sublist {α φ : Type} {f : α × φ → Option α}
    (first : ∀ x a, f x = some a → a = x.1) (xs : List (α × φ)) :
    (xs.filterMap f).Sublist (xs.map (·.1)) := by
  induction xs with
  | nil => exact .slnil
  | cons x xs ih =>
    rw [List.map_cons]
    cases taken : f x with
    | none =>
      rw [List.filterMap_cons_none taken]
      exact ih.cons _
    | some a =>
      rw [List.filterMap_cons_some taken, first x a taken]
      exact ih.cons_cons _

theorem deleted_sublist (h : Accounts m s project plan st r ends items) :
    r.deleted.Sublist plan.deletions := by
  rw [h.deleted, ← h.deletions]
  refine filterMap_fst_sublist ?_ ends
  rintro ⟨path, fate⟩ taken told
  cases fate <;> simp_all [DeletionFate.deleted?]

end Accounts

variable [LawfulMonad m] {s s' : Stager τ} {project : Project} {scope : Scope}

/-- A dry run foretells a pass over the same files that nobody cancels. -/
theorem accounts_of_foreseen {quiet polls polls' : Polls} {st st' : σ} {d : Discovery}
    {found : Polls × σ} {r : Report}
    (foreseen : exec (Discovery.ofProject project scope :
      ExceptT Cancelled (StateT Polls m) _).run (quiet, st) = (.ok d, found))
    (ran : exec (run s project scope : StateT Polls m _) (polls, st) = ((r, s'), polls', st'))
    (calm : ∀ k, polls.made ≤ k → k < polls'.made → polls.raised k = false) :
    let plan := Plan.ofDiscovery s.ledger d
    r.outcome = .completed ∧ plan.messages <+: r.messages ∧
    (plan.hasErrors = true → r.hasErrors = true) ∧ r.deleted.Sublist plan.deletions ∧
    ∃ ends items, Accounts m s project plan found.2 r ends items := by
  have taken : Course m s project scope (polls, st) ((r, s'), polls', st') :=
    ran ▸ course s project scope (polls, st)
  have through : r.outcome ≠ .cancelled := by
    intro cancelled
    obtain ⟨k, first, last, raised⟩ := taken.cancelled_iff.mp cancelled
    rw [calm k first last] at raised
    cases raised
  cases taken with
  | discovering => exact absurd rfl through
  | deleting => exact absurd rfl through
  | staging => exact absurd rfl through
  | finished d' plan' found' result st' discovered planned quiet' ended =>
    obtain ⟨rfl, same⟩ := discovered_alike foreseen discovered
    rw [exec_finish, Prod.mk.injEq, Prod.mk.injEq] at ended
    obtain ⟨⟨rfl, -⟩, -⟩ := ended
    subst planned
    rw [same]
    obtain ⟨ends, items, accounts⟩ := accounts_of_staged (m := m) s project
      (Plan.ofDiscovery s.ledger d') found.2 _
    exact ⟨rfl, accounts.messages_prefix, accounts.hasErrors, accounts.deleted_sublist, ends, items,
      accounts⟩

/-- The second unit's deletion comes too late, and its candidate has a charset that is not known. -/
theorem accounts_of_foreseen_sample :
    let calm : Polls := { raised := fun _ => false }
    let outcome := exec (run Sample.stumbler Sample.stumbling .all : StateT Polls (StateM Memory) _)
      (calm, Sample.stumblingTree)
    (outcome.1.1.deleted = ["out/x.txt"] ∧ outcome.1.1.processed.map (·.output) = ["out/k.txt"] ∧
      outcome.1.1.errors.length = 1) ∧
    ∃ d found, exec (Discovery.ofProject Sample.stumbling .all :
        ExceptT Cancelled (StateT Polls (StateM Memory)) _).run (calm, Sample.stumblingTree) =
          (.ok d, found) ∧
      let plan := Plan.ofDiscovery Sample.stumbler.ledger d
      plan.deletions = ["out/x.txt", "out/x.txt"] ∧
      outcome.1.1.outcome = .completed ∧ plan.messages <+: outcome.1.1.messages ∧
      (plan.hasErrors = true → outcome.1.1.hasErrors = true) ∧
      outcome.1.1.deleted.Sublist plan.deletions ∧
      ∃ ends items, Accounts (StateM Memory) Sample.stumbler Sample.stumbling plan found.2
        outcome.1.1 ends items := by
  intro calm outcome
  have reported : outcome.1.1.deleted = ["out/x.txt"] ∧
      outcome.1.1.processed.map (·.output) = ["out/k.txt"] ∧
      outcome.1.1.errors.length = 1 := by
    decide +kernel
  have deletions : ((exec (Discovery.ofProject Sample.stumbling .all :
      ExceptT Cancelled (StateT Polls (StateM Memory)) _).run
        (calm, Sample.stumblingTree)).1.toOption.map fun d =>
          (Plan.ofDiscovery Sample.stumbler.ledger d).deletions) =
      some ["out/x.txt", "out/x.txt"] := by
    decide +kernel
  have ran : exec (run Sample.stumbler Sample.stumbling .all : StateT Polls (StateM Memory) _)
      (calm, Sample.stumblingTree) = ((outcome.1.1, outcome.1.2), outcome.2.1, outcome.2.2) := rfl
  clear_value outcome
  refine ⟨reported, ?_⟩
  rcases foreseen : exec (Discovery.ofProject Sample.stumbling .all :
    ExceptT Cancelled (StateT Polls (StateM Memory)) _).run (calm, Sample.stumblingTree) with
    ⟨stop | d, found⟩
  · rw [foreseen] at deletions
    cases deletions
  · rw [foreseen] at deletions
    exact ⟨d, found, rfl, Option.some.inj deletions,
      accounts_of_foreseen foreseen ran fun _ _ _ => rfl⟩

end Pass
end Staging
