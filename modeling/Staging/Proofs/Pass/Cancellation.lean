import Staging.Proofs.Pass.Polling
import Staging.Proofs.Pass.Resumption

/-!
What cancelling does to a pass. A pass over any file system is cancelled if and only if one of its
polls finds the flag raised; then it reports nothing, keeps its ledger, and has changed only what it
was to delete or to stage.
-/
namespace Staging

namespace Polls

variable {p : Polls} {polls listings : Nat}

theorem Calm.not_seen (h : p.Calm polls) :
    ¬∃ k, p.made ≤ k ∧ k < (p.after polls listings).made ∧ p.raised k = true := by
  rintro ⟨k, first, last, seen⟩
  have bound : k - p.made < polls := by
    rw [after] at last
    simp only at last
    omega
  have calm := h (k - p.made) bound
  rw [Nat.add_sub_cancel' first, seen] at calm
  cases calm

theorem Alarm.exists_seen (h : p.Alarm polls) :
    ∃ k, p.made ≤ k ∧ k < (p.after (polls + 1) listings).made ∧ p.raised k = true :=
  ⟨p.made + polls, Nat.le_add_right _ _, Nat.lt_succ_self _, h.seen⟩

end Polls

namespace Pass
open Polls

/-! The polls of a pass -/

section
variable {m : Type → Type} {σ τ : Type} [Monad m] [LawfulMonad m] [Stateful m σ] [FileSystem m]
variable [Tracker τ] {s s' : Stager τ} {project : Project} {scope : Scope} {t t' : Polls × σ}
variable {r : Report}

theorem polled_of_stopped {found : Polls × σ}
    (discovered : exec (Discovery.ofProject project scope :
      ExceptT Cancelled (StateT Polls m) _).run t = (.error {}, found)) :
    ∃ before listings, found.1 = t.1.after (before + 1) listings ∧ t.1.Alarm before := by
  obtain ⟨_, listings, counted, heeded⟩ := heeds_ofProject (m := m) project scope t
  rw [discovered] at counted heeded
  cases heeded with
  | failed _ _ _ other => exact absurd trivial other
  | stopped _ before _ _ alarm => exact ⟨before, listings, counted, alarm⟩

theorem polled_of_discovered {d : Discovery} {found : Polls × σ}
    (discovered : exec (Discovery.ofProject project scope :
      ExceptT Cancelled (StateT Polls m) _).run t = (.ok d, found)) :
    ∃ polls listings, found.1 = t.1.after polls listings ∧ t.1.Calm polls ∧
      d.units.length + (d.units.flatMap (·.candidates)).length + listings ≤ polls := by
  obtain ⟨polls, listings, counted, heeded⟩ := heeds_ofProject (m := m) project scope t
  rw [discovered] at counted heeded
  cases heeded with
  | ok _ _ _ paid calm => exact ⟨polls, listings, counted, calm, paid⟩

/-- All polls of a completed pass are calm, and there is one for each unit, each directory listed,
each file found, each deletion and each candidate at least. The last poll of a cancelled pass is the
first to find the flag raised. -/
theorem Course.polled (h : Course m s project scope t ((r, s'), t')) :
    ∃ polls listings, t'.1 = t.1.after polls listings ∧
      ((r = .cancelled ∧ s' = { s with tracker := s'.tracker } ∧
        ∃ before, polls = before + 1 ∧ t.1.Alarm before) ∨
      (r.outcome = .completed ∧ t.1.Calm polls ∧
        ∃ d, (exec (Discovery.ofProject project scope :
            ExceptT Cancelled (StateT Polls m) _).run t).1 = .ok d ∧
          d.units.length + listings + (d.units.flatMap (·.candidates)).length +
            (Plan.ofDiscovery s.ledger d).deletions.length +
            (Plan.ofDiscovery s.ledger d).candidates.length ≤ polls)) := by
  cases h with
  | discovering _ discovered =>
    obtain ⟨before, listings, counted, alarm⟩ := polled_of_stopped discovered
    exact ⟨before + 1, listings, counted, .inl ⟨rfl, rfl, before, rfl, alarm⟩⟩
  | deleting d found done x rest discovered whole alarm =>
    obtain ⟨polls, listings, counted, calm, -⟩ := polled_of_discovered discovered
    rw [counted] at alarm
    refine ⟨polls + (done.length + 1), listings, ?_,
      .inl ⟨rfl, rfl, polls + done.length, rfl, calm.alarm alarm⟩⟩
    simp only [counted, after_after, Nat.add_zero]
  | staging d plan found done item rest discovered planned whole alarm =>
    obtain ⟨polls, listings, counted, calm, -⟩ := polled_of_discovered discovered
    rw [counted] at alarm
    refine ⟨polls + (plan.deletions.length + done.length + 1), listings, ?_,
      .inl ⟨rfl, rfl, polls + (plan.deletions.length + done.length), rfl, calm.alarm alarm⟩⟩
    simp only [counted, after_after, Nat.add_zero]
  | finished d plan found result st discovered planned calm' ended =>
    obtain ⟨polls, listings, counted, calm, paid⟩ := polled_of_discovered discovered
    rw [counted] at calm'
    refine ⟨polls + (plan.deletions.length + plan.candidates.length), listings, ?_,
      .inr ⟨?_, calm.add calm', d, by rw [discovered], ?_⟩⟩
    · simp only [counted, after_after, Nat.add_zero]
    · rw [exec_finish, Prod.mk.injEq, Prod.mk.injEq] at ended
      obtain ⟨⟨rfl, -⟩, -⟩ := ended
      rfl
    · rw [← planned]
      omega

theorem Course.cancelled_iff (h : Course m s project scope t ((r, s'), t')) :
    r.outcome = .cancelled ↔
      ∃ k, t.1.made ≤ k ∧ k < t'.1.made ∧ t.1.raised k = true := by
  obtain ⟨polls, listings, counted, ⟨rfl, -, before, rfl, alarm⟩ | ⟨completed, calm, -⟩⟩ := h.polled
  · rw [counted]
    exact ⟨fun _ => alarm.exists_seen, fun _ => rfl⟩
  · rw [counted, completed]
    exact ⟨nofun, fun seen => absurd seen calm.not_seen⟩

end

/-! What the calls of a pass leave as it is -/

section
variable (m : Type → Type) {σ : Type} [Monad m] [Stateful m σ] [FileSystem m]

/-- Each call of a pass changes the content of no path but the one that it writes or removes. -/
structure Contained (content : σ → Path → Option Bytes) : Prop where
  looks (q : Path) (c : Option Bytes) : Looks m fun st => content st q = c
  isPresent (p q : Path) (c : Option Bytes) :
    Gives (fun st => content st q = c) (fun _ => True) (FileSystem.isPresent p : m _)
  createDirs (p q : Path) (c : Option Bytes) :
    Gives (fun st => content st q = c) (fun _ => True) (FileSystem.createDirs p : m _)
  write (p : Path) (bytes : Bytes) (q : Path) (c : Option Bytes) : p.same q = false →
    Gives (fun st => content st q = c) (fun _ => True) (FileSystem.write p bytes : m _)
  copy (source target q : Path) (c : Option Bytes) : target.same q = false →
    Gives (fun st => content st q = c) (fun _ => True) (FileSystem.copy source target : m _)
  removeFile (p q : Path) (c : Option Bytes) : p.same q = false →
    Gives (fun st => content st q = c) (fun _ => True) (FileSystem.removeFile p : m _)

end

section
variable {m : Type → Type} {σ α τ ω : Type} [Monad m] [Stateful m σ] {inv : σ → Prop}

/-- What every step of a sweep preserves is as it was after the sweep. -/
theorem sweepFrom_gives {step : ω → α → m ω} {xs : List α}
    (each : ∀ x ∈ xs, ∀ w, Gives inv (fun _ => True) (step w x)) (w : ω) {st : σ} (start : inv st) :
    inv (sweepFrom step xs w st).2 := by
  refine sweepFrom_invariant (fun _ _ st => inv st) start fun done x rest w st whole holds => ?_
  exact (each x (by simp [whole]) w st holds).1

variable [LawfulMonad m]

theorem gives_calling {x : m (Except FsError α)} (wrap : FsError → ItemError)
    (h : Gives inv (fun _ => True) x) : GivesOk inv (fun _ => True) (calling x wrap) :=
  .adapt wrap (Gives.mono (x := x) h fun _ _ _ _ => trivial)

variable [FileSystem m] {content : σ → Path → Option Bytes} {q : Path} {c : Option Bytes}

namespace Contained

variable (h : Contained m content)
include h

/-- A discovery changes no content. -/
theorem discovery (project : Project) (scope : Scope) (t : Polls × σ) (q : Path) :
    content (exec (Discovery.ofProject project scope :
      ExceptT Cancelled (StateT Polls m) _).run t).2.2 q = content t.2 q :=
  (Discovery.arises_ofProject (Polls.looks (h.looks q (content t.2 q))) project scope t rfl).1

theorem stageItem {s : Stager τ} {item : Candidate}
    (other : (⟨item.output⟩ : Path).same q = false) :
    GivesOk (fun st => content st q = c) (fun _ => True)
      (stageItem s item : ExceptT ItemError m Unit) := by
  have filled : GivesOk (fun st => content st q = c) (fun _ => True)
      (fill s item : ExceptT ItemError m Unit) := by
    unfold fill
    simp only
    split
    · split
      · exact .throw _
      · refine .bind (gives_calling _ ((h.looks q c).read _)) fun bytes _ => ?_
        exact gives_calling _ (h.write _ _ q c other)
    · exact gives_calling _ (h.copy _ _ q c other)
  rw [stageItem_eq]
  cases (⟨item.output⟩ : Path).parent with
  | none => exact filled
  | some dir => exact .bind (gives_calling _ (h.createDirs dir q c)) fun _ _ => filled

variable [Tracker τ]

omit [LawfulMonad m] in
theorem deleteStep (w : Applied τ) {path : String} (other : (⟨path⟩ : Path).same q = false) :
    Gives (fun st => content st q = c) (fun _ => True) (deleteStep w path : m _) := by
  refine .bind (h.isPresent _ q c) fun here _ => ?_
  split
  · refine .bind (h.removeFile _ q c other) fun removed _ => ?_
    cases removed with
    | error e => exact .pure trivial
    | ok _ => exact .pure trivial
  · exact .pure trivial

theorem stageStep (s : Stager τ) (w : Applied τ) {item : Candidate}
    (other : (⟨item.output⟩ : Path).same q = false) :
    Gives (fun st => content st q = c) (fun _ => True) (stageStep s w item : m _) := by
  refine .bind (Q := fun _ => True) ?_ fun current _ => ?_
  · unfold isCurrent
    split
    · exact h.isPresent _ q c
    · exact .pure trivial
  · split
    · exact .pure trivial
    · refine .bind (h.stageItem other) fun staged _ => ?_
      cases staged with
      | error e => exact .pure trivial
      | ok _ => exact .pure trivial

omit [LawfulMonad m] in
theorem deletedFrom (s : Stager τ) (st : σ) {deletions : List String}
    (other : ∀ path ∈ deletions, (⟨path⟩ : Path).same q = false) :
    content (deletedFrom m s st deletions).2 q = content st q := by
  have steps : ∀ path ∈ deletions, ∀ w : Applied τ, Gives (fun st' => content st' q = content st q)
      (fun _ => True) (Pass.deleteStep w path : m _) :=
    fun path mem w => h.deleteStep w (other path mem)
  exact sweepFrom_gives steps _ rfl

theorem stagedFrom (s : Stager τ) (plan : Plan) (st : σ) {items : List Candidate}
    (deletions : ∀ path ∈ plan.deletions, (⟨path⟩ : Path).same q = false)
    (other : ∀ c ∈ items, (⟨c.output⟩ : Path).same q = false) :
    content (stagedFrom m s plan st items).2 q = content st q := by
  have steps : ∀ item ∈ items, ∀ w : Applied τ, Gives (fun st' => content st' q = content st q)
      (fun _ => True) (Pass.stageStep s w item : m _) :=
    fun item mem w => h.stageStep s w (other item mem)
  exact sweepFrom_gives steps _ (h.deletedFrom s st deletions)

end Contained
end

theorem other_of_not_target {plan : Plan} {q : Path} (out : q.parts ∉ plan.targets) :
    (∀ path ∈ plan.deletions, (⟨path⟩ : Path).same q = false) ∧
      ∀ c ∈ plan.candidates, (⟨c.output⟩ : Path).same q = false := by
  refine ⟨fun path mem => Bool.eq_false_iff.mpr fun same => out ?_,
    fun c mem => Bool.eq_false_iff.mpr fun same => out ?_⟩
  · rw [← Memory.same_iff.mp same]
    exact target_of_deletion mem
  · rw [← Memory.same_iff.mp same]
    exact target_of_candidate mem

end Pass

namespace Memory
open Pass

theorem contained : Contained (StateM Memory) Memory.content? where
  looks q c := by
    constructor <;> intros <;> exact fun _ holds => ⟨holds, trivial⟩
  isPresent p q c st holds := ⟨holds, trivial⟩
  createDirs p q c st holds := by
    refine ⟨?_, trivial⟩
    rcases exec_createDirs st p with ⟨-, made⟩ | ⟨-, made⟩
    · rwa [made]
    · rwa [made, content?_eq, contentAt_ensureDir, ← content?_eq]
  write p bytes q c other st holds := by
    refine ⟨?_, trivial⟩
    rcases exec_write st p bytes with ⟨-, written⟩ | ⟨-, written⟩
    · rwa [written]
    · rw [written, content?_eq, contentAt_addFile, if_neg, ← content?_eq, holds]
      exact fun same => Bool.eq_false_iff.mp other (same_iff.mpr same.symm)
  copy source target q c other st holds := by
    refine ⟨?_, trivial⟩
    rw [exec_copy]
    split
    · exact holds
    · rename_i bytes _
      rcases exec_write st target bytes with ⟨-, written⟩ | ⟨-, written⟩
      · rwa [written]
      · rw [written, content?_eq, contentAt_addFile, if_neg, ← content?_eq, holds]
        exact fun same => Bool.eq_false_iff.mp other (same_iff.mpr same.symm)
  removeFile p q c other st holds := by
    refine ⟨?_, trivial⟩
    change (change (·.removeFile p) st).2.content? q = c
    rw [change, removeFile]
    cases st.entry? p with
    | none => exact holds
    | some entry =>
      cases entry with
      | dir children => exact holds
      | file bytes time =>
        change (st.discard p).content? q = c
        rw [content?_eq, contentAt_discard, if_neg, ← content?_eq, holds]
        exact fun same => Bool.eq_false_iff.mp other (same_iff.mpr same.symm)

end Memory

namespace Pass
open Polls

variable {m : Type → Type} {σ τ : Type} [Monad m] [LawfulMonad m] [Stateful m σ] [FileSystem m]
variable [Tracker τ] {s s' : Stager τ} {project : Project} {scope : Scope}

/-- A cancelled pass changes no content but that of what it was to delete or to stage. -/
theorem Course.content {t t' : Polls × σ} {r : Report}
    (h : Course m s project scope t ((r, s'), t')) (cancelled : r.outcome = .cancelled)
    {content : σ → Path → Option Bytes} (contained : Contained m content) {q : Path}
    (out : ∀ d, (exec (Discovery.ofProject project scope :
        ExceptT Cancelled (StateT Polls m) _).run t).1 = .ok d →
      q.parts ∉ (Plan.ofDiscovery s.ledger d).targets) :
    content t'.2 q = content t.2 q := by
  have looked := contained.discovery project scope t q
  cases h with
  | discovering _ discovered => rwa [discovered] at looked
  | deleting d found done x rest discovered whole alarm =>
    rw [discovered] at looked out
    obtain ⟨deletions, -⟩ := other_of_not_target (out d rfl)
    refine (contained.deletedFrom s found.2 fun path mem => deletions path ?_).trans looked
    exact whole ▸ List.mem_append_left _ mem
  | staging d plan found done item rest discovered planned whole alarm =>
    rw [discovered] at looked out
    obtain ⟨deletions, candidates⟩ := other_of_not_target (planned ▸ out d rfl)
    refine (contained.stagedFrom s plan found.2 deletions fun c mem => candidates c ?_).trans looked
    exact whole ▸ List.mem_append_left _ mem
  | finished d plan found result st discovered planned calm ended =>
    rw [exec_finish, Prod.mk.injEq, Prod.mk.injEq] at ended
    obtain ⟨⟨rfl, -⟩, -⟩ := ended
    cases cancelled

/-- A pass over any file system, with any schedule for its cancel flag, always has a report. It is
cancelled if and only if one of its polls finds the flag raised, and completed otherwise. A completed
pass has polled for each unit, each directory that it listed, each file found, each deletion and each
candidate. A cancelled pass has stopped in its discovery, which changes no content, before one of its
deletions, or before one of its candidates when all deletions were done. It reports nothing and keeps
its ledger, and wherever calls change what they are made on only, it leaves the ledger's file and
every other one as it was that the plan neither deletes nor stages. -/
theorem cancelled_iff_seen {polls polls' : Polls} {st st' : σ} {r : Report}
    (ran : exec (run s project scope : StateT Polls m _) (polls, st) = ((r, s'), polls', st')) :
    let discovered := exec (Discovery.ofProject project scope :
      ExceptT Cancelled (StateT Polls m) _).run (polls, st)
    (r.outcome = .cancelled ↔
      ∃ k, polls.made ≤ k ∧ k < polls'.made ∧ polls.raised k = true) ∧
    (r.outcome = .completed ↔
      ∀ k, polls.made ≤ k → k < polls'.made → polls.raised k = false) ∧
    Course m s project scope (polls, st) ((r, s'), polls', st') ∧
    (r.outcome = .completed → ∃ d, discovered.1 = .ok d ∧
      polls.made + (d.units.length + (polls'.listed - polls.listed) +
        (d.units.flatMap (·.candidates)).length + (Plan.ofDiscovery s.ledger d).deletions.length +
        (Plan.ofDiscovery s.ledger d).candidates.length) ≤ polls'.made) ∧
    (r.outcome = .cancelled →
      r = { outcome := .cancelled, processed := [], skipped := [], deleted := [], messages := [] } ∧
      s' = { s with tracker := s'.tracker } ∧
      ∀ content : σ → Path → Option Bytes, Contained m content →
        (∀ q, content discovered.2.2 q = content st q) ∧
        ∀ q, (∀ d, discovered.1 = .ok d → q.parts ∉ (Plan.ofDiscovery s.ledger d).targets) →
          content st' q = content st q) := by
  intro discovered
  have taken : Course m s project scope (polls, st) ((r, s'), polls', st') :=
    ran ▸ course s project scope (polls, st)
  have seen := taken.cancelled_iff
  obtain ⟨count, listings, counted, ended⟩ := taken.polled
  simp only at counted
  refine ⟨seen, ⟨fun completed k first last => ?_, fun none => ?_⟩, taken, fun completed => ?_,
    fun cancelled => ?_⟩
  · refine Bool.eq_false_iff.mpr fun raised => ?_
    rw [seen.mpr ⟨k, first, last, raised⟩] at completed
    cases completed
  · cases outcome : r.outcome with
    | completed => rfl
    | cancelled =>
      obtain ⟨k, first, last, raised⟩ := seen.mp outcome
      rw [none k first last] at raised
      cases raised
  · rcases ended with ⟨rfl, -⟩ | ⟨-, -, d, found, paid⟩
    · cases completed
    · refine ⟨d, found, ?_⟩
      simp only [counted, Polls.after]
      omega
  · rcases ended with ⟨empty, kept, -⟩ | ⟨completed, -⟩
    · refine ⟨empty, kept, fun content contained => ⟨?_, fun q out => ?_⟩⟩
      · exact contained.discovery project scope (polls, st)
      · exact taken.content cancelled contained out
    · rw [completed] at cancelled
      cases cancelled

/-- The small project has a unit, a directory, a file, a deletion and a candidate to poll for. The
fifth poll cancels, when the deletion is done. -/
theorem cancelled_iff_seen_sample :
    let polls : Polls := { raised := fun k => decide (4 ≤ k) }
    let outcome := exec (run Sample.stager Sample.project .all : StateT Polls (StateM Memory) _)
      (polls, Sample.tree)
    (∃ k, polls.made ≤ k ∧ k < outcome.2.1.made ∧ polls.raised k = true) ∧
    outcome.1.1 =
      { outcome := .cancelled, processed := [], skipped := [], deleted := [], messages := [] } ∧
    outcome.1.2 = Sample.stager ∧ outcome.2.2.isPresent ⟨"out/b.txt"⟩ = false ∧
    ∀ q ∈ [Sample.stager.ledgerPath, Ledger.scratchFor Sample.stager.ledgerPath],
      outcome.2.2.content? q = Sample.tree.content? q := by
  intro polls outcome
  have cancelled : outcome.1.1.outcome = .cancelled := by decide +kernel
  have gone : outcome.2.2.isPresent ⟨"out/b.txt"⟩ = false := by decide +kernel
  have apart : ((exec (Discovery.ofProject Sample.project .all :
      ExceptT Cancelled (StateT Polls (StateM Memory)) _).run (polls, Sample.tree)).1.toOption.all
        fun d => decide (∀ q ∈ [Sample.stager.ledgerPath, Ledger.scratchFor Sample.stager.ledgerPath],
          q.parts ∉ (Plan.ofDiscovery Sample.stager.ledger d).targets)) = true := by
    decide +kernel
  have ran : exec (run Sample.stager Sample.project .all : StateT Polls (StateM Memory) _)
      (polls, Sample.tree) = ((outcome.1.1, outcome.1.2), outcome.2.1, outcome.2.2) := rfl
  obtain ⟨seen, -, -, -, rest⟩ := cancelled_iff_seen ran
  obtain ⟨empty, kept, contents⟩ := rest cancelled
  refine ⟨seen.mp cancelled, empty, kept, gone, fun q mem => ?_⟩
  refine (contents _ Memory.contained).2 q fun d found => ?_
  rw [found] at apart
  exact of_decide_eq_true apart q mem

end Pass
end Staging
