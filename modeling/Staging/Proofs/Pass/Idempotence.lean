import Staging.Proofs.Memory.Frame
import Staging.Proofs.Memory.Retracing
import Staging.Proofs.Pass.Recovery
import Staging.Proofs.Pass.Repetition

/-!
A pass right after a pass. If what a pass writes and deletes lies apart from what it reads and from
its ledger, then running it again finds nothing to delete and leaves contents and ledger as they
are, also where items fail, where they compete for an output, and where saving fails.
-/
namespace Staging

namespace Memory
open Pass

section
variable {l : Ledger} {p : Path} {st x : Memory}

theorem keeps_drafted {K : List Part → Prop}
    (room : st.kindAt (Ledger.scratchFor p).parts ≠ some .dir) :
    Kinds.Keeps K st.kindAt (st.drafted l p).kindAt := by
  rw [kindAt_drafted]
  exact Kinds.keeps_withFile fun _ => room

theorem keeps_save (l : Ledger) (p : Path) (st : Memory) :
    Kinds.Keeps (Lasting p) st.kindAt (exec (l.save p : StateM Memory _) st).2.kindAt := by
  rcases save_cases l p st with ⟨-, _, saved⟩ | ⟨room, -, _, saved⟩ | ⟨room, room', time, saved⟩
  · rw [saved]
    exact .refl _ _
  · rw [saved]
    exact keeps_drafted room
  · rw [saved, ← saved_eq]
    have drafts := grown_drafted (.refl (Lasting p) st.kindAt) (l := l) ⟨room, room'⟩
    exact (grown_saved drafts ⟨room, room'⟩ (fun other => other rfl) time).keeps

/-- Saving the same ledger once more leaves the contents as they are. -/
theorem contentAt_save_again (content : ∀ key, x.contentAt key =
      (exec (l.save p : StateM Memory _) st).2.contentAt key)
    (ledger : ∀ kind, (exec (l.save p : StateM Memory _) st).2.kindAt p.parts = some kind →
      x.kindAt p.parts = some kind)
    (scratch : x.kindAt (Ledger.scratchFor p).parts =
      (exec (l.save p : StateM Memory _) st).2.kindAt (Ledger.scratchFor p).parts)
    (key : List Part) : (exec (l.save p : StateM Memory _) x).2.contentAt key =
      (exec (l.save p : StateM Memory _) st).2.contentAt key := by
  have drafts {kind : Kind} (room : x.kindAt (Ledger.scratchFor p).parts ≠ some .dir)
      (found : x.kindAt p.parts = some kind) : (x.drafted l p).kindAt p.parts = some kind :=
    keeps_drafted (K := fun _ => True) room _ _ trivial found
  rcases save_cases l p st with ⟨dir, _, saved⟩ | ⟨room, dir, _, saved⟩ | ⟨-, -, time, saved⟩
  · rw [saved] at content scratch ⊢
    rcases save_cases l p x with ⟨-, _, again⟩ | ⟨room, -⟩ | ⟨room, -⟩
    · rw [again]
      exact content key
    · exact absurd (scratch.trans dir) room
    · exact absurd (scratch.trans dir) room
  · rw [saved] at content ledger scratch ⊢
    have free : x.kindAt (Ledger.scratchFor p).parts ≠ some .dir := by
      rw [scratch, scratch_of_drafted]
      nofun
    rcases save_cases l p x with ⟨dir', -⟩ | ⟨-, -, _, again⟩ | ⟨-, room', -⟩
    · exact absurd dir' free
    · rw [again]
      simp only at content ⊢
      rw [contentAt_drafted, content]
      simp only [contentAt_drafted]
      split <;> rfl
    · exact absurd (drafts free (ledger _ dir)) room'
  · rw [saved, ← saved_eq] at content ledger scratch ⊢
    have free : x.kindAt (Ledger.scratchFor p).parts ≠ some .dir := by
      rw [scratch, scratch_of_saved]
      nofun
    have file := drafts free (ledger _ (ledger_of_saved time))
    rcases save_cases l p x with ⟨dir, -⟩ | ⟨-, dir, -⟩ | ⟨-, -, time', again⟩
    · exact absurd dir free
    · rw [file] at dir
      cases dir
    · rw [again, ← saved_eq]
      simp only at content ⊢
      rw [contentAt_saved, content]
      simp only [contentAt_saved]
      split
      · rfl
      · split <;> rfl

end

/-- What there is to write for an item does not depend on what a stager carries from pass to pass. -/
theorem payload_carried {τ : Type} (st : Memory) (s : Stager τ) (ledger : Ledger) (tracker : τ)
    (item : Candidate) : st.payload { s with ledger, tracker } item = st.payload s item := by
  have same : result { s with ledger, tracker } item = result s item := by
    funext bytes
    simp only [result, filterBytes]
  rw [payload, payload, same]

end Memory

namespace Pass
open Memory

/-- Running a pass changes neither a content nor the ledger, and the pass has nothing to delete. -/
structure Idle {τ : Type} [Tracker τ] (project : Project) (scope : Scope) (s : Stager τ)
    (st : Memory) : Prop where
  planned : ∃ d, exec (Discovery.ofProject project scope : ExceptT Cancelled (StateM Memory) _).run
    st = (.ok d, st) ∧ (Plan.ofDiscovery s.ledger d).deletions = []
  completed : (exec (run s project scope : StateM Memory _) st).1.1.outcome = .completed
  deleted : (exec (run s project scope : StateM Memory _) st).1.1.deleted = []
  content : ∀ p, (exec (run s project scope : StateM Memory _) st).2.content? p = st.content? p
  ledger : (exec (run s project scope : StateM Memory _) st).1.2.ledger = s.ledger

/-- No target is the ledger, and none is the scratch file or lies below it. -/
def LedgerClear (p : Path) (plan : Plan) : Prop :=
  ∀ key ∈ plan.targets, key ≠ p.parts ∧ ¬(Ledger.scratchFor p).parts <+: key

instance (p : Path) (plan : Plan) : Decidable (LedgerClear p plan) :=
  inferInstanceAs (Decidable (∀ key ∈ plan.targets,
    key ≠ p.parts ∧ ¬(Ledger.scratchFor p).parts <+: key))

theorem LedgerClear.not_encloses {p : Path} {plan : Plan} (h : LedgerClear p plan) :
    ∀ key ∈ plan.targets, ¬Encloses (Ledger.scratchFor p).parts key := by
  rintro key mem (down | ⟨here, -⟩)
  · exact (h key mem).2 down
  · obtain ⟨front, name, scratch, -⟩ := parts_scratchFor p
    have last := congrArg List.getLast? (scratch.symm.trans here)
    simp at last

variable {τ : Type} [Tracker τ] {s s' : Stager τ} {plan plan' : Plan} {st : Memory} {l : Ledger}

/-- The tree that a pass with a plan leaves if it saves this ledger. -/
def leftBy (s : Stager τ) (plan : Plan) (st : Memory) (l : Ledger) : Memory :=
  (exec (l.save s.ledgerPath : StateM Memory _) (stagedUpTo s plan st plan.candidates).2).2

theorem confined_deletions (s : Stager τ) (plan : Plan) (st : Memory) :
    Confined plan.targets st (stagedUpTo s plan st []).2 :=
  Confined.deleted (deleted_sweep plan.deletions { tracker := s.tracker } st)
    fun _ => target_of_deletion

theorem confined_candidates (s : Stager τ) (plan : Plan) (st : Memory) :
    Confined plan.targets st (stagedUpTo s plan st plan.candidates).2 := by
  refine (confined_deletions s plan st).trans ?_
  rw [stagedUpTo_eq s plan st plan.candidates]
  exact (framed_sweep s _ _ fun _ => target_of_candidate).1

theorem confined_leftBy (s : Stager τ) (plan : Plan) (st : Memory) (l : Ledger) :
    Confined (plan.targets ++ [s.ledgerPath.parts, (Ledger.scratchFor s.ledgerPath).parts]) st
      (leftBy s plan st l) :=
  ((confined_candidates s plan st).mono (List.subset_append_left _ _)).trans
    (framed_save l _ (by simp) (by simp)).1

theorem deleted_of_staging (s : Stager τ) (items : List Candidate) (w : Applied τ) (st : Memory) :
    (sweepFrom (stageStep s : Applied τ → Candidate → StateM Memory _) items w st).1.deleted =
      w.deleted := by
  refine sweepFrom_invariant (fun _ (w' : Applied τ) _ => w'.deleted = w.deleted) rfl ?_
  intro _ x _ w' st' _ same
  rcases stageStep_cases s w' x st' with ⟨-, -, step⟩ | ⟨-, step⟩ | ⟨_, -, step⟩
  · rw [step, ← same]
  · rw [step, ← same]
  · rw [step, ← same]

section
variable (sources : SourcesClear s.ledgerPath plan)

omit [Tracker τ] in
theorem SourcesClear.not_target (sources : SourcesClear s.ledgerPath plan) {c : Candidate}
    (mem : c ∈ plan.candidates) : c.source.parts ∉ plan.targets := fun target =>
  sources c mem (List.mem_append_left _ target)

include sources in
/-- Sources are as they were after the deletions. -/
theorem payload_leftBy {c : Candidate} (mem : c ∈ plan.candidates) :
    (leftBy s plan st l).payload s c = (stagedUpTo s plan st []).2.payload s c := by
  have before := confined_deletions s plan st
  have after := confined_leftBy s plan st l
  refine payload_congr (after.unreadable.trans before.unreadable.symm) ?_ s
  rw [after.content _ (sources c mem), before.content _ (sources.not_target mem)]

variable (clear : LedgerClear s.ledgerPath plan)
include clear

theorem contentAt_leftBy {key : List Part} (target : key ∈ plan.targets) :
    (leftBy s plan st l).contentAt key = (stagedUpTo s plan st plan.candidates).2.contentAt key := by
  refine save_content _ _ (clear key target).1 ?_
  rintro rfl
  exact (clear _ target).2 (List.prefix_refl _)

variable (steady : Steady τ plan.candidates) (ledgerPath : s'.ledgerPath = s.ledgerPath)
variable (work : ∀ (t : Memory) (c : Candidate), t.payload s' c = t.payload s c)
variable (tracker : s'.tracker = (stagedUpTo s plan st plan.candidates).1.tracker)
variable (candidates : plan'.candidates = plan.candidates) (deletions : plan'.deletions = [])
include sources steady work tracker candidates deletions

/-- A second pass stages the same candidates to the contents that are there. -/
theorem contentAt_staged_again (key : List Part) :
    (stagedUpTo s' plan' (leftBy s plan st l) plan'.candidates).2.contentAt key =
      (leftBy s plan st l).contentAt key := by
  have within : ∀ c ∈ plan.candidates, ∀ a, Encloses a (place c.output) → Lasting s.ledgerPath a := by
    rintro c mem a down rfl
    exact clear.not_encloses _ (target_of_candidate mem) down
  have again := sweep_retraced steady sources.apart within
    (fun c mem => (work _ c).trans (payload_leftBy sources mem)) (stagedUpTo s plan st []).1
    { tracker := s'.tracker } (stagedUpTo_eq s plan st plan.candidates) tracker
    (keeps_save l s.ledgerPath (stagedUpTo s plan st plan.candidates).2)
    (fun c mem => contentAt_leftBy clear (target_of_candidate mem)) key
  rw [stagedUpTo, deletions, candidates]
  exact again

include ledgerPath

/-- The same ledger saved, the second pass leaves all contents as they are. -/
theorem contentAt_leftBy_again (key : List Part) :
    (leftBy s' plan' (leftBy s plan st l) l).contentAt key =
      (leftBy s plan st l).contentAt key := by
  have targets : plan'.targets ⊆ plan.targets := targets_subset candidates (deletions ▸ nofun)
  have confined := (confined_candidates s' plan' (leftBy s plan st l)).mono targets
  have grown := (grown_sweep s' plan'.candidates { tracker := s'.tracker }
    (.refl (Lasting s.ledgerPath) (leftBy s plan st l).kindAt)).keeps
  have again := contentAt_staged_again (l := l) sources clear steady work tracker candidates
    deletions
  rw [leftBy, ledgerPath]
  refine contentAt_save_again again (fun kind found => ?_) ?_ key
  · rw [stagedUpTo, deletions]
    exact grown _ kind (scratch_ne s.ledgerPath).symm found
  · rw [kindAt, confined.entries _ clear.not_encloses]
    rfl

end

variable {project : Project} {scope : Scope} {d : Discovery}

/-- What a pass carries on, what it leaves, and what it has deleted. -/
theorem carried_by_run (discovered : exec (Discovery.ofProject project scope :
      ExceptT Cancelled (StateM Memory) _).run st = (.ok d, st)) :
    let plan := Plan.ofDiscovery s.ledger d
    let done := stagedUpTo s plan st plan.candidates
    let ran := exec (run s project scope : StateM Memory _) st
    ran.1.2 = { s with ledger := renewed s project plan, tracker := done.1.tracker } ∧
      ran.2 = leftBy s plan st (renewed s project plan) ∧
      ran.1.1.deleted = (stagedUpTo s plan st []).1.deleted := by
  intro plan done ran
  obtain ⟨_, found, same⟩ := exec_run s project scope st
  cases discovered.symm.trans found
  have ended : ran = exec (finish s project plan done.1 : StateM Memory _) done.2 := same
  rw [ended, exec_finish]
  exact ⟨rfl, rfl, deleted_of_staging s plan.candidates _ _⟩

/-- A pass after a pass, with a tracker that is steady about the candidates. -/
theorem idle_of_steady (distinct : project.unitNames.Nodup) (named : st.Named)
    (discovered : exec (Discovery.ofProject project scope :
      ExceptT Cancelled (StateM Memory) _).run st = (.ok d, st))
    (unread : Unread project scope ((Plan.ofDiscovery s.ledger d).targets ++
      [s.ledgerPath.parts, (Ledger.scratchFor s.ledgerPath).parts]))
    (clear : LedgerClear s.ledgerPath (Plan.ofDiscovery s.ledger d))
    (steady : Steady τ (Plan.ofDiscovery s.ledger d).candidates) {r : Report} {st' : Memory}
    (ran : exec (run s project scope : StateM Memory _) st = ((r, s'), st')) :
    Idle project scope s' st' := by
  obtain ⟨carried, left, -⟩ := carried_by_run (s := s) discovered
  simp only [ran] at carried left
  have confined := confined_leftBy s (Plan.ofDiscovery s.ledger d) st
    (renewed s project (Plan.ofDiscovery s.ledger d))
  rw [← left] at confined
  -- The second pass discovers the same candidates, and the ledger has them already.
  obtain ⟨d', discovered', units⟩ := units_of_sources named
    (fun u covered => sameSources_of_confined unread confined covered) discovered
  have names := Discovery.units_ofProject discovered
  have ledger : s'.ledger = renewed s project (Plan.ofDiscovery s.ledger d) := by rw [carried]
  have deletions : (Plan.ofDiscovery s'.ledger d').deletions = [] := by
    rw [Plan.deletions_congr (Plan.units_congr _ units), ledger]
    exact deletions_renewed distinct names
  have renewed_eq : renewed s' project (Plan.ofDiscovery s'.ledger d') = s'.ledger := by
    rw [renewed_congr _ project (Plan.units_congr _ units)]
    exact renewed_renewed distinct names ledger
  have work (t : Memory) (c : Candidate) : t.payload s' c = t.payload s c := by
    rw [carried]
    exact payload_carried t s _ _ c
  have again := contentAt_leftBy_again (l := renewed s project (Plan.ofDiscovery s.ledger d))
    (sourcesClear_of_unread discovered unread) clear steady
    (by rw [carried] : s'.ledgerPath = s.ledgerPath) work (by rw [carried])
    (Plan.candidates_congr s.ledger s'.ledger units) deletions
  rw [← left, ← ledger] at again
  obtain ⟨carried', left', deleted'⟩ := carried_by_run (s := s') discovered'
  refine ⟨⟨d', discovered', deletions⟩, completes s' project scope st', ?_, fun p => ?_, ?_⟩
  · rw [deleted', stagedUpTo, deletions]
    rfl
  · rw [left', renewed_eq, content?_eq, content?_eq]
    exact again p.parts
  · rw [carried', renewed_eq]

/-- After a pass over a tree in memory that writes and deletes nothing of what it reads, and nothing
at its ledger or below the scratch file, the same pass again has nothing to delete and changes no
content and nothing in the ledger: without a tracker, and with stamps if no output is spelled in two
ways. -/
theorem idle_of_completed (distinct : project.unitNames.Nodup) (made : st.Made)
    (discovered : exec (Discovery.ofProject project scope :
      ExceptT Cancelled (StateM Memory) _).run st = (.ok d, st)) :
    (∀ (s s' : Stager NoTracking) (r : Report) (st' : Memory),
      Unread project scope ((Plan.ofDiscovery s.ledger d).targets ++
        [s.ledgerPath.parts, (Ledger.scratchFor s.ledgerPath).parts]) →
      LedgerClear s.ledgerPath (Plan.ofDiscovery s.ledger d) →
      exec (run s project scope : StateM Memory _) st = ((r, s'), st') →
      Idle project scope s' st') ∧
    ∀ (s s' : Stager Stamps) (r : Report) (st' : Memory),
      Unread project scope ((Plan.ofDiscovery s.ledger d).targets ++
        [s.ledgerPath.parts, (Ledger.scratchFor s.ledgerPath).parts]) →
      LedgerClear s.ledgerPath (Plan.ofDiscovery s.ledger d) →
      SpelledAlike (Plan.ofDiscovery s.ledger d).candidates →
      exec (run s project scope : StateM Memory _) st = ((r, s'), st') →
      Idle project scope s' st' := by
  constructor
  · intro s s' r st' unread clear ran
    exact idle_of_steady distinct made.named discovered unread clear (steady_noTracking _) ran
  · intro s s' r st' unread clear alike ran
    exact idle_of_steady distinct made.named discovered unread clear (steady_stamps alike) ran

/-- The small project, which has something to delete at first. -/
theorem idle_of_completed_sample :
    let s : Stager Stamps :=
      ⟨Sample.stager.ledgerPath, Sample.stager.ledger, .placeholders, fun _ => "UTF-8", .empty⟩
    let first := exec (run Sample.stager Sample.project .all : StateM Memory _) Sample.tree
    let second := exec (run s Sample.project .all : StateM Memory _) Sample.tree
    first.1.1.deleted = ["out/b.txt"] ∧ Idle Sample.project .all first.1.2 first.2 ∧
      Idle Sample.project .all second.1.2 second.2 := by
  intro s first second
  have made : Sample.tree.Made := .addFile _ _ (.addFile _ _ .empty)
  obtain ⟨d, discovered⟩ := exec_ofProject Sample.project .all Sample.tree
  have conditions : ((exec (Discovery.ofProject Sample.project .all :
      ExceptT Cancelled (StateM Memory) _).run Sample.tree).1.toOption.all fun d =>
        let plan := Plan.ofDiscovery Sample.stager.ledger d
        let ledgerPath := Sample.stager.ledgerPath
        decide (Unread Sample.project .all (plan.targets ++
          [ledgerPath.parts, (Ledger.scratchFor ledgerPath).parts]) ∧
          LedgerClear ledgerPath plan ∧ SpelledAlike plan.candidates)) = true := by
    decide +kernel
  rw [discovered] at conditions
  obtain ⟨unread, clear, alike⟩ := of_decide_eq_true conditions
  have both := idle_of_completed (by decide) made discovered
  exact ⟨by decide +kernel, both.1 Sample.stager _ _ _ unread clear rfl,
    both.2 s _ _ _ unread clear alike rfl⟩

end Pass
end Staging
