import Staging.Proofs.Memory.Abreast
import Staging.Proofs.Pass.Interruption

/-!
Picking up a pass. A tree that a pass has stopped at lies between the tree that its deletions leave
and the one that the whole pass leaves, so that a second pass over it writes the same outputs and
ends with the same contents.
-/
namespace Staging

/-- The places of everything that a plan deletes or stages. -/
def Plan.targets (plan : Plan) : List (List Part) :=
  plan.deletions.map Memory.place ++ plan.candidates.map fun c => Memory.place c.output

namespace Pass
open Memory

/-- The ledger and its scratch file do not lie at, above or below a target. -/
def LedgerApart (p : Path) (plan : Plan) : Prop :=
  ∀ key ∈ plan.targets, ∀ own ∈ [p.parts, (Ledger.scratchFor p).parts],
    ¬Encloses key own ∧ ¬Encloses own key

instance (p : Path) (plan : Plan) : Decidable (LedgerApart p plan) :=
  inferInstanceAs (Decidable (∀ key ∈ plan.targets, ∀ own ∈ [p.parts, (Ledger.scratchFor p).parts],
    ¬Encloses key own ∧ ¬Encloses own key))

theorem LedgerApart.not_encloses_scratch {p : Path} {plan : Plan} (h : LedgerApart p plan) :
    ∀ key ∈ plan.targets, ¬Encloses (Ledger.scratchFor p).parts key :=
  fun key mem => (h key mem _ (List.mem_cons_of_mem _ List.mem_cons_self)).2

/-- No source is a target, the ledger, or its scratch file. -/
def SourcesClear (p : Path) (plan : Plan) : Prop :=
  ∀ c ∈ plan.candidates,
    c.source.parts ∉ plan.targets ++ [p.parts, (Ledger.scratchFor p).parts]

variable {s : Stager NoTracking} {project : Project} {plan : Plan} {st x : Memory}

/-- The tree that a pass with a plan ends with. -/
def ended (s : Stager NoTracking) (project : Project) (plan : Plan) (st : Memory) : Memory :=
  (exec ((renewed s project plan).save s.ledgerPath : StateM Memory _)
    (stagedUpTo s plan st plan.candidates).2).2

/-- Saving after a pass with a plan succeeds. -/
def Saves (s : Stager NoTracking) (project : Project) (plan : Plan) (st : Memory) : Prop :=
  (stagedUpTo s plan st plan.candidates).2.Room (renewed s project plan) s.ledgerPath

theorem ended_of_saves (saves : Saves s project plan st) :
    ∃ time, ended s project plan st =
      (stagedUpTo s plan st plan.candidates).2.saved (renewed s project plan) s.ledgerPath time := by
  obtain ⟨time, saved⟩ := save_of_room _ _ _ saves
  exact ⟨time, congrArg Prod.snd saved⟩

/-- The places that lose nothing in a pass after its deletions: all but the scratch file's. -/
def Lasting (p : Path) (key : List Part) : Prop := key ≠ (Ledger.scratchFor p).parts

/-- A tree that a pass with these deletions, and the candidates of the plan, brings to the same end
as the pass with the plan. -/
structure Resumes (s : Stager NoTracking) (project : Project) (plan : Plan) (st : Memory)
    (deletions : List String) (x : Memory) : Prop where
  among : deletions ⊆ plan.deletions
  confined : Confined (plan.targets ++ [s.ledgerPath.parts, (Ledger.scratchFor s.ledgerPath).parts])
    st x
  scratch : x.kindAt (Ledger.scratchFor s.ledgerPath).parts ≠ some .dir
  kinds : Kinds.Between (Lasting s.ledgerPath)
    (stagedUpTo s plan st []).2.kindAt (Kinds.swept x.kindAt (deletions.map place))
    (ended s project plan st).kindAt
  content : ∀ key, key ≠ s.ledgerPath.parts → key ≠ (Ledger.scratchFor s.ledgerPath).parts →
    lastAt (stagedUpTo s plan st plan.candidates).1.processed key = none →
    (if key ∈ deletions.map place then none else x.contentAt key) =
      (stagedUpTo s plan st []).2.contentAt key

theorem file_of_ended (saves : Saves s project plan st) :
    (ended s project plan st).kindAt s.ledgerPath.parts = some .file := by
  obtain ⟨time, eq⟩ := ended_of_saves saves
  rw [eq, ledger_of_saved]

/-! The stages of the pass itself -/

theorem target_of_deletion {path : String} (mem : path ∈ plan.deletions) :
    place path ∈ plan.targets :=
  List.mem_append_left _ (List.mem_map_of_mem mem)

theorem target_of_candidate {c : Candidate} (mem : c ∈ plan.candidates) :
    place c.output ∈ plan.targets :=
  List.mem_append_right _ (List.mem_map.mpr ⟨c, mem, rfl⟩)

theorem SourcesClear.apart {p : Path} (h : SourcesClear p plan) :
    SourcesApart plan.candidates := fun c mem _ mem' same =>
  h c mem (List.mem_append_left _ (same ▸ target_of_candidate mem'))

theorem deleted_stagedUpTo (s : Stager NoTracking) (plan : Plan) (st : Memory) :
    Deleted plan.deletions { tracker := s.tracker } st (stagedUpTo s plan st []).1
      (stagedUpTo s plan st []).2 :=
  deleted_sweep plan.deletions _ st

section
variable (sources : SourcesApart plan.candidates) {done rest : List Candidate}
variable (whole : plan.candidates = done ++ rest)
include sources whole

theorem staged_stagedUpTo (s : Stager NoTracking) (st : Memory) :
    Staged s done (stagedUpTo s plan st []).1 (stagedUpTo s plan st []).2
      (stagedUpTo s plan st done).1 (stagedUpTo s plan st done).2 :=
  staged_sweep s (sources.mono (whole ▸ List.subset_append_left done rest)) _ _

theorem processed_subset : ∀ c ∈ (stagedUpTo s plan st done).1.processed, c ∈ done := by
  intro c mem
  obtain ⟨part, processed, sub, -⟩ := (staged_stagedUpTo sources whole s st).written
  rw [processed, (deleted_stagedUpTo s plan st).processed, List.nil_append] at mem
  exact sub.subset mem

/-- Where the whole pass writes nothing, a part of it has not either. -/
theorem contentAt_stagedUpTo {key : List Part}
    (unwritten : lastAt (stagedUpTo s plan st plan.candidates).1.processed key = none) :
    (stagedUpTo s plan st done).2.contentAt key = (stagedUpTo s plan st []).2.contentAt key := by
  obtain ⟨part, processed, -, -, content⟩ := (staged_stagedUpTo sources whole s st).written
  have later := staged_sweep s (sources.mono (whole ▸ List.subset_append_right done rest))
    (stagedUpTo s plan st done).1 (stagedUpTo s plan st done).2
  obtain ⟨more, processed', -⟩ := later.written
  rw [stagedUpTo, ← sweepFrom_append, ← whole] at processed'
  have all : (stagedUpTo s plan st plan.candidates).1.processed =
      (stagedUpTo s plan st []).1.processed ++ part ++ more := by
    rw [← processed]
    exact processed'
  rw [lastAt_eq_none_iff, all] at unwritten
  rw [content, lastAt_eq_none_iff.mpr fun c mem => unwritten c (by simp [mem])]

end

section
variable (sources : SourcesApart plan.candidates)
include sources

theorem confined_stagedUpTo {done rest : List Candidate} (whole : plan.candidates = done ++ rest) :
    Confined plan.targets st (stagedUpTo s plan st done).2 := by
  refine (Confined.deleted (deleted_stagedUpTo s plan st) fun _ => target_of_deletion).trans ?_
  refine Confined.staged (staged_stagedUpTo sources whole s st) fun c mem => ?_
  exact target_of_candidate (whole ▸ List.mem_append_left rest mem)

/-- Until it writes the scratch file, a pass changes its targets only. -/
theorem Halted.confined_or_drafted (h : Halted s project plan st x) :
    Confined plan.targets st x ∨ x = (stagedUpTo s plan st plan.candidates).2.drafted
      (renewed s project plan) s.ledgerPath := by
  cases h with
  | deleting done rest whole =>
    refine .inl (Confined.deleted (deleted_sweep done { tracker := s.tracker } st) ?_)
    exact fun path mem => target_of_deletion (whole ▸ List.mem_append_left rest mem)
  | staging done rest whole => exact .inl (confined_stagedUpTo sources whole)
  | opened done item rest whole =>
    refine .inl ((confined_stagedUpTo sources whole).trans (.openedFor (target_of_candidate ?_)))
    rw [whole]
    exact List.mem_append_right done List.mem_cons_self
  | drafted => exact .inr rfl

/-- Until it saves its ledger, a pass changes its targets and the scratch file only. -/
theorem Halted.confined (h : Halted s project plan st x) :
    Confined (plan.targets ++ [(Ledger.scratchFor s.ledgerPath).parts]) st x := by
  rcases h.confined_or_drafted sources with early | rfl
  · exact early.mono (List.subset_append_left _ _)
  · refine ((confined_stagedUpTo sources (List.append_nil _).symm).mono
      (List.subset_append_left _ _)).trans (.drafted ?_)
    exact List.mem_append_right _ List.mem_cons_self

theorem confined_ended (saves : Saves s project plan st) :
    Confined (plan.targets ++ [s.ledgerPath.parts, (Ledger.scratchFor s.ledgerPath).parts]) st
      (ended s project plan st) := by
  obtain ⟨time, eq⟩ := ended_of_saves saves
  rw [eq]
  refine ((confined_stagedUpTo sources (List.append_nil _).symm).mono
    (List.subset_append_left _ _)).trans (.saved ?_ ?_ time)
  · exact List.mem_append_right _ List.mem_cons_self
  · exact List.mem_append_right _ (List.mem_cons_of_mem _ List.mem_cons_self)

end

/-! What takes the places -/

theorem keeps_ended_drafted (saves : Saves s project plan st) :
    Kinds.Keeps (Lasting s.ledgerPath)
      ((stagedUpTo s plan st plan.candidates).2.drafted (renewed s project plan) s.ledgerPath).kindAt
      (ended s project plan st).kindAt := by
  obtain ⟨time, eq⟩ := ended_of_saves saves
  rw [eq]
  exact (grown_saved (.refl _ _) saves (fun other => other rfl) time).keeps

theorem keeps_ended (saves : Saves s project plan st) :
    Kinds.Keeps (Lasting s.ledgerPath) (stagedUpTo s plan st plan.candidates).2.kindAt
      (ended s project plan st).kindAt :=
  (grown_drafted (.refl _ _) saves).keeps.trans (keeps_ended_drafted saves)

/-- What has grown from the tree after the deletions, to something that lasts, is between it and the
end once the deletions are repeated. -/
theorem between_of_grown (grown : Kinds.Grown (Lasting s.ledgerPath)
      (stagedUpTo s plan st []).2.kindAt x.kindAt)
    (upper : Kinds.Keeps (Lasting s.ledgerPath) x.kindAt (ended s project plan st).kindAt)
    {deletions : List String} (sub : deletions ⊆ plan.deletions) :
    Kinds.Between (Lasting s.ledgerPath) (stagedUpTo s plan st []).2.kindAt
      (Kinds.swept x.kindAt (deletions.map place)) (ended s project plan st).kindAt := by
  refine grown.between_swept upper fun key mem => ?_
  rw [(deleted_stagedUpTo s plan st).kinds]
  exact Kinds.swept_ne_file _ (List.map_subset place sub mem)

theorem grown_stagedUpTo (s : Stager NoTracking) (plan : Plan) (st : Memory) (done : List Candidate) :
    Kinds.Grown (Lasting s.ledgerPath) (stagedUpTo s plan st []).2.kindAt
      (stagedUpTo s plan st done).2.kindAt :=
  grown_sweep s done _ (.refl _ _)

theorem Halted.between (h : Halted s project plan st x) (saves : Saves s project plan st) :
    Kinds.Between (Lasting s.ledgerPath) (stagedUpTo s plan st []).2.kindAt
      (Kinds.swept x.kindAt (plan.deletions.map place)) (ended s project plan st).kindAt := by
  have upper : ∀ done rest, plan.candidates = done ++ rest → Kinds.Keeps (Lasting s.ledgerPath)
      (stagedUpTo s plan st done).2.kindAt (ended s project plan st).kindAt := by
    intro done rest whole
    have later := keeps_sweep_append (Lasting s.ledgerPath) s done rest (stagedUpTo s plan st []).1
      (stagedUpTo s plan st []).2
    rw [← whole] at later
    exact later.trans (keeps_ended saves)
  cases h with
  | deleting done rest whole =>
    have swept := (deleted_sweep done { tracker := s.tracker } st).kinds
    rw [swept, Kinds.swept_swept, ← (deleted_stagedUpTo s plan st).kinds]
    · exact .of_keeps (upper [] plan.candidates rfl)
    · exact List.map_subset place (whole ▸ List.subset_append_left done rest)
  | staging done rest whole =>
    exact between_of_grown (grown_stagedUpTo s plan st done) (upper done rest whole)
      (List.Subset.refl _)
  | opened done item rest whole free =>
    refine between_of_grown ?_ ?_ (List.Subset.refl _)
    · rw [kindAt_openedFor]
      exact (grown_stagedUpTo s plan st done).openedFor _
    · have next := stepped s (stagedUpTo s plan st done).1 item (stagedUpTo s plan st done).2
      rw [← stagedUpTo_concat] at next
      refine (next.keeps_openedFor rfl free).trans (upper (done ++ [item]) rest ?_)
      rw [whole, List.append_assoc, List.singleton_append]
  | drafted =>
    exact between_of_grown (grown_drafted (grown_stagedUpTo s plan st _) saves)
      (keeps_ended_drafted saves) (List.Subset.refl _)

/-! Contents -/

section
variable (sources : SourcesApart plan.candidates)
include sources

theorem content_after_deletions {done rest : List Candidate} (whole : plan.candidates = done ++ rest)
    {key : List Part}
    (unwritten : lastAt (stagedUpTo s plan st plan.candidates).1.processed key = none)
    (same : x.contentAt key = (stagedUpTo s plan st done).2.contentAt key) {deletions : List String}
    (sub : deletions ⊆ plan.deletions) :
    (if key ∈ deletions.map place then none else x.contentAt key) =
      (stagedUpTo s plan st []).2.contentAt key := by
  rw [same, contentAt_stagedUpTo sources whole unwritten]
  split
  · rename_i mem
    rw [(deleted_stagedUpTo s plan st).content, if_pos (List.map_subset place sub mem)]
  · rfl

/-- Changes to the targets leave the scratch file's place as it is. -/
theorem scratch_of_confined (h : Confined plan.targets st x) (apart : LedgerApart s.ledgerPath plan)
    (saves : Saves s project plan st) :
    x.kindAt (Ledger.scratchFor s.ledgerPath).parts ≠ some .dir := by
  have last := saves.scratch
  have confined : Confined plan.targets st (stagedUpTo s plan st plan.candidates).2 :=
    confined_stagedUpTo sources (List.append_nil _).symm
  rw [kindAt, confined.entries _ apart.not_encloses_scratch] at last
  rwa [kindAt, h.entries _ apart.not_encloses_scratch]

theorem Halted.resumes (h : Halted s project plan st x) (apart : LedgerApart s.ledgerPath plan)
    (saves : Saves s project plan st) : Resumes s project plan st plan.deletions x where
  among := List.Subset.refl _
  confined := by
    refine (h.confined sources).mono (List.append_subset.mpr ⟨List.subset_append_left _ _, ?_⟩)
    intro key mem
    rw [List.mem_singleton] at mem
    exact List.mem_append_right _ (mem ▸ List.mem_cons_of_mem _ List.mem_cons_self)
  scratch := by
    rcases h.confined_or_drafted sources with early | rfl
    · exact scratch_of_confined sources early apart saves
    · rw [scratch_of_drafted]
      nofun
  kinds := h.between saves
  content key ledger scratch unwritten := by
    cases h with
    | deleting done rest whole =>
      rw [(deleted_sweep done _ st).content, (deleted_stagedUpTo s plan st).content]
      split
      · rfl
      · rename_i kept
        rw [if_neg fun mem => kept (List.map_subset place
          (whole ▸ List.subset_append_left done rest) mem)]
    | staging done rest whole =>
      exact content_after_deletions sources whole unwritten rfl (List.Subset.refl _)
    | opened done item rest whole =>
      exact content_after_deletions sources whole unwritten (contentAt_openedFor _ _ key)
        (List.Subset.refl _)
    | drafted =>
      refine content_after_deletions sources (List.append_nil _).symm unwritten ?_
        (List.Subset.refl _)
      rw [contentAt_drafted, if_neg scratch]

/-- The end of the pass is resumed too, by deletions that it made itself. -/
theorem resumes_ended (saves : Saves s project plan st) {deletions : List String}
    (sub : deletions ⊆ plan.deletions) :
    Resumes s project plan st deletions (ended s project plan st) where
  among := sub
  confined := confined_ended sources saves
  scratch := by
    obtain ⟨time, eq⟩ := ended_of_saves saves
    rw [eq, scratch_of_saved]
    nofun
  kinds := by
    refine between_of_grown ?_ (.refl _ _) sub
    obtain ⟨time, eq⟩ := ended_of_saves saves
    rw [eq]
    exact grown_saved (grown_drafted (grown_stagedUpTo s plan st _) saves) saves
      (fun other => other rfl) time
  content key ledger scratch unwritten := by
    obtain ⟨time, eq⟩ := ended_of_saves saves
    refine content_after_deletions sources (List.append_nil _).symm unwritten ?_ sub
    rw [eq, contentAt_saved, if_neg ledger, if_neg scratch]

end

/-! The second pass -/

/-- A directory would come to the ledger's place in the second pass only if it did in the first. -/
theorem room_of_between {l : Ledger} {p : Path} {u : Kinds} {r q : Memory}
    (h : Kinds.Between (Lasting p) r.kindAt q.kindAt u) (file : u p.parts = some .file)
    (room : r.Room l p) (scratch : q.kindAt (Ledger.scratchFor p).parts ≠ some .dir) :
    q.Room l p := by
  refine ⟨scratch, fun dir => ?_⟩
  have own : Lasting p p.parts := (scratch_ne p).symm
  have other : ∀ k : Kinds, k.withFile (Ledger.scratchFor p).parts p.parts = k p.parts :=
    fun k => if_neg own
  have not_dir : q.kindAt p.parts ≠ some .dir := by
    intro dir
    rw [h.upper p.parts .dir own dir] at file
    cases file
  rw [kindAt_drafted] at dir
  cases up : above (Ledger.scratchFor p).parts with
  | none =>
    rw [Kinds.openedAbove_of_none up, other] at dir
    exact not_dir dir
  | some top =>
    have within : ∀ a ∈ ascent top, Lasting p a := by
      rintro a mem rfl
      exact scratch_not_mem_above up mem
    have free : ∀ k : Kinds, (k.withFile (Ledger.scratchFor p).parts).missing top =
        k.missing top := fun k => Kinds.missing_congr fun a mem => if_neg (within a mem)
    rw [Kinds.openedAbove_of_some up, Kinds.opened, free, other] at dir
    split at dir
    · rename_i mem
      refine room.ledger ?_
      rw [kindAt_drafted, Kinds.openedAbove_of_some up, Kinds.opened, free,
        if_pos (h.missing_subset within _ mem)]
    · exact not_dir dir

theorem targets_subset {plan' : Plan} (candidates : plan'.candidates = plan.candidates)
    (among : plan'.deletions ⊆ plan.deletions) : plan'.targets ⊆ plan.targets := by
  rw [Plan.targets, Plan.targets, candidates]
  refine List.append_subset.mpr ⟨fun key mem => ?_, List.subset_append_right _ _⟩
  exact List.mem_append_left _ (List.map_subset place among mem)

section
variable {s' : Stager NoTracking} {plan' : Plan} (sources : SourcesClear s.ledgerPath plan)
variable (h : Resumes s project plan st plan'.deletions x)
variable (work : ∀ (t : Memory) (c : Candidate), t.payload s' c = t.payload s c)
include h

theorem contentAt_swept_resumed {key : List Part} (ledger : key ≠ s.ledgerPath.parts)
    (scratch : key ≠ (Ledger.scratchFor s.ledgerPath).parts)
    (unwritten : lastAt (stagedUpTo s plan st plan.candidates).1.processed key = none) :
    (stagedUpTo s' plan' x []).2.contentAt key = (stagedUpTo s plan st []).2.contentAt key := by
  rw [(deleted_stagedUpTo s' plan' x).content]
  exact h.content key ledger scratch unwritten

include sources work

/-- The second pass stages what the first did, since no source was written or deleted. -/
theorem payload_resumed {c : Candidate} (mem : c ∈ plan.candidates) :
    (stagedUpTo s' plan' x []).2.payload s' c = (stagedUpTo s plan st []).2.payload s c := by
  have clear := sources c mem
  simp only [List.mem_append, List.mem_cons, List.not_mem_nil, or_false, not_or] at clear
  rw [work]
  refine payload_congr ?_ (contentAt_swept_resumed h clear.2.1 clear.2.2 ?_) s
  · rw [(deleted_stagedUpTo s' plan' x).unreadable, h.confined.unreadable,
      (deleted_stagedUpTo s plan st).unreadable]
  · rw [lastAt_eq_none_iff]
    intro c' written same
    have known := processed_subset sources.apart (List.append_nil _).symm c' written
    exact sources.apart c mem c' known same

variable (apart : LedgerApart s.ledgerPath plan) (saves : Saves s project plan st)
variable (candidates : plan'.candidates = plan.candidates)
include apart saves candidates

/-- Before the ledgers are saved, the tree of the second pass is between that of the first and the
end, with the same contents. -/
theorem abreast_resumed :
    Kinds.Between (Lasting s.ledgerPath) (stagedUpTo s plan st plan.candidates).2.kindAt
        (stagedUpTo s' plan' x plan'.candidates).2.kindAt (ended s project plan st).kindAt ∧
      ∀ key, key ≠ s.ledgerPath.parts → key ≠ (Ledger.scratchFor s.ledgerPath).parts →
        (stagedUpTo s' plan' x plan'.candidates).2.contentAt key =
          (stagedUpTo s plan st plan.candidates).2.contentAt key := by
  have within : ∀ c ∈ plan.candidates, ∀ a, Encloses a (place c.output) → Lasting s.ledgerPath a := by
    rintro c mem a down rfl
    exact apart.not_encloses_scratch _ (target_of_candidate mem) down
  have upper := keeps_ended saves
  have kinds := h.kinds
  rw [← (deleted_stagedUpTo s' plan' x).kinds] at kinds
  rw [stagedUpTo_eq s plan st plan.candidates] at upper
  obtain ⟨between, done, processed, -, contents⟩ := sweep_abreast s s' sources.apart kinds within
    (fun _ mem => payload_resumed sources h work mem) _ (stagedUpTo s' plan' x []).1 upper
  rw [← stagedUpTo_eq s plan st plan.candidates, ← candidates, ← stagedUpTo_eq, candidates]
    at between contents
  rw [← stagedUpTo_eq s plan st plan.candidates, (deleted_stagedUpTo s plan st).processed,
    List.nil_append] at processed
  rw [candidates]
  refine ⟨between, fun key ledger scratch => contents key fun last => ?_⟩
  apply contentAt_swept_resumed h ledger scratch
  rwa [processed]

variable (path : s'.ledgerPath = s.ledgerPath)
variable (ledger : renewed s' project plan' = renewed s project plan)
include path ledger

theorem saves_resumed : Saves s' project plan' x := by
  have confined : Confined plan'.targets x (stagedUpTo s' plan' x plan'.candidates).2 :=
    confined_stagedUpTo (candidates ▸ sources.apart) (List.append_nil _).symm
  have kept := (confined.mono (targets_subset candidates h.among)).entries
    (Ledger.scratchFor s.ledgerPath).parts apart.not_encloses_scratch
  have between := (abreast_resumed sources h work apart saves candidates).1
  rw [Saves, ledger, path]
  refine room_of_between between (file_of_ended saves) saves ?_
  rw [kindAt, kept]
  exact h.scratch

/-- A second pass with the same candidates, the deletions that it resumes with, and the same ledger
to save ends with the same contents. -/
theorem contentAt_resumed (key : List Part) :
    (ended s' project plan' x).contentAt key = (ended s project plan st).contentAt key := by
  obtain ⟨time, eq⟩ := ended_of_saves saves
  obtain ⟨time', eq'⟩ := ended_of_saves
    (saves_resumed sources h work apart saves candidates path ledger)
  rw [eq, eq', contentAt_saved, contentAt_saved, ledger, path]
  by_cases own : key = s.ledgerPath.parts
  · rw [if_pos own, if_pos own]
  · rw [if_neg own, if_neg own]
    by_cases scratch : key = (Ledger.scratchFor s.ledgerPath).parts
    · rw [if_pos scratch, if_pos scratch]
    · rw [if_neg scratch, if_neg scratch]
      exact (abreast_resumed sources h work apart saves candidates).2 key own scratch

end

end Pass
end Staging
