import Staging.Proofs.Memory.Frame
import Staging.Proofs.Pass.Cancellation

/-!
What a pass over a tree in memory leaves as it is, whether it completes or is cancelled. Files
change only where the plan deletes or stages something and where the ledger is saved; no directory
is lost, and new ones lie above the outputs and the ledger.
-/
namespace Staging

/-- The places of everything that a plan stages. -/
def Plan.outputs (plan : Plan) : List (List Part) :=
  plan.candidates.map fun c => Memory.place c.output

namespace Memory

/-- Names in one directory lie below the same directories. -/
theorem above_sibling {front key : List Part} {a b : Spelling}
    (h : Above key (front ++ [.name a])) : Above key (front ++ [.name b]) := by
  obtain ⟨other, down | ⟨rfl, part, first, relative⟩⟩ := h
  · have shorter : key <+: front := (List.prefix_concat_iff.mp down).resolve_left other
    refine ⟨?_, .inl (shorter.trans (List.prefix_append front _))⟩
    rintro rfl
    have := shorter.length_le
    rw [List.length_append, List.length_singleton] at this
    omega
  · refine ⟨fun same => ?_, .inr ⟨rfl, ?_⟩⟩
    · have last := congrArg List.getLast? same
      simp at last
    · cases front with
      | nil => exact ⟨.name b, rfl, nofun⟩
      | cons head tail => exact ⟨part, first, relative⟩

/-- What lies above the scratch file lies above the ledger, if the ledger's path ends in a name. -/
theorem above_of_scratch {p : Path} {key : List Part} (named : p.fileName ≠ none)
    (h : Above key (Ledger.scratchFor p).parts) : Above key p.parts := by
  obtain ⟨old, found⟩ := Option.ne_none_iff_exists'.mp named
  have hidden := isName_scratch (Path.isName_of_fileName found)
  rw [Ledger.scratchFor, found, Option.map_some, Option.getD_some,
    Path.parts_withFileName p hidden, found, Option.isSome_some, if_pos rfl] at h
  rw [Path.parts_of_fileName found]
  exact above_sibling h

end Memory

namespace Pass
open Memory Polls

variable {τ : Type} [Tracker τ] {s s' : Stager τ} {project : Project} {scope : Scope}
variable {plan : Plan} {st : Memory}

theorem framed_deletedFrom (s : Stager τ) (st : Memory) {done : List String}
    (among : done ⊆ plan.deletions) (places : List (List Part)) :
    Confined plan.targets st (deletedFrom (StateM Memory) s st done).2 ∧
      Kinds.Extended places st.kindAt (deletedFrom (StateM Memory) s st done).2.kindAt := by
  have swept : Deleted done { tracker := s.tracker } st (deletedFrom (StateM Memory) s st done).1
      (deletedFrom (StateM Memory) s st done).2 := deleted_sweep done _ st
  exact ⟨.deleted swept fun path mem => target_of_deletion (among mem), swept.extended places⟩

theorem framed_stagedFrom (s : Stager τ) (st : Memory) {done : List Candidate}
    (among : done ⊆ plan.candidates) :
    Confined plan.targets st (stagedFrom (StateM Memory) s plan st done).2 ∧
      Kinds.Extended plan.outputs st.kindAt
        (stagedFrom (StateM Memory) s plan st done).2.kindAt := by
  obtain ⟨deleted, kept⟩ := framed_deletedFrom s st (List.Subset.refl plan.deletions) plan.outputs
  have outputs : ∀ c ∈ done, place c.output ∈ plan.outputs :=
    fun c mem => List.mem_map.mpr ⟨c, among mem, rfl⟩
  obtain ⟨staged, extended⟩ := framed_sweep s
    (deletedFrom (StateM Memory) s st plan.deletions).1
    (deletedFrom (StateM Memory) s st plan.deletions).2 outputs
  exact ⟨deleted.trans (staged.mono (List.subset_append_right _ _)), kept.trans extended⟩

/-- A pass changes files only at its targets, the ledger and the scratch file, and adds directories
only above its outputs, the ledger and the scratch file. -/
structure Framed (ledgerPath : Path) (plan : Plan) (st st' : Memory) : Prop where
  confined : Confined (plan.targets ++ [ledgerPath.parts, (Ledger.scratchFor ledgerPath).parts])
    st st'
  extended : Kinds.Extended
    (plan.outputs ++ [ledgerPath.parts, (Ledger.scratchFor ledgerPath).parts]) st.kindAt st'.kindAt

theorem Framed.of_apply {st' : Memory} (p : Path) (confined : Confined plan.targets st st')
    (extended : Kinds.Extended plan.outputs st.kindAt st'.kindAt) : Framed p plan st st' :=
  ⟨confined.mono (List.subset_append_left _ _), extended.mono (List.subset_append_left _ _)⟩

theorem Framed.saved {p : Path} {st' : Memory} (h : Framed p plan st st') (l : Ledger) :
    Framed p plan st (exec (l.save p : StateM Memory _) st').2 where
  confined := by
    refine h.confined.trans (framed_save l st' ?_ ?_).1
    · exact List.mem_append_right _ List.mem_cons_self
    · exact List.mem_append_right _ (List.mem_cons_of_mem _ List.mem_cons_self)
  extended := by
    refine h.extended.trans (framed_save l st' ?_ ?_).2
    · exact List.mem_append_right _ List.mem_cons_self
    · exact List.mem_append_right _ (List.mem_cons_of_mem _ List.mem_cons_self)

/-- A discovery leaves a tree in memory as it is. -/
theorem discovery_stays (project : Project) (scope : Scope) (t : Polls × Memory) :
    (exec (Discovery.ofProject project scope :
      ExceptT Cancelled (StateT Polls (StateM Memory)) _).run t).2.2 = t.2 := by
  have looks : Looks (StateM Memory) fun st => st = t.2 := by
    constructor <;> intros <;> exact fun _ holds => ⟨holds, trivial⟩
  exact (Discovery.arises_ofProject (Polls.looks looks) project scope t rfl).1

theorem Course.framed {t t' : Polls × Memory} {r : Report}
    (h : Course (StateM Memory) s project scope t ((r, s'), t')) {d : Discovery}
    (found : (exec (Discovery.ofProject project scope :
      ExceptT Cancelled (StateT Polls (StateM Memory)) _).run t).1 = .ok d) :
    Framed s.ledgerPath (Plan.ofDiscovery s.ledger d) t.2 t'.2 := by
  have stays := discovery_stays project scope t
  cases h with
  | discovering _ discovered =>
    rw [discovered] at found
    cases found
  | deleting d found' done x rest discovered whole alarm =>
    rw [discovered] at found stays
    cases found
    rw [← stays]
    obtain ⟨confined, extended⟩ := framed_deletedFrom s found'.2
      (whole ▸ List.subset_append_left done (x :: rest))
      (Plan.ofDiscovery s.ledger d).outputs
    exact .of_apply s.ledgerPath confined extended
  | staging d plan found' done item rest discovered planned whole alarm =>
    rw [discovered] at found stays
    cases found
    rw [← stays, ← planned]
    obtain ⟨confined, extended⟩ := framed_stagedFrom s found'.2
      (whole ▸ List.subset_append_left done (item :: rest))
    exact .of_apply s.ledgerPath confined extended
  | finished d plan found' result st' discovered planned calm ended =>
    rw [discovered] at found stays
    cases found
    rw [← stays, ← planned]
    obtain ⟨confined, extended⟩ := framed_stagedFrom s found'.2
      (List.Subset.refl plan.candidates)
    rw [exec_finish, Prod.mk.injEq] at ended
    rw [← ended.2]
    exact (Framed.of_apply s.ledgerPath confined extended).saved _

namespace Framed

variable {p : Path} {st' : Memory} (h : Framed p plan st st')
include h

/-- A file that changed, appeared or is gone was deleted, staged or saved. -/
theorem touched {q : Path} (changed : st'.content? q ≠ st.content? q ∨ st'.isFile q ≠ st.isFile q) :
    (∃ path ∈ plan.deletions, q.same ⟨path⟩ = true) ∨
      (∃ c ∈ plan.candidates, q.same ⟨c.output⟩ = true) ∨
      q.same p = true ∨ q.same (Ledger.scratchFor p) = true := by
  have differs : st'.contentAt q.parts ≠ st.contentAt q.parts := by
    intro same
    rcases changed with content | file
    · rw [content?_eq, content?_eq] at content
      exact content same
    · refine file (Bool.eq_iff_iff.mpr ?_)
      rw [isFile_iff, isFile_iff, kindAt_eq_file_iff, kindAt_eq_file_iff, same]
  have mem := not_not.mp (mt (h.confined.content q.parts) differs)
  simp only [Plan.targets, List.mem_append, List.mem_map, List.mem_cons, List.not_mem_nil,
    or_false] at mem
  rcases mem with (⟨path, mem, same⟩ | ⟨c, mem, same⟩) | same | same
  · exact .inl ⟨path, mem, same_iff.mpr same.symm⟩
  · exact .inr (.inl ⟨c, mem, same_iff.mpr same.symm⟩)
  · exact .inr (.inr (.inl (same_iff.mpr same)))
  · exact .inr (.inr (.inr (same_iff.mpr same)))

theorem dir_kept {q : Path} (dir : st.isDir q = true) : st'.isDir q = true :=
  (isDir_iff st' q).mpr (h.extended.kept q.parts ((isDir_iff st q).mp dir))

/-- A directory that was added lies above an output or the ledger, or above the scratch file of a
ledger whose path does not end in a name. -/
theorem dir_added {q : Path} (dir : st'.isDir q = true) (new : st.isDir q = false) :
    (∃ c ∈ plan.candidates, Above q.parts (place c.output)) ∨ Above q.parts p.parts ∨
      p.fileName = none ∧ Above q.parts (Ledger.scratchFor p).parts := by
  have old : st.kindAt q.parts ≠ some .dir :=
    fun dir => Bool.eq_false_iff.mp new ((isDir_iff st q).mpr dir)
  obtain ⟨place, mem, above⟩ :=
    (h.extended.added q.parts ((isDir_iff st' q).mp dir)).resolve_left old
  simp only [Plan.outputs, List.mem_append, List.mem_map, List.mem_cons, List.not_mem_nil,
    or_false] at mem
  rcases mem with ⟨c, mem, rfl⟩ | rfl | rfl
  · exact .inl ⟨c, mem, above⟩
  · exact .inr (.inl above)
  · by_cases named : p.fileName = none
    · exact .inr (.inr ⟨named, above⟩)
    · exact .inr (.inl (above_of_scratch named above))

end Framed

/-- A pass over a tree in memory, completed or cancelled by any schedule, changes files only where
its plan deletes or stages something, at the ledger, and at the scratch file. It removes no directory,
and those that it adds lie above an output or the ledger, or above the scratch file if that is not
beside the ledger because the ledger's path does not end in a name. A pass that is cancelled before
there is a plan changes nothing. -/
theorem framed_of_run {polls polls' : Polls} {st st' : Memory} {r : Report}
    (ran : exec (run s project scope : StateT Polls (StateM Memory) _) (polls, st) =
      ((r, s'), polls', st')) :
    match (exec (Discovery.ofProject project scope :
      ExceptT Cancelled (StateT Polls (StateM Memory)) _).run (polls, st)).1 with
    | .error _ => st' = st
    | .ok d =>
      let plan := Plan.ofDiscovery s.ledger d
      (∀ q : Path, st'.content? q ≠ st.content? q ∨ st'.isFile q ≠ st.isFile q →
        (∃ path ∈ plan.deletions, q.same ⟨path⟩ = true) ∨
          (∃ c ∈ plan.candidates, q.same ⟨c.output⟩ = true) ∨
          q.same s.ledgerPath = true ∨ q.same (Ledger.scratchFor s.ledgerPath) = true) ∧
      (∀ q : Path, st.isDir q = true → st'.isDir q = true) ∧
      ∀ q : Path, st'.isDir q = true → st.isDir q = false →
        (∃ c ∈ plan.candidates, Above q.parts (place c.output)) ∨
          Above q.parts s.ledgerPath.parts ∨
          s.ledgerPath.fileName = none ∧ Above q.parts (Ledger.scratchFor s.ledgerPath).parts := by
  have taken : Course (StateM Memory) s project scope (polls, st) ((r, s'), polls', st') :=
    ran ▸ course s project scope (polls, st)
  have stays := discovery_stays project scope (polls, st)
  split
  · rename_i stop found
    cases taken with
    | discovering _ discovered => rwa [discovered] at stays
    | deleting d _ _ _ _ discovered => simp [discovered] at found
    | staging d _ _ _ _ _ discovered => simp [discovered] at found
    | finished d _ _ _ _ discovered => simp [discovered] at found
  · rename_i d found
    have framed := taken.framed found
    exact ⟨fun q => framed.touched, fun q => framed.dir_kept, fun q => framed.dir_added⟩

/-- The pass over the small project that completes adds the directory of its ledger. -/
theorem framed_of_run_sample :
    let polls : Polls := { raised := fun _ => false }
    let discovered := exec (Discovery.ofProject Sample.project .all :
      ExceptT Cancelled (StateT Polls (StateM Memory)) _).run (polls, Sample.tree)
    let ended := exec (run Sample.stager Sample.project .all : StateT Polls (StateM Memory) _)
      (polls, Sample.tree)
    ended.1.1.outcome = .completed ∧ ended.2.2.isDir ⟨"cache"⟩ = true ∧
    ∃ d, discovered.1 = .ok d ∧
      let plan := Plan.ofDiscovery Sample.stager.ledger d
      (∀ q : Path, ended.2.2.content? q ≠ Sample.tree.content? q ∨
          ended.2.2.isFile q ≠ Sample.tree.isFile q →
        (∃ path ∈ plan.deletions, q.same ⟨path⟩ = true) ∨
          (∃ c ∈ plan.candidates, q.same ⟨c.output⟩ = true) ∨
          q.same Sample.stager.ledgerPath = true ∨
          q.same (Ledger.scratchFor Sample.stager.ledgerPath) = true) ∧
      (∀ q : Path, Sample.tree.isDir q = true → ended.2.2.isDir q = true) ∧
      ∀ q : Path, ended.2.2.isDir q = true → Sample.tree.isDir q = false →
        (∃ c ∈ plan.candidates, Above q.parts (place c.output)) ∨
          Above q.parts Sample.stager.ledgerPath.parts := by
  intro polls discovered ended
  have completed : ended.1.1.outcome = .completed := by decide +kernel
  have dir : ended.2.2.isDir ⟨"cache"⟩ = true := by decide +kernel
  have named : Sample.stager.ledgerPath.fileName ≠ none := by decide +kernel
  have some : discovered.1.toOption.isSome = true := by decide +kernel
  have ran : exec (run Sample.stager Sample.project .all : StateT Polls (StateM Memory) _)
      (polls, Sample.tree) = ((ended.1.1, ended.1.2), ended.2.1, ended.2.2) := rfl
  have framed := framed_of_run ran
  cases found : discovered.1 with
  | error stop =>
    rw [found] at some
    cases some
  | ok d =>
    rw [show (exec (Discovery.ofProject Sample.project .all :
      ExceptT Cancelled (StateT Polls (StateM Memory)) _).run (polls, Sample.tree)).1 = .ok d from
      found] at framed
    obtain ⟨touched, kept, added⟩ := framed
    refine ⟨completed, dir, d, rfl, touched, kept, fun q new old => ?_⟩
    exact (added q new old).imp id fun h => h.resolve_right fun unnamed => named unnamed.1

/-- Where the ledger's path is `..`, which ends in no name, the scratch file goes below the path, and
the pass adds a directory at the path itself, which lies above no output and not above the ledger. -/
theorem dir_added_at_ledger :
    let s := { Sample.stager with ledgerPath := ⟨".."⟩ }
    let polls : Polls := { raised := fun _ => false }
    let discovered := exec (Discovery.ofProject Sample.project .all :
      ExceptT Cancelled (StateT Polls (StateM Memory)) _).run (polls, Sample.tree)
    let ended := exec (run s Sample.project .all : StateT Polls (StateM Memory) _)
      (polls, Sample.tree)
    ∃ d, discovered.1 = .ok d ∧
      ¬∀ q : Path, ended.2.2.isDir q = true → Sample.tree.isDir q = false →
        (∃ c ∈ (Plan.ofDiscovery s.ledger d).candidates, Above q.parts (place c.output)) ∨
          Above q.parts s.ledgerPath.parts := by
  intro s polls discovered ended
  have dir : ended.2.2.isDir ⟨".."⟩ = true := by decide +kernel
  have new : Sample.tree.isDir ⟨".."⟩ = false := by decide +kernel
  have apart : (discovered.1.toOption.any fun d =>
      decide (¬((∃ c ∈ (Plan.ofDiscovery s.ledger d).candidates,
          Above (Path.parts ⟨".."⟩) (place c.output)) ∨
        Above (Path.parts ⟨".."⟩) s.ledgerPath.parts))) = true := by
    decide +kernel
  cases found : discovered.1 with
  | error stop =>
    rw [found] at apart
    cases apart
  | ok d =>
    rw [found] at apart
    exact ⟨d, rfl, fun claim => of_decide_eq_true apart (claim ⟨".."⟩ dir new)⟩

end Pass
end Staging
