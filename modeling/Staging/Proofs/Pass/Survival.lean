import Staging.Proofs.Memory.Growth
import Staging.Proofs.Pass.Deletion
import Staging.Proofs.PathSet.Spellings

/-!
Which recorded files outlive a pass over a tree in memory. Staging takes no file away, so a file
is lost only to a deletion that no candidate makes good, or to the saving of the ledger. Deletions
are planned unit by unit while the files are shared, so a file that the ledger still lists for one
unit can be deleted for another.
-/
namespace Staging

/-! Two units that stage into one directory. The ledger has one output for both, and only the second
still produces it. -/

namespace Sample

def sharing : Project :=
  ⟨[{ name := "a", output := some ⟨"out"⟩, resources := [{ directory := ⟨"a"⟩ }] },
    { name := "b", output := some ⟨"out"⟩, resources := [{ directory := ⟨"b"⟩ }] }]⟩

def sharedTree : Memory :=
  ((Memory.empty.addFile ⟨"a/keep.txt"⟩ [97]).addFile ⟨"b/x.txt"⟩ [120]).addFile ⟨"out/x.txt"⟩ [120]

def sharer : Stager NoTracking where
  ledgerPath := ⟨"cache/outputs.bin"⟩
  ledger := ((Ledger.empty .sensitive).record "a" (PathSet.ofList .sensitive ["out/x.txt"])).record
    "b" (PathSet.ofList .sensitive ["out/x.txt"])
  filter := .placeholders
  charsetFor _ := "UTF-8"
  tracker := {}

end Sample

/-- The ledger has a path for a unit. -/
def Ledger.Lists (l : Ledger) (unit path : String) : Prop :=
  ∃ outputs, l.get? unit = some outputs ∧ path ∈ outputs.toList

namespace Memory
open Pass

variable {τ : Type} [Tracker τ]

/-- One step of staging makes a file of the output that it processes, and of nothing else. -/
theorem Stepped.files {s : Stager τ} {w : Applied τ} {item : Candidate} {st : Memory}
    {r : Applied τ × Memory} (h : Stepped s w item st r) (key : List Part) :
    ∃ new : List Candidate, r.1.processed = w.processed ++ new ∧
      (r.2.kindAt key = some .file ↔
        st.kindAt key = some .file ∨ ∃ c ∈ new, key = place c.output) := by
  cases h with
  | kept w' same => exact ⟨[], by simpa using same, by simp⟩
  | opened w' same =>
    refine ⟨[], by simpa using same, ?_⟩
    simp only [kindAt_openedFor, Kinds.openedFor_eq_file_iff]
    simp
  | written w' content more =>
    refine ⟨[item], more, ?_⟩
    simp only [kindAt_addFile, kindAt_openedFor, Kinds.withFile_eq_file_iff,
      Kinds.openedFor_eq_file_iff]
    simp [place]

theorem file_iff_after_sweep (s : Stager τ) (items : List Candidate) (w : Applied τ) (st : Memory)
    (key : List Part) :
    let swept := sweepFrom (stageStep s : Applied τ → Candidate → StateM Memory _) items w st
    ∃ done, swept.1.processed = w.processed ++ done ∧
      (swept.2.kindAt key = some .file ↔
        st.kindAt key = some .file ∨ ∃ c ∈ done, key = place c.output) := by
  refine sweepFrom_invariant (fun _ (w' : Applied τ) (st' : Memory) =>
    ∃ done, w'.processed = w.processed ++ done ∧ (st'.kindAt key = some .file ↔
      st.kindAt key = some .file ∨ ∃ c ∈ done, key = place c.output)) ?_ ?_
  · exact ⟨[], by simp, by simp⟩
  · rintro _ item _ w' st' - ⟨done, processed, files⟩
    obtain ⟨new, more, stays⟩ := (stepped s w' item st').files key
    refine ⟨done ++ new, ?_, ?_⟩
    · rw [more, processed, List.append_assoc]
    · rw [stays, files]
      simp only [List.mem_append, or_and_right, exists_or, or_assoc]

/-- Saving makes a file of the ledger, and leaves every other but its scratch file as it is. -/
theorem file_iff_after_save (l : Ledger) (p : Path) (st : Memory) {key : List Part}
    (scratch : key ≠ (Ledger.scratchFor p).parts) :
    (exec (l.save p : StateM Memory _) st).2.kindAt key = some .file ↔
      st.kindAt key = some .file ∨
        key = p.parts ∧ (exec (l.save p : StateM Memory _) st).1 = .ok () := by
  have drafts : (st.drafted l p).kindAt key = some .file ↔ st.kindAt key = some .file := by
    rw [kindAt_drafted, Kinds.withFile_eq_file_iff]
    simp [scratch]
  rcases save_cases l p st with ⟨-, _, saved⟩ | ⟨-, -, _, saved⟩ | ⟨-, -, time, saved⟩
  · simp [saved]
  · simpa [saved] using drafts
  · rw [saved]
    simp only [kindAt_insertFile, kindAt_discard, Kinds.withFile_eq_file_iff,
      Kinds.without_eq_file_iff, drafts]
    simp [scratch]

theorem scratch_after_save (l : Ledger) (p : Path) (st : Memory)
    (ok : (exec (l.save p : StateM Memory _) st).1 = .ok ()) :
    (exec (l.save p : StateM Memory _) st).2.kindAt (Ledger.scratchFor p).parts ≠ some .file := by
  obtain ⟨time, saved⟩ := save_of_room st l p (room_of_save st l p ok)
  simp [saved, kindAt_saved, Kinds.withFile_eq_file_iff, Kinds.without_eq_file_iff, scratch_ne]

end Memory

namespace Pass
open Memory

variable {τ : Type} [Tracker τ]

/-- The files when a plan is applied: those that no deletion is planned for, and the outputs that
were processed. -/
theorem file_iff_applied (s : Stager τ) (plan : Plan) (st : Memory) (key : List Part) :
    let done := applied (m := StateM Memory) s plan st
    done.2.kindAt key = some .file ↔
      (st.kindAt key = some .file ∧ key ∉ plan.deletions.map place) ∨
        ∃ c ∈ done.1.processed, key = place c.output := by
  intro done
  have swept : Deleted plan.deletions { tracker := s.tracker } st (stagedUpTo s plan st []).1
      (stagedUpTo s plan st []).2 := deleted_sweep plan.deletions _ st
  obtain ⟨staged, processed, files⟩ := file_iff_after_sweep s plan.candidates
    (stagedUpTo s plan st []).1 (stagedUpTo s plan st []).2 key
  rw [← stagedUpTo_eq, ← applied_eq] at processed files
  rw [swept.processed, List.nil_append] at processed
  rw [files, processed, swept.kinds, Kinds.swept_apply]
  by_cases gone : st.kindAt key = some .file ∧ key ∈ plan.deletions.map place
  · rw [if_pos gone]
    simp [gone]
  · rw [if_neg gone]
    rw [not_and] at gone
    simp only [and_iff_left_of_imp gone]

/-- Why a file outlives a pass: no deletion is planned for it, whichever unit plans it; a candidate
was written there; or it is the ledger, and saving put a new one in its place. -/
inductive Outlives (s : Stager τ) (plan : Plan) (r : Report) (saved : Except Ledger.SaveError Unit)
    (p : Path) : Prop
  | spared : (∀ path ∈ plan.deletions, p.same ⟨path⟩ = false) → Outlives s plan r saved p
  | rewritten (c : Candidate) : c ∈ r.processed → p.same ⟨c.output⟩ = true →
      Outlives s plan r saved p
  | ledger : p.same s.ledgerPath = true → saved = .ok () → Outlives s plan r saved p

omit [Tracker τ] in
theorem outlives_iff {s : Stager τ} {plan : Plan} {r : Report}
    {saved : Except Ledger.SaveError Unit} {path : String} :
    Outlives s plan r saved ⟨path⟩ ↔
      (place path ∉ plan.deletions.map place ∨ ∃ c ∈ r.processed, place path = place c.output) ∨
        place path = s.ledgerPath.parts ∧ saved = .ok () := by
  constructor
  · rintro (spared | ⟨c, mem, same⟩ | ⟨same, ok⟩)
    · refine .inl (.inl fun deleted => ?_)
      obtain ⟨other, mem, same⟩ := List.mem_map.mp deleted
      exact Bool.false_ne_true ((spared other mem).symm.trans (same_iff.mpr same.symm))
    · exact .inl (.inr ⟨c, mem, same_iff.mp same⟩)
    · exact .inr ⟨same_iff.mp same, ok⟩
  · rintro ((spared | ⟨c, mem, same⟩) | ⟨same, ok⟩)
    · refine .spared fun other mem => ?_
      rw [← Bool.not_eq_true, same_iff]
      exact fun same => spared (List.mem_map.mpr ⟨other, mem, same.symm⟩)
    · exact .rewritten c mem (same_iff.mpr same)
    · exact .ledger (same_iff.mpr same) ok

theorem isFile_iff_outlives {s : Stager τ} {project : Project} {d : Discovery} {st : Memory}
    {path : String} (file : st.isFile ⟨path⟩ = true)
    (other : (⟨path⟩ : Path).same (Ledger.scratchFor s.ledgerPath) = false) :
    let plan := Plan.ofDiscovery s.ledger d
    let done := applied (m := StateM Memory) s plan st
    let saved := exec ((renewed s project plan).save s.ledgerPath : StateM Memory _) done.2
    saved.2.isFile ⟨path⟩ = true ↔
      Outlives s plan (completedReport s project plan done.1 saved.1) saved.1 ⟨path⟩ := by
  intro plan done saved
  rw [isFile_iff] at file
  rw [isFile_iff, outlives_iff]
  have other : place path ≠ (Ledger.scratchFor s.ledgerPath).parts := fun same => by
    simp [same_iff.mpr same] at other
  refine (file_iff_after_save _ _ _ other).trans (or_congr ?_ Iff.rfl)
  refine (file_iff_applied s plan st (place path)).trans (or_congr ?_ Iff.rfl)
  exact and_iff_right file

omit [Tracker τ] in
/-- What the ledger lists for a unit that was discovered is an output of one of its candidates. -/
theorem candidate_of_listed {s : Stager τ} {project : Project} {scope : Scope} {d : Discovery}
    (distinct : project.unitNames.Nodup)
    (names : d.units.map (·.unit) = (project.covered scope).map (·.name)) {e : UnitDiscovery}
    (mem : e ∈ d.units) (ready : e.readiness = .ready) {path : String}
    (listed : (renewed s project (Plan.ofDiscovery s.ledger d)).Lists e.unit path) :
    ∃ c ∈ e.candidates, c.output = path := by
  obtain ⟨outputs, found, listed⟩ := listed
  rw [get?_renewed_ready distinct names mem ready, Option.some.injEq] at found
  subst found
  exact List.mem_map.mp ((PathSet.collects_ofList _ _).mem_of_mem_toList listed)

/-- After a pass over a tree in memory, a file that the new ledger lists for any unit is still a
file exactly if it has a reason to be, its scratch file apart, which saving takes away. All that is
listed for a unit whose candidates were all processed is there. -/
theorem outlives_of_completed {s s' : Stager τ} {project : Project} {scope : Scope}
    {st st' : Memory} {r : Report} (distinct : project.unitNames.Nodup)
    (ran : exec (run s project scope : StateM Memory _) st = ((r, s'), st')) :
    ∃ d, exec (Discovery.ofProject project scope : ExceptT Cancelled (StateM Memory) _).run st =
        (.ok d, st) ∧
      let plan := Plan.ofDiscovery s.ledger d
      let saved := (exec (s'.ledger.save s.ledgerPath : StateM Memory _)
        (applied (m := StateM Memory) s plan st).2).1
      let scratch := Ledger.scratchFor s.ledgerPath
      (saved = .ok () → st'.isFile scratch = false) ∧
      ∀ unit path, s'.ledger.Lists unit path → (⟨path⟩ : Path).same scratch = false →
        (st.isFile ⟨path⟩ = true →
          (st'.isFile ⟨path⟩ = true ↔ Outlives s plan r saved ⟨path⟩)) ∧
        ∀ e ∈ d.units, e.unit = unit → e.readiness = .ready →
          (∀ c ∈ e.candidates, c ∈ r.processed) → st'.isFile ⟨path⟩ = true := by
  obtain ⟨d, discovered, same⟩ := exec_run s project scope st
  refine ⟨d, discovered, ?_⟩
  rw [same, exec_finish, Prod.mk.injEq, Prod.mk.injEq] at ran
  obtain ⟨⟨rfl, rfl⟩, rfl⟩ := ran
  constructor
  · intro ok
    rw [← Bool.not_eq_true, isFile_iff]
    exact scratch_after_save _ _ _ ok
  · intro unit path listed other
    constructor
    · exact fun file => isFile_iff_outlives file other
    · rintro e mem rfl ready all
      have names := Discovery.units_ofProject discovered
      obtain ⟨c, item, rfl⟩ := candidate_of_listed distinct names mem ready listed
      have written := (file_iff_applied s (Plan.ofDiscovery s.ledger d) st (place c.output)).mpr
        (.inr ⟨c, all c item, rfl⟩)
      rw [isFile_iff]
      refine (file_iff_after_save _ _ _ fun same => ?_).mpr (.inl written)
      simp [same_iff.mpr same] at other

/-- A pass over both units deletes the shared output for the one and writes it for the other. -/
theorem outlives_of_completed_sharing :
    let outcome := exec (run Sample.sharer Sample.sharing .all : StateM Memory _) Sample.sharedTree
    Sample.sharing.unitNames.Nodup ∧ outcome.1.2.ledger.Lists "b" "out/x.txt" ∧
      Sample.sharedTree.isFile ⟨"out/x.txt"⟩ = true ∧
      outcome.2.isFile ⟨"out/x.txt"⟩ = true ∧
      ∃ d, exec (Discovery.ofProject Sample.sharing .all : ExceptT Cancelled (StateM Memory) _).run
          Sample.sharedTree = (.ok d, Sample.sharedTree) ∧
        let plan := Plan.ofDiscovery Sample.sharer.ledger d
        let saved := (exec (outcome.1.2.ledger.save Sample.sharer.ledgerPath : StateM Memory _)
          (applied (m := StateM Memory) Sample.sharer plan Sample.sharedTree).2).1
        Outlives Sample.sharer plan outcome.1.1 saved ⟨"out/x.txt"⟩ := by
  intro outcome
  have distinct : Sample.sharing.unitNames.Nodup := by decide
  have listed : outcome.1.2.ledger.Lists "b" "out/x.txt" :=
    ⟨PathSet.ofList .sensitive ["out/x.txt"], by decide +kernel, by decide +kernel⟩
  have before : Sample.sharedTree.isFile ⟨"out/x.txt"⟩ = true := by decide +kernel
  have after : outcome.2.isFile ⟨"out/x.txt"⟩ = true := by decide +kernel
  have other : (⟨"out/x.txt"⟩ : Path).same (Ledger.scratchFor Sample.sharer.ledgerPath) = false := by
    decide +kernel
  have ran : exec (run Sample.sharer Sample.sharing .all : StateM Memory _) Sample.sharedTree =
      ((outcome.1.1, outcome.1.2), outcome.2) := rfl
  clear_value outcome
  obtain ⟨d, discovered, -, kept⟩ := outlives_of_completed distinct ran
  exact ⟨distinct, listed, before, after, d, discovered,
    ((kept "b" "out/x.txt" listed other).1 before).mp after⟩

/-- A pass over the one unit alone deletes the output that the ledger still has for the other. -/
theorem listed_file_lost :
    ¬∀ (s s' : Stager NoTracking) (project : Project) (scope : Scope) (st st' : Memory) (r : Report),
      project.unitNames.Nodup →
      exec (run s project scope : StateM Memory _) st = ((r, s'), st') →
      r.outcome = .completed →
      ∀ unit path, s'.ledger.Lists unit path → st.isFile ⟨path⟩ = true →
        st'.isFile ⟨path⟩ = true := by
  intro kept
  let outcome := exec (run Sample.sharer Sample.sharing (.only ["a"]) : StateM Memory _)
    Sample.sharedTree
  have listed : outcome.1.2.ledger.Lists "b" "out/x.txt" :=
    ⟨PathSet.ofList .sensitive ["out/x.txt"], by decide +kernel, by decide +kernel⟩
  have before : Sample.sharedTree.isFile ⟨"out/x.txt"⟩ = true := by decide +kernel
  have after : outcome.2.isFile ⟨"out/x.txt"⟩ = false := by decide +kernel
  have ran : exec (run Sample.sharer Sample.sharing (.only ["a"]) : StateM Memory _)
      Sample.sharedTree = ((outcome.1.1, outcome.1.2), outcome.2) := rfl
  have completed : outcome.1.1.outcome = .completed := Memory.completes ..
  clear_value outcome
  have still := kept _ _ _ _ _ _ _ (by decide) ran completed "b" "out/x.txt" listed before
  exact Bool.false_ne_true (after.symm.trans still)

end Pass
end Staging
