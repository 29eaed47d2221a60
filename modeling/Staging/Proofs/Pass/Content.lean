import Staging.Proofs.Pass.Deletion

/-!
What a pass over a tree in memory leaves at its outputs. Candidates come in processing order, and
the last one that was written at a place decides what is there; where none was, the content is what
the deletions left.
-/
namespace Staging

namespace Discovery

/-- The trees of a unit that are staged: those for the main output, then those for the test output,
each in the order declared. -/
theorem treesOf_eq (u : BuildUnit) :
    treesOf u = (u.output.elim [] fun dir => u.resources.map (dir, ·)) ++
      u.testOutput.elim [] fun dir => u.testResources.map (dir, ·) := by
  simp only [treesOf, Purpose.all, List.flatMap_cons, List.flatMap_nil, List.append_nil,
    BuildUnit.outputFor, BuildUnit.treesFor]
  cases u.output <;> cases u.testOutput <;> rfl

/-- The candidates of a unit in processing order: those of its trees one after another, each tree as
it is walked. A misconfigured unit has none. -/
def Ordered (st : Memory) (u : BuildUnit) (candidates : List Candidate) : Prop :=
  candidates = [] ∨ ∃ properties found,
    List.Forall₂ (fun tree walked =>
        exec (ofTree u properties (PropertySet.fingerprint properties) tree :
          ExceptT UnitStop (StateM Memory) _).run st = (.ok walked, st))
      ((u.output.elim [] fun dir => u.resources.map (dir, ·)) ++
        u.testOutput.elim [] fun dir => u.testResources.map (dir, ·)) found ∧
    candidates = found.flatten

theorem ofTree_stays (st : Memory) (u : BuildUnit) (properties : PropertySet)
    (fingerprint : UInt64) {pair : Path × ResourceTree} (mem : pair ∈ treesOf u) :
    ∃ result, exec (ofTree u properties fingerprint pair : ExceptT UnitStop (StateM Memory) _).run
      st = (result, st) := by
  obtain ⟨result, _, stays, -, -⟩ := ofTree_alike u properties fingerprint (Memory.calm st)
    (Memory.calm st) (Memory.sameInputs st u) mem
  exact ⟨result, stays⟩

theorem load_stays (st : Memory) (u : BuildUnit) :
    ∃ files, exec (FilterFiles.load u.filters : StateM Memory _) st = (files, st) := by
  obtain ⟨files, _, stays, -, -⟩ := load_alike (m := StateM Memory) (n := StateM Memory)
    (s := st) (t := st) (Memory.sameInputs st u).filters
  exact ⟨files, stays⟩

theorem ordered_ofUnit {u : BuildUnit} {e : UnitDiscovery} {messages : List Message}
    {st t : Memory} (l : Ledger)
    (h : exec (ofUnit u : ExceptT Cancelled (StateM Memory) _).run st = (.ok (e, messages), t)) :
    Ordered st u (UnitPlan.ofDiscovery l e).candidates := by
  unfold ofUnit at h
  split at h
  · obtain ⟨_, r, loaded, rest⟩ := exec_run_bind_ok h
    obtain ⟨files, stays⟩ := load_stays st u
    rw [exec_run_lift, stays] at loaded
    cases loaded
    obtain ⟨outcome, q, walked, last⟩ := exec_run_bind_ok rest
    rw [exec_run_lift] at walked
    cases outcome with
    | ok found =>
      have walked : exec ((treesOf u).mapM (ofTree u (u.properties.overlay files.properties)
          (PropertySet.fingerprint (u.properties.overlay files.properties))) :
          ExceptT UnitStop (StateM Memory) _).run st = (.ok found, q) :=
        Prod.ext (Except.ok.inj (Prod.mk.inj walked).1) (Prod.mk.inj walked).2
      have each := (exec_mapM_stays (fun pair mem => ofTree_stays st u _ _ mem) walked).2
      rw [treesOf_eq] at each
      cases last
      exact .inr ⟨_, found, each, rfl⟩
    | error stop =>
      cases stop with
      | cancelled => cases last
      | failed why =>
        cases last
        exact .inl rfl
  · rw [ExceptT.run_pure, exec_pure] at h
    cases h
    exact .inl rfl

theorem ofUnit_stays (st : Memory) (u : BuildUnit) :
    ∃ result, exec (do pollUnit; ofUnit u : ExceptT Cancelled (StateM Memory) _).run st =
      (result, st) := by
  have alike : AlikeRun (fun _ => False) (fun a b => SameUnit Eq a.1 b.1) st st
      (do pollUnit; ofUnit u : ExceptT Cancelled (StateM Memory) _)
      (do pollUnit; ofUnit u : ExceptT Cancelled (StateM Memory) _) := by
    refine AlikeRun.bind (pollUnit_alike (Memory.calm st) (Memory.calm st)) ?_
    rintro _ _ -
    exact ofUnit_alike (Memory.calm st) (Memory.calm st) (Memory.sameInputs st u)
  obtain ⟨result, _, stays, -, -⟩ := alike
  exact ⟨result, stays⟩

/-- The candidates of a plan come unit by unit, in project order. -/
theorem ordered_ofProject {p : Project} {scope : Scope} {d : Discovery} {st t : Memory}
    (l : Ledger) (h : exec (ofProject p scope : ExceptT Cancelled (StateM Memory) _).run st =
      (.ok d, t)) :
    ∃ found, List.Forall₂ (Ordered st) (p.covered scope) found ∧
      (Plan.ofDiscovery l d).candidates = found.flatten := by
  obtain ⟨units, r, h, rest⟩ := exec_run_bind_ok h
  rw [ExceptT.run_pure, exec_pure] at rest
  cases rest
  have each := (exec_mapM_stays (fun u _ => ofUnit_stays st u) h).2
  refine ⟨units.map fun u => (UnitPlan.ofDiscovery l u.1).candidates, ?_, ?_⟩
  · rw [List.forall₂_map_right_iff]
    refine each.imp fun u found one => ?_
    obtain ⟨_, q, polled, one⟩ := exec_run_bind_ok one
    cases polled
    exact ordered_ofUnit l one
  · rw [Plan.candidates, Plan.ofDiscovery]
    simp [List.flatMap_def, Function.comp_def]

end Discovery

namespace Pass
open Memory

variable {τ : Type}

/-- What there is to write for an item comes from the bytes of its source. -/
theorem payload_eq_some {s : Stager τ} {item : Candidate} {st : Memory} {content : Bytes}
    (h : st.payload s item = some content) :
    ∃ bytes, st.content? item.source = some bytes ∧ result s item bytes = some content := by
  rw [payload, toOption_read] at h
  split at h
  · cases h
  · obtain ⟨bytes, read, made⟩ := Option.bind_eq_some_iff.mp h
    exact ⟨bytes, (content?_eq st item.source).trans read, made⟩

theorem lastAt_eq_of_same {items : List Candidate} (p : Path) :
    (items.filter fun c => p.same ⟨c.output⟩).getLast? = lastAt items p.parts := by
  rw [lastAt]
  congr 1
  refine List.filter_congr fun c _ => ?_
  rw [Bool.eq_iff_iff, same_iff, beq_iff_eq]
  exact eq_comm

variable [Tracker τ]

/-- Deletions change nothing about what there is to write, if they leave the source. -/
theorem payload_after_deletions {s : Stager τ} {plan : Plan} {st : Memory} {c : Candidate}
    (apart : ∀ path ∈ plan.deletions, place path ≠ c.source.parts) :
    (stagedUpTo s plan st []).2.payload s c = st.payload s c := by
  have swept : Deleted plan.deletions { tracker := s.tracker } st (stagedUpTo s plan st []).1
      (stagedUpTo s plan st []).2 := deleted_sweep plan.deletions _ st
  refine payload_congr swept.unreadable ?_ s
  rw [swept.content, if_neg]
  intro gone
  obtain ⟨path, mem, same⟩ := List.mem_map.mp gone
  exact apart path mem same

/-- After a pass over a tree in memory no output of which is a source, the last candidate that was
processed at a path decides its content: the bytes of its source, or what filtering makes of them.
The candidates were processed in the order of units, trees and walks. -/
theorem content_of_completed {s s' : Stager τ} {project : Project} {scope : Scope}
    {st st' : Memory} {r : Report} {d : Discovery}
    (discovered : exec (Discovery.ofProject project scope :
      ExceptT Cancelled (StateM Memory) _).run st = (.ok d, st))
    (outputs : SourcesApart (Plan.ofDiscovery s.ledger d).candidates)
    (deletions : ∀ c ∈ (Plan.ofDiscovery s.ledger d).candidates,
      ∀ path ∈ (Plan.ofDiscovery s.ledger d).deletions, place path ≠ c.source.parts)
    (ran : exec (run s project scope : StateM Memory _) st = ((r, s'), st')) :
    (∃ found, List.Forall₂ (Discovery.Ordered st) (project.covered scope) found ∧
      r.processed.Sublist found.flatten) ∧
    ∀ p : Path, p.same s.ledgerPath = false → p.same (Ledger.scratchFor s.ledgerPath) = false →
      match (r.processed.filter fun c => p.same ⟨c.output⟩).getLast? with
      | some c => ∃ bytes content, st.content? c.source = some bytes ∧
          result s c bytes = some content ∧ st'.content? p = some content
      | none => st'.content? p =
          (stagedUpTo s (Plan.ofDiscovery s.ledger d) st []).2.content? p := by
  obtain ⟨_, found, same⟩ := exec_run s project scope st
  rw [discovered] at found
  cases found
  obtain ⟨found, ordered, flat⟩ := Discovery.ordered_ofProject s.ledger discovered
  rw [same, applied_eq, exec_finish, Prod.mk.injEq, Prod.mk.injEq] at ran
  obtain ⟨⟨rfl, -⟩, rfl⟩ := ran
  generalize Plan.ofDiscovery s.ledger d = plan at *
  have swept : Deleted plan.deletions { tracker := s.tracker } st (stagedUpTo s plan st []).1
      (stagedUpTo s plan st []).2 := deleted_sweep plan.deletions _ st
  have staged : Staged s plan.candidates (stagedUpTo s plan st []).1 (stagedUpTo s plan st []).2
      (stagedUpTo s plan st plan.candidates).1 (stagedUpTo s plan st plan.candidates).2 :=
    staged_sweep s outputs _ _
  obtain ⟨done, processed, sub, full, content⟩ := staged.written
  rw [swept.processed, List.nil_append] at processed
  refine ⟨⟨found, ordered, ?_⟩, fun p ledger scratch => ?_⟩
  · rw [← flat]
    simp only [completedReport, processed]
    exact sub
  · have ledger : p.parts ≠ s.ledgerPath.parts := fun eq => by simp [same_iff.mpr eq] at ledger
    have scratch : p.parts ≠ (Ledger.scratchFor s.ledgerPath).parts := fun eq => by
      simp [same_iff.mpr eq] at scratch
    have final := (save_content (renewed s project plan) (stagedUpTo s plan st plan.candidates).2
      ledger scratch).trans (content p.parts)
    have report : (done.filter fun c => p.same ⟨c.output⟩).getLast? = lastAt done p.parts :=
      lastAt_eq_of_same p
    simp only [completedReport, processed, report]
    rw [content?_eq, content?_eq]
    cases last : lastAt done p.parts with
    | none =>
      rw [last] at final
      exact final
    | some c =>
      rw [last] at final
      obtain ⟨mem, -⟩ := mem_of_lastAt last
      obtain ⟨written, eq⟩ := Option.isSome_iff_exists.mp (full c mem)
      have final := final.trans eq
      rw [payload_after_deletions (deletions c (sub.subset mem))] at eq
      obtain ⟨bytes, read, made⟩ := payload_eq_some eq
      exact ⟨bytes, written, read, made, final⟩

/-- In the small project no output and no deletion is a source. -/
theorem content_of_completed_sample :
    let outcome := exec (run Sample.stager Sample.project .all : StateM Memory _) Sample.tree
    ∃ d, exec (Discovery.ofProject Sample.project .all : ExceptT Cancelled (StateM Memory) _).run
        Sample.tree = (.ok d, Sample.tree) ∧
      let plan := Plan.ofDiscovery Sample.stager.ledger d
      SourcesApart plan.candidates ∧
      (∀ c ∈ plan.candidates, ∀ path ∈ plan.deletions, place path ≠ c.source.parts) ∧
      (∃ found, List.Forall₂ (Discovery.Ordered Sample.tree) (Sample.project.covered .all) found ∧
        outcome.1.1.processed.Sublist found.flatten) ∧
      ∀ p : Path, p.same Sample.stager.ledgerPath = false →
        p.same (Ledger.scratchFor Sample.stager.ledgerPath) = false →
        match (outcome.1.1.processed.filter fun c => p.same ⟨c.output⟩).getLast? with
        | some c => ∃ bytes content, Sample.tree.content? c.source = some bytes ∧
            result Sample.stager c bytes = some content ∧ outcome.2.content? p = some content
        | none => outcome.2.content? p =
            (stagedUpTo Sample.stager plan Sample.tree []).2.content? p := by
  intro outcome
  obtain ⟨d, discovered⟩ := exec_ofProject Sample.project .all Sample.tree
  have apart : ((exec (Discovery.ofProject Sample.project .all :
      ExceptT Cancelled (StateM Memory) _).run Sample.tree).1.toOption.all fun d =>
        decide (SourcesApart (Plan.ofDiscovery Sample.stager.ledger d).candidates ∧
          ∀ c ∈ (Plan.ofDiscovery Sample.stager.ledger d).candidates,
            ∀ path ∈ (Plan.ofDiscovery Sample.stager.ledger d).deletions,
              place path ≠ c.source.parts)) = true := by
    decide +kernel
  rw [discovered] at apart
  have apart := of_decide_eq_true apart
  have ran : exec (run Sample.stager Sample.project .all : StateM Memory _) Sample.tree =
      ((outcome.1.1, outcome.1.2), outcome.2) := rfl
  exact ⟨d, discovered, apart.1, apart.2,
    content_of_completed discovered apart.1 apart.2 ran⟩

end Pass
end Staging
