import Staging.Proofs.Discovery.Sources
import Staging.Proofs.Ledger.Saving
import Staging.Proofs.Memory.Listing
import Staging.Proofs.Pass.Resumption

/-!
Recovery. A pass that is stopped anywhere, between two changes of the files, is made good by running
it again from the stored ledger: contents and ledger are then as if it had never been stopped.
-/
namespace Staging

namespace History
open Memory

theorem follows_load {P : Memory → Prop} (st : Memory) (p : Path) (casing : Casing) :
    Follows P st (Ledger.load p casing) (Ledger.load p casing) := by
  refine .bind (.look rfl) ?_
  split
  · refine .bind (.look rfl) ?_
    split
    · exact .pure _
    · exact .pure _
  · exact .pure _

/-- A pass is stopped at a tree on record, or not at all. -/
theorem after_cases (h : History) (calls : Nat) : h.after calls ∈ h.past ∨ h.after calls = h.now := by
  rw [after, List.getD_eq_getElem?_getD]
  cases found : (h.past ++ [h.now])[calls]? with
  | none => exact .inr rfl
  | some t =>
    have mem := List.mem_of_getElem? found
    rw [List.mem_append, List.mem_singleton] at mem
    exact mem

end History

namespace Pass
open Memory History

/-- A pass that starts from the stored ledger. -/
def runStored {m : Type → Type} [Monad m] [FileSystem m] {τ : Type} [Tracker τ] (s : Stager τ)
    (casing : Casing) (project : Project) (scope : Scope) : m (Report × Stager τ) := do
  let ledger ← Ledger.load s.ledgerPath casing
  run { s with ledger } project scope

/-- Nothing that a pass writes or deletes lies in a tree that it reads or is a property file, and
its ledger lies apart from everything else that it writes or deletes. -/
structure Separate (project : Project) (scope : Scope) (p : Path) (plan : Plan) : Prop where
  trees : ∀ u ∈ project.covered scope, ∀ pair ∈ Discovery.treesOf u,
    ∀ key ∈ plan.targets ++ [p.parts, (Ledger.scratchFor p).parts],
      ¬Encloses pair.2.directory.parts key
  filters : ∀ u ∈ project.covered scope, ∀ f ∈ u.filters,
    ∀ key ∈ plan.targets ++ [p.parts, (Ledger.scratchFor p).parts], f.parts ≠ key
  ledger : LedgerApart p plan

instance (project : Project) (scope : Scope) (p : Path) (plan : Plan) :
    Decidable (Separate project scope p plan) :=
  decidable_of_iff
    ((∀ u ∈ project.covered scope, ∀ pair ∈ Discovery.treesOf u,
      ∀ key ∈ plan.targets ++ [p.parts, (Ledger.scratchFor p).parts],
        ¬Encloses pair.2.directory.parts key) ∧
      (∀ u ∈ project.covered scope, ∀ f ∈ u.filters,
        ∀ key ∈ plan.targets ++ [p.parts, (Ledger.scratchFor p).parts], f.parts ≠ key) ∧
      LedgerApart p plan)
    ⟨fun ⟨trees, filters, ledger⟩ => ⟨trees, filters, ledger⟩,
      fun ⟨trees, filters, ledger⟩ => ⟨trees, filters, ledger⟩⟩

/-- Discovery does not read what lies at these places: none of them is in a resource tree or is a
property file. -/
structure Unread (project : Project) (scope : Scope) (places : List (List Part)) : Prop where
  trees : ∀ u ∈ project.covered scope, ∀ pair ∈ Discovery.treesOf u, ∀ key ∈ places,
    ¬Encloses pair.2.directory.parts key
  filters : ∀ u ∈ project.covered scope, ∀ f ∈ u.filters, ∀ key ∈ places, f.parts ≠ key

instance (project : Project) (scope : Scope) (places : List (List Part)) :
    Decidable (Unread project scope places) :=
  decidable_of_iff
    ((∀ u ∈ project.covered scope, ∀ pair ∈ Discovery.treesOf u, ∀ key ∈ places,
      ¬Encloses pair.2.directory.parts key) ∧
      ∀ u ∈ project.covered scope, ∀ f ∈ u.filters, ∀ key ∈ places, f.parts ≠ key)
    ⟨fun ⟨trees, filters⟩ => ⟨trees, filters⟩, fun ⟨trees, filters⟩ => ⟨trees, filters⟩⟩

variable {s s' : Stager NoTracking} {casing : Casing} {project : Project} {scope : Scope}
variable {st x : Memory} {d : Discovery}

theorem Separate.unread {p : Path} {plan : Plan} (h : Separate project scope p plan) :
    Unread project scope (plan.targets ++ [p.parts, (Ledger.scratchFor p).parts]) :=
  ⟨h.trees, h.filters⟩

theorem exec_runStored (s : Stager NoTracking) (casing : Casing) (project : Project)
    (scope : Scope) (st : Memory) :
    exec (runStored s casing project scope : StateM Memory _) st =
      exec (run { s with ledger := st.stored s.ledgerPath casing } project scope : StateM Memory _)
        st := by
  rw [runStored, exec_bind, exec_load]

/-- The end of a pass, and the ledger that it leaves. -/
theorem exec_run_ended (discovered : exec (Discovery.ofProject project scope :
      ExceptT Cancelled (StateM Memory) _).run st = (.ok d, st)) :
    (exec (run s project scope : StateM Memory _) st).2 =
        ended s project (Plan.ofDiscovery s.ledger d) st ∧
      (exec (run s project scope : StateM Memory _) st).1.2.ledger =
        renewed s project (Plan.ofDiscovery s.ledger d) := by
  obtain ⟨_, found, same⟩ := exec_run s project scope st
  cases discovered.symm.trans found
  rw [same, exec_finish, applied_eq]
  exact ⟨rfl, rfl⟩

theorem saves_of_run (discovered : exec (Discovery.ofProject project scope :
      ExceptT Cancelled (StateM Memory) _).run st = (.ok d, st))
    (saved : ∀ e, unsaved s.ledgerPath e ∉
      (exec (run s project scope : StateM Memory _) st).1.1.messages) :
    Saves s project (Plan.ofDiscovery s.ledger d) st := by
  obtain ⟨_, found, same⟩ := exec_run s project scope st
  cases discovered.symm.trans found
  rw [same, exec_finish, applied_eq] at saved
  refine room_of_save _ _ _ ?_
  simp only [completedReport, List.mem_append, not_or] at saved
  cases outcome : (exec ((renewed s project (Plan.ofDiscovery s.ledger d)).save s.ledgerPath :
      StateM Memory _) (stagedUpTo s (Plan.ofDiscovery s.ledger d) st
        (Plan.ofDiscovery s.ledger d).candidates).2).1 with
  | ok => rfl
  | error e =>
    have told := (saved e).2
    rw [outcome] at told
    exact absurd List.mem_cons_self told

/-- Sources lie in the trees, so they are kept clear of. -/
theorem sourcesClear_of_unread {p : Path} {l : Ledger}
    (discovered : exec (Discovery.ofProject project scope :
      ExceptT Cancelled (StateM Memory) _).run st = (.ok d, st))
    (unread : Unread project scope
      ((Plan.ofDiscovery l d).targets ++ [p.parts, (Ledger.scratchFor p).parts])) :
    SourcesClear p (Plan.ofDiscovery l d) := by
  intro c mem touched
  obtain ⟨u, covered, pair, tree, inside⟩ := Discovery.source_of_candidate l discovered mem
  exact unread.trees u covered pair tree _ touched (.inl inside)

theorem sameSources_of_confined {places : List (List Part)} (unread : Unread project scope places)
    (confined : Confined places st x) {u : BuildUnit} (covered : u ∈ project.covered scope) :
    SameSources st x u where
  unreadable := confined.unreadable
  filters f mem := confined.content _ fun target => unread.filters u covered f mem _ target rfl
  trees pair tree key inside := by
    refine confined.entries key fun place mem down => ?_
    exact unread.trees u covered pair tree place mem (Encloses.trans (.inl inside) down)

/-- Running again from a tree that a pass resumes from. -/
theorem run_resumed (named : st.Named) (discovered : exec (Discovery.ofProject project scope :
      ExceptT Cancelled (StateM Memory) _).run st = (.ok d, st))
    (separate : Separate project scope s.ledgerPath (Plan.ofDiscovery s.ledger d))
    (saves : Saves s project (Plan.ofDiscovery s.ledger d) st) {deletions : List String}
    (h : Resumes s project (Plan.ofDiscovery s.ledger d) st deletions x)
    (path : s'.ledgerPath = s.ledgerPath)
    (work : ∀ (t : Memory) (c : Candidate), t.payload s' c = t.payload s c)
    (next : ∀ d' : Discovery, d'.units = d.units →
      (Plan.ofDiscovery s'.ledger d').deletions = deletions ∧
      renewed s' project (Plan.ofDiscovery s'.ledger d') =
        renewed s project (Plan.ofDiscovery s.ledger d)) :
    (∀ key, (exec (run s' project scope : StateM Memory _) x).2.contentAt key =
      (exec (run s project scope : StateM Memory _) st).2.contentAt key) ∧
    (exec (run s' project scope : StateM Memory _) x).1.2.ledger =
      (exec (run s project scope : StateM Memory _) st).1.2.ledger := by
  obtain ⟨d', discovered', same⟩ := units_of_sources named
    (fun u covered => sameSources_of_confined separate.unread h.confined covered) discovered
  obtain ⟨rfl, ledger⟩ := next d' same
  obtain ⟨tree, left⟩ := exec_run_ended (s := s) discovered
  obtain ⟨tree', left'⟩ := exec_run_ended (s := s') discovered'
  rw [tree, tree', left, left']
  refine ⟨fun key => ?_, ledger⟩
  exact contentAt_resumed (sourcesClear_of_unread discovered separate.unread) h work separate.ledger
    saves (Plan.candidates_congr _ _ same) path ledger key

section
variable (named : st.Named) (discovered : exec (Discovery.ofProject project scope :
  ExceptT Cancelled (StateM Memory) _).run st = (.ok d, st))
variable (separate : Separate project scope s.ledgerPath (Plan.ofDiscovery s.ledger d))
variable (saves : Saves s project (Plan.ofDiscovery s.ledger d) st)
include named discovered separate saves

/-- With the ledger that it started from, a pass is the same pass again. -/
theorem run_again (h : Resumes s project (Plan.ofDiscovery s.ledger d) st
      (Plan.ofDiscovery s.ledger d).deletions x) :
    (∀ key, (exec (run s project scope : StateM Memory _) x).2.contentAt key =
      (exec (run s project scope : StateM Memory _) st).2.contentAt key) ∧
    (exec (run s project scope : StateM Memory _) x).1.2.ledger =
      (exec (run s project scope : StateM Memory _) st).1.2.ledger := by
  refine run_resumed named discovered separate saves h rfl (fun _ _ => rfl) fun d' same => ?_
  have units := Plan.units_congr s.ledger same
  exact ⟨Plan.deletions_congr units, renewed_congr s project units⟩

omit named saves in
theorem stored_of_halted (loaded : s.ledger = st.stored s.ledgerPath casing)
    (h : Halted s project (Plan.ofDiscovery s.ledger d) st x) :
    x.stored s.ledgerPath casing = s.ledger := by
  have confined := h.confined (sourcesClear_of_unread discovered separate.unread).apart
  rw [loaded]
  refine stored_congr confined.unreadable (confined.content _ fun mem => ?_)
  rcases List.mem_append.mp mem with target | scratch
  · exact (separate.ledger _ target _ List.mem_cons_self).1 (.refl _)
  · exact scratch_ne _ (List.mem_singleton.mp scratch).symm

theorem run_halted (loaded : s.ledger = st.stored s.ledgerPath casing)
    (h : Halted s project (Plan.ofDiscovery s.ledger d) st x) :
    let again := exec (run { s with ledger := x.stored s.ledgerPath casing } project scope :
      StateM Memory _) x
    (∀ key, again.2.contentAt key =
      (exec (run s project scope : StateM Memory _) st).2.contentAt key) ∧
    again.1.2.ledger = (exec (run s project scope : StateM Memory _) st).1.2.ledger := by
  rw [stored_of_halted discovered separate loaded h]
  exact run_again named discovered separate saves
    (h.resumes (sourcesClear_of_unread discovered separate.unread).apart separate.ledger saves)

/-- After the pass, another one finds the ledger that the first has saved, or none if it cannot be
read, as the first one did. -/
theorem run_ended (distinct : project.unitNames.Nodup)
    (loaded : s.ledger = st.stored s.ledgerPath casing)
    (fits : Ledger.Fits (renewed s project (Plan.ofDiscovery s.ledger d)).units)
    (h : x = ended s project (Plan.ofDiscovery s.ledger d) st) :
    let again := exec (run { s with ledger := x.stored s.ledgerPath casing } project scope :
      StateM Memory _) x
    (∀ key, again.2.contentAt key =
      (exec (run s project scope : StateM Memory _) st).2.contentAt key) ∧
    again.1.2.ledger = (exec (run s project scope : StateM Memory _) st).1.2.ledger := by
  intro again
  have sources := (sourcesClear_of_unread discovered separate.unread).apart
  have unreadable : x.unreadable = st.unreadable :=
    h ▸ (confined_ended sources saves).unreadable
  by_cases readable : x.unreadable.contains s.ledgerPath.parts = true
  · have same : x.stored s.ledgerPath casing = s.ledger := by
      rw [loaded, stored_of_unreadable readable, stored_of_unreadable (unreadable ▸ readable)]
    have resumes := resumes_ended sources saves
      (List.Subset.refl (Plan.ofDiscovery s.ledger d).deletions)
    rw [← h] at resumes
    simp only [again, same]
    exact run_again named discovered separate saves resumes
  · have names := Discovery.units_ofProject discovered
    have casing_eq : (renewed s project (Plan.ofDiscovery s.ledger d)).casing = casing := by
      rw [casing_renewed, loaded, casing_stored]
    have content : x.contentAt s.ledgerPath.parts =
        some (Ledger.encode (renewed s project (Plan.ofDiscovery s.ledger d)).units) := by
      obtain ⟨time, eq⟩ := ended_of_saves saves
      rw [h, eq, contentAt_saved, if_pos rfl]
    have uniform : s.ledger.Uniform := loaded ▸ uniform_stored st s.ledgerPath casing
    have same : x.stored s.ledgerPath casing =
        renewed s project (Plan.ofDiscovery s.ledger d) := by
      rw [← casing_eq]
      exact stored_of_content content (uniform_renewed uniform project d) fits
        (Bool.not_eq_true _ ▸ readable)
    have resumes := resumes_ended sources saves
      (List.nil_subset (Plan.ofDiscovery s.ledger d).deletions)
    rw [← h] at resumes
    simp only [again, same]
    refine run_resumed named discovered separate saves resumes rfl
      (fun t c => payload_withLedger t s _ c) fun d' units => ⟨?_, ?_⟩
    · rw [Plan.deletions_congr (Plan.units_congr _ units)]
      exact deletions_renewed distinct names
    · rw [renewed_congr _ project (Plan.units_congr _ units)]
      exact renewed_renewed distinct names rfl

end

theorem history_of_runStored (discovered : exec (Discovery.ofProject project scope :
      ExceptT Cancelled (StateM Memory) _).run st = (.ok d, st)) :
    ∃ more, (exec (runStored s casing project scope : StateM History _) (.ofMemory st)).2 =
        ⟨more, (exec (runStored s casing project scope : StateM Memory _) st).2⟩ ∧
      ∀ t ∈ more, Halted { s with ledger := st.stored s.ledgerPath casing } project
        (Plan.ofDiscovery (st.stored s.ledgerPath casing) d) st t := by
  obtain ⟨front, loaded, holds⟩ := follows_load st s.ledgerPath casing []
  obtain ⟨more, ran, holds'⟩ := halted_of_history
    { s with ledger := st.stored s.ledgerPath casing } project scope st discovered ([] ++ front)
  refine ⟨front ++ more, ?_, fun t mem => (List.mem_append.mp mem).elim (holds t) (holds' t)⟩
  rw [exec_runStored, runStored, exec_bind, History.ofMemory, loaded, exec_load]
  exact ran

/-- A pass without a tracker over a tree in memory that keeps apart what it reads, what it writes,
and its ledger, and that could save it: stopped after any number of calls that change files, and run
again from the stored ledger, it leaves all contents and the ledger as if it had not been stopped.

Where the stop comes after the last change, the second pass reads the ledger that the first one
wrote, which has to fit the file format (`Ledger.Fits`): counts and lengths are written in 32 bits
with a sign, so a ledger with 2^31 units, paths or bytes in a name is not read back as it was. -/
theorem recovers_of_stopped {st' : Memory} {r : Report} (distinct : project.unitNames.Nodup)
    (made : st.Made) (discovered : exec (Discovery.ofProject project scope :
      ExceptT Cancelled (StateM Memory) _).run st = (.ok d, st))
    (separate : Separate project scope s.ledgerPath
      (Plan.ofDiscovery (st.stored s.ledgerPath casing) d))
    (ran : exec (runStored s casing project scope : StateM Memory _) st = ((r, s'), st'))
    (saved : ∀ e, unsaved s.ledgerPath e ∉ r.messages) (calls : Nat) :
    let stopped := (exec (runStored s casing project scope : StateM History _)
      (.ofMemory st)).2.after calls
    let again := exec (runStored s casing project scope : StateM Memory _) stopped
    (stopped = st' → Ledger.Fits s'.ledger.units) →
      again.1.1.outcome = .completed ∧ (∀ p, again.2.content? p = st'.content? p) ∧
        again.1.2.ledger = s'.ledger := by
  intro stopped again fits
  obtain ⟨more, history, halted⟩ := history_of_runStored (s := s) discovered
  have place : stopped ∈ more ∨ stopped = st' := by
    have cases := after_cases (exec (runStored s casing project scope : StateM History _)
      (.ofMemory st)).2 calls
    rw [history, ran] at cases
    simp only [stopped]
    rw [history, ran]
    exact cases
  have rerun : again = exec (run { s with ledger := stopped.stored s.ledgerPath casing } project
      scope : StateM Memory _) stopped := exec_runStored s casing project scope stopped
  rw [exec_runStored] at ran
  clear_value stopped again
  subst rerun
  generalize first : ({ s with ledger := st.stored s.ledgerPath casing } : Stager NoTracking) = s₀
    at ran halted
  have path : s₀.ledgerPath = s.ledgerPath := by rw [← first]
  have loaded : s₀.ledger = st.stored s.ledgerPath casing := by rw [← first]
  have second : ({ s with ledger := stopped.stored s.ledgerPath casing } : Stager NoTracking) =
      { s₀ with ledger := stopped.stored s₀.ledgerPath casing } := by rw [← first]
  rw [second]
  rw [← loaded] at separate halted
  rw [← path] at separate saved loaded
  have saves : Saves s₀ project (Plan.ofDiscovery s₀.ledger d) st :=
    saves_of_run discovered (by rw [ran]; exact saved)
  refine ⟨completes _ project scope stopped, ?_⟩
  simp only [content?_eq]
  rcases place with mem | last
  · have both := run_halted made.named discovered separate saves loaded (halted stopped mem)
    rw [ran] at both
    exact ⟨fun p => both.1 p.parts, both.2⟩
  · obtain ⟨tree, left⟩ := exec_run_ended (s := s₀) discovered
    rw [ran] at tree left
    have both := run_ended made.named discovered separate saves distinct loaded
      (left ▸ fits last) (last.trans tree)
    rw [ran] at both
    exact ⟨fun p => both.1 p.parts, both.2⟩

/-- The small project with its ledger stored, so that a pass has something to delete. -/
theorem recovers_of_stopped_sample :
    let st := Sample.tree.addFile Sample.stager.ledgerPath (Ledger.encode Sample.stager.ledger.units)
    let whole := exec (runStored Sample.stager .sensitive Sample.project .all : StateM Memory _) st
    ∃ d, exec (Discovery.ofProject Sample.project .all :
        ExceptT Cancelled (StateM Memory) _).run st = (.ok d, st) ∧
      Separate Sample.project .all Sample.stager.ledgerPath
        (Plan.ofDiscovery (st.stored Sample.stager.ledgerPath .sensitive) d) ∧
      (∀ e, unsaved Sample.stager.ledgerPath e ∉ whole.1.1.messages) ∧
      Ledger.Fits whole.1.2.ledger.units ∧
      ∀ calls,
        let stopped := (exec (runStored Sample.stager .sensitive Sample.project .all :
          StateM History _) (.ofMemory st)).2.after calls
        let again := exec (runStored Sample.stager .sensitive Sample.project .all :
          StateM Memory _) stopped
        again.1.1.outcome = .completed ∧ (∀ p, again.2.content? p = whole.2.content? p) ∧
          again.1.2.ledger = whole.1.2.ledger := by
  intro st whole
  have made : st.Made := .addFile _ _ (.addFile _ _ (.addFile _ _ .empty))
  obtain ⟨d, discovered⟩ := exec_ofProject Sample.project .all st
  have separate : ((exec (Discovery.ofProject Sample.project .all :
      ExceptT Cancelled (StateM Memory) _).run st).1.toOption.all fun d =>
        decide (Separate Sample.project .all Sample.stager.ledgerPath
          (Plan.ofDiscovery (st.stored Sample.stager.ledgerPath .sensitive) d))) = true := by
    decide +kernel
  rw [discovered] at separate
  have separate := of_decide_eq_true separate
  have silent : whole.1.1.messages = [] := by decide +kernel
  have fits : Ledger.Fits whole.1.2.ledger.units := by decide +kernel
  have saved : ∀ e, unsaved Sample.stager.ledgerPath e ∉ whole.1.1.messages := by
    intro e
    rw [silent]
    exact List.not_mem_nil
  exact ⟨d, discovered, separate, saved, fits, fun calls =>
    recovers_of_stopped (by decide) made discovered separate rfl saved calls fun _ => fits⟩

end Pass
end Staging
