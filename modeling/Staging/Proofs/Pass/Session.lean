import Staging.Proofs.Discovery.Outputs
import Staging.Proofs.Memory.Lockstep
import Staging.Proofs.Pass.Survival

/-!
Sessions: passes of one stager over one project, with edits of the tree before each of them. What
lies at a place can change only by an edit or a candidate that is about that place, or by the
ledger; anything else leaves the file there as it is or takes it away, and leaves the directories
above.
-/
namespace Staging

/-- What is done to a tree in memory from outside. -/
inductive Edit where
  | addFile (p : Path) (content : Bytes)
  | addDir (p : Path)
  | setModified (p : Path) (time : Int64)
  | makeUnreadable (p : Path)
  | removeFile (p : Path)
  | rename (source target : Path)

namespace Edit

/-- An edit that fails changes nothing. -/
def apply : Edit → Memory → Memory
  | addFile p content, st => st.addFile p content
  | addDir p, st => st.addDir p
  | setModified p time, st => st.setModified p time
  | makeUnreadable p, st => st.makeUnreadable p
  | removeFile p, st => (st.removeFile p).toOption.getD st
  | rename source target, st => (st.rename source target).2

def applyAll (edits : List Edit) (st : Memory) : Memory := edits.foldl (fun st e => e.apply st) st

/-- The paths where an edit puts a file or takes one away. -/
def touched : Edit → List Path
  | addFile p _ => [p]
  | addDir _ => []
  | setModified _ _ => []
  | makeUnreadable _ => []
  | removeFile p => [p]
  | rename source target => [source, target]

end Edit

/-- The stager with another ledger and another tracker. -/
def Stager.carry {τ τ' : Type} (s : Stager τ) (ledger : Ledger) (tracker : τ') : Stager τ' where
  ledgerPath := s.ledgerPath
  ledger
  filter := s.filter
  charsetFor := s.charsetFor
  tracker

namespace Stager

variable {τ τ' τ'' : Type} (s : Stager τ) (ledger ledger' : Ledger) (tracker : τ') (tracker' : τ'')

@[simp] theorem ledgerPath_carry : (s.carry ledger tracker).ledgerPath = s.ledgerPath := rfl

@[simp] theorem ledger_carry : (s.carry ledger tracker).ledger = ledger := rfl

@[simp] theorem filter_carry : (s.carry ledger tracker).filter = s.filter := rfl

@[simp] theorem charsetFor_carry : (s.carry ledger tracker).charsetFor = s.charsetFor := rfl

@[simp] theorem carry_carry :
    (s.carry ledger tracker).carry ledger' tracker' = s.carry ledger' tracker' := rfl

end Stager

/-- Some edits, and then a pass. -/
structure Round where
  edits : List Edit
  scope : Scope

/-- A candidate and the tree in which it was discovered. -/
structure Sighting where
  tree : Memory
  item : Candidate

namespace Sighting

/-- The stamp has the time that the tree tells and the flag of the candidate. -/
structure Stamped (x : Sighting) : Prop where
  time : x.item.stamp.time = (x.tree.modified x.item.source).toOption.getD Stamp.unknownTime
  flag : x.item.stamp.filtered = x.item.filtered

theorem Stamped.modified_eq {x : Sighting} (h : x.Stamped) (known : x.item.stamp.isKnown = true) :
    x.tree.modified x.item.source = .ok x.item.stamp.time := by
  have time := h.time
  cases told : x.tree.modified x.item.source with
  | error e =>
    rw [told] at time
    rw [Stamp.isKnown, time] at known
    cases known
  | ok modified =>
    rw [told] at time
    exact congrArg Except.ok time.symm

end Sighting

namespace Pass

section
variable {τ : Type} [Tracker τ]

/-- The stager and the tree after one round. -/
def playRound (project : Project) (now : Stager τ × Memory) (r : Round) : Stager τ × Memory :=
  let ran := exec (run now.1 project r.scope : StateM Memory _) (Edit.applyAll r.edits now.2)
  (ran.1.2, ran.2)

def play (project : Project) (rounds : List Round) (now : Stager τ × Memory) :
    Stager τ × Memory :=
  rounds.foldl (playRound project) now

/-- The candidates of the next pass. -/
def sightings (project : Project) (scope : Scope) (s : Stager τ) (st : Memory) : List Sighting :=
  let discovery : ExceptT Cancelled (StateM Memory) Discovery := Discovery.ofProject project scope
  match (exec discovery.run st).1 with
  | .ok d => (Plan.ofDiscovery s.ledger d).candidates.map (⟨st, ·⟩)
  | .error _ => []

/-- The candidates of all passes of a session. -/
def seen (project : Project) : List Round → Stager τ × Memory → List Sighting
  | [], _ => []
  | r :: rest, now =>
    sightings project r.scope now.1 (Edit.applyAll r.edits now.2) ++
      seen project rest (playRound project now r)

theorem seen_mono (project : Project) {done rounds : List Round} (h : done <+: rounds)
    (now : Stager τ × Memory) : seen project done now ⊆ seen project rounds now := by
  induction done generalizing rounds now with
  | nil => exact List.nil_subset _
  | cons r done ih =>
    obtain ⟨rest, rfl⟩ := h
    rw [List.cons_append, seen, seen]
    apply List.append_subset.mpr
    constructor
    · exact List.subset_append_left _ _
    · exact List.subset_append_of_subset_right _ (ih (List.prefix_append done rest) _)

omit [Tracker τ] in
theorem mem_sightings {project : Project} {scope : Scope} {s : Stager τ} {st : Memory}
    {d : Discovery} (discovered : exec (Discovery.ofProject project scope :
      ExceptT Cancelled (StateM Memory) _).run st = (.ok d, st)) {x : Sighting} :
    x ∈ sightings project scope s st ↔
      x.tree = st ∧ x.item ∈ (Plan.ofDiscovery s.ledger d).candidates := by
  obtain ⟨tree, item⟩ := x
  rw [sightings, discovered]
  simp [eq_comm, and_comm]

/-- What a pass carries on, and what it leaves. -/
theorem left_by_run (s : Stager τ) (project : Project) (scope : Scope) (st : Memory) :
    ∃ d, exec (Discovery.ofProject project scope : ExceptT Cancelled (StateM Memory) _).run st =
        (.ok d, st) ∧
      let plan := Plan.ofDiscovery s.ledger d
      let done := applied (m := StateM Memory) s plan st
      let ran := exec (run s project scope : StateM Memory _) st
      ran.1.2 = s.carry (renewed s project plan) done.1.tracker ∧
        ran.2 = (exec ((renewed s project plan).save s.ledgerPath : StateM Memory _) done.2).2 := by
  obtain ⟨d, discovered, same⟩ := Memory.exec_run s project scope st
  refine ⟨d, discovered, ?_⟩
  rw [same, exec_finish]
  exact ⟨rfl, rfl⟩

/-- Sources lie strictly below the roots of the project. -/
theorem root_above_source {project : Project} {scope : Scope} {st : Memory} {d : Discovery}
    (named : st.Named) (discovered : exec (Discovery.ofProject project scope :
      ExceptT Cancelled (StateM Memory) _).run st = (.ok d, st)) (l : Ledger) {c : Candidate}
    (mem : c ∈ (Plan.ofDiscovery l d).candidates) :
    ∃ u ∈ project.units, ∃ pair ∈ Discovery.treesOf u,
      Memory.Above pair.2.directory.parts c.source.parts := by
  obtain ⟨u, covered, pair, tree, spec, root, -, -, arises⟩ :=
    Discovery.arises_of_candidate (Memory.looks _) named l discovered mem
  obtain ⟨names, routed⟩ := arises.routed Memory.listsNames
  refine ⟨u, (Project.mem_covered.mp covered).1, pair, tree, ?_⟩
  rw [routed.source, root]
  constructor
  · simpa using routed.nonempty
  · exact .inl (List.prefix_append _ _)

omit [Tracker τ] in
theorem stamped_of_mem_sightings {project : Project} {scope : Scope} {s : Stager τ} {st : Memory}
    {x : Sighting} (mem : x ∈ sightings project scope s st) : x.Stamped := by
  obtain ⟨d, discovered⟩ := Memory.exec_ofProject project scope st
  obtain ⟨tree, item⟩ := x
  obtain ⟨rfl, planned⟩ := (mem_sightings discovered).mp mem
  obtain ⟨u, -, pair, -, spec, -, -, -, arises⟩ :=
    Discovery.arises_of_candidate (Memory.looks (· = tree)) rfl s.ledger discovered planned
  obtain ⟨_, rfl, time⟩ := arises.time
  exact ⟨time, arises.flag⟩

theorem stamped_of_seen {project : Project} {rounds : List Round} {now : Stager τ × Memory}
    {x : Sighting} (mem : x ∈ seen project rounds now) : x.Stamped := by
  induction rounds generalizing now with
  | nil => cases mem
  | cons r rest ih =>
    rcases List.mem_append.mp mem with mem | mem
    · exact stamped_of_mem_sightings mem
    · exact ih mem

end

end Pass

namespace Memory
open Pass

/-! What is kept at a place -/

/-- The file at a place stays as it is or is taken away, and the directories that the place lies in
stay. -/
structure Spares (key : List Part) (s t : Memory) : Prop where
  content : t.contentAt key = s.contentAt key ∨ t.contentAt key = none
  dirs : ∀ dir, Encloses dir key → s.kindAt dir = some .dir → t.kindAt dir = some .dir

section
variable {key : List Part} {s t u : Memory}

namespace Spares

theorem refl (key : List Part) (s : Memory) : Spares key s s :=
  ⟨.inl rfl, fun _ _ dir => dir⟩

theorem trans (h : Spares key s t) (h' : Spares key t u) : Spares key s u := by
  constructor
  · rcases h'.content with same | gone
    · rw [same]
      exact h.content
    · exact .inr gone
  · exact fun dir encloses found => h'.dirs dir encloses (h.dirs dir encloses found)

theorem of_same (content : ∀ key, t.contentAt key = s.contentAt key) (kinds : t.kindAt = s.kindAt) :
    Spares key s t :=
  ⟨.inl (content key), fun dir _ found => (congrFun kinds dir).trans found⟩

theorem ensureDir (key : List Part) (s : Memory) (p : Path) : Spares key s (s.ensureDir p) := by
  constructor
  · exact .inl (contentAt_ensureDir s p key)
  · intro dir _ found
    rw [kindAt_ensureDir]
    exact Kinds.opened_of_kind found

/-- A file put at another place, where no directory was. -/
theorem insertFile {p : Path} (content : Bytes) (time : Int64) (other : key ≠ p.parts)
    (room : Encloses p.parts key → s.kindAt p.parts ≠ some .dir) :
    Spares key s (s.insertFile p content time) := by
  constructor
  · rw [contentAt_insertFile, if_neg other]
    exact .inl rfl
  · intro dir encloses found
    rw [kindAt_insertFile]
    apply Kinds.openedAbove_of_kind
    rw [Kinds.withFile, if_neg]
    · exact found
    · rintro rfl
      exact room encloses found

theorem addFile {p : Path} (content : Bytes) (other : key ≠ p.parts)
    (room : Encloses p.parts key → s.kindAt p.parts ≠ some .dir) :
    Spares key s (s.addFile p content) :=
  have bumped := insertFile (s := { s with clock := s.clock + 1 }) content (s.clock + 1) other room
  ⟨bumped.content, bumped.dirs⟩

theorem discard {p : Path} (room : Encloses p.parts key → s.kindAt p.parts ≠ some .dir) :
    Spares key s (s.discard p) := by
  constructor
  · rw [contentAt_discard]
    split
    · exact .inr rfl
    · exact .inl rfl
  · intro dir encloses found
    rw [kindAt_discard, Kinds.without, if_neg]
    · exact found
    · rintro rfl
      exact room encloses found

end Spares

theorem spares_removeFile {p : Path} (out : ¬Encloses p.parts key) :
    Spares key s ((s.removeFile p).toOption.getD s) := by
  unfold removeFile
  split
  · exact .discard fun encloses => absurd encloses out
  · exact .refl key s
  · exact .refl key s

theorem spares_rename {source target : Path} (out : ¬Encloses source.parts key)
    (out' : ¬Encloses target.parts key) : Spares key s (s.rename source target).2 := by
  have other : key ≠ target.parts := fun same => out' (same ▸ .refl key)
  unfold rename
  split
  · exact .refl key s
  · split
    · refine .trans (.discard fun encloses => absurd encloses out) ?_
      exact .insertFile _ _ other fun encloses => absurd encloses out'
    · rename_i children found
      have same : ∀ key, ((s.drop source).put source (.dir children)).at? key = s.at? key := by
        intro key
        rw [at?_put, at?_drop]
        split
        · rename_i here
          rw [here, ← found, entry?_eq]
        · rfl
      apply Spares.of_same
      · intro key
        rw [contentAt, contentAt, same]
      · funext key
        rw [kindAt, kindAt, same]
    · exact .refl key s

/-! What a pass keeps -/

variable {τ : Type}

theorem Deleted.spares {paths : List String} {v w : Applied τ} (h : Deleted paths v s w t)
    (key : List Part) : Spares key s t := by
  constructor
  · rw [h.content]
    split
    · exact .inr rfl
    · exact .inl rfl
  · intro dir _ found
    rw [h.kinds, Kinds.swept_apply, if_neg]
    · exact found
    · simp [found]

theorem Spares.openedFor (key : List Part) (s : Memory) (output : Path) :
    Spares key s (s.openedFor output) := by
  unfold Memory.openedFor
  split
  · exact .ensureDir key s _
  · exact .refl key s

theorem dir_openedFor {dir : List Part} (output : Path) (found : s.kindAt dir = some .dir) :
    (s.openedFor output).kindAt dir = some .dir :=
  (Spares.openedFor dir s output).dirs dir (.refl dir) found

theorem dir_addFile {p : Path} (content : Bytes) (room : s.kindAt p.parts ≠ some .dir)
    {dir : List Part} (found : s.kindAt dir = some .dir) :
    (s.addFile p content).kindAt dir = some .dir := by
  rw [kindAt_addFile]
  exact Kinds.keeps_withFile (K := fun _ => True) (fun _ => room) dir .dir trivial found

theorem Spares.written {output : Path} (content : Bytes) (other : key ≠ output.parts)
    (room : (s.openedFor output).kindAt output.parts ≠ some .dir) :
    Spares key s ((s.openedFor output).addFile output content) :=
  .trans (.openedFor key s output) (.addFile content other fun _ => room)

theorem spares_save (l : Ledger) {p : Path} (ledger : key ≠ p.parts)
    (scratch : key ≠ (Ledger.scratchFor p).parts) (s : Memory) :
    Spares key s (exec (l.save p : StateM Memory _) s).2 := by
  have drafts (room : s.kindAt (Ledger.scratchFor p).parts ≠ some .dir) :
      Spares key s (s.drafted l p) := by
    rw [drafted_eq]
    exact .addFile _ scratch fun _ => room
  rcases save_cases l p s with ⟨-, _, saved⟩ | ⟨room, -, _, saved⟩ | ⟨room, room', time, saved⟩
  · rw [saved]
    exact .refl key s
  · rw [saved]
    exact drafts room
  · rw [saved]
    have drafted : (s.drafted l p).kindAt (Ledger.scratchFor p).parts ≠ some .dir := by
      rw [scratch_of_drafted]
      nofun
    refine (drafts room).trans (.trans (.discard fun _ => drafted) ?_)
    refine .insertFile _ _ ledger fun _ => ?_
    rw [kindAt_discard, Kinds.without]
    split
    · simp
    · exact room'

theorem Named.save (h : s.Named) (l : Ledger) (p : Path) :
    (exec (l.save p : StateM Memory _) s).2.Named := by
  have drafts : (s.drafted l p).Named := by
    rw [drafted_eq]
    exact h.addFile _ _
  rcases save_cases l p s with ⟨-, _, saved⟩ | ⟨-, -, _, saved⟩ | ⟨-, -, time, saved⟩
  · rw [saved]
    exact h
  · rw [saved]
    exact drafts
  · rw [saved]
    exact (drafts.discard _).insertFile p _ time

variable [Tracker τ]

theorem Stepped.spares {σ : Stager τ} {w : Applied τ} {item : Candidate} {r : Applied τ × Memory}
    (h : Stepped σ w item s r) (other : key ≠ place item.output) : Spares key s r.2 := by
  cases h with
  | kept => exact .refl key s
  | opened => exact .openedFor key s _
  | written w' content more told free room =>
    exact .written content other room

theorem Stepped.named {σ : Stager τ} {w : Applied τ} {item : Candidate} {r : Applied τ × Memory}
    (h : Stepped σ w item s r) (named : s.Named) : r.2.Named := by
  cases h with
  | kept => exact named
  | opened => exact named.openedFor _
  | written w' content => exact (named.openedFor _).addFile _ content

theorem Named.deleteStep (h : s.Named) (w : Applied τ) (path : String) :
    (exec (deleteStep w path : StateM Memory _) s).2.Named := by
  rcases deleteStep_cases w path s with ⟨-, step⟩ | ⟨-, step⟩ | ⟨-, step⟩
  · rw [step]
    exact h
  · rw [step]
    exact h.discard _
  · rw [step]
    exact h

end

end Memory

/-! What an edit keeps -/

namespace Edit
open Memory

variable {s t : Memory}

/-- An edit spares what it does not touch. -/
theorem spares {e : Edit} {key : List Part} (out : ∀ p ∈ e.touched, ¬Encloses p.parts key)
    (s : Memory) : Spares key s (e.apply s) := by
  cases e with
  | addFile p content =>
    have out := out p List.mem_cons_self
    exact .addFile content (fun same => out (same ▸ .refl key)) fun encloses => absurd encloses out
  | addDir p => exact .ensureDir key s p
  | setModified p time =>
    exact .of_same (contentAt_setModified s p time) (kindAt_setModified s p time)
  | makeUnreadable p => exact .of_same (fun _ => rfl) rfl
  | removeFile p => exact spares_removeFile (out p List.mem_cons_self)
  | rename source target =>
    exact spares_rename (out source List.mem_cons_self)
      (out target (List.mem_cons_of_mem _ List.mem_cons_self))

theorem named (e : Edit) (h : s.Named) : (e.apply s).Named := by
  cases e with
  | addFile p content => exact h.addFile p content
  | addDir p => exact h.ensureDir p
  | setModified p time => exact h.setModified p time
  | makeUnreadable p => exact h
  | removeFile p =>
    change ((s.removeFile p).toOption.getD s).Named
    unfold Memory.removeFile
    split
    · exact h.discard p
    · exact h
    · exact h
  | rename source target => exact h.rename source target

theorem like {K : List Part → Prop} (e : Edit) (h : Like K s t) :
    Like K (e.apply s) (e.apply t) := by
  cases e with
  | addFile p content => exact h.addFile p content
  | addDir p => exact h.ensureDir p
  | setModified p time => exact h.setModified p time
  | makeUnreadable p => exact h.makeUnreadable p
  | removeFile p =>
    change Like K ((s.removeFile p).toOption.getD s) ((t.removeFile p).toOption.getD t)
    have outcome := h.removeFile p
    generalize s.removeFile p = a, t.removeFile p = b at outcome
    cases outcome with
    | error => exact h
    | ok after => exact after
  | rename source target => exact (h.rename source target).2

end Edit
end Staging
