import Staging.Proofs.Memory.Change
import Staging.Proofs.Memory.Discovery

/-!
The steps of a pass over a tree in memory: deleting one output, staging one item, and saving the
ledger, each with everything that it can do.
-/
namespace Staging

namespace Pass

/-- What becomes of the bytes of an item, unless its charset is unknown. -/
def result {τ : Type} (s : Stager τ) (item : Candidate) (bytes : Bytes) : Option Bytes :=
  if item.filtered then
    match Charset.ofName (s.charsetFor item.source) with
    | .error _ => none
    | .ok charset => some (filterBytes s item charset bytes)
  else some bytes

/-- The second half of staging an item, when its directory is there. -/
def fill {m : Type → Type} [Monad m] [FileSystem m] {τ : Type} (s : Stager τ) (item : Candidate) :
    ExceptT ItemError m Unit := do
  let output : Path := ⟨item.output⟩
  if item.filtered then
    match Charset.ofName (s.charsetFor item.source) with
    | .error name => throw (.unsupportedCharset name)
    | .ok charset =>
      let bytes ← calling (FileSystem.read item.source : m _)
      calling (FileSystem.write output (filterBytes s item charset bytes) : m _) (.writing output)
  else
    calling (FileSystem.copy item.source output : m _)

theorem stageItem_eq {m : Type → Type} [Monad m] [FileSystem m] {τ : Type} (s : Stager τ)
    (item : Candidate) : (stageItem s item : ExceptT ItemError m Unit) =
      match (⟨item.output⟩ : Path).parent with
      | some dir => calling (FileSystem.createDirs dir : m _) >>= fun _ => fill s item
      | none => fill s item := by
  rw [stageItem]
  unfold fill
  cases (⟨item.output⟩ : Path).parent <;> cases item.filtered <;>
    cases Charset.ofName (s.charsetFor item.source) <;> rfl

theorem exec_calling {m : Type → Type} {σ α : Type} [Monad m] [LawfulMonad m] [Stateful m σ]
    (call : m (Except FsError α)) (wrap : FsError → ItemError) (st : σ) :
    exec (calling call wrap).run st = ((exec call st).1.mapError wrap, (exec call st).2) :=
  exec_map _ call st

end Pass

namespace Memory
open Pass

variable {τ : Type}

/-- What there is to write for an item. -/
def payload (st : Memory) (s : Stager τ) (item : Candidate) : Option Bytes :=
  (st.read item.source).toOption.bind (result s item)

/-- With directories where the output of an item goes. -/
def openedFor (st : Memory) (output : Path) : Memory :=
  match output.parent with
  | some dir => st.ensureDir dir
  | none => st

/-- The output's directory is taken by a file. -/
def Blocked (st : Memory) (output : Path) : Prop :=
  ∃ dir, output.parent = some dir ∧ st.kindAt dir.parts = some .file

/-- With directories where an output goes. -/
def Kinds.openedFor (k : Kinds) (output : Path) : Kinds :=
  match output.parent with
  | some dir => k.opened dir.parts
  | none => k

theorem Kinds.openedFor_of_none {k : Kinds} {output : Path} (h : output.parent = none) :
    k.openedFor output = k := by
  rw [openedFor, h]

theorem Kinds.openedFor_of_some {k : Kinds} {output dir : Path} (h : output.parent = some dir) :
    k.openedFor output = k.opened dir.parts := by
  rw [openedFor, h]

theorem Kinds.openedFor_cases {k : Kinds} (output : Path) (key : List Part) :
    k.openedFor output key = k key ∨
      (Above key output.parts ∧ k.openedFor output key = some .dir) := by
  cases up : output.parent with
  | none => exact .inl (congrFun (openedFor_of_none up) key)
  | some dir =>
    rw [openedFor_of_some up]
    exact (opened_cases dir.parts key).imp id fun h => ⟨above_of_parent up h.1, h.2⟩

section
variable {k : Kinds} {key output : List Part}

theorem Kinds.opened_eq_file_iff (dir : List Part) :
    k.opened dir key = some .file ↔ k key = some .file := by
  constructor
  · intro file
    rcases opened_cases (k := k) dir key with same | made
    · exact same ▸ file
    · rw [made.2] at file
      cases file
  · exact opened_of_kind

theorem Kinds.openedAbove_eq_file_iff :
    k.openedAbove output key = some .file ↔ k key = some .file := by
  cases up : above output with
  | none => rw [openedAbove_of_none up]
  | some dir =>
    rw [openedAbove_of_some up]
    exact opened_eq_file_iff dir

theorem Kinds.openedFor_eq_file_iff (output : Path) :
    k.openedFor output key = some .file ↔ k key = some .file := by
  cases up : output.parent with
  | none => rw [openedFor_of_none up]
  | some dir =>
    rw [openedFor_of_some up]
    exact opened_eq_file_iff dir.parts

theorem Kinds.withFile_eq_file_iff :
    (k.withFile output).openedAbove output key = some .file ↔
      k key = some .file ∨ key = output := by
  rw [openedAbove_eq_file_iff, withFile]
  by_cases same : key = output <;> simp [same]

theorem Kinds.without_eq_file_iff :
    k.without output key = some .file ↔ k key = some .file ∧ key ≠ output := by
  rw [without]
  by_cases same : key = output <;> simp [same]

end

section
variable (st : Memory)

@[simp] theorem kindAt_openedFor (output : Path) :
    (st.openedFor output).kindAt = Kinds.openedFor st.kindAt output := by
  rw [openedFor, Kinds.openedFor]
  split
  · exact kindAt_ensureDir st _
  · rfl

theorem kindAt_openedFor_self (output : Path) :
    (st.openedFor output).kindAt output.parts = st.kindAt output.parts := by
  rw [kindAt_openedFor]
  rcases Kinds.openedFor_cases (k := st.kindAt) output output.parts with same | ⟨above, -⟩
  · exact same
  · exact absurd rfl above.1

theorem at?_openedFor {output : Path} {key : List Part} (outside : ¬Encloses key output.parts) :
    (st.openedFor output).at? key = st.at? key := by
  rw [openedFor]
  split
  · rename_i dir up
    exact at?_ensureDir st fun mem => outside (above_of_parent up mem).2
  · rfl

theorem toOption_read (p : Path) :
    (st.read p).toOption =
      if st.unreadable.contains p.parts then none else st.contentAt p.parts := by
  rw [read]
  split
  · rfl
  · rw [contentAt, entry?_eq]
    generalize st.at? p.parts = entry
    rcases entry with _ | _ | _ <;> rfl

/-- What there is to write does not depend on the ledger. -/
theorem payload_withLedger (st : Memory) (s : Stager τ) (ledger : Ledger) (item : Candidate) :
    st.payload { s with ledger } item = st.payload s item := by
  have same : result { s with ledger } item = result s item := by
    funext bytes
    simp only [result, filterBytes]
  rw [payload, payload, same]

theorem payload_of_error {p : Candidate} {e : FsError} (h : st.read p.source = .error e)
    (s : Stager τ) : st.payload s p = none := by
  rw [payload, h]
  rfl

theorem payload_of_ok {p : Candidate} {bytes : Bytes} (h : st.read p.source = .ok bytes)
    (s : Stager τ) : st.payload s p = result s p bytes := by
  rw [payload, h]
  rfl

theorem payload_congr {st st' : Memory} (unreadable : st.unreadable = st'.unreadable)
    {item : Candidate} (content : st.contentAt item.source.parts = st'.contentAt item.source.parts)
    (s : Stager τ) : st.payload s item = st'.payload s item := by
  rw [payload, payload, toOption_read, toOption_read, unreadable, content]

@[simp] theorem contentAt_openedFor (output : Path) (key : List Part) :
    (st.openedFor output).contentAt key = st.contentAt key := by
  rw [openedFor]
  split
  · exact contentAt_ensureDir st _ key
  · rfl

@[simp] theorem unreadable_openedFor (output : Path) :
    (st.openedFor output).unreadable = st.unreadable := by
  rw [openedFor]
  split
  · exact unreadable_ensureDir st _
  · rfl

theorem payload_openedFor (output : Path) (s : Stager τ) (item : Candidate) :
    (st.openedFor output).payload s item = st.payload s item :=
  payload_congr (unreadable_openedFor st output) (contentAt_openedFor st output _) s

end

/-! Deleting -/

section
variable [Tracker τ]

/-- Deleting finds nothing, takes a file away, or reports a directory. -/
theorem deleteStep_cases (w : Applied τ) (path : String) (st : Memory) :
    let target : Path := ⟨path⟩
    let forgot : Applied τ := { w with tracker := Tracker.forget w.tracker path }
    (st.kindAt target.parts = none ∧
      exec (deleteStep w path : StateM Memory _) st = (forgot, st)) ∨
    (st.kindAt target.parts = some .file ∧
      exec (deleteStep w path : StateM Memory _) st =
        ({ forgot with deleted := w.deleted ++ [path] }, st.discard target)) ∨
    (st.kindAt target.parts = some .dir ∧
      exec (deleteStep w path : StateM Memory _) st =
        ({ forgot with messages := w.messages ++ [undeleted target (.isDirectory target)] }, st)) := by
  intro target forgot
  have present : exec (FileSystem.isPresent target : StateM Memory _) st =
      ((st.kindAt target.parts).isSome, st) := by
    rw [← isPresent_eq]
    rfl
  have removed : exec (FileSystem.removeFile target : StateM Memory _) st =
      change (·.removeFile target) st := rfl
  rw [deleteStep, exec_bind, present]
  simp only
  rw [change, removeFile, entry?_eq] at removed
  rw [kindAt]
  generalize st.at? target.parts = entry at removed
  rcases entry with _ | ⟨content, time⟩ | children
  · left
    exact ⟨rfl, rfl⟩
  · right
    left
    refine ⟨rfl, ?_⟩
    simp only [Option.map_some, Option.isSome_some, if_true]
    rw [exec_bind, removed]
    rfl
  · right
    right
    refine ⟨rfl, ?_⟩
    simp only [Option.map_some, Option.isSome_some, if_true]
    rw [exec_bind, removed]
    rfl

end

/-! Staging -/

theorem exec_createDirs (st : Memory) (dir : Path) :
    (st.kindAt dir.parts = some .file ∧
      exec (FileSystem.createDirs dir : StateM Memory _) st = (.error (.notDirectory dir), st)) ∨
    (st.kindAt dir.parts ≠ some .file ∧
      exec (FileSystem.createDirs dir : StateM Memory _) st = (.ok (), st.ensureDir dir)) := by
  have made : exec (FileSystem.createDirs dir : StateM Memory _) st =
      change (·.createDirs dir) st := rfl
  rw [change, createDirs] at made
  by_cases file : st.isFile dir = true
  · rw [if_pos file] at made
    exact .inl ⟨(isFile_iff st dir).mp file, made⟩
  · rw [if_neg file] at made
    exact .inr ⟨mt (isFile_iff st dir).mpr file, made⟩

/-- Writing fails only at a directory. -/
theorem exec_write (st : Memory) (p : Path) (content : Bytes) :
    (st.kindAt p.parts = some .dir ∧
      exec (FileSystem.write p content : StateM Memory _) st = (.error (.isDirectory p), st)) ∨
    (st.kindAt p.parts ≠ some .dir ∧
      exec (FileSystem.write p content : StateM Memory _) st = (.ok (), st.addFile p content)) := by
  have written : exec (FileSystem.write p content : StateM Memory _) st =
      change (·.write p content) st := rfl
  rw [change, write] at written
  by_cases dir : st.isDir p = true
  · rw [if_pos dir] at written
    exact .inl ⟨(isDir_iff st p).mp dir, written⟩
  · rw [if_neg dir] at written
    exact .inr ⟨mt (isDir_iff st p).mpr dir, written⟩

theorem exec_copy (st : Memory) (source target : Path) :
    exec (FileSystem.copy source target : StateM Memory _) st =
      match st.read source with
      | .error e => (.error e, st)
      | .ok content => exec (FileSystem.write target content : StateM Memory _) st := by
  change change (·.copy source target) st = _
  rw [change, copy]
  cases st.read source with
  | error e => rfl
  | ok content => rfl

/-- What filling an output can come to. -/
inductive Filled (s : Stager τ) (item : Candidate) (st : Memory) :
    Except ItemError Unit × Memory → Prop
  | failed (e : ItemError) :
      st.payload s item = none ∨ st.kindAt (Path.parts ⟨item.output⟩) = some .dir →
      Filled s item st (.error e, st)
  | written (content : Bytes) : st.kindAt (Path.parts ⟨item.output⟩) ≠ some .dir →
      st.payload s item = some content →
      Filled s item st (.ok (), st.addFile ⟨item.output⟩ content)

theorem filled_of_write {s : Stager τ} {item : Candidate} {st : Memory} {content : Bytes}
    (wrap : FsError → ItemError) (found : st.payload s item = some content) :
    Filled s item st
      (exec (calling (FileSystem.write ⟨item.output⟩ content : StateM Memory _) wrap).run st) := by
  rw [exec_calling]
  rcases exec_write st ⟨item.output⟩ content with ⟨dir, written⟩ | ⟨free, written⟩
  · rw [written]
    exact .failed _ (.inr dir)
  · rw [written]
    exact .written content free found

theorem filled_filtered (s : Stager τ) {item : Candidate} (st : Memory)
    (filtered : item.filtered = true) :
    Filled s item st (exec (fill (m := StateM Memory) s item).run st) := by
  rw [fill]
  simp only [filtered, if_true]
  cases named : Charset.ofName (s.charsetFor item.source) with
  | error name =>
    refine .failed _ (.inl ?_)
    cases read : st.read item.source with
    | error e => exact payload_of_error st read s
    | ok bytes => rw [payload_of_ok st read, result, if_pos filtered, named]
  | ok charset =>
    have looks : exec (FileSystem.read item.source : StateM Memory _) st =
      (st.read item.source, st) := rfl
    simp only
    rw [exec_run_bind, exec_calling, looks]
    cases read : st.read item.source with
    | error e => exact .failed _ (.inl (payload_of_error st read s))
    | ok bytes =>
      refine filled_of_write (.writing ⟨item.output⟩) ?_
      rw [payload_of_ok st read, result, if_pos filtered, named]

theorem filled_copied (s : Stager τ) {item : Candidate} (st : Memory)
    (copied : ¬item.filtered = true) :
    Filled s item st (exec (fill (m := StateM Memory) s item).run st) := by
  have copies : exec (fill (m := StateM Memory) s item).run st =
      exec (calling (FileSystem.copy item.source ⟨item.output⟩ : StateM Memory _)).run st := by
    rw [fill]
    simp only [copied, Bool.false_eq_true, if_false]
  rw [copies, exec_calling, exec_copy]
  cases read : st.read item.source with
  | error e => exact .failed _ (.inl (payload_of_error st read s))
  | ok bytes =>
    have found : st.payload s item = some bytes := by
      rw [payload_of_ok st read, result, if_neg copied]
    have filled := filled_of_write .call found
    rwa [exec_calling] at filled

theorem filled (s : Stager τ) (item : Candidate) (st : Memory) :
    Filled s item st (exec (fill (m := StateM Memory) s item).run st) := by
  by_cases filtered : item.filtered = true
  · exact filled_filtered s st filtered
  · exact filled_copied s st filtered

theorem exec_stageItem (s : Stager τ) (item : Candidate) (st : Memory) :
    let output : Path := ⟨item.output⟩
    (st.Blocked output ∧ ∃ e, exec (stageItem s item : ExceptT ItemError (StateM Memory) Unit).run
      st = (.error e, st)) ∨
    (¬st.Blocked output ∧
      exec (stageItem s item : ExceptT ItemError (StateM Memory) Unit).run st =
        exec (fill (m := StateM Memory) s item).run (st.openedFor output)) := by
  intro output
  have unfolded := stageItem_eq (m := StateM Memory) s item
  rw [openedFor]
  cases up : output.parent with
  | none =>
    right
    rw [up] at unfolded
    refine ⟨?_, by rw [unfolded]⟩
    rintro ⟨dir, found, -⟩
    rw [up] at found
    cases found
  | some dir =>
    rw [up] at unfolded
    simp only at unfolded ⊢
    rw [unfolded, exec_run_bind, exec_calling]
    rcases exec_createDirs st dir with ⟨file, made⟩ | ⟨free, made⟩
    · left
      rw [made]
      exact ⟨⟨dir, up, file⟩, _, rfl⟩
    · right
      rw [made]
      refine ⟨?_, rfl⟩
      rintro ⟨dir', found, file⟩
      rw [up, Option.some.injEq] at found
      subst found
      exact free file

/-- Everything that staging an item can do: nothing at all if its directory is blocked, make that
directory and fail, or make it and write the output. -/
theorem stageItem_cases (s : Stager τ) (item : Candidate) (st : Memory) :
    let output : Path := ⟨item.output⟩
    let run := exec (stageItem s item : ExceptT ItemError (StateM Memory) Unit).run st
    (st.Blocked output ∧ ∃ e, run = (.error e, st)) ∨
    (¬st.Blocked output ∧
      (st.payload s item = none ∨ (st.openedFor output).kindAt output.parts = some .dir) ∧
      ∃ e, run = (.error e, st.openedFor output)) ∨
    (¬st.Blocked output ∧ (st.openedFor output).kindAt output.parts ≠ some .dir ∧
      ∃ content, st.payload s item = some content ∧
        run = (.ok (), (st.openedFor output).addFile output content)) := by
  intro output run
  rcases exec_stageItem s item st with ⟨blocked, failed⟩ | ⟨free, same⟩
  · exact .inl ⟨blocked, failed⟩
  · right
    have filled := filled s item (st.openedFor output)
    rw [← same] at filled
    change Filled s item (st.openedFor output) run at filled
    generalize run = r at filled
    cases filled with
    | failed e why =>
      rw [payload_openedFor] at why
      exact .inl ⟨free, why, e, rfl⟩
    | written content room found =>
      rw [payload_openedFor] at found
      exact .inr ⟨free, room, content, found, rfl⟩

section
variable [Tracker τ]

/-- An item that is current and there is left alone; any other is staged, and either done or
reported. -/
theorem stageStep_cases (s : Stager τ) (w : Applied τ) (item : Candidate) (st : Memory) :
    let run := exec (stageItem s item : ExceptT ItemError (StateM Memory) Unit).run st
    let step := exec (stageStep s w item : StateM Memory _) st
    (Tracker.isCurrent w.tracker item = true ∧ st.isPresent ⟨item.output⟩ = true ∧
      step = ({ w with skipped := w.skipped ++ [item.output] }, st)) ∨
    (run.1 = .ok () ∧ step = ({ w with
      tracker := Tracker.record w.tracker item
      processed := w.processed ++ [item] }, run.2)) ∨
    ∃ e, run.1 = .error e ∧
      step = ({ w with messages := w.messages ++ [unprocessed item e] }, run.2) := by
  intro run step
  have unfolded : step = exec (stageStep s w item : StateM Memory _) st := rfl
  have known : exec (isCurrent w item : StateM Memory _) st =
      (Tracker.isCurrent w.tracker item && st.isPresent ⟨item.output⟩, st) := by
    rw [isCurrent]
    cases Tracker.isCurrent w.tracker item <;> rfl
  rw [stageStep, exec_bind, known] at unfolded
  simp only at unfolded
  split at unfolded
  · rename_i current
    obtain ⟨known, there⟩ := Bool.and_eq_true_iff.mp current
    exact .inl ⟨known, there, unfolded⟩
  · right
    rw [exec_bind] at unfolded
    rcases outcome : exec (stageItem s item : ExceptT ItemError (StateM Memory) Unit).run st with
      ⟨e | _, after⟩
    · rw [outcome] at unfolded
      exact .inr ⟨e, congrArg Prod.fst outcome, unfolded.trans (by rw [show run = _ from outcome]; rfl)⟩
    · rw [outcome] at unfolded
      exact .inl ⟨congrArg Prod.fst outcome, unfolded.trans (by rw [show run = _ from outcome]; rfl)⟩

/-- Everything that one step of staging can do. -/
inductive Stepped (s : Stager τ) (w : Applied τ) (item : Candidate) (st : Memory) :
    Applied τ × Memory → Prop
  | kept (w' : Applied τ) : w'.processed = w.processed →
      (∀ message ∈ w.messages, message ∈ w'.messages) →
      Tracker.isCurrent w.tracker item = true ∨ st.Blocked ⟨item.output⟩ →
      Stepped s w item st (w', st)
  | opened (w' : Applied τ) : w'.processed = w.processed →
      (∀ message ∈ w.messages, message ∈ w'.messages) → ¬st.Blocked ⟨item.output⟩ →
      st.payload s item = none ∨
        (st.openedFor ⟨item.output⟩).kindAt (Path.parts ⟨item.output⟩) = some .dir →
      Stepped s w item st (w', st.openedFor ⟨item.output⟩)
  | written (w' : Applied τ) (content : Bytes) : w'.processed = w.processed ++ [item] →
      (∀ message ∈ w.messages, message ∈ w'.messages) → ¬st.Blocked ⟨item.output⟩ →
      (st.openedFor ⟨item.output⟩).kindAt (Path.parts ⟨item.output⟩) ≠ some .dir →
      st.payload s item = some content →
      Stepped s w item st (w', (st.openedFor ⟨item.output⟩).addFile ⟨item.output⟩ content)

theorem stepped (s : Stager τ) (w : Applied τ) (item : Candidate) (st : Memory) :
    Stepped s w item st (exec (stageStep s w item : StateM Memory _) st) := by
  rcases stageStep_cases s w item st with ⟨current, -, step⟩ | ⟨done, step⟩ | ⟨e, failed, step⟩
  · rw [step]
    exact .kept _ rfl (fun _ mem => mem) (.inl current)
  · rw [step]
    rcases stageItem_cases s item st with
      ⟨-, _, run⟩ | ⟨-, -, _, run⟩ | ⟨free, room, content, found, run⟩
    · rw [run] at done
      cases done
    · rw [run] at done
      cases done
    · rw [run]
      exact .written _ content rfl (fun _ mem => mem) free room found
  · have told : ∀ message ∈ w.messages, message ∈ w.messages ++ [unprocessed item e] :=
      fun _ mem => List.mem_append_left _ mem
    rw [step]
    rcases stageItem_cases s item st with
      ⟨blocked, _, run⟩ | ⟨free, why, _, run⟩ | ⟨-, -, _, -, run⟩
    · rw [run]
      exact .kept _ rfl told (.inr blocked)
    · rw [run]
      exact .opened _ rfl told free why
    · rw [run] at failed
      cases failed

end

/-! Saving -/

/-- Moving a file fails only at a directory. -/
theorem exec_rename (st : Memory) (source target : Path) {content : Bytes}
    (found : st.contentAt source.parts = some content) :
    (st.kindAt target.parts = some .dir ∧
      exec (FileSystem.rename source target : StateM Memory _) st =
        (.error (.isDirectory target), st)) ∨
    (st.kindAt target.parts ≠ some .dir ∧ ∃ time,
      exec (FileSystem.rename source target : StateM Memory _) st =
        (.ok (), (st.discard source).insertFile target content time)) := by
  have moved : exec (FileSystem.rename source target : StateM Memory _) st =
      st.rename source target := rfl
  rw [rename] at moved
  by_cases dir : st.isDir target = true
  · rw [if_pos dir] at moved
    exact .inl ⟨(isDir_iff st target).mp dir, moved⟩
  · rw [if_neg dir, entry?_eq] at moved
    rw [contentAt] at found
    generalize st.at? source.parts = entry at found moved
    rcases entry with _ | ⟨bytes, time⟩ | children
    · cases found
    · cases found
      exact .inr ⟨mt (isDir_iff st target).mpr dir, time, moved⟩
    · cases found

/-- The tree with the scratch file of a ledger written. -/
def drafted (st : Memory) (l : Ledger) (p : Path) : Memory :=
  st.addFile (Ledger.scratchFor p) (Ledger.encode l.units)

theorem drafted_eq (st : Memory) (l : Ledger) (p : Path) :
    st.drafted l p = st.addFile (Ledger.scratchFor p) (Ledger.encode l.units) := rfl

attribute [irreducible] drafted

/-- Saving fails at a directory, or moves the scratch file to its place. -/
theorem save_cases (l : Ledger) (p : Path) (st : Memory) :
    let saved := exec (l.save p : StateM Memory _) st
    (st.kindAt (Ledger.scratchFor p).parts = some .dir ∧ ∃ e, saved = (.error e, st)) ∨
    (st.kindAt (Ledger.scratchFor p).parts ≠ some .dir ∧
      (st.drafted l p).kindAt p.parts = some .dir ∧ ∃ e, saved = (.error e, st.drafted l p)) ∨
    (st.kindAt (Ledger.scratchFor p).parts ≠ some .dir ∧
      (st.drafted l p).kindAt p.parts ≠ some .dir ∧
      ∃ time, saved = (.ok (), ((st.drafted l p).discard (Ledger.scratchFor p)).insertFile p
        (Ledger.encode l.units) time)) := by
  intro saved
  have unfolded : saved = exec (l.save p : StateM Memory _) st := rfl
  clear_value saved
  rw [Ledger.save, exec_bind] at unfolded
  rw [drafted_eq]
  -- The scratch path is a long computation that nothing below looks into.
  generalize Ledger.scratchFor p = scratch, Ledger.encode l.units = bytes at unfolded ⊢
  rcases exec_write st scratch bytes with ⟨dir, written⟩ | ⟨free, written⟩
  · left
    rw [written] at unfolded
    exact ⟨dir, _, unfolded⟩
  · right
    rw [written] at unfolded
    simp only at unfolded
    rw [exec_bind] at unfolded
    have content : (st.addFile scratch bytes).contentAt scratch.parts = some bytes := by
      rw [contentAt_addFile, if_pos rfl]
    rcases exec_rename _ _ p content with ⟨dir, moved⟩ | ⟨room, time, moved⟩
    · left
      rw [moved] at unfolded
      exact ⟨free, dir, _, unfolded⟩
    · right
      rw [moved] at unfolded
      exact ⟨free, room, time, unfolded⟩

end Memory
end Staging
