import Staging.Proofs.Pass.Session

/-!
Skipping what is current. A stager that keeps stamps leaves an item alone if its output was last
staged with the same stamp. Over one session it leaves the same contents as a stager that stages
every item each time, provided that an output and a stamp tell what was staged. They do not tell it
by themselves: two sources that compete for an output can have one stamp.
-/
namespace Staging

/-! A session over the small project, whose file is edited once; and a project with two sources for
one output, which have the same time. -/

namespace Sample

def session : List Round :=
  [⟨[], .all⟩, ⟨[.addFile ⟨"res/a.txt"⟩ [120]], .all⟩, ⟨[], .all⟩]

def overlapping : Project :=
  ⟨[{ name := "app", output := some ⟨"out"⟩,
      resources := [{ directory := ⟨"first"⟩ }, { directory := ⟨"second"⟩ }] }]⟩

def competing : Memory :=
  ((Memory.empty.addFile ⟨"first/f.txt"⟩ [49]).addFile ⟨"second/f.txt"⟩ [50]).setModified
    ⟨"first/f.txt"⟩ 2

end Sample

namespace Memory
open Pass

/-! Where a file goes that is written once more -/

/-- The directories for an output are there. -/
structure Housed (k : Kinds) (output : Path) : Prop where
  parent : ∀ dir, output.parent = some dir → k dir.parts = some .dir
  above : ∀ dir, above output.parts = some dir → k dir = some .dir

section
variable {K : List Part → Prop} {s t : Memory} {output : Path}

theorem Housed.spared (h : Housed s.kindAt output) (spares : Spares output.parts s t) :
    Housed t.kindAt output where
  parent dir up :=
    spares.dirs _ (above_of_parent up (self_mem_ascent dir.parts)).2 (h.parent dir up)
  above dir up := spares.dirs _ (encloses_above up) (h.above dir up)

theorem openedFor_of_housed (h : Housed s.kindAt output) : s.openedFor output = s := by
  unfold openedFor
  split
  · rename_i dir up
    have taken : s.isPresent dir = true := by
      rw [isPresent_eq, h.parent dir up]
      rfl
    rw [ensureDir, ensureDirUpTo, if_pos taken]
  · rfl

/-- Once an output is written its directories are there. -/
theorem housed_addFile (content : Bytes) (free : ¬s.Blocked output)
    (room : (s.openedFor output).kindAt output.parts ≠ some .dir)
    (start : Encloses [.here] output.parts → s.kindAt [.here] = some .dir) :
    Housed ((s.openedFor output).addFile output content).kindAt output := by
  have parent : ∀ dir, output.parent = some dir →
      ((s.openedFor output).addFile output content).kindAt dir.parts = some .dir := by
    intro dir up
    apply dir_addFile content room
    have taken : (s.openedFor output).kindAt dir.parts ≠ none := by
      rw [kindAt_openedFor, Kinds.openedFor_of_some up]
      exact Kinds.opened_self _ _
    have other : (s.openedFor output).kindAt dir.parts ≠ some .file := by
      rw [kindAt_openedFor, ne_eq, Kinds.openedFor_eq_file_iff]
      exact fun file => free ⟨dir, up, file⟩
    obtain ⟨kind, found⟩ := Option.ne_none_iff_exists'.mp taken
    cases kind with
    | dir => exact found
    | file => exact absurd found other
  refine ⟨parent, fun dir up => ?_⟩
  have encloses := encloses_above up
  have dropped := Path.parts_parent output
  rw [Memory.above] at up
  split at up
  · cases up
  · rename_i some
    rw [if_neg some] at dropped
    obtain ⟨q, found, parts⟩ := Option.map_eq_some_iff.mp dropped
    rw [Option.some.injEq] at up
    split at up
    · subst up
      exact dir_addFile content room (dir_openedFor output (start encloses))
    · rw [← up, ← parts]
      exact parent q found

variable {τ : Type} {σ : Stager τ} {item : Candidate}

theorem bytes_of_payload {content : Bytes} (found : s.payload σ item = some content) :
    ∃ bytes, s.contentAt item.source.parts = some bytes ∧ result σ item bytes = some content := by
  rw [payload, Option.bind_eq_some_iff] at found
  obtain ⟨bytes, read, made⟩ := found
  rw [toOption_read] at read
  split at read
  · cases read
  · exact ⟨bytes, read, made⟩

/-- Staging once more what is there already changes nothing that counts. -/
theorem like_stageItem (housed : Housed s.kindAt ⟨item.output⟩)
    (there : s.kindAt (place item.output) ≠ none)
    (same : ∀ content, s.payload σ item = some content →
      s.contentAt (place item.output) = some content ∨ s.contentAt (place item.output) = none)
    (out : ∀ key, K key → key ∈ ascent (place item.output) → key = place item.output) :
    Like K (exec (stageItem σ item : ExceptT ItemError (StateM Memory) Unit).run s).2 s := by
  have opened := openedFor_of_housed housed
  rcases stageItem_cases σ item s with
    ⟨-, _, ran⟩ | ⟨-, -, _, ran⟩ | ⟨-, room, content, found, ran⟩
  · rw [ran]
    exact .refl K s
  · rw [ran, opened]
    exact .refl K s
  · rw [opened] at room ran
    rw [ran]
    have file : s.kindAt (place item.output) = some .file := by
      obtain ⟨kind, taken⟩ := Option.ne_none_iff_exists'.mp there
      cases kind with
      | dir => exact absurd taken room
      | file => exact taken
    rw [kindAt_eq_file_iff, Option.isSome_iff_ne_none] at file
    refine Like.rewritten ((same content found).resolve_right file) (fun dir up => ?_) out
    rw [housed.above dir up]
    nofun

end
end Memory

namespace Pass
open Memory

/-! What a session is to be like -/

section
variable {τ : Type}

/-- Two candidates that are staged to the same content from the same bytes of one source. -/
structure Interchangeable (s : Stager τ) (c c' : Candidate) : Prop where
  source : c.source.same c'.source = true
  result : ∀ bytes, result s c bytes = result s c' bytes

/-- Sources change only together with their times, no output lies below a resource root, and only
the passes touch outputs. -/
@[mk_iff]
structure Orderly (project : Project) (rounds : List Round) (all : List Sighting) : Prop where
  dated : ∀ x ∈ all, ∀ y ∈ all, x.item.source.same y.item.source = true →
    x.tree.modified x.item.source = y.tree.modified y.item.source →
    x.tree.content? x.item.source = y.tree.content? y.item.source
  apart : ∀ x ∈ all, ∀ u ∈ project.units, ∀ pair ∈ Discovery.treesOf u,
    ¬Above pair.2.directory.parts (place x.item.output)
  untouched : ∀ r ∈ rounds, ∀ e ∈ r.edits, ∀ p ∈ e.touched, ∀ x ∈ all,
    ¬Encloses p.parts (place x.item.output)

instance (project : Project) (rounds : List Round) (all : List Sighting) :
    Decidable (Orderly project rounds all) :=
  decidable_of_iff _ (orderly_iff project rounds all).symm

/-- No output is spelled in two ways, or is where the ledger goes. -/
@[mk_iff]
structure Placed (s : Stager τ) (all : List Sighting) : Prop where
  spelled : ∀ x ∈ all, ∀ y ∈ all, place x.item.output = place y.item.output →
    x.item.output = y.item.output
  ledger : ∀ x ∈ all, place x.item.output ≠ s.ledgerPath.parts
  scratch : ∀ x ∈ all, place x.item.output ≠ (Ledger.scratchFor s.ledgerPath).parts

instance (s : Stager τ) (all : List Sighting) : Decidable (Placed s all) :=
  decidable_of_iff _ (placed_iff s all).symm

/-- An output and a stamp tell what is staged. -/
def Telling (s : Stager τ) (all : List Sighting) : Prop :=
  ∀ x ∈ all, ∀ y ∈ all, x.item.output = y.item.output → x.item.stamp = y.item.stamp →
    Interchangeable s x.item y.item

/-- They do if they tell the unit and the source and if fingerprints tell properties. -/
theorem telling_of_sources {s : Stager τ} {all : List Sighting} (stamped : ∀ x ∈ all, x.Stamped)
    (sources : ∀ x ∈ all, ∀ y ∈ all, x.item.output = y.item.output →
      x.item.stamp = y.item.stamp → x.item.unit = y.item.unit ∧ x.item.source = y.item.source)
    (properties : ∀ x ∈ all, ∀ y ∈ all, x.item.stamp.properties = y.item.stamp.properties →
      x.item.properties = y.item.properties) : Telling s all := by
  intro x mem y mem' output stamp
  obtain ⟨unit, source⟩ := sources x mem y mem' output stamp
  have values := properties x mem y mem' (congrArg Stamp.properties stamp)
  have flag : x.item.filtered = y.item.filtered := by
    rw [← (stamped x mem).flag, ← (stamped y mem').flag, stamp]
  constructor
  · rw [source]
    exact same_iff.mpr rfl
  · intro bytes
    simp only [result, filterBytes, unit, source, values, flag]

/-- Everything that skipping relies on. -/
structure Reliable (project : Project) (rounds : List Round) (s : Stager τ) (all : List Sighting) :
    Prop where
  orderly : Orderly project rounds all
  placed : Placed s all
  telling : Telling s all
  stamped : ∀ x ∈ all, x.Stamped

/-- A candidate whose output, if it is still there, has what staging the candidate gave. -/
structure Holds (s : Stager τ) (x : Sighting) (st : Memory) : Prop where
  housed : Housed st.kindAt ⟨x.item.output⟩
  content : ∃ bytes content, x.tree.contentAt x.item.source.parts = some bytes ∧
    result s x.item bytes = some content ∧
    (st.contentAt (place x.item.output) = some content ∨ st.contentAt (place x.item.output) = none)

theorem Holds.spared {s : Stager τ} {x : Sighting} {st st' : Memory} (h : Holds s x st)
    (spares : Spares (place x.item.output) st st') : Holds s x st' := by
  refine ⟨h.housed.spared spares, ?_⟩
  obtain ⟨bytes, content, found, made, lies⟩ := h.content
  refine ⟨bytes, content, found, made, ?_⟩
  rcases spares.content with same | gone
  · rw [same]
    exact lies
  · exact .inr gone

/-- A source that can still be read has the content with which it was discovered. -/
def Unchanged (st : Memory) (x : Sighting) : Prop :=
  st.contentAt x.item.source.parts = x.tree.contentAt x.item.source.parts ∨
    st.contentAt x.item.source.parts = none

theorem Unchanged.spared {x : Sighting} {st st' : Memory} (h : Unchanged st x)
    (spares : Spares x.item.source.parts st st') : Unchanged st' x := by
  rcases spares.content with same | gone
  · rw [Unchanged, same]
    exact h
  · exact .inr gone

theorem Unchanged.eq_of_read {x : Sighting} {st : Memory} {bytes : Bytes} (h : Unchanged st x)
    (read : st.contentAt x.item.source.parts = some bytes) :
    x.tree.contentAt x.item.source.parts = some bytes := by
  rcases h with same | gone
  · rw [← same, read]
  · rw [gone] at read
    cases read

theorem holds_of_written {s : Stager τ} {y : Sighting} {st : Memory} {content : Bytes}
    (still : Unchanged st y) (free : ¬st.Blocked ⟨y.item.output⟩)
    (room : (st.openedFor ⟨y.item.output⟩).kindAt (place y.item.output) ≠ some .dir)
    (found : st.payload s y.item = some content)
    (start : Encloses [.here] (place y.item.output) → st.kindAt [.here] = some .dir) :
    Holds s y ((st.openedFor ⟨y.item.output⟩).addFile ⟨y.item.output⟩ content) := by
  obtain ⟨bytes, read, made⟩ := bytes_of_payload found
  refine ⟨housed_addFile content free room start, bytes, content, still.eq_of_read read, made, ?_⟩
  left
  exact (contentAt_addFile _ _ content _).trans (if_pos rfl)

/-- The tree of the session that stages everything beside that of the session that keeps stamps.
Every stamp comes from a candidate whose output holds it. -/
structure Agree (project : Project) (s : Stager τ) (all : List Sighting) (stamps : Stamps)
    (st st' : Memory) : Prop where
  like : Like (Rooted project) st st'
  named : st.Named
  start : ∀ x ∈ all, Encloses [.here] (place x.item.output) → st.kindAt [.here] = some .dir
  stamped : ∀ output stamp, stamps.byOutput.get? output = some stamp →
    ∃ x ∈ all, x.item.output = output ∧ x.item.stamp = stamp ∧ Holds s x st

namespace Agree

variable {project : Project} {rounds : List Round} {s : Stager τ} {all : List Sighting}
variable {stamps stamps' : Stamps} {st st' t t' : Memory}

/-- A change on both sides that spares the outputs and adds no stamp. -/
theorem next (h : Agree project s all stamps st st') (like : Like (Rooted project) t t')
    (named : t.Named) (spares : ∀ x ∈ all, Spares (place x.item.output) st t)
    (less : ∀ output stamp, stamps'.byOutput.get? output = some stamp →
      stamps.byOutput.get? output = some stamp) : Agree project s all stamps' t t' where
  like := like
  named := named
  start x mem encloses := (spares x mem).dirs _ encloses (h.start x mem encloses)
  stamped output stamp found := by
    obtain ⟨x, mem, rfl, rfl, holds⟩ := h.stamped output stamp (less output stamp found)
    exact ⟨x, mem, rfl, rfl, holds.spared (spares x mem)⟩

theorem edits (h : Agree project s all stamps st st') {edits : List Edit}
    (untouched : ∀ e ∈ edits, ∀ p ∈ e.touched, ∀ x ∈ all, ¬Encloses p.parts (place x.item.output)) :
    Agree project s all stamps (Edit.applyAll edits st) (Edit.applyAll edits st') := by
  induction edits generalizing st st' with
  | nil => exact h
  | cons e edits ih =>
    have first := untouched e List.mem_cons_self
    apply ih
    · exact h.next (e.like h.like) (e.named h.named)
        (fun x mem => Edit.spares (fun p hp => first p hp x mem) st) fun _ _ found => found
    · exact fun e' mem => untouched e' (List.mem_cons_of_mem e mem)

theorem deleteStep {w' : Applied Stamps} (h : Agree project s all w'.tracker st st')
    (w : Applied NoTracking) (path : String) :
    Agree project s all (exec (deleteStep w' path : StateM Memory _) st').1.tracker
      (exec (deleteStep w path : StateM Memory _) st).2
      (exec (deleteStep w' path : StateM Memory _) st').2 := by
  obtain ⟨⟨-, forgot⟩, like⟩ := Lockstep.deleteStep w w' path st st' h.like
  apply h.next like (h.named.deleteStep w path)
  · exact fun x _ => (deleted_step path w st).spares _
  · intro output stamp found
    rw [forgot] at found
    change (w'.tracker.byOutput.erase path).get? output = some stamp at found
    rw [SortedMap.get?_erase] at found
    split at found
    · cases found
    · exact found

theorem deletions {w' : Applied Stamps} (h : Agree project s all w'.tracker st st')
    (w : Applied NoTracking) (paths : List String) :
    let step : Applied NoTracking → String → StateM Memory _ := Pass.deleteStep
    let step' : Applied Stamps → String → StateM Memory _ := Pass.deleteStep
    Agree project s all (sweepFrom step' paths w' st').1.tracker (sweepFrom step paths w st).2
      (sweepFrom step' paths w' st').2 := by
  intro step step'
  induction paths generalizing w w' st st' with
  | nil => exact h
  | cons path paths ih => exact ih (h.deleteStep w path) _

theorem save {l : Ledger} (h : Agree project s all stamps st st') (placed : Placed s all) :
    Agree project s all stamps (exec (l.save s.ledgerPath : StateM Memory _) st).2
      (exec (l.save s.ledgerPath : StateM Memory _) st').2 :=
  h.next (Lockstep.save l s.ledgerPath st st' h.like).2 (h.named.save l s.ledgerPath)
    (fun x mem => spares_save l (placed.ledger x mem) (placed.scratch x mem) st)
    fun _ _ found => found

/-- A current output holds what staging would give, as far as its source can still be read. -/
theorem holds_of_current (h : Agree project s all stamps st st')
    (reliable : Reliable project rounds s all) {y : Sighting} (mem : y ∈ all)
    (current : Tracker.isCurrent stamps y.item = true) (still : Unchanged st y) :
    Housed st.kindAt ⟨y.item.output⟩ ∧ ∀ content, st.payload s y.item = some content →
      st.contentAt (place y.item.output) = some content ∨
        st.contentAt (place y.item.output) = none := by
  obtain ⟨known, recorded⟩ := Bool.and_eq_true_iff.mp current
  obtain ⟨x, memx, output, stamp, holds⟩ := h.stamped _ _ (beq_iff_eq.mp recorded)
  have same := reliable.telling x memx y mem output stamp
  obtain ⟨bytes, content, found, made, lies⟩ := holds.content
  have told : x.tree.modified x.item.source = y.tree.modified y.item.source := by
    rw [(reliable.stamped x memx).modified_eq (stamp ▸ known),
      (reliable.stamped y mem).modified_eq known, stamp]
  have bytes_eq := reliable.orderly.dated x memx y mem same.source told
  rw [content?_eq, content?_eq, found] at bytes_eq
  rw [← output]
  refine ⟨holds.housed, fun content' paid => ?_⟩
  obtain ⟨bytes', found', made'⟩ := bytes_of_payload paid
  rw [still.eq_of_read found', Option.some.injEq] at bytes_eq
  subst bytes_eq
  rw [← same.result, made, Option.some.injEq] at made'
  subst made'
  exact lies

theorem like_of_current (h : Agree project s all stamps st st')
    (reliable : Reliable project rounds s all) {y : Sighting} (mem : y ∈ all)
    (current : Tracker.isCurrent stamps y.item = true)
    (there : st'.isPresent ⟨y.item.output⟩ = true) (still : Unchanged st y) :
    Like (Rooted project)
      (exec (stageItem s y.item : ExceptT ItemError (StateM Memory) Unit).run st).2 st := by
  obtain ⟨housed, same⟩ := h.holds_of_current reliable mem current still
  refine like_stageItem housed ?_ same fun key rooted above => ?_
  · rw [isPresent_eq, ← h.like.kindAt_eq, Option.isSome_iff_ne_none] at there
    exact there
  · exact rooted.eq_of_mem_ascent (reliable.orderly.apart y mem) above

/-- A change on both sides that puts at one output what its candidate is staged to. -/
theorem recorded (h : Agree project s all stamps st st') (like : Like (Rooted project) t t')
    (named : t.Named) (dirs : ∀ dir, st.kindAt dir = some .dir → t.kindAt dir = some .dir)
    (placed : Placed s all) {y : Sighting} (mem : y ∈ all) (holds : Holds s y t)
    (spares : ∀ key, key ≠ place y.item.output → Spares key st t) :
    Agree project s all (Tracker.record stamps y.item) t t' := by
  refine ⟨like, named, fun x memx encloses => dirs _ (h.start x memx encloses), ?_⟩
  intro output stamp found
  change (stamps.byOutput.insert y.item.output y.item.stamp).get? output = some stamp at found
  by_cases same : output = y.item.output
  · subst same
    rw [SortedMap.get?_insert_self, Option.some.injEq] at found
    exact ⟨y, mem, rfl, found, holds⟩
  · rw [SortedMap.get?_insert_of_ne _ _ same] at found
    obtain ⟨x, memx, rfl, rfl, kept⟩ := h.stamped output stamp found
    have other := fun here => same (placed.spelled x memx y mem here)
    exact ⟨x, memx, rfl, rfl, kept.spared (spares _ other)⟩

/-- A candidate that is staged on both sides leaves its stamp with what it put at its output. -/
theorem of_staged (h : Agree project s all stamps st st') (placed : Placed s all)
    {y : Sighting} (mem : y ∈ all) (still : Unchanged st y)
    (done : (exec (stageItem s y.item : ExceptT ItemError (StateM Memory) Unit).run st).1 =
      .ok ()) :
    Agree project s all (Tracker.record stamps y.item)
      (exec (stageItem s y.item : ExceptT ItemError (StateM Memory) Unit).run st).2
      (exec (stageItem s y.item : ExceptT ItemError (StateM Memory) Unit).run st').2 := by
  have like := (Lockstep.stageItem s y.item st st' h.like).2
  rcases stageItem_cases s y.item st with
    ⟨-, _, ran⟩ | ⟨-, -, _, ran⟩ | ⟨free, room, content, found, ran⟩
  · rw [ran] at done
    cases done
  · rw [ran] at done
    cases done
  · rw [ran] at like ⊢
    simp only at like ⊢
    apply h.recorded like
    · exact (h.named.openedFor _).addFile _ content
    · exact fun dir taken => dir_addFile content room (dir_openedFor _ taken)
    · exact placed
    · exact mem
    · exact holds_of_written still free room found (h.start y mem)
    · exact fun key other => .written content other room

/-- Staging that fails on both sides spares every place. -/
theorem of_failed (h : Agree project s all stamps st st') {item : Candidate} {e : ItemError}
    (failed : (exec (stageItem s item : ExceptT ItemError (StateM Memory) Unit).run st).1 =
      .error e) :
    Agree project s all stamps
      (exec (stageItem s item : ExceptT ItemError (StateM Memory) Unit).run st).2
      (exec (stageItem s item : ExceptT ItemError (StateM Memory) Unit).run st').2 := by
  have like := (Lockstep.stageItem s item st st' h.like).2
  rcases stageItem_cases s item st with ⟨-, _, ran⟩ | ⟨-, -, _, ran⟩ | ⟨-, -, _, -, ran⟩
  · rw [ran] at like ⊢
    exact h.next like h.named (fun _ _ => .refl _ _) fun _ _ found => found
  · rw [ran] at like ⊢
    simp only at like ⊢
    exact h.next like (h.named.openedFor _) (fun _ _ => .openedFor _ _ _) fun _ _ found => found
  · rw [ran] at failed
    cases failed

/-- Without tracking nothing is left alone. -/
theorem left_by_stageStep (s : Stager NoTracking) (w : Applied NoTracking) (c : Candidate)
    (st : Memory) : (exec (Pass.stageStep s w c : StateM Memory _) st).2 =
      (exec (stageItem s c : ExceptT ItemError (StateM Memory) Unit).run st).2 := by
  rcases stageStep_cases s w c st with ⟨current, -⟩ | ⟨-, step⟩ | ⟨_, -, step⟩
  · cases current
  · exact congrArg Prod.snd step
  · exact congrArg Prod.snd step

theorem stageItem_carry {τ' : Type} (l : Ledger) (t : τ') (item : Candidate) :
    (stageItem (s.carry l t) item : ExceptT ItemError (StateM Memory) Unit) = stageItem s item := by
  simp only [stageItem, filterBytes, Stager.filter_carry, Stager.charsetFor_carry]

theorem stageStep {w' : Applied Stamps} (h : Agree project s all w'.tracker st st')
    (reliable : Reliable project rounds s all) {T : Int64 → Int64 → Prop} {c : Candidate}
    {y : Sighting} (redated : Candidate.Redated T c y.item) (mem : y ∈ all) (still : Unchanged st y)
    (w : Applied NoTracking) (l : Ledger) (t : Stamps) :
    let step := exec (stageStep (s.carry l NoTracking.mk) w c : StateM Memory _) st
    let step' := exec (stageStep (s.carry l t) w' y.item : StateM Memory _) st'
    Agree project s all step'.1.tracker step.2 step'.2 := by
  intro step step'
  have named : step.2.Named := (stepped _ w c st).named h.named
  have always : step.2 =
      (exec (stageItem s y.item : ExceptT ItemError (StateM Memory) Unit).run st).2 := by
    rw [stageItem_redated redated, ← stageItem_carry l NoTracking.mk]
    exact left_by_stageStep _ w c st
  have results := (Lockstep.stageItem s y.item st st' h.like).1
  have cases := stageStep_cases (s.carry l t) w' y.item st'
  simp only [stageItem_carry] at cases
  rw [always] at named ⊢
  rcases cases with ⟨current, there, same⟩ | ⟨done, same⟩ | ⟨e, failed, same⟩
  · have like := h.like_of_current reliable mem current there still
    rw [show step' = _ from same]
    exact h.next (like.trans h.like) named (fun x _ => .of_same like.contentAt_eq like.kindAt_eq)
      fun _ _ found => found
  · rw [show step' = _ from same]
    exact h.of_staged reliable.placed mem still (results.trans done)
  · rw [show step' = _ from same]
    exact h.of_failed (results.trans failed)

/-- The candidates of one discovery. No output is the source of one of them. -/
theorem candidates {w' : Applied Stamps} (h : Agree project s all w'.tracker st st')
    (reliable : Reliable project rounds s all) {T : Int64 → Int64 → Prop}
    {items items' : List Candidate} {tree : Memory}
    (redated : List.Forall₂ (Candidate.Redated T) items items')
    (known : ∀ c ∈ items', ⟨tree, c⟩ ∈ all) (still : ∀ c ∈ items', Unchanged st ⟨tree, c⟩)
    (outside : ∀ c ∈ items', ∀ x ∈ all, c.source.parts ≠ place x.item.output)
    (w : Applied NoTracking) (l : Ledger) (t : Stamps) :
    let step : Applied NoTracking → Candidate → StateM Memory _ :=
      Pass.stageStep (s.carry l NoTracking.mk)
    let step' : Applied Stamps → Candidate → StateM Memory _ := Pass.stageStep (s.carry l t)
    Agree project s all (sweepFrom step' items' w' st').1.tracker (sweepFrom step items w st).2
      (sweepFrom step' items' w' st').2 := by
  intro step step'
  induction redated generalizing w w' st st' with
  | nil => exact h
  | @cons c c' items items' first _ ih =>
    rw [List.forall_mem_cons] at known still outside
    have next : Agree project s all (exec (step' w' c') st').1.tracker (exec (step w c) st).2
        (exec (step' w' c') st').2 :=
      h.stageStep (y := ⟨tree, c'⟩) reliable first known.1 still.1 w l t
    have unchanged : ∀ d ∈ items', Unchanged (exec (step w c) st).2 ⟨tree, d⟩ := by
      intro d mem
      have apart : d.source.parts ≠ place c'.output := outside.2 d mem ⟨tree, c'⟩ known.1
      rw [first.output] at apart
      exact (still.2 d mem).spared ((stepped _ w c st).spares apart)
    rw [sweepFrom_cons, sweepFrom_cons]
    exact ih next known.2 unchanged outside.2 _

/-- Plans that are the same but for times, applied to both trees. -/
theorem applied (h : Agree project s all stamps st st')
    (reliable : Reliable project rounds s all) {T : Int64 → Int64 → Prop} {l : Ledger}
    {plan plan' : Plan} (redated : Plan.Redated T l plan plan')
    (known : ∀ c ∈ plan'.candidates, ⟨st', c⟩ ∈ all)
    (outside : ∀ c ∈ plan'.candidates, ∀ x ∈ all, c.source.parts ≠ place x.item.output) :
    let done := applied (m := StateM Memory) (s.carry l NoTracking.mk) plan st
    let done' := applied (m := StateM Memory) (s.carry l stamps) plan' st'
    Agree project s all done'.1.tracker done.2 done'.2 := by
  let cleared : Applied NoTracking × Memory := sweepFrom
    (Pass.deleteStep : Applied NoTracking → String → StateM Memory _) plan'.deletions
    { tracker := NoTracking.mk } st
  have fresh : Agree project s all ({ tracker := stamps } : Applied Stamps).tracker st st' := h
  have start := fresh.deletions { tracker := NoTracking.mk } plan'.deletions
  have still : ∀ c ∈ plan'.candidates, Unchanged cleared.2 ⟨st', c⟩ := fun c _ =>
    Unchanged.spared (.inl (h.like.contentAt_eq _)) ((deleted_sweep plan'.deletions _ st).spares _)
  unfold Pass.applied
  rw [redated.deletions]
  exact start.candidates reliable redated.candidates known still outside
    cleared.1 l stamps

theorem run (h : Agree project s all stamps st st')
    (reliable : Reliable project rounds s all) (l : Ledger) (scope : Scope)
    (known : sightings project scope (s.carry l stamps) st' ⊆ all) :
    let ran := exec (run (s.carry l NoTracking.mk) project scope : StateM Memory _) st
    let ran' := exec (run (s.carry l stamps) project scope : StateM Memory _) st'
    ∃ l' stamps', ran.1.2 = s.carry l' NoTracking.mk ∧ ran'.1.2 = s.carry l' stamps' ∧
      Agree project s all stamps' ran.2 ran'.2 := by
  intro ran ran'
  obtain ⟨d, discovered, kept, left⟩ := left_by_run (s.carry l NoTracking.mk) project scope st
  obtain ⟨d', discovered', kept', left'⟩ := left_by_run (s.carry l stamps) project scope st'
  obtain ⟨e, e', found, found', same⟩ := h.like.discovered h.named scope
  cases discovered.symm.trans found
  cases discovered'.symm.trans found'
  have redated := Plan.redated_ofDiscovery same l
  have known' : ∀ c ∈ (Plan.ofDiscovery l d').candidates, ⟨st', c⟩ ∈ all := fun c mem =>
    known ((mem_sightings discovered').mpr ⟨rfl, mem⟩)
  have outside : ∀ c ∈ (Plan.ofDiscovery l d').candidates, ∀ x ∈ all,
      c.source.parts ≠ place x.item.output := by
    intro c mem x memx here
    obtain ⟨c₀, mem₀, same⟩ := mem_of_forall₂ redated.candidates mem
    obtain ⟨u, unit, pair, tree, above⟩ := root_above_source h.named discovered l mem₀
    rw [← same.source, here] at above
    exact reliable.orderly.apart x memx u unit pair tree above
  have done := h.applied reliable redated known' outside
  have renewed : renewed (s.carry l NoTracking.mk) project (Plan.ofDiscovery l d) =
      renewed (s.carry l stamps) project (Plan.ofDiscovery l d') :=
    congrArg (·.prune project.unitNames) redated.recorded
  simp only [Stager.carry_carry, Stager.ledger_carry, Stager.ledgerPath_carry]
    at kept left kept' left'
  rw [← renewed] at kept' left'
  refine ⟨_, _, kept, kept', ?_⟩
  rw [show ran.2 = _ from left, show ran'.2 = _ from left']
  exact done.save reliable.placed

/-- Some rounds of a session. -/
theorem play (h : Agree project s all stamps st st') (reliable : Reliable project rounds s all)
    {done : List Round} (sub : done ⊆ rounds) (l : Ledger)
    (known : seen project done (s.carry l stamps, st') ⊆ all) :
    ∃ stamps', Agree project s all stamps' (play project done (s.carry l NoTracking.mk, st)).2
      (play project done (s.carry l stamps, st')).2 := by
  induction done generalizing l stamps st st' with
  | nil => exact ⟨stamps, h⟩
  | cons r done ih =>
    obtain ⟨now, later⟩ := List.append_subset.mp known
    obtain ⟨first, sub⟩ := List.cons_subset.mp sub
    have edited := h.edits (reliable.orderly.untouched r first)
    obtain ⟨l', stamps', kept, kept', next⟩ := edited.run reliable l r.scope now
    have after := ih next sub l' (by rw [← kept']; exact later)
    rw [← kept, ← kept'] at after
    exact after

end Agree

end

/-- A session leaves the same contents after each round whether or not what is current is skipped,
if it is orderly and an output and a stamp tell what is staged. -/
theorem content_of_played {project : Project} {rounds : List Round} {s : Stager NoTracking}
    {st : Memory} (made : st.Made) (start : st.isDir here = true)
    (orderly : Orderly project rounds (seen project rounds (s.carry s.ledger Stamps.empty, st)))
    (placed : Placed s (seen project rounds (s.carry s.ledger Stamps.empty, st)))
    (telling : Telling s (seen project rounds (s.carry s.ledger Stamps.empty, st))) :
    ∀ done, done <+: rounds → ∀ p : Path,
      (play project done (s.carry s.ledger Stamps.empty, st)).2.content? p =
        (play project done (s, st)).2.content? p := by
  intro done within p
  let all := seen project rounds (s.carry s.ledger Stamps.empty, st)
  have reliable : Reliable project rounds s all :=
    ⟨orderly, placed, telling, fun _ => stamped_of_seen⟩
  have first : Agree project s all Stamps.empty st st := by
    refine ⟨.refl _ st, made.named, fun _ _ _ => ?_, nofun⟩
    rw [isDir_iff, parts_here] at start
    exact start
  obtain ⟨stamps, last⟩ := first.play reliable within.subset s.ledger (seen_mono project within _)
  rw [content?_eq, content?_eq]
  exact (last.like.contentAt_eq p.parts).symm

/-- A session of three rounds. -/
theorem content_of_played_sample :
    let s := Sample.stager
    let now := (s.carry s.ledger Stamps.empty, Sample.tree)
    let all := seen Sample.project Sample.session now
    Sample.tree.Made ∧ Sample.tree.isDir here = true ∧
      Orderly Sample.project Sample.session all ∧ Placed s all ∧ Telling s all ∧
      ∀ done, done <+: Sample.session → ∀ p : Path,
        (play Sample.project done now).2.content? p =
          (play Sample.project done (s, Sample.tree)).2.content? p := by
  intro s now all
  have made : Sample.tree.Made := .addFile _ _ (.addFile _ _ .empty)
  have start : Sample.tree.isDir here = true := by decide +kernel
  have orderly : Orderly Sample.project Sample.session all := by decide +kernel
  have placed : Placed s all := by decide +kernel
  have telling : Telling s all := telling_of_sources (fun _ => stamped_of_seen)
    (by decide +kernel) (by decide +kernel)
  exact ⟨made, start, orderly, placed, telling, content_of_played made start orderly placed telling⟩

/-- A stamp does not tell the source, even if it tells the properties. Of two sources with one stamp
the second is skipped in the pass that staged the first. -/
theorem content_lost_to_stamp :
    ¬∀ (project : Project) (rounds : List Round) (s : Stager NoTracking) (st : Memory),
      let now := (s.carry s.ledger Stamps.empty, st)
      let all := seen project rounds now
      st.Made → st.isDir here = true → Orderly project rounds all → Placed s all →
      (∀ x ∈ all, ∀ y ∈ all, x.item.stamp.properties = y.item.stamp.properties →
        x.item.properties = y.item.properties) →
      ∀ done, done <+: rounds → ∀ p : Path,
        (play project done now).2.content? p = (play project done (s, st)).2.content? p := by
  intro same
  let s : Stager NoTracking := Sample.stager.carry (.empty .sensitive) NoTracking.mk
  let rounds : List Round := [⟨[], .all⟩]
  let now := (s.carry s.ledger Stamps.empty, Sample.competing)
  let all := seen Sample.overlapping rounds now
  have made : Sample.competing.Made := .setModified _ _ (.addFile _ _ (.addFile _ _ .empty))
  have orderly : Orderly Sample.overlapping rounds all := by decide +kernel
  have placed : Placed s all := by decide +kernel
  have properties : ∀ x ∈ all, ∀ y ∈ all, x.item.stamp.properties = y.item.stamp.properties →
      x.item.properties = y.item.properties := by
    decide +kernel
  have contents := same Sample.overlapping rounds s Sample.competing made (by decide +kernel) orderly placed
    properties rounds (List.prefix_refl _) ⟨"out/f.txt"⟩
  have skipped : (play Sample.overlapping rounds now).2.content? ⟨"out/f.txt"⟩ = some [49] := by
    decide +kernel
  have staged : (play Sample.overlapping rounds (s, Sample.competing)).2.content? ⟨"out/f.txt"⟩ =
      some [50] := by
    decide +kernel
  rw [skipped, staged] at contents
  cases contents

end Pass
end Staging
