import Staging.Proofs.Memory.Frame

/-!
Work at places apart from others. Two trees match at some places if the same lies at and below them
and the same files stand above them. Whatever is done elsewhere keeps a tree matching itself, and
what is done at these places comes out alike in two trees that match there. So of a list of work,
only the part that belongs to the places decides what becomes of them.
-/
namespace Staging.Memory
open Pass

/-- The place is one of these or lies below one. -/
def Within (places : List (List Part)) (key : List Part) : Prop :=
  ∃ place ∈ places, Encloses place key

/-- No place of either list lies at or below one of the other. -/
def Apart (places others : List (List Part)) : Prop :=
  ∀ key ∈ places, ∀ other ∈ others, ¬Encloses key other ∧ ¬Encloses other key

instance (places others : List (List Part)) : Decidable (Apart places others) :=
  inferInstanceAs (Decidable (∀ key ∈ places, ∀ other ∈ others,
    ¬Encloses key other ∧ ¬Encloses other key))

section
variable {places others : List (List Part)} {key other : List Part}

theorem within_of_mem (among : key ∈ places) : Within places key := ⟨key, among, .refl key⟩

theorem Within.below (h : Within places key) (down : Encloses key other) : Within places other := by
  obtain ⟨place, among, encloses⟩ := h
  exact ⟨place, among, encloses.trans down⟩

namespace Apart

theorem symm (h : Apart places others) : Apart others places :=
  fun key mem other mem' => (h other mem' key mem).symm

theorem mono (h : Apart places others) {part part' : List (List Part)} (sub : part ⊆ places)
    (sub' : part' ⊆ others) : Apart part part' :=
  fun key mem other mem' => h key (sub mem) other (sub' mem')

theorem append (h : Apart places others) {more : List (List Part)} (h' : Apart places more) :
    Apart places (others ++ more) := by
  intro key mem other mem'
  rcases List.mem_append.mp mem' with mem' | mem'
  · exact h key mem other mem'
  · exact h' key mem other mem'

theorem not_mem (h : Apart places others) (among : key ∈ places) : key ∉ others :=
  fun mem => (h key among key mem).1 (.refl key)

/-- What lies within the places encloses none of the others. -/
theorem not_encloses (h : Apart places others) (within : Within places key) :
    ∀ other ∈ others, ¬Encloses key other := by
  obtain ⟨place, among, encloses⟩ := within
  exact fun other mem down => (h place among other mem).1 (encloses.trans down)

/-- What lies above the places is none of the others. -/
theorem not_mem_above (h : Apart places others) (among : key ∈ places) (above : Above other key) :
    other ∉ others :=
  fun mem => (h key among other mem).2 above.2

end Apart
end

namespace Kinds

/-- The same lies at and below the places. -/
def SameWithin (places : List (List Part)) (k k' : Kinds) : Prop :=
  ∀ key, Within places key → k key = k' key

namespace SameWithin

variable {places : List (List Part)} {k k' : Kinds}

/-- Going up to a place that lies within, the same is missing on the way. -/
theorem mem_missing_iff (h : SameWithin places k k') {key : List Part} (within : Within places key)
    (top : List Part) : key ∈ k.missing top ↔ key ∈ k'.missing top := by
  induction top using ascent_induction with
  | top top whole _ =>
    have single {k : Kinds} : key ∈ k.missing top ↔ k top = none ∧ key = top := by
      constructor
      · intro mem
        have found := mem_ascent_of_mem_missing mem
        rw [whole, List.mem_singleton] at found
        exact ⟨free_self_of_mem_missing mem, found⟩
      · rintro ⟨free, rfl⟩
        exact self_mem_missing free
    rw [single, single]
    constructor
    · rintro ⟨free, rfl⟩
      exact ⟨h key within ▸ free, rfl⟩
    · rintro ⟨free, rfl⟩
      exact ⟨(h key within).symm ▸ free, rfl⟩
  | up top dir _ _ whole ih =>
    -- From at or below the place both ways up are the same; from elsewhere neither comes by it.
    by_cases lower : Encloses key top
    · have same := h top (within.below lower)
      by_cases free : k top = none
      · rw [missing_of_up free whole, missing_of_up (same ▸ free) whole, List.mem_cons,
          List.mem_cons, ih]
      · rw [missing_of_taken free, missing_of_taken (same ▸ free)]
    · have out {k : Kinds} : key ∉ k.missing top := fun mem =>
        lower (encloses_of_mem_ascent (mem_ascent_of_mem_missing mem))
      exact ⟨fun mem => absurd mem out, fun mem => absurd mem out⟩

theorem opened (h : SameWithin places k k') (top : List Part) :
    SameWithin places (k.opened top) (k'.opened top) := by
  intro key within
  simp only [Kinds.opened, h.mem_missing_iff within top, h key within]

theorem openedAbove (h : SameWithin places k k') (key : List Part) :
    SameWithin places (k.openedAbove key) (k'.openedAbove key) := by
  cases up : above key with
  | none =>
    rw [openedAbove_of_none up, openedAbove_of_none up]
    exact h
  | some dir =>
    rw [openedAbove_of_some up, openedAbove_of_some up]
    exact h.opened dir

theorem openedFor (h : SameWithin places k k') (output : Path) :
    SameWithin places (k.openedFor output) (k'.openedFor output) := by
  cases up : output.parent with
  | none =>
    rw [openedFor_of_none up, openedFor_of_none up]
    exact h
  | some dir =>
    rw [openedFor_of_some up, openedFor_of_some up]
    exact h.opened dir.parts

theorem without (h : SameWithin places k k') (key : List Part) :
    SameWithin places (k.without key) (k'.without key) := by
  intro other within
  simp only [Kinds.without, h other within]

theorem putFile (h : SameWithin places k k') (key : List Part) :
    SameWithin places ((k.withFile key).openedAbove key) ((k'.withFile key).openedAbove key) := by
  have put : SameWithin places (k.withFile key) (k'.withFile key) := by
    intro other within
    simp only [Kinds.withFile, h other within]
  exact put.openedAbove key

end SameWithin
end Kinds

/-- Two trees in which work at the places comes out alike. Beside what lies within them, this takes
the files that stand above them, where work may be blocked, and the contents that it reads. -/
structure Matches (places reads : List (List Part)) (x y : Memory) : Prop where
  unreadable : x.unreadable = y.unreadable
  kinds : Kinds.SameWithin places x.kindAt y.kindAt
  files : ∀ place ∈ places, ∀ key, Above key place →
    (x.kindAt key = some .file ↔ y.kindAt key = some .file)
  content : ∀ key ∈ places ++ reads, x.contentAt key = y.contentAt key

namespace Matches

variable {places others reads : List (List Part)} {x y z : Memory}

theorem refl (places reads : List (List Part)) (x : Memory) : Matches places reads x x :=
  ⟨rfl, fun _ _ => rfl, fun _ _ _ _ => Iff.rfl, fun _ _ => rfl⟩

theorem symm (h : Matches places reads x y) : Matches places reads y x :=
  ⟨h.unreadable.symm, fun key within => (h.kinds key within).symm,
    fun place among key above => (h.files place among key above).symm,
    fun key mem => (h.content key mem).symm⟩

theorem trans (h : Matches places reads x y) (h' : Matches places reads y z) :
    Matches places reads x z :=
  ⟨h.unreadable.trans h'.unreadable,
    fun key within => (h.kinds key within).trans (h'.kinds key within),
    fun place among key above => (h.files place among key above).trans
      (h'.files place among key above),
    fun key mem => (h.content key mem).trans (h'.content key mem)⟩

/-- What is done at other places leaves a tree matching itself. -/
theorem of_confined (h : Confined others x y) (apart : Apart places others)
    (unread : ∀ key ∈ reads, key ∉ others) : Matches places reads x y where
  unreadable := h.unreadable.symm
  kinds key within := by
    rw [kindAt, kindAt, h.entries key (apart.not_encloses within)]
  files place among key above := by
    rw [kindAt_eq_file_iff, kindAt_eq_file_iff, h.content key (apart.not_mem_above among above)]
  content key mem := by
    rcases List.mem_append.mp mem with among | read
    · exact (h.content key (apart.not_mem among)).symm
    · exact (h.content key (unread key read)).symm

theorem payload_eq {τ : Type} (h : Matches places reads x y) {item : Candidate}
    (read : item.source.parts ∈ reads) (s : Stager τ) : x.payload s item = y.payload s item :=
  payload_congr h.unreadable (h.content _ (List.mem_append_right _ read)) s

theorem kindAt_eq (h : Matches places reads x y) {key : List Part} (among : key ∈ places) :
    x.kindAt key = y.kindAt key :=
  h.kinds key (within_of_mem among)

theorem blocked_iff (h : Matches places reads x y) {output : Path} (among : output.parts ∈ places) :
    x.Blocked output ↔ y.Blocked output := by
  have files {dir : Path} (up : output.parent = some dir) :=
    h.files _ among dir.parts (above_of_parent up (self_mem_ascent dir.parts))
  constructor
  · rintro ⟨dir, up, file⟩
    exact ⟨dir, up, (files up).mp file⟩
  · rintro ⟨dir, up, file⟩
    exact ⟨dir, up, (files up).mpr file⟩

theorem discard (h : Matches places reads x y) (p : Path) :
    Matches places reads (x.discard p) (y.discard p) where
  unreadable := by rw [unreadable_discard, unreadable_discard, h.unreadable]
  kinds := by
    rw [kindAt_discard, kindAt_discard]
    exact h.kinds.without p.parts
  files place among key above := by
    rw [kindAt_discard, kindAt_discard, Kinds.without_eq_file_iff, Kinds.without_eq_file_iff,
      h.files place among key above]
  content key mem := by rw [contentAt_discard, contentAt_discard, h.content key mem]

theorem openedFor (h : Matches places reads x y) (output : Path) :
    Matches places reads (x.openedFor output) (y.openedFor output) where
  unreadable := by rw [unreadable_openedFor, unreadable_openedFor, h.unreadable]
  kinds := by
    rw [kindAt_openedFor, kindAt_openedFor]
    exact h.kinds.openedFor output
  files place among key above := by
    rw [kindAt_openedFor, kindAt_openedFor, Kinds.openedFor_eq_file_iff,
      Kinds.openedFor_eq_file_iff, h.files place among key above]
  content key mem := by rw [contentAt_openedFor, contentAt_openedFor, h.content key mem]

theorem addFile (h : Matches places reads x y) (p : Path) (content : Bytes) :
    Matches places reads (x.addFile p content) (y.addFile p content) where
  unreadable := by rw [unreadable_addFile, unreadable_addFile, h.unreadable]
  kinds := by
    rw [kindAt_addFile, kindAt_addFile]
    exact h.kinds.putFile p.parts
  files place among key above := by
    rw [kindAt_addFile, kindAt_addFile, Kinds.withFile_eq_file_iff, Kinds.withFile_eq_file_iff,
      h.files place among key above]
  content key mem := by rw [contentAt_addFile, contentAt_addFile, h.content key mem]

theorem deleteStep {τ : Type} [Tracker τ] (h : Matches places reads x y) {path : String}
    (among : place path ∈ places) (w v : Applied τ) :
    Matches places reads (exec (deleteStep w path : StateM Memory _) x).2
      (exec (deleteStep v path : StateM Memory _) y).2 := by
  rw [exec_deleteStep, exec_deleteStep, h.kindAt_eq among]
  split
  · exact h.discard ⟨path⟩
  · exact h

/-- Without a tracker an item is staged in both trees or in none. -/
theorem stageStep {s s' : Stager NoTracking} (h : Matches places reads x y) {item : Candidate}
    (work : y.payload s' item = y.payload s item) (among : place item.output ∈ places)
    (read : item.source.parts ∈ reads) (w v : Applied NoTracking) :
    Matches places reads (exec (stageStep s w item : StateM Memory _) x).2
      (exec (stageStep s' v item : StateM Memory _) y).2 := by
  have blocked : x.Blocked ⟨item.output⟩ ↔ y.Blocked ⟨item.output⟩ := h.blocked_iff among
  have payload : y.payload s' item = x.payload s item := work.trans (h.payload_eq read s).symm
  have kind : (x.openedFor ⟨item.output⟩).kindAt (Path.parts ⟨item.output⟩) =
      (y.openedFor ⟨item.output⟩).kindAt (Path.parts ⟨item.output⟩) :=
    (h.openedFor ⟨item.output⟩).kindAt_eq among
  have stale (w : Applied NoTracking) : ¬Tracker.isCurrent w.tracker item = true := nofun
  -- Being blocked, the payload and what is in the way decide a step, and all three are alike.
  have first := stepped s w item x
  have second := stepped s' v item y
  generalize exec (Pass.stageStep s w item : StateM Memory _) x = r at first ⊢
  generalize exec (Pass.stageStep s' v item : StateM Memory _) y = q at second ⊢
  cases first with
  | kept w' _ _ why =>
    have stuck := blocked.mp (why.resolve_left (stale w))
    cases second with
    | kept => exact h
    | opened _ _ _ free => exact absurd stuck free
    | written _ _ _ _ free => exact absurd stuck free
  | opened w' _ _ free why =>
    cases second with
    | kept _ _ _ why' => exact absurd (blocked.mpr (why'.resolve_left (stale v))) free
    | opened => exact h.openedFor ⟨item.output⟩
    | written _ content _ _ _ room found =>
      rcases why with nothing | dir
      · rw [payload, nothing] at found
        cases found
      · exact absurd (kind.symm.trans dir) room
  | written w' content _ _ free room found =>
    cases second with
    | kept _ _ _ why' => exact absurd (blocked.mpr (why'.resolve_left (stale v))) free
    | opened _ _ _ _ why' =>
      rcases why' with nothing | dir
      · rw [← payload, nothing] at found
        cases found
      · exact absurd (kind.trans dir) room
    | written _ content' _ _ _ _ found' =>
      rw [payload, found] at found'
      cases found'
      exact (h.openedFor ⟨item.output⟩).addFile ⟨item.output⟩ content

section
variable {α ω ι : Type} {step step' : ω → α → StateM Memory ω}

/-- Of work at the places, nothing comes out otherwise. -/
theorem sweep {xs : List α}
    (own : ∀ a ∈ xs, ∀ w v x y, Matches places reads x y →
      Matches places reads (exec (step w a) x).2 (exec (step' v a) y).2)
    (h : Matches places reads x y) (w v : ω) :
    Matches places reads (sweepFrom step xs w x).2 (sweepFrom step' xs v y).2 := by
  induction xs generalizing w v x y with
  | nil => exact h
  | cons a xs ih =>
    rw [sweepFrom_cons, sweepFrom_cons]
    refine ih (fun b mem => own b (List.mem_cons_of_mem a mem)) ?_ _ _
    exact own a List.mem_cons_self w v x y h

/-- Of work in several parts, those that lie elsewhere can be left out. -/
theorem sweep_parts {parts : List ι} {mine : ι → Bool} {work : ι → List α}
    (own : ∀ i ∈ parts, mine i = true → ∀ a ∈ work i, ∀ w v x y, Matches places reads x y →
      Matches places reads (exec (step w a) x).2 (exec (step' v a) y).2)
    (aside : ∀ i ∈ parts, mine i = false → ∀ w x,
      Matches places reads x (sweepFrom step (work i) w x).2)
    (h : Matches places reads x y) (w v : ω) :
    Matches places reads (sweepFrom step (parts.flatMap work) w x).2
      (sweepFrom step' ((parts.filter mine).flatMap work) v y).2 := by
  induction parts generalizing w v x y with
  | nil => exact h
  | cons i parts ih =>
    have own' := fun j mem => own j (List.mem_cons_of_mem i mem)
    have aside' := fun j mem => aside j (List.mem_cons_of_mem i mem)
    rw [List.flatMap_cons, sweepFrom_append]
    cases whose : mine i with
    | true =>
      rw [List.filter_cons_of_pos whose, List.flatMap_cons, sweepFrom_append]
      exact ih own' aside' (h.sweep (own i List.mem_cons_self whose) w v) _ _
    | false =>
      rw [List.filter_cons_of_neg (by simp [whose])]
      exact ih own' aside' ((aside i List.mem_cons_self whose w x).symm.trans h) _ v

end
end Matches
end Staging.Memory
