import Staging.Proofs.Memory.Growth

/-!
What a pass leaves as it is, whatever it stages. Contents change only at the places of its own
steps, no directory is lost, and new directories lie above those places.
-/
namespace Staging.Memory
open Pass

variable {places : List (List Part)}

namespace Kinds

/-- Directories stay, and new ones lie above the places. -/
structure Extended (places : List (List Part)) (k k' : Kinds) : Prop where
  kept : ∀ key, k key = some .dir → k' key = some .dir
  added : ∀ key, k' key = some .dir → k key = some .dir ∨ ∃ place ∈ places, Above key place

namespace Extended

variable {k k' k'' : Kinds} {key : List Part}

theorem refl (places : List (List Part)) (k : Kinds) : Extended places k k :=
  ⟨fun _ dir => dir, fun _ => .inl⟩

theorem trans (h : Extended places k k') (h' : Extended places k' k'') : Extended places k k'' where
  kept key dir := h'.kept key (h.kept key dir)
  added key dir := (h'.added key dir).elim (h.added key) .inr

theorem mono {more : List (List Part)} (h : Extended places k k') (sub : places ⊆ more) :
    Extended more k k' where
  kept := h.kept
  added key dir := (h.added key dir).imp id fun ⟨place, mem, above⟩ => ⟨place, sub mem, above⟩

theorem swept (keys : List (List Part)) : Extended places k (k.swept keys) where
  kept key dir := by
    rw [swept_apply, dir, if_neg]
    rintro ⟨file, -⟩
    cases file
  added key dir := .inl (kind_of_swept dir)

theorem without (room : k key ≠ some .dir) : Extended places k (k.without key) where
  kept x dir := by
    rw [Kinds.without, if_neg, dir]
    rintro rfl
    exact room dir
  added x dir := by
    rw [Kinds.without] at dir
    split at dir
    · cases dir
    · exact .inl dir

theorem openedFor {output : Path} (among : output.parts ∈ places) :
    Extended places k (k.openedFor output) where
  kept x dir := ((Grown.refl (fun _ => True) k).openedFor output).keeps x .dir trivial dir
  added x dir := by
    rcases openedFor_cases (k := k) output x with same | made
    · exact .inl (same ▸ dir)
    · exact .inr ⟨_, among, made.1⟩

/-- A file put where no directory is. -/
theorem putFile (room : k key ≠ some .dir) (among : key ∈ places) :
    Extended places k ((k.withFile key).openedAbove key) where
  kept x dir := keeps_withFile (K := fun _ => True) (fun _ => room) x .dir trivial dir
  added x dir := by
    rcases withFile_cases (k := k) key x with same | rfl | made
    · exact .inl (same ▸ dir)
    · rw [withFile_self] at dir
      cases dir
    · exact .inr ⟨_, among, made.1⟩

end Extended
end Kinds

namespace Confined

variable {s : Memory}

theorem addFile {p : Path} (among : p.parts ∈ places) (content : Bytes) :
    Confined places s (s.addFile p content) where
  unreadable := unreadable_addFile s p content
  entries key out := at?_addFile s content fun mem => out _ among (encloses_of_mem_ascent mem)
  content key out := by
    rw [contentAt_addFile, if_neg]
    exact fun same => out (same ▸ among)

end Confined

section
variable {τ : Type} [Tracker τ] {s : Stager τ} {w : Applied τ} {item : Candidate} {st : Memory}

theorem Stepped.confined {r : Applied τ × Memory} (step : Stepped s w item st r)
    (among : place item.output ∈ places) : Confined places st r.2 := by
  cases step with
  | kept => exact .refl places st
  | opened => exact .openedFor among
  | written w' content => exact (Confined.openedFor among).trans (.addFile among content)

theorem Stepped.extended {r : Applied τ × Memory} (step : Stepped s w item st r)
    (among : place item.output ∈ places) : Kinds.Extended places st.kindAt r.2.kindAt := by
  have opened : Kinds.Extended places st.kindAt (st.openedFor ⟨item.output⟩).kindAt := by
    rw [kindAt_openedFor]
    exact .openedFor among
  cases step with
  | kept => exact .refl places _
  | opened => exact opened
  | written w' content more told free room =>
    refine opened.trans ?_
    simp only
    rw [kindAt_addFile]
    exact .putFile room among

/-- A sweep over candidates whose outputs are among the places. -/
theorem framed_sweep (s : Stager τ) {items : List Candidate} (w : Applied τ) (st : Memory)
    (among : ∀ c ∈ items, place c.output ∈ places) :
    let swept := sweepFrom (stageStep s : Applied τ → Candidate → StateM Memory _) items w st
    Confined places st swept.2 ∧ Kinds.Extended places st.kindAt swept.2.kindAt := by
  refine sweepFrom_invariant
    (fun _ _ st' => Confined places st st' ∧ Kinds.Extended places st.kindAt st'.kindAt)
    ⟨.refl places st, .refl places _⟩ ?_
  intro done x rest w' st' whole ⟨confined, extended⟩
  have step := stepped s w' x st'
  have known := among x (by simp [whole])
  exact ⟨confined.trans (step.confined known), extended.trans (step.extended known)⟩

omit [Tracker τ] in
theorem Deleted.extended {paths : List String} {v w : Applied τ} {st' : Memory}
    (h : Deleted paths v st w st') (places : List (List Part)) :
    Kinds.Extended places st.kindAt st'.kindAt := by
  rw [h.kinds]
  exact .swept _

end

section
variable {l : Ledger} {p : Path} {st : Memory}

theorem extended_drafted (room : st.kindAt (Ledger.scratchFor p).parts ≠ some .dir)
    (among : (Ledger.scratchFor p).parts ∈ places) :
    Kinds.Extended places st.kindAt (st.drafted l p).kindAt := by
  rw [kindAt_drafted]
  exact .putFile room among

theorem extended_saved (room : st.Room l p) (ledger : p.parts ∈ places)
    (scratch : (Ledger.scratchFor p).parts ∈ places) (time : Int64) :
    Kinds.Extended places st.kindAt (st.saved l p time).kindAt := by
  have drafts : Kinds.Extended places st.kindAt (st.drafted l p).kindAt :=
    extended_drafted room.scratch scratch
  refine drafts.trans ?_
  rw [kindAt_saved]
  refine (Kinds.Extended.without (scratch_of_drafted st l p ▸ nofun)).trans (.putFile ?_ ledger)
  rw [Kinds.without, if_neg (scratch_ne p).symm]
  exact room.ledger

/-- Saving, whether or not it succeeds. -/
theorem framed_save (l : Ledger) (st : Memory) (ledger : p.parts ∈ places)
    (scratch : (Ledger.scratchFor p).parts ∈ places) :
    let saved := exec (l.save p : StateM Memory _) st
    Confined places st saved.2 ∧ Kinds.Extended places st.kindAt saved.2.kindAt := by
  intro after
  have ended : after = exec (l.save p : StateM Memory _) st := rfl
  clear_value after
  rcases save_cases l p st with ⟨-, _, saved⟩ | ⟨room, -, _, saved⟩ | ⟨room, room', time, saved⟩
  · rw [ended, saved]
    exact ⟨.refl places st, .refl places _⟩
  · rw [ended, saved]
    exact ⟨.drafted scratch, extended_drafted room scratch⟩
  · rw [ended, saved, ← saved_eq]
    exact ⟨.saved ledger scratch time, extended_saved ⟨room, room'⟩ ledger scratch time⟩

end
end Staging.Memory
