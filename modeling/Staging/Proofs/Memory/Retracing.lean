import Staging.Proofs.Memory.Growth
import Staging.Proofs.Tracker

/-!
The same candidates once more. A second sweep, from the tree and the tracker that the first one
ended with, may stage what the first one left alone, but it leaves each place with the content that
it starts from: as soon as it writes there it goes on as the first sweep did.
-/
namespace Staging

/-- What a tracker says about the items at one place depends on the last record made there. -/
structure Steady (τ : Type) [Tracker τ] (items : List Candidate) : Prop where
  recorded : ∀ t t' : τ, ∀ c ∈ items, ∀ c' ∈ items, Memory.place c'.output = Memory.place c.output →
    Tracker.isCurrent (Tracker.record t c) c' = Tracker.isCurrent (Tracker.record t' c) c'
  current : ∀ t t' : τ, ∀ c ∈ items, ∀ c' ∈ items, Memory.place c'.output = Memory.place c.output →
    Tracker.isCurrent t c = true →
    Tracker.isCurrent (Tracker.record t' c) c' = Tracker.isCurrent t c'
  elsewhere : ∀ t : τ, ∀ c ∈ items, ∀ c' ∈ items, Memory.place c'.output ≠ Memory.place c.output →
    Tracker.isCurrent (Tracker.record t c) c' = Tracker.isCurrent t c'

theorem steady_noTracking (items : List Candidate) : Steady NoTracking items where
  recorded _ _ _ _ _ _ _ := rfl
  current _ _ _ _ _ _ _ _ := rfl
  elsewhere _ _ _ _ _ _ := rfl

/-- No place is spelled in two ways. -/
def SpelledAlike (items : List Candidate) : Prop :=
  ∀ c ∈ items, ∀ c' ∈ items, Memory.place c'.output = Memory.place c.output → c'.output = c.output

instance (items : List Candidate) : Decidable (SpelledAlike items) :=
  inferInstanceAs (Decidable (∀ c ∈ items, ∀ c' ∈ items,
    Memory.place c'.output = Memory.place c.output → c'.output = c.output))

theorem steady_stamps {items : List Candidate} (alike : SpelledAlike items) :
    Steady Stamps items where
  recorded t t' c hc c' hc' same := by
    simp only [Stamps.isCurrent_eq, Stamps.get?_record, if_pos (alike c hc c' hc' same)]
  current t t' c hc c' hc' same current := by
    rw [Stamps.isCurrent_eq, Bool.and_eq_true, beq_iff_eq] at current
    have spelling := alike c hc c' hc' same
    simp only [Stamps.isCurrent_eq, Stamps.get?_record, if_pos spelling]
    rw [spelling, current.2]
  elsewhere t c hc c' hc' other := by
    have spelling : c'.output ≠ c.output := fun same => other (congrArg Memory.place same)
    simp only [Stamps.isCurrent_eq, Stamps.get?_record, if_neg spelling]

namespace Memory
open Pass

variable {τ : Type}

/-! One item -/

/-- There is something to write for the item, and nothing is in its way. -/
structure Accepts (st : Memory) (s : Stager τ) (item : Candidate) : Prop where
  payload : st.payload s item ≠ none
  free : ¬st.Blocked ⟨item.output⟩
  room : st.kindAt (place item.output) ≠ some .dir

/-- A file is at the output, in its directory. -/
structure Settled (st : Memory) (output : Path) : Prop where
  file : st.kindAt output.parts = some .file
  parent : ∀ dir, output.parent = some dir → st.kindAt dir.parts = some .dir

section
variable {K : List Part → Prop} {st x : Memory} {s s' : Stager τ} {item : Candidate}

theorem Settled.keeps {output : Path} (h : st.Settled output) (keeps : Kinds.Keeps K st.kindAt x.kindAt)
    (within : ∀ a, Encloses a output.parts → K a) : x.Settled output where
  file := keeps _ _ (within _ (.refl _)) h.file
  parent dir up :=
    keeps _ _ (within _ (above_of_parent up (self_mem_ascent dir.parts)).2) (h.parent dir up)

/-- What was written there can be written there again. -/
theorem Settled.accepts (h : x.Settled ⟨item.output⟩) (payload : x.payload s item ≠ none) :
    x.Accepts s item where
  payload := payload
  free := by
    rintro ⟨dir, up, file⟩
    rw [h.parent dir up] at file
    cases file
  room dir := by
    rw [place, h.file] at dir
    cases dir

/-- A tree with less in it accepts more. -/
theorem Accepts.of_keeps (h : x.Accepts s' item) (keeps : Kinds.Keeps K st.kindAt x.kindAt)
    (within : ∀ a, Encloses a (place item.output) → K a)
    (payload : x.payload s' item = st.payload s item) : st.Accepts s item where
  payload := payload ▸ h.payload
  free := by
    rintro ⟨dir, up, file⟩
    have inside : K dir.parts := within _ (above_of_parent up (self_mem_ascent dir.parts)).2
    exact h.free ⟨dir, up, keeps _ _ inside file⟩
  room dir := h.room (keeps _ _ (within _ (.refl _)) dir)

theorem settled_addFile {output : Path} (free : ¬st.Blocked output)
    (room : (st.openedFor output).kindAt output.parts ≠ some .dir) (content : Bytes) :
    ((st.openedFor output).addFile output content).Settled output where
  file := by
    rw [kindAt_addFile, Kinds.withFile_self]
  parent dir up := by
    have made : (st.openedFor output).kindAt dir.parts = some .dir := by
      rw [kindAt_openedFor, Kinds.openedFor_of_some up]
      rcases Kinds.opened_cases (k := st.kindAt) dir.parts dir.parts with same | ⟨-, dir⟩
      · cases kind : Kinds.opened st.kindAt dir.parts dir.parts with
        | none => exact absurd kind (Kinds.opened_self _ _)
        | some kind' =>
          cases kind' with
          | dir => rfl
          | file => exact absurd ⟨dir, up, same.symm.trans kind⟩ free
      · exact dir
    rw [kindAt_addFile]
    exact Kinds.keeps_withFile (K := fun _ => True) (fun _ => room) _ _ trivial made

end

variable [Tracker τ]

/-- What becomes of an item: it is left alone if it is current and there, and else it is written
exactly if the tree accepts it. -/
inductive Tried (s : Stager τ) (w : Applied τ) (item : Candidate) (st : Memory) :
    Applied τ × Memory → Prop
  | skipped (w' : Applied τ) : Tracker.isCurrent w.tracker item = true →
      st.kindAt (place item.output) ≠ none → w'.tracker = w.tracker →
      w'.processed = w.processed → Tried s w item st (w', st)
  | failed (w' : Applied τ) (st' : Memory) :
      ¬(Tracker.isCurrent w.tracker item = true ∧ st.kindAt (place item.output) ≠ none) →
      ¬st.Accepts s item → w'.tracker = w.tracker → w'.processed = w.processed →
      (∀ key, st'.contentAt key = st.contentAt key) → Tried s w item st (w', st')
  | written (w' : Applied τ) (st' : Memory) :
      ¬(Tracker.isCurrent w.tracker item = true ∧ st.kindAt (place item.output) ≠ none) →
      st.Accepts s item → w'.tracker = Tracker.record w.tracker item →
      w'.processed = w.processed ++ [item] → st'.Settled ⟨item.output⟩ →
      (∀ key, st'.contentAt key =
        if key = place item.output then st.payload s item else st.contentAt key) →
      Tried s w item st (w', st')

section
variable (s : Stager τ) (w : Applied τ) (item : Candidate) (st : Memory)

theorem stageStep_of_current (current : Tracker.isCurrent w.tracker item = true)
    (there : st.kindAt (place item.output) ≠ none) :
    exec (stageStep s w item : StateM Memory _) st =
      ({ w with skipped := w.skipped ++ [item.output] }, st) := by
  have known : exec (isCurrent w item : StateM Memory _) st =
      (st.isPresent ⟨item.output⟩, st) := by
    rw [isCurrent, if_pos current]
    rfl
  have present : st.isPresent ⟨item.output⟩ = true := by
    rw [isPresent_eq, Option.isSome_iff_ne_none]
    exact there
  rw [stageStep, exec_bind, known, present]
  rfl

theorem tried : Tried s w item st (exec (stageStep s w item : StateM Memory _) st) := by
  by_cases skip : Tracker.isCurrent w.tracker item = true ∧ st.kindAt (place item.output) ≠ none
  · rw [stageStep_of_current s w item st skip.1 skip.2]
    exact .skipped _ skip.1 skip.2 rfl rfl
  · rcases stageStep_cases s w item st with ⟨current, there, -⟩ | ⟨done, step⟩ | ⟨e, failed, step⟩
    · refine absurd ⟨current, ?_⟩ skip
      rwa [isPresent_eq, Option.isSome_iff_ne_none] at there
    · rw [step]
      rcases stageItem_cases s item st with
        ⟨-, _, run⟩ | ⟨-, -, _, run⟩ | ⟨free, room, content, found, run⟩
      · rw [run] at done
        cases done
      · rw [run] at done
        cases done
      · rw [run]
        have accepts : st.Accepts s item :=
          ⟨by simp [found], free, kindAt_openedFor_self st ⟨item.output⟩ ▸ room⟩
        refine .written _ _ skip accepts rfl rfl (settled_addFile free room content) fun key => ?_
        rw [contentAt_addFile, contentAt_openedFor, found]
        rfl
    · rw [step]
      rcases stageItem_cases s item st with
        ⟨blocked, _, run⟩ | ⟨-, why, _, run⟩ | ⟨-, -, _, -, run⟩
      · rw [run]
        exact .failed _ _ skip (fun accepts => accepts.free blocked) rfl rfl fun _ => rfl
      · rw [run]
        refine .failed _ _ skip (fun accepts => ?_) rfl rfl (contentAt_openedFor st _)
        rw [kindAt_openedFor_self] at why
        exact why.elim accepts.payload accepts.room
      · rw [run] at failed
        cases failed

end

/-! All items -/

/-- The trackers say the same about the items at a place. -/
def Agree (items : List Candidate) (key : List Part) (t t' : τ) : Prop :=
  ∀ c ∈ items, place c.output = key → Tracker.isCurrent t c = Tracker.isCurrent t' c

/-- How often a place has been written. -/
def visits (key : List Part) (w : Applied τ) : Nat :=
  w.processed.countP fun c => place c.output == key

omit [Tracker τ] in
theorem visits_concat {key : List Part} {w w' : Applied τ} {item : Candidate}
    (h : w'.processed = w.processed ++ [item]) :
    visits key w' = visits key w + if place item.output = key then 1 else 0 := by
  rw [visits, h, List.countP_append, List.countP_singleton, visits]
  simp only [beq_iff_eq]

omit [Tracker τ] in
theorem visits_congr {key : List Part} {w w' : Applied τ} (h : w'.processed = w.processed) :
    visits key w' = visits key w := by
  rw [visits, h, visits]

variable {items : List Candidate} {key : List Part} {s s' : Stager τ} {item : Candidate}

namespace Tried

variable {w : Applied τ} {st : Memory} {r : Applied τ × Memory}

theorem visits_le (h : Tried s w item st r) (key : List Part) : visits key w ≤ visits key r.1 := by
  cases h with
  | skipped _ _ _ _ same => exact (visits_congr same).ge
  | failed _ _ _ _ _ same => exact (visits_congr same).ge
  | written _ _ _ _ _ more =>
    rw [visits_concat more]
    exact Nat.le_add_right _ _

/-- An item changes nothing for the other places. -/
theorem elsewhere (h : Tried s w item st r) (steady : Steady τ items) (known : item ∈ items)
    (other : place item.output ≠ key) : Agree items key r.1.tracker w.tracker ∧
      r.2.contentAt key = st.contentAt key ∧ visits key r.1 = visits key w := by
  cases h with
  | skipped _ _ _ same same' =>
    refine ⟨fun c _ _ => ?_, rfl, visits_congr same'⟩
    rw [same]
  | failed _ _ _ _ same same' contents =>
    refine ⟨fun c _ _ => ?_, contents key, visits_congr same'⟩
    rw [same]
  | written _ _ _ _ recorded more _ contents =>
    refine ⟨fun c mem here => ?_, ?_, ?_⟩
    · rw [recorded]
      exact steady.elsewhere _ item known c mem fun same => other (same.symm.trans here)
    · rw [contents, if_neg (Ne.symm other)]
    · rw [visits_concat more, if_neg other, Nat.add_zero]

/-- A place that is not written keeps what the tracker says about it. -/
theorem agree (h : Tried s w item st r) (steady : Steady τ items) (known : item ∈ items)
    (same : visits key r.1 = visits key w) : Agree items key r.1.tracker w.tracker := by
  by_cases other : place item.output ≠ key
  · exact (h.elsewhere steady known other).1
  · rw [ne_eq, not_not] at other
    intro c _ _
    cases h with
    | skipped _ _ _ tracker => rw [tracker]
    | failed _ _ _ _ tracker => rw [tracker]
    | written _ _ _ _ _ more =>
      rw [visits_concat more, if_pos other] at same
      omega

end Tried

theorem Agree.trans {t t' t'' : τ} (h : Agree items key t t') (h' : Agree items key t' t'') :
    Agree items key t t'' :=
  fun c mem here => (h c mem here).trans (h' c mem here)

theorem Agree.symm {t t' : τ} (h : Agree items key t t') : Agree items key t' t :=
  fun c mem here => (h c mem here).symm

/-- Visits only add up, and without another one the tracker says the same. -/
theorem visits_sweep (s : Stager τ) (steady : Steady τ items) {part : List Candidate}
    (sub : part ⊆ items) (key : List Part) (w : Applied τ) (st : Memory) :
    let swept := sweepFrom (stageStep s : Applied τ → Candidate → StateM Memory _) part w st
    visits key w ≤ visits key swept.1 ∧
      (visits key swept.1 = visits key w → Agree items key swept.1.tracker w.tracker) := by
  refine sweepFrom_invariant (fun _ (w' : Applied τ) _ => visits key w ≤ visits key w' ∧
    (visits key w' = visits key w → Agree items key w'.tracker w.tracker))
    ⟨Nat.le_refl _, fun _ _ _ _ => rfl⟩ ?_
  intro done x rest w' st' whole ⟨least, agree⟩
  have step := tried s w' x st'
  have more := step.visits_le key
  refine ⟨least.trans more, fun same => ?_⟩
  have known : x ∈ items := sub (by simp [whole])
  exact (step.agree steady known (by omega)).trans (agree (by omega))

/-- Where the second sweep stands with one place, the first one having come as far. Either it has
not written there, and tracker and content are those that the first sweep ended with; or both
trackers say the same, and if the contents differ the first sweep writes there again. -/
inductive Retraced (items : List Candidate) (key : List Part) (last r q : Applied τ × Memory) : Prop
  | untouched : Agree items key q.1.tracker last.1.tracker →
      q.2.contentAt key = last.2.contentAt key → Retraced items key last r q
  | followed : Agree items key q.1.tracker r.1.tracker → r.2.kindAt key ≠ none →
      (visits key r.1 < visits key last.1 ∨ q.2.contentAt key = r.2.contentAt key) →
      Retraced items key last r q

/-- One item more, at another place. -/
theorem Retraced.elsewhere {last r q r' q' : Applied τ × Memory} (h : Retraced items key last r q)
    (first : Tried s r.1 item r.2 r') (second : Tried s' q.1 item q.2 q') (steady : Steady τ items)
    (known : item ∈ items) (other : place item.output ≠ key)
    (keeps : Kinds.Keeps (fun _ => True) r.2.kindAt r'.2.kindAt) : Retraced items key last r' q' := by
  obtain ⟨agree, content, count⟩ := first.elsewhere steady known other
  obtain ⟨agree', content', -⟩ := second.elsewhere steady known other
  cases h with
  | untouched same content'' => exact .untouched (agree'.trans same) (content'.trans content'')
  | followed same there left =>
    refine .followed (agree'.trans (same.trans agree.symm)) (keeps.ne_none trivial there) ?_
    rw [count, content, content']
    exact left

section
variable {K : List Part → Prop} {last r q r' q' : Applied τ × Memory}
variable (first : Tried s r.1 item r.2 r') (second : Tried s' q.1 item q.2 q')
variable (steady : Steady τ items) (known : item ∈ items)
variable (within : ∀ a, Encloses a (place item.output) → K a)
variable (growth : Kinds.Keeps K r.2.kindAt r'.2.kindAt)
variable (keeps : Kinds.Keeps K r'.2.kindAt q.2.kindAt)
variable (payload : q.2.payload s' item = r.2.payload s item)
include first second steady known within growth keeps payload

/-- One item more, at a place that the second sweep has not written yet. -/
theorem retraced_of_untouched
    (same : Agree items (place item.output) q.1.tracker last.1.tracker)
    (content : q.2.contentAt (place item.output) = last.2.contentAt (place item.output))
    (least : visits (place item.output) r'.1 ≤ visits (place item.output) last.1)
    (idle : visits (place item.output) last.1 = visits (place item.output) r'.1 →
      Agree items (place item.output) last.1.tracker r'.1.tracker) :
    Retraced items (place item.output) last r' q' := by
  have below : Kinds.Keeps K r.2.kindAt q.2.kindAt := growth.trans keeps
  cases second with
  | skipped v' _ _ tracker => exact .untouched (fun c mem at' => tracker ▸ same c mem at') content
  | failed v' x' _ _ tracker _ contents =>
    refine .untouched (fun c mem at' => ?_) ((contents _).trans content)
    rw [tracker]
    exact same c mem at'
  | written v' x' stale accepts tracker more settled contents =>
    cases first with
    | skipped w' current there tracker' =>
      refine .followed (fun c mem at' => ?_) there (.inl (Nat.lt_of_le_of_ne least fun count => ?_))
      · rw [tracker, tracker']
        exact steady.current _ _ item known c mem at' current
      · -- Then the item would have been current at the end, and left alone by the second sweep.
        refine stale ⟨?_, below.ne_none (within _ (.refl _)) there⟩
        rw [same item known rfl, idle count.symm item known rfl, tracker']
        exact current
    | failed w' st' _ refused => exact absurd (accepts.of_keeps below within payload) refused
    | written w' st' _ _ tracker' _ settled' contents' =>
      refine .followed (fun c mem at' => ?_) (settled'.file ▸ nofun) (.inr ?_)
      · rw [tracker, tracker']
        exact steady.recorded _ _ item known c mem at'
      · rw [contents, contents', if_pos rfl, if_pos rfl, payload]

/-- One item more, at a place where both trackers say the same. -/
theorem retraced_of_followed (same : Agree items (place item.output) q.1.tracker r.1.tracker)
    (there : r.2.kindAt (place item.output) ≠ none)
    (left : visits (place item.output) r.1 < visits (place item.output) last.1 ∨
      q.2.contentAt (place item.output) = r.2.contentAt (place item.output)) :
    Retraced items (place item.output) last r' q' := by
  have inside : K (place item.output) := within _ (.refl _)
  have below : Kinds.Keeps K r.2.kindAt q.2.kindAt := growth.trans keeps
  have current_eq := same item known rfl
  have there' := below.ne_none inside there
  cases first with
  | skipped w' current _ tracker' count =>
    cases second with
    | skipped v' _ _ tracker =>
      refine .followed (fun c mem at' => ?_) there (by rwa [visits_congr count])
      rw [tracker, tracker']
      exact same c mem at'
    | failed v' x' stale => exact absurd ⟨current_eq.trans current, there'⟩ stale
    | written v' x' stale => exact absurd ⟨current_eq.trans current, there'⟩ stale
  | failed w' st' stale refused tracker' count contents' =>
    cases second with
    | skipped v' current => exact absurd ⟨current_eq.symm.trans current, there⟩ stale
    | failed v' x' _ _ tracker _ contents =>
      refine .followed (fun c mem at' => ?_) (growth.ne_none inside there) ?_
      · rw [tracker, tracker']
        exact same c mem at'
      · rwa [visits_congr count, contents, contents']
    | written v' x' _ accepts => exact absurd (accepts.of_keeps below within payload) refused
  | written w' st' stale accepts tracker' more settled contents' =>
    cases second with
    | skipped v' current => exact absurd ⟨current_eq.symm.trans current, there⟩ stale
    | failed v' x' _ refused =>
      exact absurd ((settled.keeps keeps within).accepts (payload ▸ accepts.payload)) refused
    | written v' x' _ _ tracker _ _ contents =>
      refine .followed (fun c mem at' => ?_) (settled.file ▸ nofun) (.inr ?_)
      · rw [tracker, tracker']
        exact steady.recorded _ _ item known c mem at'
      · rw [contents, contents', if_pos rfl, if_pos rfl, payload]

/-- One item more, at the place itself. -/
theorem Retraced.here (h : Retraced items (place item.output) last r q)
    (least : visits (place item.output) r'.1 ≤ visits (place item.output) last.1)
    (idle : visits (place item.output) last.1 = visits (place item.output) r'.1 →
      Agree items (place item.output) last.1.tracker r'.1.tracker) :
    Retraced items (place item.output) last r' q' := by
  cases h with
  | untouched same content =>
    exact retraced_of_untouched first second steady known within growth keeps payload same content
      least idle
  | followed same there left =>
    exact retraced_of_followed first second steady known within growth keeps payload same there left

end

section
variable {K : List Part → Prop} {st x : Memory} (steady : Steady τ items)
variable (apart : SourcesApart items)
variable (within : ∀ c ∈ items, ∀ a, Encloses a (place c.output) → K a)
variable (payload : ∀ c ∈ items, x.payload s' c = st.payload s c) (w v : Applied τ)
variable {last : Applied τ × Memory}
variable (ended : last = sweepFrom (stageStep s : _ → Candidate → StateM Memory _) items w st)
variable (tracker : v.tracker = last.1.tracker) (keeps : Kinds.Keeps K last.2.kindAt x.kindAt)
variable (content : ∀ c ∈ items,
  x.contentAt (place c.output) = last.2.contentAt (place c.output))
include steady apart within payload ended tracker keeps content

theorem prefix_retraced {c₀ : Candidate} (target : c₀ ∈ items) (front : List Candidate) :
    ∀ back, items = front ++ back → Retraced items (place c₀.output) last
      (sweepFrom (stageStep s : _ → Candidate → StateM Memory _) front w st)
      (sweepFrom (stageStep s' : _ → Candidate → StateM Memory _) front v x) := by
  induction front using List.reverseRecOn with
  | nil =>
    intro back _
    refine .untouched (fun c _ _ => ?_) (content c₀ target)
    exact congrArg (Tracker.isCurrent · c) tracker
  | append_singleton front c ih =>
    intro back whole
    have known : c ∈ items := by simp [whole]
    have sub : front ⊆ items := by
      rw [whole, List.append_assoc]
      exact List.subset_append_left _ _
    have before := ih (c :: back) (by rw [whole]; simp)
    have source := fun c' mem => apart c known c' (sub mem)
    have same := ((staged_sweep s' (apart.mono sub) v x).payload_eq source).trans
      ((payload c known).trans ((staged_sweep s (apart.mono sub) w st).payload_eq source).symm)
    have grown := (grown_sweep s' front v (.refl K x.kindAt)).keeps
    -- What the first sweep still does after this item.
    have more := whole ▸ List.subset_append_right (front ++ [c]) back
    have later := keeps_sweep_append K s (front ++ [c]) back w st
    have rest (r : Applied τ × Memory) := visits_sweep s steady more (place c₀.output) r.1 r.2
    have rest := rest (sweepFrom (stageStep s : _ → Candidate → StateM Memory _) (front ++ [c]) w st)
    simp only [← sweepFrom_append, ← whole, ← ended] at rest later
    rw [sweepFrom_concat] at rest later ⊢
    rw [sweepFrom_concat]
    generalize sweepFrom (stageStep s : _ → Candidate → StateM Memory _) front w st = r at *
    generalize sweepFrom (stageStep s' : _ → Candidate → StateM Memory _) front v x = q at *
    have first := tried s r.1 c r.2
    have second := tried s' q.1 c q.2
    have step := fun K => ((stepped s r.1 c r.2).grown (.refl K _)).keeps
    by_cases here : place c.output = place c₀.output
    · rw [← here] at before rest ⊢
      exact Retraced.here first second steady known (within c known) (step K)
        (later.trans (keeps.trans grown)) same before rest.1 rest.2
    · exact before.elsewhere first second steady known here (step _)

/-- The second sweep ends with the contents that it starts from. -/
theorem sweep_retraced (key : List Part) :
    (sweepFrom (stageStep s' : _ → Candidate → StateM Memory _) items v x).2.contentAt key =
      x.contentAt key := by
  by_cases target : ∃ c ∈ items, place c.output = key
  · obtain ⟨c, mem, rfl⟩ := target
    have whole := prefix_retraced steady apart within payload w v ended tracker keeps content mem
      items [] (List.append_nil _).symm
    rw [← ended] at whole
    cases whole with
    | untouched _ same => exact same.trans (content c mem).symm
    | followed _ _ left =>
      rcases left with more | same
      · exact absurd more (Nat.lt_irrefl _)
      · exact same.trans (content c mem).symm
  · obtain ⟨done, -, sub, -, contents⟩ := (staged_sweep s' apart v x).written
    rw [contents, lastAt_eq_none_iff.mpr]
    exact fun c mem same => target ⟨c, sub.subset mem, same⟩

end

end Memory
end Staging
