import Staging.Proofs.Memory.Growth

/-!
Two sweeps over the same candidates. If the second tree has what the first one has, and nothing that
the first sweep does not end with, then both sweeps write the same candidates: a directory or a file
that the second one finds already is one that the first one makes.
-/
namespace Staging.Memory
open Pass

section
variable {K : List Part → Prop} {k u x : Kinds}

theorem Kinds.Between.openedFor (h : Between K k x u) {output : Path}
    (within : ∀ a, Encloses a output.parts → K a) (bound : Keeps K (k.openedFor output) u) :
    Between K (k.openedFor output) (x.openedFor output) u := by
  cases up : output.parent with
  | none =>
    rw [openedFor_of_none up, openedFor_of_none up]
    exact h
  | some dir =>
    rw [openedFor_of_some up] at bound
    rw [openedFor_of_some up, openedFor_of_some up]
    exact h.opened (fun a mem => within a (above_of_parent up mem).2) bound

theorem Kinds.Between.putFile (h : Between K k x u) {key : List Part}
    (within : ∀ a, Encloses a key → K a) (bound : Keeps K ((k.withFile key).openedAbove key) u) :
    Between K ((k.withFile key).openedAbove key) ((x.withFile key).openedAbove key) u := by
  have file := bound key .file (within key (.refl key)) (withFile_self key)
  refine (h.withFile file).openedAbove ?_ bound
  exact fun a mem => within a (encloses_of_mem_ascent mem)

end

section
variable {K : List Part → Prop} {u : Kinds} {st x : Memory} {output : Path}

theorem Blocked.between (h : Kinds.Between K st.kindAt x.kindAt u)
    (within : ∀ a, Encloses a output.parts → K a) (blocked : st.Blocked output) :
    x.Blocked output := by
  obtain ⟨dir, up, file⟩ := blocked
  exact ⟨dir, up, h.lower _ _ (within _ (above_of_parent up (self_mem_ascent _)).2) file⟩

/-- A file in the way is in the way of both, since the first tree would end with a directory. -/
theorem not_blocked_between (h : Kinds.Between K st.kindAt x.kindAt u)
    (within : ∀ a, Encloses a output.parts → K a) (free : ¬st.Blocked output)
    (bound : Kinds.Keeps K (st.openedFor output).kindAt u) : ¬x.Blocked output := by
  rintro ⟨dir, up, file⟩
  have inside : K dir.parts := within _ (above_of_parent up (self_mem_ascent _)).2
  rw [kindAt_openedFor, Kinds.openedFor_of_some up] at bound
  obtain ⟨kind, made⟩ := Option.ne_none_iff_exists'.mp (Kinds.opened_self st.kindAt dir.parts)
  have last := bound _ kind inside made
  rw [h.upper _ _ inside file] at last
  cases last
  rcases Kinds.opened_cases (k := st.kindAt) dir.parts dir.parts with same | ⟨-, dir'⟩
  · exact free ⟨dir, up, same.symm.trans made⟩
  · rw [made] at dir'
    cases dir'

variable {τ : Type} [Tracker τ] {σ σ' : Stager τ} {w v : Applied τ} {item : Candidate}

/-- One candidate in both trees. -/
theorem Stepped.abreast {r q : Applied τ × Memory} (first : Stepped σ w item st r)
    (second : Stepped σ' v item x q) (h : Kinds.Between K st.kindAt x.kindAt u)
    (within : ∀ a, Encloses a (place item.output) → K a)
    (payload : x.payload σ' item = st.payload σ item)
    (stale : Tracker.isCurrent w.tracker item = false)
    (stale' : Tracker.isCurrent v.tracker item = false) (bound : Kinds.Keeps K r.2.kindAt u) :
    Kinds.Between K r.2.kindAt q.2.kindAt u ∧
      ∃ more, r.1.processed = w.processed ++ more ∧ q.1.processed = v.processed ++ more := by
  have current : ¬Tracker.isCurrent w.tracker item = true := by simp [stale]
  have current' : ¬Tracker.isCurrent v.tracker item = true := by simp [stale']
  cases first with
  | kept w' same told why =>
    have blocked := (why.resolve_left current).between h within
    cases second with
    | kept v' same' => exact ⟨h, [], by simp [same], by simp [same']⟩
    | opened v' _ _ free => exact absurd blocked free
    | written v' _ _ _ free => exact absurd blocked free
  | opened w' same told free why =>
    have free' := not_blocked_between h within free bound
    have between := h.openedFor within (by rwa [kindAt_openedFor] at bound)
    rw [← kindAt_openedFor, ← kindAt_openedFor] at between
    cases second with
    | kept v' _ _ why' => exact absurd (why'.resolve_left current') free'
    | opened v' same' => exact ⟨between, [], by simp [same], by simp [same']⟩
    | written v' content _ _ _ room found =>
      rcases why with nothing | dir
      · rw [payload, nothing] at found
        cases found
      · exact absurd (between.lower _ _ (within _ (.refl _)) dir) room
  | written w' content more told free room found =>
    simp only at bound
    rw [kindAt_addFile] at bound
    have opened : Kinds.Keeps K (st.openedFor ⟨item.output⟩).kindAt u :=
      (Kinds.keeps_withFile fun _ => room).trans bound
    have free' := not_blocked_between h within free opened
    have between := h.openedFor within (by rwa [kindAt_openedFor] at opened)
    rw [← kindAt_openedFor, ← kindAt_openedFor] at between
    cases second with
    | kept v' _ _ why' => exact absurd (why'.resolve_left current') free'
    | opened v' _ _ _ why' =>
      rcases why' with nothing | dir
      · rw [← payload, nothing] at found
        cases found
      · have file := bound (place item.output) .file (within _ (.refl _))
          (Kinds.withFile_self _)
        have last := between.upper (place item.output) .dir (within _ (.refl _)) dir
        rw [file] at last
        cases last
    | written v' content' more' =>
      refine ⟨?_, [item], more, more'⟩
      simp only
      rw [kindAt_addFile, kindAt_addFile]
      exact between.putFile within bound

end

variable {K : List Part → Prop} {u : Kinds} {st x : Memory} {items : List Candidate}

section
variable (σ σ' : Stager NoTracking) (apart : SourcesApart items)
variable (h : Kinds.Between K st.kindAt x.kindAt u)
variable (within : ∀ c ∈ items, ∀ a, Encloses a (place c.output) → K a)
variable (payload : ∀ c ∈ items, x.payload σ' c = st.payload σ c) (w v : Applied NoTracking)
variable (bound : Kinds.Keeps K
  (sweepFrom (stageStep σ : _ → Candidate → StateM Memory _) items w st).2.kindAt u)
include apart h within payload bound

/-- The trees stay abreast all along the candidates. -/
theorem prefix_abreast (front : List Candidate) : ∀ back, items = front ++ back →
    let r := sweepFrom (stageStep σ : _ → Candidate → StateM Memory _) front w st
    let q := sweepFrom (stageStep σ' : _ → Candidate → StateM Memory _) front v x
    Kinds.Between K r.2.kindAt q.2.kindAt u ∧
      ∃ done, r.1.processed = w.processed ++ done ∧ q.1.processed = v.processed ++ done := by
  induction front using List.reverseRecOn with
  | nil => exact fun _ _ => ⟨h, [], (List.append_nil _).symm, (List.append_nil _).symm⟩
  | append_singleton front c ih =>
    intro back whole r q
    have known : c ∈ items := by simp [whole]
    have sub : front ⊆ items := by
      rw [whole, List.append_assoc]
      exact List.subset_append_left _ _
    obtain ⟨between, done, processed, processed'⟩ := ih (c :: back) (by rw [whole]; simp)
    have source := fun c' mem => apart c known c' (sub mem)
    have same := ((staged_sweep σ' (apart.mono sub) v x).payload_eq source).trans
      ((payload c known).trans ((staged_sweep σ (apart.mono sub) w st).payload_eq source).symm)
    have rest := keeps_sweep_append K σ (front ++ [c]) back w st
    rw [← whole] at rest
    have bound : Kinds.Keeps K r.2.kindAt u := rest.trans bound
    have first : r = _ := sweepFrom_concat (stageStep σ : _ → Candidate → StateM Memory _) front c w st
    have second : q = _ :=
      sweepFrom_concat (stageStep σ' : _ → Candidate → StateM Memory _) front c v x
    clear_value r q
    rw [first] at bound
    obtain ⟨between, more, added, added'⟩ := Stepped.abreast (stepped σ _ c _) (stepped σ' _ c _)
      between (within c known) same rfl rfl bound
    rw [← first, ← second] at between
    rw [← first, processed, List.append_assoc] at added
    rw [← second, processed', List.append_assoc] at added'
    exact ⟨between, done ++ more, added, added'⟩

/-- Without a tracker the two sweeps process the same candidates, and a content that the trees did
not differ in, or that was written, is the same in both. -/
theorem sweep_abreast :
    let r := sweepFrom (stageStep σ : _ → Candidate → StateM Memory _) items w st
    let q := sweepFrom (stageStep σ' : _ → Candidate → StateM Memory _) items v x
    Kinds.Between K r.2.kindAt q.2.kindAt u ∧ ∃ done, r.1.processed = w.processed ++ done ∧
      q.1.processed = v.processed ++ done ∧
      ∀ key, (lastAt done key = none → x.contentAt key = st.contentAt key) →
        q.2.contentAt key = r.2.contentAt key := by
  intro r q
  obtain ⟨between, done, processed, processed'⟩ :=
    prefix_abreast σ σ' apart h within payload w v bound items [] (List.append_nil _).symm
  obtain ⟨written, eq, sub, -, content⟩ := (staged_sweep σ apart w st).written
  obtain ⟨written', eq', -, -, content'⟩ := (staged_sweep σ' apart v x).written
  obtain rfl := List.append_cancel_left (processed.symm.trans eq)
  obtain rfl := List.append_cancel_left (processed'.symm.trans eq')
  refine ⟨between, done, processed, processed', fun key start => ?_⟩
  rw [content, content']
  cases last : lastAt done key with
  | none => exact start last
  | some c => exact payload c (sub.subset (mem_of_lastAt last).1)

end

end Staging.Memory
