import Staging.Proofs.Memory.Sweep

/-!
How a tree grows. Staging and saving lose nothing that takes a place, apart from the scratch file of
the ledger; and they change the tree only at their own places and above them.
-/
namespace Staging.Memory
open Pass

/-! What takes the places -/

section
variable {K : List Part → Prop} {k : Kinds} {τ : Type} {s : Stager τ} {w : Applied τ}
variable {item : Candidate} {st : Memory}

theorem Kinds.Grown.openedFor {x : Kinds} (h : Grown K k x) (output : Path) :
    Grown K k (x.openedFor output) := by
  cases up : output.parent with
  | none =>
    rw [openedFor_of_none up]
    exact h
  | some dir =>
    rw [openedFor_of_some up]
    exact h.opened dir.parts

variable [Tracker τ]

theorem Stepped.grown {r : Applied τ × Memory} (step : Stepped s w item st r)
    (h : Kinds.Grown K k st.kindAt) : Kinds.Grown K k r.2.kindAt := by
  cases step with
  | kept => exact h
  | opened =>
    simp only
    rw [kindAt_openedFor]
    exact h.openedFor _
  | written w' content more told free room =>
    simp only
    rw [kindAt_addFile, kindAt_openedFor]
    refine (h.openedFor _).withFile fun _ => ?_
    rwa [kindAt_openedFor] at room

theorem grown_sweep (s : Stager τ) (items : List Candidate) (w : Applied τ)
    (h : Kinds.Grown K k st.kindAt) :
    Kinds.Grown K k
      (sweepFrom (stageStep s : Applied τ → Candidate → StateM Memory _) items w st).2.kindAt :=
  sweepFrom_invariant (fun _ _ st' => Kinds.Grown K k st'.kindAt) h
    fun _ x _ w' st' _ grown => (stepped s w' x st').grown grown

/-- What the next candidate goes into is there after it, unless it was left alone. -/
theorem Stepped.keeps_openedFor {r : Applied τ × Memory} (step : Stepped s w item st r)
    (stale : Tracker.isCurrent w.tracker item = false) (free : ¬st.Blocked ⟨item.output⟩) :
    Kinds.Keeps K (st.openedFor ⟨item.output⟩).kindAt r.2.kindAt := by
  cases step with
  | kept w' same told why =>
    rcases why with current | blocked
    · rw [stale] at current
      cases current
    · exact absurd blocked free
  | opened => exact .refl K _
  | written w' content more told free room =>
    simp only
    rw [kindAt_addFile]
    exact Kinds.keeps_withFile fun _ => room

/-- The rest of a sweep loses nothing. -/
theorem keeps_sweep_append (K : List Part → Prop) (s : Stager τ) (front back : List Candidate)
    (w : Applied τ) (st : Memory) :
    let step : Applied τ → Candidate → StateM Memory _ := stageStep s
    Kinds.Keeps K (sweepFrom step front w st).2.kindAt
      (sweepFrom step (front ++ back) w st).2.kindAt := by
  intro step
  rw [sweepFrom_append]
  exact (grown_sweep s back _ (.refl K _)).keeps

end

/-! Saving -/

/-- The hidden name beside a name. -/
theorem toList_hidden (base : String) :
    ("." ++ base ++ ".tmp").toList = '.' :: (base.toList ++ ['.', 't', 'm', 'p']) := by
  rw [String.toList_append, String.toList_append]
  rfl

theorem isName_hidden {base : String} (plain : Path.slash ∉ Utf8.encode base) :
    Path.IsName ("." ++ base ++ ".tmp" : String) := by
  have bytes : (Spelling.ofString ("." ++ base ++ ".tmp")).bytes =
      Path.dot :: (Utf8.encode base ++ Utf8.encode ".tmp") := by
    rw [Spelling.ofString, Utf8.encode, toList_hidden, Utf8.encodeChars, List.flatMap_cons,
      List.flatMap_append]
    rfl
  have longer : 0 < (Utf8.encode ".tmp").length := by decide
  constructor <;> rw [bytes]
  · exact List.cons_ne_nil _ _
  · simp [List.ne_nil_of_length_pos longer]
  · intro same
    have := congrArg List.length same
    have length : (Utf8.encode ".tmp").length = 4 := by decide
    rw [List.length_cons, List.length_append, length] at this
    simp at this
  · rw [List.mem_cons, List.mem_append, not_or, not_or]
    exact ⟨by decide, plain, by decide⟩

/-- The hidden name beside any name, text or not. -/
theorem isName_scratch {name : Spelling} (h : Path.IsName name) :
    Path.IsName ("." ++ name.shown ++ ".tmp" : String) := by
  refine isName_hidden fun slash => h.plain ?_
  have bytes : Utf8.encode name.shown = Utf8.mend name.bytes := Spelling.bytes_shown name
  rwa [bytes, Utf8.mem_mend_iff (by decide)] at slash

/-- The scratch file has a name beside the ledger's, or below a ledger that has none. -/
theorem parts_scratchFor (p : Path) : ∃ front name,
    (Ledger.scratchFor p).parts = front ++ [.name name] ∧
    (front = p.parts ∨ ∃ other, p.parts = front ++ [.name other] ∧ other ≠ name) := by
  rw [Ledger.scratchFor]
  cases last : p.fileName with
  | none =>
    rw [Option.map_none, Option.getD_none]
    have named : Path.IsName ("." ++ "outputs" ++ ".tmp" : String) := isName_hidden (by decide)
    generalize Spelling.ofString ("." ++ "outputs" ++ ".tmp") = name at named ⊢
    refine ⟨p.parts, name, ?_, .inl rfl⟩
    rw [Path.parts_withFileName p named, last, Option.isSome_none, if_neg Bool.false_ne_true]
  | some old =>
    rw [Option.map_some, Option.getD_some]
    have named := isName_scratch (Path.isName_of_fileName last)
    refine ⟨p.parts.dropLast, Spelling.ofString ("." ++ old.shown ++ ".tmp"), ?_, .inr ⟨old, Path.parts_of_fileName last, ?_⟩⟩
    · rw [Path.parts_withFileName p named, last, Option.isSome_some, if_pos rfl]
    · intro same
      -- as a text, the name would be longer than itself
      have shown := congrArg Spelling.shown same
      rw [Spelling.shown_ofString] at shown
      have longer := toList_hidden old.shown
      rw [← shown] at longer
      have := congrArg List.length longer
      rw [List.length_cons, List.length_append] at this
      omega

theorem not_encloses_scratch (p : Path) : ¬Encloses (Ledger.scratchFor p).parts p.parts := by
  obtain ⟨front, name, scratch, place⟩ := parts_scratchFor p
  rw [scratch]
  rintro (down | ⟨here, -⟩)
  · rcases place with same | ⟨other, same, ne⟩
    · have := down.length_le
      rw [same, List.length_append, List.length_singleton] at this
      omega
    · rw [same, List.prefix_append_right_inj, List.cons_prefix_cons] at down
      cases down.1
      exact ne rfl
  · have last := congrArg List.getLast? here
    simp at last

theorem scratch_ne (p : Path) : (Ledger.scratchFor p).parts ≠ p.parts := fun same =>
  not_encloses_scratch p (same ▸ .refl _)

theorem scratch_not_mem_above {p : Path} {top : List Part}
    (up : above (Ledger.scratchFor p).parts = some top) :
    (Ledger.scratchFor p).parts ∉ ascent top := by
  refine not_mem_ascent_above up ?_
  rintro rfl
  obtain ⟨front, name, scratch, -⟩ := parts_scratchFor p
  have here := eq_here_of_above_self up
  rw [scratch] at here
  have last := congrArg List.getLast? here
  simp at last

section
variable (st : Memory) (l : Ledger) (p : Path)

@[simp] theorem kindAt_drafted : (st.drafted l p).kindAt =
    Kinds.openedAbove (Kinds.withFile st.kindAt (Ledger.scratchFor p).parts)
      (Ledger.scratchFor p).parts := by
  rw [drafted_eq, kindAt_addFile]

theorem scratch_of_drafted :
    (st.drafted l p).kindAt (Ledger.scratchFor p).parts = some .file := by
  rw [kindAt_drafted, Kinds.withFile_self]

@[simp] theorem unreadable_drafted : (st.drafted l p).unreadable = st.unreadable := by
  rw [drafted_eq, unreadable_addFile]

theorem at?_drafted {key : List Part} (outside : ¬Encloses key (Ledger.scratchFor p).parts) :
    (st.drafted l p).at? key = st.at? key := by
  rw [drafted_eq]
  exact at?_addFile st _ fun mem => outside (encloses_of_mem_ascent mem)

/-- The tree with a ledger saved. -/
def saved (time : Int64) : Memory :=
  ((st.drafted l p).discard (Ledger.scratchFor p)).insertFile p (Ledger.encode l.units) time

theorem saved_eq (time : Int64) : st.saved l p time =
    ((st.drafted l p).discard (Ledger.scratchFor p)).insertFile p (Ledger.encode l.units) time := rfl

attribute [irreducible] saved

/-- No directory is where the scratch file goes, nor then where the ledger goes. -/
structure Room : Prop where
  scratch : st.kindAt (Ledger.scratchFor p).parts ≠ some .dir
  ledger : (st.drafted l p).kindAt p.parts ≠ some .dir

theorem save_of_room (room : st.Room l p) :
    ∃ time, exec (l.save p : StateM Memory _) st = (.ok (), st.saved l p time) := by
  rcases save_cases l p st with ⟨dir, -⟩ | ⟨-, dir, -⟩ | ⟨-, -, time, saved⟩
  · exact absurd dir room.scratch
  · exact absurd dir room.ledger
  · exact ⟨time, by rw [saved, saved_eq]⟩

theorem room_of_save (ok : (exec (l.save p : StateM Memory _) st).1 = .ok ()) : st.Room l p := by
  rcases save_cases l p st with ⟨-, e, saved⟩ | ⟨-, -, e, saved⟩ | ⟨scratch, ledger, -⟩
  · rw [saved] at ok
    cases ok
  · rw [saved] at ok
    cases ok
  · exact ⟨scratch, ledger⟩

variable {st l p}

theorem kindAt_saved (time : Int64) : (st.saved l p time).kindAt =
    Kinds.openedAbove (Kinds.withFile (Kinds.without (st.drafted l p).kindAt
      (Ledger.scratchFor p).parts) p.parts) p.parts := by
  rw [saved_eq, kindAt_insertFile, kindAt_discard]

theorem ledger_of_saved (time : Int64) : (st.saved l p time).kindAt p.parts = some .file := by
  rw [kindAt_saved, Kinds.withFile_self]

theorem scratch_of_saved (time : Int64) :
    (st.saved l p time).kindAt (Ledger.scratchFor p).parts = none := by
  rw [kindAt_saved]
  rcases Kinds.withFile_cases p.parts (Ledger.scratchFor p).parts with same | same | ⟨above, -⟩
  · rw [same, Kinds.without, if_pos rfl]
  · exact absurd same (scratch_ne p)
  · exact absurd above.2 (not_encloses_scratch p)

theorem contentAt_saved (time : Int64) (key : List Part) : (st.saved l p time).contentAt key =
    if key = p.parts then some (Ledger.encode l.units)
    else if key = (Ledger.scratchFor p).parts then none
    else st.contentAt key := by
  rw [saved_eq, contentAt_insertFile, contentAt_discard, contentAt_drafted]
  split
  · rfl
  · split <;> rfl

@[simp] theorem unreadable_saved (time : Int64) :
    (st.saved l p time).unreadable = st.unreadable := by
  rw [saved_eq, unreadable_insertFile, unreadable_discard, unreadable_drafted]

theorem at?_saved (time : Int64) {key : List Part} (ledger : ¬Encloses key p.parts)
    (scratch : ¬Encloses key (Ledger.scratchFor p).parts) :
    (st.saved l p time).at? key = st.at? key := by
  rw [saved_eq, at?_insertFile _ _ _ fun mem => ledger (encloses_of_mem_ascent mem),
    at?_discard _ fun mem => scratch (encloses_of_mem_ascent mem), at?_drafted st l p scratch]

variable {K : List Part → Prop} {k : Kinds}

theorem grown_drafted (h : Kinds.Grown K k st.kindAt) (room : st.Room l p) :
    Kinds.Grown K k (st.drafted l p).kindAt := by
  rw [kindAt_drafted]
  exact h.withFile fun _ => room.scratch

theorem grown_saved (h : Kinds.Grown K k (st.drafted l p).kindAt) (room : st.Room l p)
    (scratch : ¬K (Ledger.scratchFor p).parts) (time : Int64) :
    Kinds.Grown K k (st.saved l p time).kindAt := by
  rw [kindAt_saved]
  refine (h.without scratch).withFile fun _ => ?_
  rw [Kinds.without, if_neg (scratch_ne p).symm]
  exact room.ledger

end

/-! The places of the changes -/

/-- Two trees that are the same but for the contents of some places and the directories above
them. -/
structure Confined (places : List (List Part)) (s t : Memory) : Prop where
  unreadable : t.unreadable = s.unreadable
  entries : ∀ key, (∀ place ∈ places, ¬Encloses key place) → t.at? key = s.at? key
  content : ∀ key, key ∉ places → t.contentAt key = s.contentAt key

namespace Confined

variable {places : List (List Part)} {s t u : Memory}

theorem refl (places : List (List Part)) (s : Memory) : Confined places s s :=
  ⟨rfl, fun _ _ => rfl, fun _ _ => rfl⟩

theorem trans (h : Confined places s t) (h' : Confined places t u) : Confined places s u :=
  ⟨h'.unreadable.trans h.unreadable, fun key out => (h'.entries key out).trans (h.entries key out),
    fun key out => (h'.content key out).trans (h.content key out)⟩

theorem mono {more : List (List Part)} (h : Confined places s t) (sub : places ⊆ more) :
    Confined more s t :=
  ⟨h.unreadable, fun key out => h.entries key fun place mem => out place (sub mem),
    fun key out => h.content key fun mem => out (sub mem)⟩

variable {τ : Type}

theorem deleted {paths : List String} {v w : Applied τ} (h : Deleted paths v s w t)
    (among : ∀ path ∈ paths, place path ∈ places) : Confined places s t where
  unreadable := h.unreadable
  entries key out := h.entries key fun path mem => out _ (among path mem)
  content key out := by
    rw [h.content, if_neg]
    intro mem
    obtain ⟨path, deleted, rfl⟩ := List.mem_map.mp mem
    exact out (among path deleted)

theorem staged {σ : Stager τ} {items : List Candidate} {v w : Applied τ}
    (h : Staged σ items v s w t) (among : ∀ c ∈ items, place c.output ∈ places) :
    Confined places s t where
  unreadable := h.unreadable
  entries key out := h.entries key fun c mem => out _ (among c mem)
  content key out := by
    obtain ⟨done, -, sub, -, content⟩ := h.written
    rw [content]
    split
    · rename_i c last
      obtain ⟨mem, same⟩ := mem_of_lastAt last
      exact absurd (same ▸ among c (sub.subset mem)) out
    · rfl

theorem openedFor {output : String} (among : place output ∈ places) :
    Confined places s (s.openedFor ⟨output⟩) where
  unreadable := unreadable_openedFor s _
  entries _ out := at?_openedFor s (out _ among)
  content _ _ := contentAt_openedFor s _ _

variable {l : Ledger} {p : Path}

theorem drafted (among : (Ledger.scratchFor p).parts ∈ places) :
    Confined places s (s.drafted l p) where
  unreadable := unreadable_drafted s l p
  entries key out := at?_drafted s l p (out _ among)
  content key out := by
    rw [contentAt_drafted, if_neg]
    exact fun same => out (same ▸ among)

theorem saved (ledger : p.parts ∈ places) (scratch : (Ledger.scratchFor p).parts ∈ places)
    (time : Int64) : Confined places s (s.saved l p time) where
  unreadable := unreadable_saved time
  entries key out := at?_saved time (out _ ledger) (out _ scratch)
  content key out := by
    rw [contentAt_saved, if_neg (fun same : key = _ => out (same ▸ ledger)),
      if_neg (fun same : key = _ => out (same ▸ scratch))]

end Confined
end Staging.Memory
