import Staging.Proofs.Memory.Steps

/-!
The two sweeps of a pass over a tree in memory. The deletions take away the files at their places
and nothing else. The candidates only add: files at their outputs, and directories above them where
nothing was.
-/
namespace Staging.Memory
open Pass

variable {τ : Type}

/-- The place of an output. -/
def place (output : String) : List Part := (⟨output⟩ : Path).parts

/-- The tree without the files at some places. -/
def Kinds.swept (k : Kinds) (keys : List (List Part)) : Kinds := fun key =>
  if k key = some .file ∧ keys.contains key then none else k key

theorem Kinds.swept_apply (k : Kinds) (keys : List (List Part)) (key : List Part) :
    k.swept keys key = if k key = some .file ∧ key ∈ keys then none else k key := by
  simp only [swept, List.contains_iff_mem]

/-- Nothing that was swept is a file any more. -/
theorem Kinds.swept_ne_file (k : Kinds) {keys : List (List Part)} {key : List Part}
    (mem : key ∈ keys) : k.swept keys key ≠ some .file := by
  rw [swept_apply]
  split
  · nofun
  · rename_i other
    exact fun file => other ⟨file, mem⟩

theorem Kinds.swept_append (k : Kinds) (keys more : List (List Part)) :
    k.swept (keys ++ more) = (k.swept keys).swept more := by
  funext key
  simp only [swept_apply, List.mem_append]
  by_cases gone : k key = some .file ∧ key ∈ keys
  · rw [if_pos ⟨gone.1, .inl gone.2⟩, if_pos gone, if_neg]
    intro again
    cases again.1
  · rw [if_neg gone]
    by_cases file : k key = some .file
    · have mem : key ∉ keys := fun mem => gone ⟨file, mem⟩
      simp [file, mem]
    · simp [file]

theorem Kinds.swept_singleton (k : Kinds) (key : List Part) :
    k.swept [key] = if k key = some .file then k.without key else k := by
  funext x
  simp only [swept_apply, List.mem_singleton]
  by_cases same : x = key
  · subst same
    by_cases file : k x = some .file <;> simp [file, without]
  · by_cases file : k key = some .file <;> simp [same, file, without]

/-- Sweeping again takes nothing more away. -/
theorem Kinds.swept_swept (k : Kinds) {keys part : List (List Part)} (sub : part ⊆ keys) :
    (k.swept part).swept keys = k.swept keys := by
  funext key
  by_cases gone : k key = some .file ∧ key ∈ part
  · have first : k.swept part key = none := by rw [swept_apply, if_pos gone]
    have again : (k.swept part).swept keys key = none := by
      rw [swept_apply, if_neg (by simp [first]), first]
    rw [again, swept_apply, if_pos ⟨gone.1, sub gone.2⟩]
  · have first : k.swept part key = k key := by rw [swept_apply, if_neg gone]
    rw [swept_apply, first, ← swept_apply]

theorem Kinds.kind_of_swept {k : Kinds} {keys : List (List Part)} {key : List Part} {kind : Kind}
    (found : k.swept keys key = some kind) : k key = some kind := by
  rw [swept_apply] at found
  split at found
  · cases found
  · exact found

/-- What has grown from a swept tree, within a bound, is between the two when it is swept once
more: only files of the bound are taken away. -/
theorem Kinds.Grown.between_swept {K : List Part → Prop} {s x u : Kinds} (h : Grown K s x)
    (upper : Keeps K x u) {keys : List (List Part)} (swept : ∀ key ∈ keys, s key ≠ some .file) :
    Between K s (x.swept keys) u := by
  constructor
  · intro key kind hk found
    have still := h.keeps key kind hk found
    rw [Kinds.swept_apply, if_neg, still]
    rintro ⟨file, mem⟩
    rw [file] at still
    cases still
    exact swept key mem found
  · intro key kind hk found
    exact upper key kind hk (kind_of_swept found)
  · intro key dir hk hd free taken found
    obtain ⟨kind, there⟩ := Option.ne_none_iff_exists'.mp taken
    have lies := h.rooted key dir hk hd free (by simp [kind_of_swept there]) found
    rw [Kinds.swept_apply]
    split
    · rename_i gone
      exact .inr (upper dir .file hd gone.1)
    · exact .inl lies

/-! Deletions -/

/-- What a sweep of deletions has done. -/
structure Deleted (paths : List String) (v : Applied τ) (st : Memory) (w : Applied τ)
    (st' : Memory) : Prop where
  kinds : st'.kindAt = Kinds.swept st.kindAt (paths.map place)
  content : ∀ key, st'.contentAt key =
    if key ∈ paths.map place then none else st.contentAt key
  unreadable : st'.unreadable = st.unreadable
  entries : ∀ key, (∀ path ∈ paths, ¬Encloses key (place path)) → st'.at? key = st.at? key
  processed : w.processed = v.processed
  told : ∀ message ∈ v.messages, message ∈ w.messages
  refused : ∀ path ∈ paths, st.kindAt (place path) = some .dir →
    ∃ e, undeleted ⟨path⟩ e ∈ w.messages

theorem Deleted.nil (v : Applied τ) (st : Memory) : Deleted [] v st v st where
  kinds := by
    funext key
    rw [Kinds.swept_apply, if_neg]
    simp
  content key := by
    rw [if_neg]
    simp
  unreadable := rfl
  entries _ _ := rfl
  processed := rfl
  told _ mem := mem
  refused _ mem := by cases mem

/-- A deletion that leaves the tree as it is, since there is no file at its place. -/
theorem Deleted.of_not_file {path : String} {v w : Applied τ} {st : Memory}
    (other : st.kindAt (place path) ≠ some .file) (processed : w.processed = v.processed)
    (told : ∀ message ∈ v.messages, message ∈ w.messages)
    (refused : st.kindAt (place path) = some .dir → ∃ e, undeleted ⟨path⟩ e ∈ w.messages) :
    Deleted [path] v st w st where
  kinds := by rw [List.map_singleton, Kinds.swept_singleton, if_neg other]
  content key := by
    simp only [List.map_singleton, List.mem_singleton]
    by_cases same : key = place path
    · rw [same, if_pos rfl]
      exact contentAt_of_kind other
    · rw [if_neg same]
  unreadable := rfl
  entries _ _ := rfl
  processed := processed
  told := told
  refused q mem found := by
    rw [List.mem_singleton] at mem
    subst mem
    exact refused found

theorem Deleted.append {paths more : List String} {u v w : Applied τ} {st st' st'' : Memory}
    (h : Deleted paths u st v st') (h' : Deleted more v st' w st'') :
    Deleted (paths ++ more) u st w st'' where
  kinds := by rw [h'.kinds, h.kinds, List.map_append, Kinds.swept_append]
  content key := by
    simp only [h'.content, h.content, List.map_append, List.mem_append]
    by_cases first : key ∈ paths.map place
    · simp [first]
    · simp [first]
  unreadable := h'.unreadable.trans h.unreadable
  entries key out := by
    rw [h'.entries key fun path mem => out path (List.mem_append_right _ mem)]
    exact h.entries key fun path mem => out path (List.mem_append_left _ mem)
  processed := h'.processed.trans h.processed
  told message mem := h'.told message (h.told message mem)
  refused path mem dir := by
    rcases List.mem_append.mp mem with mem | mem
    · obtain ⟨e, told⟩ := h.refused path mem dir
      exact ⟨e, h'.told _ told⟩
    · refine h'.refused path mem ?_
      rw [h.kinds, Kinds.swept_apply, if_neg, dir]
      simp [dir]

variable [Tracker τ]

/-- A deletion takes a file away, and nothing else. -/
theorem exec_deleteStep (w : Applied τ) (path : String) (st : Memory) :
    (exec (deleteStep w path : StateM Memory _) st).2 =
      if st.kindAt (place path) = some .file then st.discard ⟨path⟩ else st := by
  rw [place]
  rcases deleteStep_cases w path st with ⟨free, step⟩ | ⟨file, step⟩ | ⟨dir, step⟩
  · rw [step, if_neg (by simp [free])]
  · rw [step, if_pos file]
  · rw [step, if_neg (by simp [dir])]

theorem deleted_step (path : String) (w : Applied τ) (st : Memory) :
    Deleted [path] w st (exec (deleteStep w path : StateM Memory _) st).1
      (exec (deleteStep w path : StateM Memory _) st).2 := by
  rcases deleteStep_cases w path st with ⟨free, step⟩ | ⟨file, step⟩ | ⟨dir, step⟩
  · rw [step]
    refine .of_not_file ?_ rfl (fun _ mem => mem) ?_
    · simp [place, free]
    · intro dir
      cases free.symm.trans dir
  · rw [step]
    have kind : st.kindAt (place path) = some .file := file
    constructor
    · rw [List.map_singleton, Kinds.swept_singleton, if_pos kind]
      exact kindAt_discard st ⟨path⟩
    · intro key
      simp only [List.map_singleton, List.mem_singleton]
      exact contentAt_discard st ⟨path⟩ key
    · exact unreadable_discard st ⟨path⟩
    · intro key out
      refine at?_discard st fun mem => ?_
      exact out path List.mem_cons_self (encloses_of_mem_ascent mem)
    · rfl
    · exact fun _ mem => mem
    · intro q mem dir
      rw [List.mem_singleton.mp mem, kind] at dir
      cases dir
  · rw [step]
    refine .of_not_file ?_ rfl (fun _ mem => List.mem_append_left _ mem) fun _ => ?_
    · simp [place, dir]
    · exact ⟨_, List.mem_append_right _ List.mem_cons_self⟩

/-- A whole sweep of deletions. -/
theorem deleted_sweep (paths : List String) (w : Applied τ) (st : Memory) :
    Deleted paths w st
      (sweepFrom (deleteStep : Applied τ → String → StateM Memory _) paths w st).1
      (sweepFrom (deleteStep : Applied τ → String → StateM Memory _) paths w st).2 :=
  sweepFrom_invariant (fun done w' st' => Deleted done w st w' st') (Deleted.nil w st)
    fun _ x _ w' st' _ h => h.append (deleted_step x w' st')

/-! Candidates -/

/-- The last candidate for a place. -/
def lastAt (items : List Candidate) (key : List Part) : Option Candidate :=
  (items.filter fun c => place c.output == key).getLast?

theorem lastAt_concat (items : List Candidate) (item : Candidate) (key : List Part) :
    lastAt (items ++ [item]) key =
      if place item.output = key then some item else lastAt items key := by
  rw [lastAt, List.filter_append, List.filter_cons]
  by_cases same : place item.output = key
  · rw [if_pos (beq_iff_eq.mpr same), if_pos same]
    simp
  · rw [if_neg (by simpa using same), if_neg same]
    simp [lastAt]

theorem lastAt_eq_none_iff {items : List Candidate} {key : List Part} :
    lastAt items key = none ↔ ∀ c ∈ items, place c.output ≠ key := by
  rw [lastAt, List.getLast?_eq_none_iff, List.filter_eq_nil_iff]
  simp only [beq_iff_eq]

theorem mem_of_lastAt {items : List Candidate} {key : List Part} {c : Candidate}
    (h : lastAt items key = some c) : c ∈ items ∧ place c.output = key := by
  have mem := List.mem_filter.mp (List.mem_of_getLast? h)
  exact ⟨mem.1, beq_iff_eq.mp mem.2⟩

/-- No output of the items is a source of one of them. -/
def SourcesApart (items : List Candidate) : Prop :=
  ∀ c ∈ items, ∀ c' ∈ items, place c'.output ≠ c.source.parts

instance (items : List Candidate) : Decidable (SourcesApart items) :=
  inferInstanceAs (Decidable (∀ c ∈ items, ∀ c' ∈ items, place c'.output ≠ c.source.parts))

theorem SourcesApart.mono {items part : List Candidate} (h : SourcesApart items)
    (sub : part ⊆ items) : SourcesApart part :=
  fun c hc c' hc' => h c (sub hc) c' (sub hc')

/-- What a sweep of candidates has done: some of them were written, each place by the last one
written there, and nothing else has another content. -/
structure Staged (s : Stager τ) (items : List Candidate) (v : Applied τ) (st : Memory)
    (w : Applied τ) (st' : Memory) : Prop where
  unreadable : st'.unreadable = st.unreadable
  told : ∀ message ∈ v.messages, message ∈ w.messages
  entries : ∀ key, (∀ item ∈ items, ¬Encloses key (place item.output)) → st'.at? key = st.at? key
  written : ∃ done, w.processed = v.processed ++ done ∧ done.Sublist items ∧
    (∀ c ∈ done, (st.payload s c).isSome) ∧
    ∀ key, st'.contentAt key =
      match lastAt done key with
      | some c => st.payload s c
      | none => st.contentAt key

omit [Tracker τ] in
theorem Staged.nil (s : Stager τ) (v : Applied τ) (st : Memory) : Staged s [] v st v st where
  unreadable := rfl
  told _ mem := mem
  entries _ _ := rfl
  written := by
    refine ⟨[], (List.append_nil _).symm, .slnil, ?_, fun _ => rfl⟩
    intro c mem
    cases mem

omit [Tracker τ] in
/-- A source has the content that it had at first. -/
theorem Staged.payload_eq {s : Stager τ} {items : List Candidate} {v w : Applied τ}
    {st st' : Memory} (h : Staged s items v st w st') {item : Candidate}
    (apart : ∀ c ∈ items, place c.output ≠ item.source.parts) :
    st'.payload s item = st.payload s item := by
  obtain ⟨done, -, sub, -, content⟩ := h.written
  refine payload_congr h.unreadable ?_ s
  rw [content]
  cases last : lastAt done item.source.parts with
  | none => rfl
  | some c =>
    obtain ⟨mem, same⟩ := mem_of_lastAt last
    exact absurd same (apart c (sub.subset mem))

theorem Staged.concat {s : Stager τ} {items : List Candidate} {v w : Applied τ} {st st' : Memory}
    (h : Staged s items v st w st') {item : Candidate} (apart : SourcesApart (items ++ [item])) :
    Staged s (items ++ [item]) v st (exec (stageStep s w item : StateM Memory _) st').1
      (exec (stageStep s w item : StateM Memory _) st').2 := by
  have payload := h.payload_eq fun c mem =>
    apart item (by simp) c (List.mem_append_left _ mem)
  have spread : ∀ key, (∀ c ∈ items ++ [item], ¬Encloses key (place c.output)) →
      (∀ c ∈ items, ¬Encloses key (place c.output)) ∧ ¬Encloses key (place item.output) :=
    fun key out => ⟨fun c hc => out c (List.mem_append_left _ hc), out item (by simp)⟩
  obtain ⟨done, processed, sub, full, content⟩ := h.written
  have sub' : done.Sublist (items ++ [item]) := sub.trans (List.sublist_append_left _ _)
  have step := stepped s w item st'
  generalize exec (stageStep s w item : StateM Memory _) st' = r at step ⊢
  cases step with
  | kept w' same told =>
    exact ⟨h.unreadable, fun message mem => told message (h.told message mem),
      fun key out => h.entries key (spread key out).1,
      done, same.trans processed, sub', full, content⟩
  | opened w' same told =>
    refine ⟨(unreadable_openedFor st' _).trans h.unreadable,
      fun message mem => told message (h.told message mem), fun key out => ?_,
      done, same.trans processed, sub', full, fun key => ?_⟩
    · exact (at?_openedFor st' (spread key out).2).trans (h.entries key (spread key out).1)
    · exact (contentAt_openedFor st' _ key).trans (content key)
  | written w' bytes more told free room found =>
    refine ⟨?_, fun message mem => told message (h.told message mem), fun key out => ?_,
      done ++ [item], ?_, sub.append (List.Sublist.refl [item]), ?_, fun key => ?_⟩
    · exact (unreadable_addFile _ _ _).trans ((unreadable_openedFor st' _).trans h.unreadable)
    · have outside : key ∉ ascent (place item.output) := fun mem =>
        (spread key out).2 (encloses_of_mem_ascent mem)
      exact (at?_addFile _ bytes outside).trans
        ((at?_openedFor st' (spread key out).2).trans (h.entries key (spread key out).1))
    · rw [more, processed, List.append_assoc]
    · intro c mem
      rcases List.mem_append.mp mem with mem | mem
      · exact full c mem
      · rw [List.mem_singleton] at mem
        rw [mem, ← payload, found]
        rfl
    · rw [lastAt_concat]
      refine (contentAt_addFile _ _ bytes key).trans ?_
      by_cases same : key = place item.output
      · rw [if_pos (by exact same), if_pos same.symm]
        exact found.symm.trans payload
      · rw [if_neg (by exact same), if_neg (Ne.symm same), contentAt_openedFor, content]

/-- A whole sweep of candidates. -/
theorem staged_sweep (s : Stager τ) {items : List Candidate} (apart : SourcesApart items)
    (w : Applied τ) (st : Memory) :
    Staged s items w st
      (sweepFrom (stageStep s : Applied τ → Candidate → StateM Memory _) items w st).1
      (sweepFrom (stageStep s : Applied τ → Candidate → StateM Memory _) items w st).2 := by
  refine sweepFrom_invariant (fun done w' st' => Staged s done w st w' st') (Staged.nil s w st)
    fun done x rest _ _ whole h => h.concat (apart.mono ?_)
  rw [whole, List.append_cons done x rest]
  exact List.subset_append_left _ _

/-! Saving -/

theorem contentAt_drafted (st : Memory) (l : Ledger) (p : Path) (key : List Part) :
    (st.drafted l p).contentAt key =
      if key = (Ledger.scratchFor p).parts then some (Ledger.encode l.units)
      else st.contentAt key := by
  rw [drafted_eq, contentAt_addFile]

/-- Saving changes no content but the ledger's and its scratch file's. -/
theorem save_content (l : Ledger) {p : Path} (st : Memory) {key : List Part} (ledger : key ≠ p.parts)
    (scratch : key ≠ (Ledger.scratchFor p).parts) :
    (exec (l.save p : StateM Memory _) st).2.contentAt key = st.contentAt key := by
  have drafts : (st.drafted l p).contentAt key = st.contentAt key := by
    rw [contentAt_drafted, if_neg scratch]
  rcases save_cases l p st with ⟨-, _, saved⟩ | ⟨-, -, _, saved⟩ | ⟨-, -, time, saved⟩
  · rw [saved]
  · rw [saved]
    exact drafts
  · rw [saved]
    refine (contentAt_insertFile _ _ _ _ _).trans ?_
    rw [if_neg ledger, contentAt_discard, if_neg scratch, drafts]

end Staging.Memory
