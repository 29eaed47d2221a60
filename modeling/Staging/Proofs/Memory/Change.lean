import Staging.Proofs.Memory.Kinds

/-!
What the calls of a tree in memory change: what takes the places, the contents, and which entries
stay as they are altogether.
-/
namespace Staging.Memory

variable (s : Memory)

/-! Single entries -/

theorem at?_put (p : Path) (e : Entry) (key : List Part) :
    (s.put p e).at? key = if key = p.parts then some e else s.at? key := by
  rw [at?, put, at?]
  simp only
  split
  · rename_i same
    subst same
    rw [SortedMap.get?_insert_self]
    rfl
  · rename_i other
    rw [SortedMap.get?_insert_of_ne _ _ other]

theorem at?_drop (p : Path) (key : List Part) :
    (s.drop p).at? key = if key = p.parts then none else s.at? key := by
  rw [at?, drop, at?, SortedMap.get?_erase]
  split <;> rfl

theorem kindAt_put_dir (p : Path) (children : List String) (key : List Part) :
    (s.put p (.dir children)).kindAt key = if key = p.parts then some .dir else s.kindAt key := by
  rw [kindAt, at?_put, kindAt]
  split <;> rfl

theorem kindAt_put_file (p : Path) (content : Bytes) (time : Int64) :
    (s.put p (.file content time)).kindAt = Kinds.withFile s.kindAt p.parts := by
  funext key
  rw [kindAt, at?_put, Kinds.withFile, kindAt]
  split <;> rfl

theorem fileAt_put_file (p : Path) (content : Bytes) (time : Int64) (key : List Part) :
    (s.put p (.file content time)).fileAt key =
      if key = p.parts then some (content, time) else s.fileAt key := by
  rw [fileAt, at?_put, fileAt]
  split <;> rfl

theorem contentAt_put_file (p : Path) (content : Bytes) (time : Int64) (key : List Part) :
    (s.put p (.file content time)).contentAt key =
      if key = p.parts then some content else s.contentAt key := by
  rw [contentAt_eq_map, fileAt_put_file, apply_ite (Option.map _), ← contentAt_eq_map]
  rfl

theorem kindAt_drop (p : Path) : (s.drop p).kindAt = Kinds.without s.kindAt p.parts := by
  funext key
  rw [kindAt, at?_drop, Kinds.without, kindAt]
  split <;> rfl

theorem fileAt_drop (p : Path) (key : List Part) :
    (s.drop p).fileAt key = if key = p.parts then none else s.fileAt key := by
  rw [fileAt, at?_drop, fileAt]
  split <;> rfl

/-- A place without a file has no content. -/
theorem contentAt_of_kind {s : Memory} {key : List Part} (h : s.kindAt key ≠ some .file) :
    s.contentAt key = none := by
  rw [ne_eq, kindAt_eq_file_iff, Option.isSome_iff_ne_none, not_not] at h
  exact h

theorem fileAt_of_kind {s : Memory} {key : List Part} (h : s.kindAt key ≠ some .file) :
    s.fileAt key = none := by
  have content := contentAt_of_kind h
  rwa [contentAt_eq_map, Option.map_eq_none_iff] at content

/-! Listings -/

/-- The same tree, but for the names that the directory at one place lists. -/
inductive Relisted (dir : List Part) (s : Memory) : Memory → Prop
  | same : Relisted dir s s
  | put (p : Path) (old new : List String) : p.parts = dir → s.at? dir = some (.dir old) →
      Relisted dir s (s.put p (.dir new))

namespace Relisted

variable {dir : List Part} {s t : Memory}

theorem kindAt_eq (h : Relisted dir s t) : t.kindAt = s.kindAt := by
  cases h with
  | same => rfl
  | put p old new place found =>
    funext key
    rw [kindAt_put_dir]
    split
    · rename_i same
      rw [same, place, kindAt, found]
      rfl
    · rfl

theorem fileAt_eq (h : Relisted dir s t) (key : List Part) : t.fileAt key = s.fileAt key := by
  cases h with
  | same => rfl
  | put p old new place found =>
    rw [fileAt, at?_put, fileAt]
    split
    · rename_i same
      rw [same, place, found]
      rfl
    · rfl

theorem contentAt_eq (h : Relisted dir s t) (key : List Part) :
    t.contentAt key = s.contentAt key := by
  rw [contentAt_eq_map, h.fileAt_eq, ← contentAt_eq_map]

theorem at?_eq (h : Relisted dir s t) {key : List Part} (other : key ≠ dir) :
    t.at? key = s.at? key := by
  cases h with
  | same => rfl
  | put p old new place found => rw [at?_put, if_neg (place ▸ other)]

theorem unreadable_eq (h : Relisted dir s t) : t.unreadable = s.unreadable := by
  cases h <;> rfl

end Relisted

theorem relisted_link (parent p : Path) : Relisted parent.parts s (s.link parent p) := by
  rw [link]
  split
  · rename_i children name found _
    split
    · exact .same
    · exact .put parent children _ rfl found
  · exact .same

theorem relisted_unlink {p parent : Path} (h : parentOf p = some parent) :
    Relisted parent.parts s (s.unlink p) := by
  rw [unlink]
  split
  · rename_i parent' name h' _
    rw [h, Option.some.injEq] at h'
    subst h'
    split
    · rename_i children found
      exact .put parent children _ rfl found
    · exact .same
  · exact .same

theorem unlink_of_top {p : Path} (h : parentOf p = none) : s.unlink p = s := by
  rw [unlink, h]

/-! Directories -/

theorem above_of_parentOf {p parent : Path} (h : parentOf p = some parent) :
    above p.parts = some parent.parts := by
  rw [← parts_parentOf, h]
  rfl

theorem above_of_top {p : Path} (h : parentOf p = none) : above p.parts = none := by
  rw [← parts_parentOf, h]
  rfl

theorem same_iff {p q : Path} : p.same q = true ↔ p.parts = q.parts := beq_iff_eq

/-- What opening a directory does, level by level. -/
theorem ensureDirUpTo_cases {n : Nat} {p : Path} (enough : height p.parts < n) :
    (s.kindAt p.parts ≠ none ∧ ensureDirUpTo n s p = s) ∨
    (s.kindAt p.parts = none ∧ ascent p.parts = [p.parts] ∧
      ensureDirUpTo n s p = s.put p (.dir [])) ∨
    (s.kindAt p.parts = none ∧ ∃ parent i, n = i + 1 ∧ parentOf p = some parent ∧
      parent.parts ≠ p.parts ∧ height parent.parts < i ∧
      ensureDirUpTo n s p = (ensureDirUpTo i (s.put p (.dir [])) parent).link parent p) := by
  obtain ⟨i, rfl⟩ := Nat.exists_eq_succ_of_ne_zero (Nat.ne_of_gt (Nat.zero_lt_of_lt enough))
  rw [ensureDirUpTo, isPresent_eq]
  cases taken : s.kindAt p.parts with
  | some kind => exact .inl ⟨nofun, by simp⟩
  | none =>
    right
    rw [Option.isSome_none, if_neg Bool.false_ne_true]
    cases up : parentOf p with
    | none => exact .inl ⟨rfl, ascent_of_none (above_of_top up), rfl⟩
    | some parent =>
      have found := above_of_parentOf up
      by_cases same : parent.parts = p.parts
      · left
        refine ⟨rfl, ascent_of_self (same ▸ found), ?_⟩
        simp only
        rw [if_pos (same_iff.mpr same)]
      · right
        refine ⟨rfl, parent, i, rfl, rfl, same, ?_, ?_⟩
        · have := height_above found same
          omega
        · simp only
          rw [if_neg (mt same_iff.mp same)]

theorem kindAt_ensureDirUpTo {n : Nat} {p : Path} (enough : height p.parts < n) :
    (ensureDirUpTo n s p).kindAt = Kinds.opened s.kindAt p.parts := by
  induction n generalizing s p with
  | zero => cases enough
  | succ n ih =>
    rcases ensureDirUpTo_cases s enough with
      ⟨taken, eq⟩ | ⟨free, top, eq⟩ | ⟨free, parent, i, levels, up, other, enough', eq⟩
    · rw [eq, Kinds.opened_of_taken taken]
    · funext key
      rw [eq, kindAt_put_dir, Kinds.opened, Kinds.missing_of_top free top]
      simp
    · cases levels
      have found := above_of_parentOf up
      have outside := not_mem_ascent_above found other
      rw [eq, (relisted_link _ parent p).kindAt_eq, ih _ enough']
      have same : Kinds.missing (s.put p (.dir [])).kindAt parent.parts =
          Kinds.missing s.kindAt parent.parts := by
        refine Kinds.missing_congr fun x hx => ?_
        rw [kindAt_put_dir, if_neg (ne_of_mem_of_not_mem hx outside)]
      funext key
      rw [Kinds.opened, same, kindAt_put_dir, Kinds.opened,
        Kinds.missing_of_up free (ascent_of_some found other)]
      simp only [List.mem_cons]
      by_cases here : key = p.parts
      · simp [here]
      · simp [here]

theorem fileAt_put_dir {p : Path} (free : s.kindAt p.parts = none) (children : List String)
    (key : List Part) : (s.put p (.dir children)).fileAt key = s.fileAt key := by
  rw [fileAt, at?_put]
  split
  · rename_i same
    rw [same, fileAt_of_kind (by simp [free])]
    rfl
  · rfl

theorem fileAt_ensureDirUpTo {n : Nat} {p : Path} (enough : height p.parts < n)
    (key : List Part) : (ensureDirUpTo n s p).fileAt key = s.fileAt key := by
  induction n generalizing s p with
  | zero => cases enough
  | succ n ih =>
    rcases ensureDirUpTo_cases s enough with
      ⟨-, eq⟩ | ⟨free, -, eq⟩ | ⟨free, parent, i, levels, -, -, enough', eq⟩
    · rw [eq]
    · rw [eq, fileAt_put_dir s free]
    · cases levels
      rw [eq, (relisted_link _ parent p).fileAt_eq, ih _ enough', fileAt_put_dir s free]

theorem at?_ensureDirUpTo {n : Nat} {p : Path} (enough : height p.parts < n) {key : List Part}
    (outside : key ∉ ascent p.parts) : (ensureDirUpTo n s p).at? key = s.at? key := by
  induction n generalizing s p with
  | zero => cases enough
  | succ n ih =>
    have not_self : key ≠ p.parts := fun same => outside (same ▸ self_mem_ascent p.parts)
    rcases ensureDirUpTo_cases s enough with
      ⟨-, eq⟩ | ⟨-, -, eq⟩ | ⟨-, parent, i, levels, up, other, enough', eq⟩
    · rw [eq]
    · rw [eq, at?_put, if_neg not_self]
    · cases levels
      rw [ascent_of_some (above_of_parentOf up) other, List.mem_cons, not_or] at outside
      have not_parent : key ≠ parent.parts := fun same =>
        outside.2 (same ▸ self_mem_ascent parent.parts)
      rw [eq, (relisted_link _ parent p).at?_eq not_parent, ih _ enough' outside.2, at?_put,
        if_neg not_self]

theorem unreadable_ensureDirUpTo (n : Nat) (p : Path) :
    (ensureDirUpTo n s p).unreadable = s.unreadable := by
  induction n generalizing s p with
  | zero => rfl
  | succ n ih =>
    rw [ensureDirUpTo]
    split
    · rfl
    · simp only
      split
      · rfl
      · split
        · rfl
        · rw [(relisted_link _ _ _).unreadable_eq, ih]
          rfl

theorem height_lt (key : List Part) : height key < key.length + 2 := by
  rw [height]
  split <;> omega

section
variable (p : Path)

@[simp] theorem kindAt_ensureDir : (s.ensureDir p).kindAt = Kinds.opened s.kindAt p.parts :=
  kindAt_ensureDirUpTo s (height_lt p.parts)

theorem fileAt_ensureDir (key : List Part) : (s.ensureDir p).fileAt key = s.fileAt key :=
  fileAt_ensureDirUpTo s (height_lt p.parts) key

@[simp] theorem contentAt_ensureDir (key : List Part) :
    (s.ensureDir p).contentAt key = s.contentAt key := by
  rw [contentAt_eq_map, fileAt_ensureDir, ← contentAt_eq_map]

theorem at?_ensureDir {p : Path} {key : List Part} (outside : key ∉ ascent p.parts) :
    (s.ensureDir p).at? key = s.at? key :=
  at?_ensureDirUpTo s (height_lt p.parts) outside

@[simp] theorem unreadable_ensureDir : (s.ensureDir p).unreadable = s.unreadable :=
  unreadable_ensureDirUpTo s _ p

/-! Files -/

variable (content : Bytes) (time : Int64)

@[simp] theorem kindAt_insertFile :
    (s.insertFile p content time).kindAt =
      Kinds.openedAbove (Kinds.withFile s.kindAt p.parts) p.parts := by
  rw [insertFile]
  cases up : parentOf p with
  | none => rw [Kinds.openedAbove_of_none (above_of_top up), kindAt_put_file]
  | some parent =>
    rw [Kinds.openedAbove_of_some (above_of_parentOf up), (relisted_link _ _ _).kindAt_eq,
      kindAt_ensureDir, kindAt_put_file]

/-- Nothing is lost where a file is put, though a directory may become a file. -/
theorem taken_insertFile {key : List Part} (taken : s.kindAt key ≠ none) :
    (s.insertFile p content time).kindAt key ≠ none := by
  rw [kindAt_insertFile]
  rcases Kinds.withFile_cases (k := s.kindAt) p.parts key with same | rfl | ⟨-, dir⟩
  · rwa [same]
  · simp
  · rw [dir]
    nofun

theorem fileAt_insertFile (key : List Part) :
    (s.insertFile p content time).fileAt key =
      if key = p.parts then some (content, time) else s.fileAt key := by
  rw [insertFile]
  cases up : parentOf p with
  | none => exact fileAt_put_file s p content time key
  | some parent =>
    rw [(relisted_link _ _ _).fileAt_eq, fileAt_ensureDir, fileAt_put_file]

@[simp] theorem contentAt_insertFile (key : List Part) :
    (s.insertFile p content time).contentAt key =
      if key = p.parts then some content else s.contentAt key := by
  rw [contentAt_eq_map, fileAt_insertFile, apply_ite (Option.map _), ← contentAt_eq_map]
  rfl

theorem at?_insertFile {p : Path} {key : List Part} (outside : key ∉ ascent p.parts) :
    (s.insertFile p content time).at? key = s.at? key := by
  have not_self : key ≠ p.parts := fun same => outside (same ▸ self_mem_ascent p.parts)
  rw [insertFile]
  cases up : parentOf p with
  | none => exact (at?_put s p _ key).trans (if_neg not_self)
  | some parent =>
    have outside' : key ∉ ascent parent.parts := by
      by_cases same : parent.parts = p.parts
      · rwa [same]
      · rw [ascent_of_some (above_of_parentOf up) same, List.mem_cons, not_or] at outside
        exact outside.2
    have not_parent : key ≠ parent.parts := fun same =>
      outside' (same ▸ self_mem_ascent parent.parts)
    rw [(relisted_link _ _ _).at?_eq not_parent, at?_ensureDir _ outside', at?_put, if_neg not_self]

@[simp] theorem unreadable_insertFile :
    (s.insertFile p content time).unreadable = s.unreadable := by
  rw [insertFile]
  split
  · rfl
  · rw [(relisted_link _ _ _).unreadable_eq, unreadable_ensureDir]
    rfl

@[simp] theorem kindAt_addFile :
    (s.addFile p content).kindAt =
      Kinds.openedAbove (Kinds.withFile s.kindAt p.parts) p.parts :=
  kindAt_insertFile _ p content _

theorem fileAt_addFile (key : List Part) :
    (s.addFile p content).fileAt key =
      if key = p.parts then some (content, s.clock + 1) else s.fileAt key :=
  fileAt_insertFile _ p content _ key

@[simp] theorem contentAt_addFile (key : List Part) :
    (s.addFile p content).contentAt key =
      if key = p.parts then some content else s.contentAt key :=
  contentAt_insertFile _ p content _ key

theorem at?_addFile {p : Path} {key : List Part} (outside : key ∉ ascent p.parts) :
    (s.addFile p content).at? key = s.at? key :=
  at?_insertFile _ content _ outside

@[simp] theorem unreadable_addFile : (s.addFile p content).unreadable = s.unreadable :=
  unreadable_insertFile _ p content _

/-- Takes a path away, and its name from the directory above it. -/
def discard (p : Path) : Memory := (s.drop p).unlink p

@[simp] theorem kindAt_discard : (s.discard p).kindAt = Kinds.without s.kindAt p.parts := by
  rw [discard]
  cases up : parentOf p with
  | none => rw [unlink_of_top _ up, kindAt_drop]
  | some parent => rw [(relisted_unlink _ up).kindAt_eq, kindAt_drop]

theorem kindAt_discard_self (p : Path) : (s.discard p).kindAt p.parts = none := by
  rw [kindAt_discard, Kinds.without, if_pos rfl]

theorem kindAt_discard_of_ne {p : Path} {key : List Part} (apart : key ≠ p.parts) :
    (s.discard p).kindAt key = s.kindAt key := by
  rw [kindAt_discard, Kinds.without, if_neg apart]

theorem fileAt_discard (key : List Part) :
    (s.discard p).fileAt key = if key = p.parts then none else s.fileAt key := by
  rw [discard]
  cases up : parentOf p with
  | none => rw [unlink_of_top _ up, fileAt_drop]
  | some parent => rw [(relisted_unlink _ up).fileAt_eq, fileAt_drop]

@[simp] theorem contentAt_discard (key : List Part) :
    (s.discard p).contentAt key = if key = p.parts then none else s.contentAt key := by
  rw [contentAt_eq_map, fileAt_discard, apply_ite (Option.map _), ← contentAt_eq_map]
  rfl

theorem at?_discard {p : Path} {key : List Part} (outside : key ∉ ascent p.parts) :
    (s.discard p).at? key = s.at? key := by
  have not_self : key ≠ p.parts := fun same => outside (same ▸ self_mem_ascent p.parts)
  rw [discard]
  cases up : parentOf p with
  | none => rw [unlink_of_top _ up, at?_drop, if_neg not_self]
  | some parent =>
    have not_parent : key ≠ parent.parts := by
      intro same
      by_cases self : parent.parts = p.parts
      · exact not_self (same.trans self)
      · refine outside ?_
        rw [ascent_of_some (above_of_parentOf up) self, same]
        exact List.mem_cons_of_mem _ (self_mem_ascent _)
    rw [(relisted_unlink _ up).at?_eq not_parent, at?_drop, if_neg not_self]

@[simp] theorem unreadable_discard : (s.discard p).unreadable = s.unreadable := by
  rw [discard]
  cases up : parentOf p with
  | none =>
    rw [unlink_of_top _ up]
    rfl
  | some parent =>
    rw [(relisted_unlink _ up).unreadable_eq]
    rfl

end

/-! Times -/

theorem kindAt_setModified (s : Memory) (p : Path) (time : Int64) :
    (s.setModified p time).kindAt = s.kindAt := by
  unfold setModified
  split
  · rename_i content _ found
    funext key
    rw [kindAt_put_file, Kinds.withFile]
    split
    · rename_i same
      rw [same, kindAt, ← entry?_eq, found]
      rfl
    · rfl
  · rfl

theorem contentAt_setModified (s : Memory) (p : Path) (time : Int64) (key : List Part) :
    (s.setModified p time).contentAt key = s.contentAt key := by
  unfold setModified
  split
  · rename_i content _ found
    rw [contentAt_put_file]
    split
    · rename_i same
      rw [same, contentAt, ← entry?_eq, found]
      rfl
    · rfl
  · rfl

end Staging.Memory
