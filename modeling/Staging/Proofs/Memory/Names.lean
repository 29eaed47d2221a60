import Staging.Proofs.Memory.Change

/-!
The names that directories list. A name is put on a list where something new takes a place, and taken
off where something is taken away; the rest of the lists stays, unless a file takes the place of the
directory.
-/
namespace Staging.Memory

/-- The name that a place ends in, if it is text and so can be listed. -/
def lastName (key : List Part) : Option String :=
  match key.getLast? with
  | some (.name s) => s.text?
  | _ => none

/-- The directory at a place lists the name. -/
def ListsName (s : Memory) (dir : List Part) (name : String) : Prop :=
  ∃ children, s.at? dir = some (.dir children) ∧ name ∈ children

instance (s : Memory) (dir : List Part) (name : String) : Decidable (s.ListsName dir name) :=
  match found : s.at? dir with
  | some (.dir children) => decidable_of_iff (name ∈ children) (by simp [ListsName, found])
  | some (.file _ _) => .isFalse (by simp [ListsName, found])
  | none => .isFalse (by simp [ListsName, found])

variable {s t : Memory} {p parent : Path} {dir key other : List Part} {name : String}

theorem listedName_eq (p : Path) : listedName p = lastName p.parts := by
  rw [listedName, Path.fileName, lastName]
  cases p.parts.getLast? with
  | none => rfl
  | some part => cases part <;> rfl

theorem lastName_eq_some_iff : lastName key = some name ↔ key.getLast? = some (.name name) := by
  rw [lastName]
  cases key.getLast? with
  | none => simp
  | some part => cases part <;> simp [Spelling.text?_eq_some_iff]

/-- The starting directory has no name. -/
theorem ne_of_named {s : Spelling} (up : above key = some dir) (named : key.getLast? = some (.name s)) :
    dir ≠ key := by
  rintro rfl
  rw [eq_here_of_above_self up] at named
  cases named

theorem ne_of_lastName (up : above key = some dir) (last : lastName key = some name) : dir ≠ key :=
  ne_of_named up (lastName_eq_some_iff.mp last)

theorem eq_append_of_lastName (last : lastName key = some name) :
    key = key.dropLast ++ [.name name] :=
  (List.dropLast_append_getLast? _ (lastName_eq_some_iff.mp last)).symm

theorem not_top_append (dir : List Part) (name : Spelling) :
    ¬(dir ++ [.name name] = [] ∨ dir ++ [.name name] = [.root]) := by
  rw [not_or]
  refine ⟨by simp, fun same => ?_⟩
  have last := congrArg List.getLast? same
  simp at last

theorem above_append (dir : List Part) (name : Spelling) :
    above (dir ++ [.name name]) = some (if dir = [] then [.here] else dir) := by
  rw [above, if_neg (not_top_append dir name), List.dropLast_concat]

/-- Outside the starting directory, a directory and a name make one place. -/
theorem eq_of_above (up : above key = some dir) (last : lastName key = some name)
    (elsewhere : dir ≠ [.here]) : key = dir ++ [.name name] := by
  have whole := eq_append_of_lastName last
  rw [whole, above_append, Option.some.injEq] at up
  by_cases bare : key.dropLast = []
  · rw [if_pos bare] at up
    exact absurd up.symm elsewhere
  · rw [if_neg bare] at up
    rw [whole, up]

/-- The place with or without the dot that a relative path may begin with, if its name can be
listed. -/
def twin : List Part → Option (List Part)
  | [.name s] => if s.isText then some [.here, .name s] else none
  | [.here, .name s] => if s.isText then some [.name s] else none
  | _ => none

/-- A directory and a name make one place, or the two spellings of one. -/
theorem eq_or_twin (up : above key = some dir) (last : lastName key = some name)
    (up' : above other = some dir) (last' : lastName other = some name) :
    other = key ∨ twin key = some other := by
  by_cases elsewhere : dir = [.here]
  · have spellings (x : List Part) (up : above x = some dir) (last : lastName x = some name) :
        x = [.name name] ∨ x = [.here, .name name] := by
      have whole := eq_append_of_lastName last
      rw [whole, above_append, Option.some.injEq, elsewhere] at up
      rw [whole]
      split at up
      · rename_i bare
        rw [bare]
        exact .inl rfl
      · rw [up]
        exact .inr rfl
    rcases spellings key up last with rfl | rfl <;>
      rcases spellings other up' last' with rfl | rfl <;> simp [twin]
  · left
    rw [eq_of_above up last elsewhere, eq_of_above up' last' elsewhere]

theorem above_of_twin (h : twin key = some other) :
    above key = some [.here] ∧ above other = some [.here] ∧ other ≠ key ∧
      ∃ name, lastName key = some name ∧ lastName other = some name := by
  unfold twin at h
  split at h
  · obtain ⟨text, same⟩ := Option.ite_none_right_eq_some.mp h
    obtain ⟨name, rfl⟩ := Spelling.isText_iff.mp text
    rw [← Option.some.inj same]
    refine ⟨above_append [] name, above_append [.here] name, by simp, name, ?_⟩
    simp [lastName_eq_some_iff]
  · obtain ⟨text, same⟩ := Option.ite_none_right_eq_some.mp h
    obtain ⟨name, rfl⟩ := Spelling.isText_iff.mp text
    rw [← Option.some.inj same]
    refine ⟨above_append [.here] name, above_append [] name, by simp, name, ?_⟩
    simp [lastName_eq_some_iff]
  · cases h

theorem ListsName.kind (h : s.ListsName dir name) : s.kindAt dir = some .dir := by
  obtain ⟨children, found, -⟩ := h
  rw [kindAt, found]
  rfl

theorem listsName_congr (same : t.at? dir = s.at? dir) :
    t.ListsName dir name ↔ s.ListsName dir name := by
  rw [ListsName, same, ListsName]

theorem listsName_put_self {children : List String} (place : dir = p.parts) :
    (s.put p (.dir children)).ListsName dir name ↔ name ∈ children := by
  simp [ListsName, at?_put, place]

theorem listsName_put_of_ne (e : Entry) (apart : dir ≠ p.parts) :
    (s.put p e).ListsName dir name ↔ s.ListsName dir name :=
  listsName_congr (by rw [at?_put, if_neg apart])

theorem listsName_putFile (p : Path) (content : Bytes) (time : Int64) :
    (s.put p (.file content time)).ListsName dir name ↔ dir ≠ p.parts ∧ s.ListsName dir name := by
  by_cases place : dir = p.parts
  · simp [ListsName, at?_put, place]
  · simp [listsName_put_of_ne _ place, place]

theorem listsName_putEmpty (free : s.kindAt p.parts = none) :
    (s.put p (.dir [])).ListsName dir name ↔ s.ListsName dir name := by
  by_cases place : dir = p.parts
  · have unlisted : ¬s.ListsName dir name := by
      intro listed
      rw [place] at listed
      rw [listed.kind] at free
      cases free
    simp [listsName_put_self place, unlisted]
  · exact listsName_put_of_ne _ place

theorem listsName_drop (p : Path) :
    (s.drop p).ListsName dir name ↔ dir ≠ p.parts ∧ s.ListsName dir name := by
  by_cases place : dir = p.parts
  · simp [ListsName, at?_drop, place]
  · simp [listsName_congr (s := s) (at?_drop s p dir |>.trans (if_neg place)), place]

theorem listsName_link (parent p : Path) :
    (s.link parent p).ListsName dir name ↔ s.ListsName dir name ∨
      dir = parent.parts ∧ lastName p.parts = some name ∧ s.kindAt dir = some .dir := by
  rw [link, entry?_eq, listedName_eq]
  split
  · rename_i children last found named
    have kind : s.kindAt parent.parts = some .dir := by
      rw [kindAt, found]
      rfl
    split
    · rename_i known
      constructor
      · exact .inl
      · rintro (listed | ⟨rfl, same, -⟩)
        · exact listed
        · cases named.symm.trans same
          exact ⟨children, found, by simpa using known⟩
    · by_cases place : dir = parent.parts
      · subst place
        rw [listsName_put_self rfl, List.mem_append, List.mem_singleton]
        have listed : s.ListsName parent.parts name ↔ name ∈ children := by
          simp [ListsName, found]
        simp [listed, named, kind, eq_comm]
      · simp [listsName_put_of_ne _ place, place]
  · rename_i none
    constructor
    · exact .inl
    · rintro (listed | ⟨rfl, named, kind⟩)
      · exact listed
      · rw [kindAt] at kind
        obtain ⟨entry, found, isDir⟩ := Option.map_eq_some_iff.mp kind
        cases entry with
        | file content time => cases isDir
        | dir children => exact absurd named (none children name found)

theorem listsName_unlink (p : Path) :
    (s.unlink p).ListsName dir name ↔ s.ListsName dir name ∧
      ¬(above p.parts = some dir ∧ lastName p.parts = some name) := by
  rw [unlink, listedName_eq, ← parts_parentOf]
  split
  · rename_i parent last up named
    rw [up, named, entry?_eq]
    split
    · rename_i children found
      by_cases place : dir = parent.parts
      · subst place
        rw [listsName_put_self rfl]
        have listed : s.ListsName parent.parts name ↔ name ∈ children := by
          simp [ListsName, found]
        simp [listed, ne_comm]
      · simp [listsName_put_of_ne _ place, Ne.symm place]
    · rename_i none
      constructor
      · intro listed
        refine ⟨listed, ?_⟩
        rintro ⟨same, -⟩
        obtain ⟨children, found, -⟩ := listed
        rw [← Option.some.inj same] at found
        exact none children found
      · exact And.left
  · rename_i none
    constructor
    · intro listed
      refine ⟨listed, ?_⟩
      rintro ⟨up, named⟩
      obtain ⟨parent, found, -⟩ := Option.map_eq_some_iff.mp up
      exact none parent name found named
    · exact And.left

/-- A place that is new in a tree lies in the directory and has the name. -/
def NewIn (s t : Memory) (dir : List Part) (name : String) : Prop :=
  ∃ key, s.kindAt key = none ∧ t.kindAt key ≠ none ∧ above key = some dir ∧
    lastName key = some name

theorem kindAt_put_eq_none (e : Entry) :
    (s.put p e).kindAt key = none ↔ key ≠ p.parts ∧ s.kindAt key = none := by
  rw [kindAt, at?_put, kindAt]
  split <;> simp [*]

/-- Of what is put at a place, or new after that, one name more is in the directory where it is
linked. -/
theorem newIn_link (e : Entry) (place : above p.parts = some parent.parts) :
    (above p.parts = some dir ∧ lastName p.parts = some name ∨
      NewIn s (t.link parent p) dir name) ↔
      NewIn (s.put p e) t dir name ∨ dir = parent.parts ∧ lastName p.parts = some name := by
  simp only [NewIn, (relisted_link t parent p).kindAt_eq, kindAt_put_eq_none]
  constructor
  · rintro (⟨above, named⟩ | ⟨key, free, taken, above, named⟩)
    · exact .inr ⟨Option.some.inj (above.symm.trans place), named⟩
    · by_cases self : key = p.parts
      · subst self
        exact .inr ⟨Option.some.inj (above.symm.trans place), named⟩
      · exact .inl ⟨key, ⟨self, free⟩, taken, above, named⟩
  · rintro (⟨key, ⟨-, free⟩, rest⟩ | ⟨rfl, named⟩)
    · exact .inr ⟨key, free, rest⟩
    · exact .inl ⟨place, named⟩

theorem listsName_ensureDirUpTo {n : Nat} (enough : height p.parts < n) :
    (ensureDirUpTo n s p).ListsName dir name ↔ s.ListsName dir name ∨
      NewIn s (ensureDirUpTo n s p) dir name ∧ (ensureDirUpTo n s p).kindAt dir = some .dir := by
  induction n generalizing s p with
  | zero => cases enough
  | succ n ih =>
    rcases ensureDirUpTo_cases s enough with
      ⟨-, eq⟩ | ⟨free, top, eq⟩ | ⟨free, parent, i, levels, up, other, enough', eq⟩
    · have nothing : ¬NewIn s s dir name := fun ⟨key, free, taken, _⟩ => taken free
      simp [eq, nothing]
    · have nothing : ¬NewIn s (s.put p (.dir [])) dir name := by
        rintro ⟨key, absent, taken, up, named⟩
        refine taken ((kindAt_put_eq_none _).mpr ⟨?_, absent⟩)
        rintro rfl
        rw [ascent_of_some up (ne_of_lastName up named)] at top
        exact List.ne_nil_of_mem (self_mem_ascent dir) (List.cons.inj top).2
      simp [eq, listsName_putEmpty free, nothing]
    · cases levels
      have place := above_of_parentOf up
      rw [eq]
      generalize made : ensureDirUpTo n (s.put p (.dir [])) parent = t
      have kinds := (relisted_link t parent p).kindAt_eq
      have kept : t.kindAt p.parts ≠ none := by
        have here : (s.put p (.dir [])).kindAt p.parts = some .dir := by simp [kindAt_put_dir]
        rw [← made, kindAt_ensureDirUpTo _ enough']
        exact Kinds.taken_of_kind (Kinds.opened_of_kind here)
      have own : above p.parts = some dir ∧ lastName p.parts = some name →
          NewIn s (t.link parent p) dir name := fun ⟨above, named⟩ =>
        ⟨p.parts, free, kinds ▸ kept, above, named⟩
      have new := (or_iff_right_of_imp own).symm.trans (newIn_link (.dir []) place)
      rw [listsName_link, kinds, new, ← made, ih enough', made, listsName_putEmpty free,
        or_and_right, or_assoc, and_assoc]

theorem listsName_ensureDir (s : Memory) (p : Path) :
    (s.ensureDir p).ListsName dir name ↔ s.ListsName dir name ∨
      NewIn s (s.ensureDir p) dir name ∧ (s.ensureDir p).kindAt dir = some .dir :=
  listsName_ensureDirUpTo (height_lt p.parts)

/-- A file puts its own name on a list, and those of the directories that it opens. A directory whose
place it takes lists nothing any more. -/
theorem listsName_insertFile (s : Memory) (p : Path) (content : Bytes) (time : Int64) :
    (s.insertFile p content time).ListsName dir name ↔
      dir ≠ p.parts ∧ s.ListsName dir name ∨
      (above p.parts = some dir ∧ lastName p.parts = some name ∨
        NewIn s (s.insertFile p content time) dir name) ∧
      (s.insertFile p content time).kindAt dir = some .dir := by
  rw [insertFile]
  cases up : parentOf p with
  | none =>
    have top := above_of_top up
    have nothing : ¬NewIn s (s.put p (.file content time)) dir name := by
      rintro ⟨key, free, taken, above, -⟩
      refine taken ((kindAt_put_eq_none _).mpr ⟨?_, free⟩)
      rintro rfl
      rw [top] at above
      cases above
    simp [listsName_putFile, top, nothing]
  | some parent =>
    have place := above_of_parentOf up
    simp only
    generalize made : (s.put p (.file content time)).ensureDir parent = t
    have kinds := (relisted_link t parent p).kindAt_eq
    rw [listsName_link, kinds, newIn_link (.file content time) place, ← made, listsName_ensureDir, made, listsName_putFile,
      or_and_right, or_assoc, and_assoc (a := dir = _)]

theorem listsName_discard (s : Memory) (p : Path) :
    (s.discard p).ListsName dir name ↔ dir ≠ p.parts ∧ s.ListsName dir name ∧
      ¬(above p.parts = some dir ∧ lastName p.parts = some name) := by
  rw [discard, listsName_unlink, listsName_drop, and_assoc]

end Staging.Memory
