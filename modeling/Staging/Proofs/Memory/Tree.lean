import Staging.Proofs.Memory.Operations

/-!
When entries make a tree. A call on a tree leaves a tree if and only if it puts nothing below a file,
puts no file in the place of a directory with something in it, and takes no file out of the starting
directory that lies there under its other spelling as well. So a history keeps to trees if and only if
each of its calls does.
-/
namespace Staging.Memory

variable {s t : Memory} {p source target : Path} {key dir : List Part} {name : String}

/-- Whatever lies in something lies in a directory, which lists its name if it has one. -/
def IsTree (s : Memory) : Prop :=
  ∀ key dir, s.kindAt key ≠ none → above key = some dir → dir ≠ key →
    s.kindAt dir = some .dir ∧ ∀ name, lastName key = some name → s.ListsName dir name

/-- No file stands above the place. -/
def Clear (s : Memory) (key : List Part) : Prop :=
  ∀ dir ∈ ascent key, dir ≠ key → s.kindAt dir ≠ some .file

/-- Nothing lies in the place. -/
def Bare (s : Memory) (key : List Part) : Prop :=
  ∀ child, above child = some key → child ≠ key → s.kindAt child = none

/-- Nothing takes the other spelling of the place. -/
def Lone (s : Memory) (key : List Part) : Prop := ∀ other ∈ twin key, s.kindAt other = none

/-- The call puts nothing below a file and no file over what lies in a directory, and takes no name off
a list that another entry still needs there. -/
def Fair (s : Memory) : Operation → Prop
  | .addFile p _ => s.Clear p.parts ∧ s.Bare p.parts
  | .addDir p => s.Clear p.parts
  | .makeUnreadable _ => True
  | .setModified _ _ => True
  | .write p _ => s.Clear p.parts
  | .copy source target => (s.read source).isOk = true → s.Clear target.parts
  | .removeFile p => s.isFile p = true → s.Lone p.parts
  | .rename source target => s.isFile source = true → s.isDir target = false →
      (s.discard source).Clear target.parts ∧
        (s.Lone source.parts ∨ source.parts ∈ ascent target.parts ∨
          twin source.parts = some target.parts)
  | .createDirs p => s.Clear p.parts

/-- Each call is fair when it is made. -/
def Fairly (s : Memory) : List Operation → Prop
  | [] => True
  | o :: ops => s.Fair o ∧ (s.perform o).Fairly ops

theorem bare_iff : s.Bare key ↔ ∀ child ∈ s.nodes.keys, above child = some key → child = key := by
  have taken (child : List Part) : child ∈ s.nodes.keys ↔ s.kindAt child ≠ none := by
    rw [SortedMap.mem_keys_iff, kindAt, at?, Option.isSome_iff_ne_none, ne_eq, ne_eq,
      Option.map_eq_none_iff, Option.map_eq_none_iff]
  simp only [taken]
  exact forall_congr' fun child => ⟨fun bare full up => not_imp_comm.mp (bare up) full,
    fun bare up => not_imp_comm.mp fun full => bare full up⟩

instance (s : Memory) (key : List Part) : Decidable (s.Clear key) :=
  inferInstanceAs (Decidable (∀ dir ∈ ascent key, dir ≠ key → s.kindAt dir ≠ some .file))

instance (s : Memory) (key : List Part) : Decidable (s.Bare key) :=
  decidable_of_iff _ bare_iff.symm

instance (s : Memory) (key : List Part) : Decidable (s.Lone key) :=
  inferInstanceAs (Decidable (∀ other ∈ twin key, s.kindAt other = none))

instance (s : Memory) : (o : Operation) → Decidable (s.Fair o)
  | .addFile p _ => inferInstanceAs (Decidable (s.Clear p.parts ∧ s.Bare p.parts))
  | .addDir p | .write p _ | .createDirs p => inferInstanceAs (Decidable (s.Clear p.parts))
  | .makeUnreadable _ | .setModified _ _ => inferInstanceAs (Decidable True)
  | .copy source target =>
    inferInstanceAs (Decidable ((s.read source).isOk = true → s.Clear target.parts))
  | .removeFile p => inferInstanceAs (Decidable (s.isFile p = true → s.Lone p.parts))
  | .rename source target =>
    inferInstanceAs (Decidable (s.isFile source = true → s.isDir target = false →
      (s.discard source).Clear target.parts ∧
        (s.Lone source.parts ∨ source.parts ∈ ascent target.parts ∨
          twin source.parts = some target.parts)))

instance decidableFairly (s : Memory) : (ops : List Operation) → Decidable (s.Fairly ops)
  | [] => inferInstanceAs (Decidable True)
  | o :: ops =>
    have := decidableFairly (s.perform o) ops
    inferInstanceAs (Decidable (s.Fair o ∧ (s.perform o).Fairly ops))

/-! Going up -/

theorem mem_ascent_of_above (up : above key = some dir) : dir ∈ ascent key := by
  by_cases same : dir = key
  · rw [same]
    exact self_mem_ascent key
  · rw [ascent_of_some up same]
    exact List.mem_cons_of_mem key (self_mem_ascent dir)

theorem mem_ascent_trans {a b c : List Part} (low : a ∈ ascent b) (high : b ∈ ascent c) :
    a ∈ ascent c := by
  induction c using ascent_induction with
  | top c whole _ =>
    rw [whole, List.mem_singleton] at high
    rwa [← high]
  | up c next _ _ whole ih =>
    rw [whole, List.mem_cons] at high
    rcases high with rfl | high
    · exact low
    · rw [whole]
      exact List.mem_cons_of_mem c (ih high)

namespace Kinds

variable {k : Kinds} {place top : List Part}

theorem dir_of_not_file (taken : k dir ≠ none) (other : k dir ≠ some .file) : k dir = some .dir := by
  obtain ⟨kind, found⟩ := Option.ne_none_iff_exists'.mp taken
  cases kind with
  | file => exact absurd found other
  | dir => exact found

/-- What opening a place leaves on the way up is no file, if there was none. -/
theorem opened_not_file (clear : ∀ x ∈ ascent top, k x ≠ some .file) (mem : dir ∈ ascent top) :
    k.opened top dir ≠ some .file := by
  rcases opened_cases (k := k) top dir with same | ⟨-, opened⟩
  · rw [same]
    exact clear dir mem
  · rw [opened]
    nofun

theorem mem_missing_of_opened (free : k key = none) (taken : k.opened top key ≠ none) :
    key ∈ k.missing top := by
  by_contra out
  rw [opened, if_neg out] at taken
  exact taken free

/-- What is opened on the way up lies in directories, if no file stands there. -/
theorem dir_of_opened (clear : ∀ x ∈ ascent top, k x ≠ some .file) (free : k key = none)
    (taken : k.opened top key ≠ none) (up : above key = some dir) :
    k.opened top dir = some .dir := by
  have mem := mem_missing_of_opened free taken
  have on := mem_ascent_trans (mem_ascent_of_above up) (mem_ascent_of_mem_missing mem)
  exact dir_of_not_file (taken_above_missing mem up) (opened_not_file clear on)

/-- A file and the directories that are opened for it lie in directories, if no file stands above. -/
theorem dir_of_withFile (clear : ∀ x ∈ ascent place, x ≠ place → k x ≠ some .file)
    (new : key = place ∨ k key = none) (taken : (k.withFile place).openedAbove place key ≠ none)
    (up : above key = some dir) (other : dir ≠ key) :
    (k.withFile place).openedAbove place dir = some .dir := by
  have clear' (x : List Part) (mem : x ∈ ascent place) (apart : x ≠ place) :
      k.withFile place x ≠ some .file := by
    rw [withFile, if_neg apart]
    exact clear x mem apart
  by_cases self : key = place
  · subst self
    rw [openedAbove_of_some up]
    refine dir_of_not_file (opened_self _ dir) (opened_not_file (fun x mem => ?_) (self_mem_ascent dir))
    exact clear' x (mem_ascent_trans mem (mem_ascent_of_above up))
      (ne_of_mem_of_not_mem mem (not_mem_ascent_above up other))
  · have free : k.withFile place key = none := by
      rw [withFile, if_neg self]
      exact new.resolve_left self
    cases above' : above place with
    | none =>
      rw [openedAbove_of_none above'] at taken
      exact absurd free taken
    | some top =>
      rw [openedAbove_of_some above'] at taken ⊢
      by_cases same : top = place
      · -- Nothing is opened for a file that is put in the starting directory's own place.
        have full : k.withFile place top ≠ none := taken_of_kind (if_pos same)
        rw [opened_of_taken full] at taken
        exact absurd free taken
      · refine dir_of_opened (fun x mem => ?_) free taken up
        exact clear' x (mem_ascent_trans mem (mem_ascent_of_above above'))
          (ne_of_mem_of_not_mem mem (not_mem_ascent_above above' same))

/-- Only what lies above a file is opened for it. -/
theorem mem_ascent_of_new (free : k key = none)
    (taken : (k.withFile place).openedAbove place key ≠ none) : key ∈ ascent place := by
  by_cases self : key = place
  · rw [self]
    exact self_mem_ascent place
  · have free' : k.withFile place key = none := by rwa [withFile, if_neg self]
    cases above' : above place with
    | none =>
      rw [openedAbove_of_none above'] at taken
      exact absurd free' taken
    | some top =>
      rw [openedAbove_of_some above'] at taken
      have mem := mem_ascent_of_mem_missing (mem_missing_of_opened free' taken)
      exact mem_ascent_trans mem (mem_ascent_of_above above')

/-- Opening reaches a place above, if nothing takes the places below it. -/
theorem taken_of_mem_ascent (mem : dir ∈ ascent top)
    (free : ∀ x ∈ ascent top, dir ∈ ascent x → x ≠ dir → k x = none) :
    k.opened top dir ≠ none := by
  induction top using ascent_induction with
  | top top whole _ =>
    rw [whole, List.mem_singleton] at mem
    rw [mem]
    exact opened_self k top
  | up top next _ _ whole ih =>
    by_cases self : dir = top
    · rw [self]
      exact opened_self k top
    · have low := free top (self_mem_ascent top) mem (Ne.symm self)
      rw [whole] at mem free
      have reached := ih ((List.mem_cons.mp mem).resolve_left self) fun x on =>
        free x (List.mem_cons_of_mem top on)
      rw [opened] at reached ⊢
      rw [missing_of_up low whole]
      split
      · exact Option.some_ne_none Kind.dir
      · rename_i out
        rwa [if_neg fun mem => out (List.mem_cons_of_mem top mem)] at reached

end Kinds

namespace IsTree

/-- What anything lies in is a directory, however far above. -/
theorem dir_of_mem_ascent (tree : s.IsTree) (taken : s.kindAt key ≠ none)
    (mem : dir ∈ ascent key) (other : dir ≠ key) : s.kindAt dir = some .dir := by
  induction key using ascent_induction with
  | top key whole _ =>
    rw [whole, List.mem_singleton] at mem
    exact absurd mem other
  | up key next up apart whole ih =>
    obtain ⟨kind, -⟩ := tree key next taken up apart
    rw [whole, List.mem_cons] at mem
    have mem := mem.resolve_left other
    by_cases same : dir = next
    · rwa [same]
    · exact ih (Kinds.taken_of_kind kind) mem same

theorem clear (tree : s.IsTree) (taken : s.kindAt key ≠ none) : s.Clear key := by
  intro dir mem other file
  rw [tree.dir_of_mem_ascent taken mem other] at file
  cases file

theorem bare (tree : s.IsTree) (room : s.kindAt key ≠ some .dir) : s.Bare key := by
  intro child up other
  by_contra taken
  exact room (tree child key taken up (Ne.symm other)).1

theorem congr_iff (kinds : t.kindAt = s.kindAt)
    (names : ∀ dir name, t.ListsName dir name ↔ s.ListsName dir name) : t.IsTree ↔ s.IsTree := by
  simp only [IsTree, kinds, names]

end IsTree

/-! Single changes -/

theorem isTree_empty : IsTree empty := by
  have one : Memory.empty = (⟨.empty, 0, []⟩ : Memory).put here (.dir []) := rfl
  intro key dir taken up other
  rw [one, kindAt_put_dir] at taken
  split at taken
  · rename_i same
    rw [same, parts_here] at up
    rw [same, parts_here] at other
    exact absurd (Option.some.inj (up.symm.trans above_here)) other
  · exact absurd rfl taken

theorem isTree_ensureDir_iff (tree : s.IsTree) :
    (s.ensureDir p).IsTree ↔ s.Clear p.parts := by
  constructor
  · intro tree' dir mem other file
    have taken : (s.ensureDir p).kindAt p.parts ≠ none := by
      rw [kindAt_ensureDir]
      exact Kinds.opened_self _ _
    refine tree'.clear taken dir mem other ?_
    rw [kindAt_ensureDir]
    exact Kinds.opened_of_kind file
  · intro clear key dir taken up other
    by_cases old : s.kindAt key = none
    · have kind : (s.ensureDir p).kindAt dir = some .dir := by
        rw [kindAt_ensureDir] at taken ⊢
        have free := Kinds.free_self_of_mem_missing (Kinds.mem_missing_of_opened old taken)
        refine Kinds.dir_of_opened (fun x mem file => ?_) old taken up
        by_cases self : x = p.parts
        · rw [self, free] at file
          cases file
        · exact clear x mem self file
      refine ⟨kind, fun name named => (listsName_ensureDir s p).mpr (.inr ⟨?_, kind⟩)⟩
      exact ⟨key, old, taken, up, named⟩
    · obtain ⟨kind, names⟩ := tree key dir old up other
      refine ⟨?_, fun name named => (listsName_ensureDir s p).mpr (.inl (names name named))⟩
      rw [kindAt_ensureDir]
      exact Kinds.opened_of_kind kind

section
variable (content : Bytes) (time : Int64)

theorem IsTree.of_insertFile (tree : (s.insertFile p content time).IsTree) :
    s.Clear p.parts ∧ s.Bare p.parts := by
  have file : (s.insertFile p content time).kindAt p.parts = some .file := by simp
  constructor
  · intro dir mem other found
    refine tree.clear (Kinds.taken_of_kind file) dir mem other ?_
    rw [kindAt_insertFile]
    exact Kinds.openedAbove_of_kind (by rwa [Kinds.withFile, if_neg other])
  · have room : (s.insertFile p content time).kindAt p.parts ≠ some .dir := by
      rw [file]
      decide
    intro child up other
    by_contra taken
    exact taken_insertFile s p content time taken (tree.bare room child up other)

/-- A file put into a tree makes a tree, also of one in which only names are missing that the file
puts on a list. -/
theorem isTree_insertFile (clear : s.Clear p.parts) (bare : s.Bare p.parts)
    (rest : ∀ key dir, s.kindAt key ≠ none → above key = some dir → dir ≠ key →
      s.kindAt dir = some .dir ∧ ∀ name, lastName key = some name →
        s.ListsName dir name ∨ (s.insertFile p content time).ListsName dir name) :
    (s.insertFile p content time).IsTree := by
  intro key dir taken up other
  by_cases new : key = p.parts ∨ s.kindAt key = none
  · have kind : (s.insertFile p content time).kindAt dir = some .dir := by
      rw [kindAt_insertFile] at taken ⊢
      exact Kinds.dir_of_withFile clear new taken up other
    refine ⟨kind, fun name named => (listsName_insertFile ..).mpr (.inr ⟨?_, kind⟩)⟩
    rcases new with rfl | free
    · exact .inl ⟨up, named⟩
    · exact .inr ⟨key, free, taken, up, named⟩
  · rw [not_or] at new
    obtain ⟨kind, names⟩ := rest key dir new.2 up other
    have apart : dir ≠ p.parts := by
      rintro rfl
      exact new.2 (bare key up (Ne.symm other))
    constructor
    · rw [kindAt_insertFile]
      exact Kinds.openedAbove_of_kind (by rwa [Kinds.withFile, if_neg apart])
    · intro name named
      rcases names name named with listed | listed
      · exact (listsName_insertFile ..).mpr (.inl ⟨apart, listed⟩)
      · exact listed

theorem isTree_insertFile_iff (tree : s.IsTree) :
    (s.insertFile p content time).IsTree ↔ s.Clear p.parts ∧ s.Bare p.parts := by
  constructor
  · exact IsTree.of_insertFile content time
  · rintro ⟨clear, bare⟩
    refine isTree_insertFile content time clear bare fun key dir taken up other => ?_
    obtain ⟨kind, names⟩ := tree key dir taken up other
    exact ⟨kind, fun name named => .inl (names name named)⟩

end

namespace IsTree

/-- The two spellings of a name share a place on the list. -/
theorem lists_twin {other : List Part} (tree : s.IsTree) (mem : other ∈ twin key)
    (taken : s.kindAt other ≠ none) :
    ∃ name, above key = some [.here] ∧ lastName key = some name ∧ s.ListsName [.here] name := by
  obtain ⟨up, up', -, name, named, named'⟩ := above_of_twin mem
  exact ⟨name, up, named, (tree other [.here] taken up' (ne_of_lastName up' named')).2 name named'⟩

/-- What is left when a file is taken away stays where it is, and is listed there but for the other
spelling. -/
theorem rest_of_discard (tree : s.IsTree) (file : s.isFile p = true)
    (taken : (s.discard p).kindAt key ≠ none) (up : above key = some dir) (other : dir ≠ key) :
    s.kindAt key ≠ none ∧ (s.discard p).kindAt dir = some .dir ∧
      ∀ name, lastName key = some name → (s.discard p).ListsName dir name ∨
        twin p.parts = some key ∧ above p.parts = some dir ∧ lastName p.parts = some name := by
  have apart : key ≠ p.parts := by
    rintro rfl
    exact taken (kindAt_discard_self s p)
  rw [kindAt_discard_of_ne s apart] at taken
  obtain ⟨kind, names⟩ := tree key dir taken up other
  have below : dir ≠ p.parts := by
    rintro rfl
    rw [(isFile_iff s p).mp file] at kind
    cases kind
  refine ⟨taken, (kindAt_discard_of_ne s below).trans kind, fun name named => ?_⟩
  by_cases lost : above p.parts = some dir ∧ lastName p.parts = some name
  · exact .inr ⟨(eq_or_twin lost.1 lost.2 up named).resolve_left apart, lost⟩
  · exact .inl ((listsName_discard s p).mpr ⟨below, names name named, lost⟩)

end IsTree

/-- The other spelling is no longer listed once the file is gone. -/
theorem isTree_discard_iff (tree : s.IsTree) (file : s.isFile p = true) :
    (s.discard p).IsTree ↔ s.Lone p.parts := by
  constructor
  · intro tree' other mem
    by_contra taken
    rw [← ne_eq, ← kindAt_discard_of_ne s (above_of_twin mem).2.2.1] at taken
    obtain ⟨name, up, named, listed⟩ := tree'.lists_twin mem taken
    exact ((listsName_discard s p).mp listed).2.2 ⟨up, named⟩
  · intro lone key dir taken up other
    obtain ⟨taken, kind, names⟩ := tree.rest_of_discard file taken up other
    refine ⟨kind, fun name named => (names name named).resolve_right ?_⟩
    rintro ⟨twin, -⟩
    exact taken (lone key twin)

section
variable (content : Bytes) (time : Int64)

/-- A file that is moved below itself leaves a directory. -/
theorem reopened (tree : s.IsTree) (file : s.kindAt source.parts = some .file)
    (mem : source.parts ∈ ascent target.parts) (apart : source.parts ≠ target.parts) :
    ((s.discard source).insertFile target content time).kindAt source.parts ≠ none := by
  rw [kindAt_insertFile]
  cases up : above target.parts with
  | none =>
    rw [ascent_of_none up, List.mem_singleton] at mem
    exact absurd mem apart
  | some top =>
    by_cases same : top = target.parts
    · rw [ascent_of_self (same ▸ up), List.mem_singleton] at mem
      exact absurd mem apart
    · rw [ascent_of_some up same, List.mem_cons] at mem
      rw [Kinds.openedAbove_of_some up]
      refine Kinds.taken_of_mem_ascent (mem.resolve_left apart) fun x on low other => ?_
      rw [Kinds.withFile, if_neg (ne_of_mem_of_not_mem on (not_mem_ascent_above up same)),
        kindAt_discard_of_ne s other]
      by_contra taken
      rw [tree.dir_of_mem_ascent taken low (Ne.symm other)] at file
      cases file

/-- The name that a moved file was listed by stays on the list only if the move puts it back. -/
theorem IsTree.kept_of_moved {content : Bytes} {time : Int64}
    (tree : ((s.discard source).insertFile target content time).IsTree) :
    s.Lone source.parts ∨ source.parts ∈ ascent target.parts ∨
      twin source.parts = some target.parts := by
  by_contra unfair
  rw [not_or, not_or, Lone] at unfair
  obtain ⟨crowded, below, moved⟩ := unfair
  obtain ⟨other, mem, taken⟩ := by simpa only [not_forall] using crowded
  rw [← ne_eq, ← kindAt_discard_of_ne s (above_of_twin mem).2.2.1] at taken
  obtain ⟨name, up, named, listed⟩ := tree.lists_twin mem (taken_insertFile _ target content time taken)
  rcases (listsName_insertFile ..).mp listed with ⟨-, old⟩ | ⟨new | ⟨key, free, new, lies⟩, -⟩
  · exact ((listsName_discard s source).mp old).2.2 ⟨up, named⟩
  · rcases eq_or_twin up named new.1 new.2 with same | twin
    · exact below (same ▸ self_mem_ascent target.parts)
    · exact moved twin
  · rcases eq_or_twin up named lies.1 lies.2 with rfl | twin
    · rw [kindAt_insertFile] at new
      exact below (Kinds.mem_ascent_of_new free new)
    · cases mem.symm.trans twin
      exact taken free

/-- A directory stays where a file is moved, unless the file takes its place. -/
theorem dir_of_moved (kind : (s.discard source).kindAt dir = some .dir) (apart : dir ≠ target.parts) :
    ((s.discard source).insertFile target content time).kindAt dir = some .dir := by
  rw [kindAt_insertFile]
  exact Kinds.openedAbove_of_kind (by rw [Kinds.withFile, if_neg apart, kind])

/-- A file that is moved from one spelling to the other, or below itself, puts the name back on the
list that it was taken off. -/
theorem isTree_moved_iff (tree : s.IsTree) (file : s.isFile source = true)
    (room : s.isDir target = false) :
    ((s.discard source).insertFile target content time).IsTree ↔
      (s.discard source).Clear target.parts ∧
        (s.Lone source.parts ∨ source.parts ∈ ascent target.parts ∨
          twin source.parts = some target.parts) := by
  have vacant : s.kindAt target.parts ≠ some .dir := fun dir => by
    rw [(isDir_iff s target).mpr dir] at room
    cases room
  constructor
  · intro tree'
    exact ⟨(tree'.of_insertFile content time).1, tree'.kept_of_moved⟩
  · rintro ⟨clear, kept⟩
    have bare : (s.discard source).Bare target.parts := by
      intro child up other
      by_cases same : child = source.parts
      · rw [same, kindAt_discard_self]
      · rw [kindAt_discard_of_ne s same, tree.bare vacant child up other]
    refine isTree_insertFile content time clear bare fun key dir taken up other => ?_
    obtain ⟨taken, kind, names⟩ := tree.rest_of_discard file taken up other
    refine ⟨kind, fun name named => (names name named).imp_right ?_⟩
    rintro ⟨twin, lost⟩
    have outside : dir ≠ target.parts := by
      rintro rfl
      exact vacant (tree key _ taken up other).1
    refine (listsName_insertFile ..).mpr (.inr ⟨?_, dir_of_moved content time kind outside⟩)
    rcases kept with lone | mem | moved
    · exact absurd (lone key twin) taken
    · by_cases same : source.parts = target.parts
      · exact .inl (same ▸ lost)
      · have gone := kindAt_discard_self s source
        have file := (isFile_iff s source).mp file
        exact .inr ⟨source.parts, gone, reopened content time tree file mem same, lost⟩
    · cases twin.symm.trans moved
      exact .inl ⟨up, named⟩

end

/-! Histories -/

/-- A call on a tree leaves a tree if and only if it is fair. -/
theorem isTree_perform_iff (tree : s.IsTree) (o : Operation) :
    (s.perform o).IsTree ↔ s.Fair o := by
  have adding (p : Path) (content : Bytes) :
      (s.addFile p content).IsTree ↔ s.Clear p.parts ∧ s.Bare p.parts :=
    isTree_insertFile_iff (s := { s with clock := s.clock + 1 }) content _ tree
  have writing (p : Path) (content : Bytes) :
      (s.perform (.write p content)).IsTree ↔ s.Clear p.parts := by
    rw [perform_write]
    split
    · rename_i dir
      exact iff_of_true tree (tree.clear (Kinds.taken_of_kind ((isDir_iff s p).mp dir)))
    · rename_i room
      rw [adding, and_iff_left (tree.bare (mt (isDir_iff s p).mpr room))]
  cases o with
  | addFile p content => exact adding p content
  | addDir p => exact isTree_ensureDir_iff tree
  | makeUnreadable p => exact iff_of_true tree trivial
  | setModified p time =>
    rw [perform, IsTree.congr_iff (kindAt_setModified s p time) (listsName_setModified s p time)]
    exact iff_of_true tree trivial
  | write p content => exact writing p content
  | copy source target =>
    rw [perform_copy, Fair]
    split
    · rename_i e failed
      refine iff_of_true tree fun ok => ?_
      rw [failed] at ok
      cases ok
    · rename_i content read
      have ok : (s.read source).isOk = true := by rw [read]; rfl
      rw [writing, forall_prop_of_true ok]
  | removeFile p =>
    rw [perform_removeFile, Fair]
    split
    · rename_i file
      rw [isTree_discard_iff tree file, forall_prop_of_true file]
    · rename_i none
      exact iff_of_true tree fun file => absurd file none
  | rename source target =>
    rw [Fair]
    rcases perform_rename s source target with ⟨file, room, content, time, eq⟩ | ⟨none, same⟩
    · rw [eq, isTree_moved_iff content time tree file room, forall_prop_of_true file, forall_prop_of_true room]
    · have kinds : (s.perform (.rename source target)).kindAt = s.kindAt := by
        funext key
        rw [kindAt, same, kindAt]
      rw [IsTree.congr_iff kinds fun dir name => listsName_congr (same dir)]
      exact iff_of_true tree fun file room => absurd ⟨file, room⟩ none
  | createDirs p =>
    rw [perform_createDirs]
    split
    · rename_i file
      exact iff_of_true tree (tree.clear (Kinds.taken_of_kind ((isFile_iff s p).mp file)))
    · exact isTree_ensureDir_iff tree

theorem fairly_iff (tree : s.IsTree) (ops : List Operation) :
    s.Fairly ops ↔ ∀ front, front <+: ops → (s.performAll front).IsTree := by
  induction ops generalizing s with
  | nil =>
    refine iff_of_true trivial fun front within => ?_
    rw [List.prefix_nil.mp within]
    exact tree
  | cons o ops ih =>
    constructor
    · rintro ⟨fair, rest⟩ front within
      rcases List.prefix_cons_iff.mp within with rfl | ⟨front', rfl, within'⟩
      · exact tree
      · exact (ih ((isTree_perform_iff tree o).mpr fair)).mp rest front' within'
    · intro trees
      have tree' : (s.perform o).IsTree := trees [o] (List.prefix_append [o] ops)
      refine ⟨(isTree_perform_iff tree o).mp tree', (ih tree').mpr fun front within => ?_⟩
      exact trees (o :: front) (List.prefix_cons_iff.mpr (.inr ⟨front, rfl, within⟩))

/-! Entries and paths -/

/-- Every entry with a name lies in a directory, which lists the name if it is text. -/
def EntriesListed (s : Memory) : Prop :=
  ∀ p dir name, s.isPresent p = true → p.fileName = some name → parentOf p = some dir →
    ∃ children, s.entry? dir = some (.dir children) ∧ ∀ text ∈ name.text?, text ∈ children

/-- The paths that are come upon by listing directories from the top. -/
inductive Found (s : Memory) : Path → Prop
  | top {p : Path} (top : ∀ dir, parentOf p = some dir → dir.same p = true) : Found s p
  | listed {p q dir : Path} {entries : List Path} (up : parentOf p = some dir) (high : Found s dir)
      (listing : s.list dir = .ok entries) (mem : q ∈ entries) (named : q.fileName = p.fileName) :
      Found s p

/-- The part can be gone to by listing: it is not `..`, and a name is text. -/
def Listable : Part → Prop
  | .up => False
  | .name s => s.isText = true
  | .root | .here => True

theorem listable_iff :
    (∀ part ∈ p.parts, Listable part) ↔ .up ∉ p.parts ∧ p.spelling.isText = true := by
  rw [← Path.isText_iff_names]
  constructor
  · intro each
    exact ⟨fun up => each .up up, fun s mem => each (.name s) mem⟩
  · rintro ⟨straight, text⟩ part mem
    cases part with
    | root => trivial
    | here => trivial
    | up => exact absurd mem straight
    | name s => exact text s mem

/-- Going up from a path without `..` drops a name, until the top. -/
theorem fileName_of_straight (straight : .up ∉ p.parts) {dir : Path} (up : parentOf p = some dir)
    (other : dir.same p = false) : ∃ name, p.fileName = some name := by
  have place := above_of_parentOf up
  have apart : dir.parts ≠ p.parts := fun same => by simp [same_iff.mpr same] at other
  have last (part : Part) (mem : part ∈ p.parts.tail) : ∃ s, part = .name s :=
    (Path.named_of_mem_tail mem).resolve_left fun up =>
      straight (up ▸ List.mem_of_mem_tail mem)
  simp only [Path.fileName_eq_some_iff]
  generalize p.parts = key at *
  match key with
  | [] => cases place
  | [.root] => cases place
  | [.here] => exact absurd (Option.some.inj (place.symm.trans above_here)) apart
  | [.up] => exact absurd List.mem_cons_self straight
  | [.name s] => exact ⟨s, rfl⟩
  | first :: second :: rest =>
    obtain ⟨name, named⟩ := last _ (List.getLast_mem (List.cons_ne_nil second rest))
    exact ⟨name, by rw [← named, List.getLast?_cons_cons, List.getLast?_eq_getLast_of_ne_nil]⟩

/-- The directory that lists a path has no parts but the path's, and the dot. -/
theorem mem_parts_of_parentOf {dir : Path} (up : parentOf p = some dir) {part : Part}
    (mem : part ∈ dir.parts) : part = .here ∨ part ∈ p.parts := by
  have place := above_of_parentOf up
  rw [above] at place
  split at place
  · cases place
  · rw [← Option.some.inj place] at mem
    split at mem
    · exact .inl (List.mem_singleton.mp mem)
    · exact .inr (List.mem_of_mem_dropLast mem)

theorem listable_parentOf (each : ∀ part ∈ p.parts, Listable part) {dir : Path}
    (up : parentOf p = some dir) : ∀ part ∈ dir.parts, Listable part := by
  intro part mem
  rcases mem_parts_of_parentOf up mem with rfl | mem
  · trivial
  · exact each part mem

/-- What is listed has a name that is text, so nothing else is found. -/
theorem Found.listable (named : s.Named) (found : s.Found p) : ∀ part ∈ p.parts, Listable part := by
  induction found with
  | @top p top =>
    cases up : parentOf p with
    | none =>
      have bare := above_of_top up
      rw [above] at bare
      split at bare
      · rename_i ends
        rcases ends with ends | ends <;> simp [ends, Listable]
      · cases bare
    | some dir =>
      have self := above_of_parentOf up
      rw [same_iff.mp (top dir up)] at self
      simp [eq_here_of_above_self self, Listable]
  | @listed p q dir entries up high listing mem last ih =>
    obtain ⟨name, deeper⟩ := listed_of_named named listing mem
    have last' : p.parts.getLast? = some (.name name) := by
      rw [← Path.fileName_eq_some_iff, ← last, Path.fileName_eq_some_iff, deeper,
        List.getLast?_concat]
    have whole := (List.dropLast_append_getLast? _ last').symm
    have place := above_of_parentOf up
    rw [whole, above_append, Option.some.injEq] at place
    rw [whole, List.forall_mem_append, List.forall_mem_singleton]
    refine ⟨fun part front => ?_, Spelling.isText_ofString name⟩
    split at place
    · rename_i bare
      rw [bare] at front
      cases front
    · exact ih part (place ▸ front)

namespace IsTree

theorem entriesListed (tree : s.IsTree) : s.EntriesListed := by
  intro p dir name present named up
  rw [isPresent_eq, Option.isSome_iff_ne_none] at present
  have place := above_of_parentOf up
  rw [Path.fileName_eq_some_iff] at named
  obtain ⟨kind, lists⟩ := tree p.parts dir.parts present place (ne_of_named place named)
  obtain ⟨children, found⟩ := (isDir_iff_exists s dir).mp ((isDir_iff s dir).mpr kind)
  refine ⟨children, found, fun text read => ?_⟩
  rw [Spelling.text?_eq_some_iff.mp read] at named
  obtain ⟨children', found', mem⟩ := lists text (lastName_eq_some_iff.mpr named)
  rw [found] at found'
  cases found'
  exact mem

theorem found (tree : s.IsTree) (named : s.Named) (taken : s.kindAt p.parts ≠ none)
    (each : ∀ part ∈ p.parts, Listable part) : s.Found p := by
  induction key : p.parts using ascent_induction generalizing p with
  | top key whole top =>
    refine .top fun dir up => same_iff.mpr ?_
    rw [key]
    exact top dir.parts (key ▸ above_of_parentOf up)
  | up key next up other whole ih =>
    subst key
    rw [← parts_parentOf, Option.map_eq_some_iff] at up
    obtain ⟨dir, up, rfl⟩ := up
    obtain ⟨name, last⟩ := fileName_of_straight (each .up) up (beq_false_of_ne other)
    obtain ⟨text, rfl⟩ := Spelling.isText_iff.mp
      (each (.name name) (List.mem_of_getLast? (Path.fileName_eq_some_iff.mp last)))
    obtain ⟨kind, lists⟩ := tree p.parts dir.parts taken (above_of_parentOf up) other
    have listed : lastName p.parts = some text :=
      lastName_eq_some_iff.mpr (Path.fileName_eq_some_iff.mp last)
    obtain ⟨children, found, child⟩ := lists text listed
    have listing : s.list dir = .ok (children.map fun (name : String) => dir.join name) := by
      rw [list, entry?_eq, found]
    have high := ih (Kinds.taken_of_kind kind) (listable_parentOf each up) rfl
    refine .listed up high listing (List.mem_map_of_mem child) ?_
    rw [last, Path.fileName_eq_some_iff, Path.parts_join dir (named _ _ found text child),
      List.getLast?_concat]

end IsTree

/-- A history keeps to trees if and only if each of its calls is fair. Then every entry lies in a
directory that lists it, if its name is text, nothing lies beneath a file, and listing from the top
finds every file but those whose path goes up by `..` or is no text. -/
theorem fairly_lists (ops : List Operation) :
    (empty.Fairly ops ↔ ∀ front, front <+: ops → (after front).IsTree) ∧
    (empty.Fairly ops →
      (after ops).EntriesListed ∧
      (∀ p q, (after ops).isFile p = true → (after ops).isPresent q = true →
        p.parts ∈ ascent q.parts → p.same q = true) ∧
      ∀ p, (after ops).isFile p = true →
        ((after ops).Found p ↔ .up ∉ p.parts ∧ p.spelling.isText = true)) := by
  refine ⟨fairly_iff isTree_empty ops, fun fair => ?_⟩
  have tree : (after ops).IsTree :=
    (fairly_iff isTree_empty ops).mp fair ops (List.prefix_refl ops)
  have named := (made_after ops).named
  refine ⟨tree.entriesListed, fun p q file present mem => ?_, fun p file => ?_⟩
  · rw [isPresent_eq, Option.isSome_iff_ne_none] at present
    by_contra other
    exact tree.clear present p.parts mem (mt same_iff.mpr other) ((isFile_iff _ p).mp file)
  · have taken := Kinds.taken_of_kind ((isFile_iff (after ops) p).mp file)
    rw [← listable_iff]
    exact ⟨fun found => found.listable named, tree.found named taken⟩

/-- A history with calls that fail, and with a name that is no text. -/
theorem fairly_lists_sample :
    let ops : List Operation := [.addFile ⟨"src/a"⟩ [1], .makeUnreadable ⟨"b"⟩, .createDirs ⟨"out/x"⟩,
      .write ⟨"out/x"⟩ [2], .removeFile ⟨"src/b"⟩, .copy ⟨"src/a"⟩ ⟨"out/a"⟩, .copy ⟨"b"⟩ ⟨"src/a/b"⟩,
      .addFile ⟨⟨[0xff]⟩⟩ [3], .rename ⟨"src/a"⟩ ⟨"out/x/b"⟩, .rename ⟨"src"⟩ ⟨"s"⟩,
      .setModified ⟨"out/a"⟩ 5]
    empty.Fairly ops ∧ (after ops).isFile ⟨"out/x/b"⟩ = true ∧ (after ops).Found ⟨"out/x/b"⟩ := by
  intro ops
  have fair : empty.Fairly ops := by decide +kernel
  have file : (after ops).isFile ⟨"out/x/b"⟩ = true := by decide +kernel
  exact ⟨fair, file, (((fairly_lists ops).2 fair).2.2 _ file).mpr (by decide +kernel)⟩

/-- Files below files, files in the place of directories, names in two spellings and names that are no
text break the lists, and `..` is never listed. -/
theorem unlisted_of_unfair :
    ¬EntriesListed (after [.addFile ⟨"a"⟩ [1], .addFile ⟨"a/b"⟩ [2]]) ∧
    ¬EntriesListed (after [.addFile ⟨"a/b"⟩ [1], .addFile ⟨"a"⟩ [2]]) ∧
    ¬EntriesListed (after [.addFile ⟨"a"⟩ [1], .addFile ⟨"./a"⟩ [2], .removeFile ⟨"a"⟩]) ∧
    ¬Found (after [.addFile ⟨⟨[0xff]⟩⟩ [1]]) ⟨⟨[0xff]⟩⟩ ∧
    ¬Found (after [.addFile ⟨"a/../b"⟩ [1]]) ⟨"a/../b"⟩ := by
  have lists {s : Memory} (listed : s.EntriesListed) (p dir : Path) (name : String)
      (present : s.isPresent p = true) (named : p.fileName = some (.ofString name))
      (up : parentOf p = some dir) : s.ListsName dir.parts name := by
    obtain ⟨children, found, mem⟩ := listed p dir name present named up
    exact ⟨children, found, mem name (Spelling.text?_ofString name)⟩
  refine ⟨fun listed => ?_, fun listed => ?_, fun listed => ?_, fun found => ?_, fun found => ?_⟩
  · have known := lists listed ⟨"a/b"⟩ ⟨"a"⟩ "b"
    revert known
    decide +kernel
  · have known := lists listed ⟨"a/b"⟩ ⟨"a"⟩ "b"
    revert known
    decide +kernel
  · have known := lists listed ⟨"./a"⟩ ⟨"."⟩ "a"
    revert known
    decide +kernel
  · have fit := listable_iff.mp (found.listable (made_after _).named)
    revert fit
    decide +kernel
  · have fit := listable_iff.mp (found.listable (made_after _).named)
    revert fit
    decide +kernel

end Staging.Memory
