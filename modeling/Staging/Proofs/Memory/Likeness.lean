import Staging.Proofs.Memory.Growth
import Staging.Proofs.Memory.Listing

/-!
Likeness. Two trees are alike when the same kinds of entries take their places, with the same
contents, and when the directories that count list the same names; times may differ everywhere.
What a call does depends on nothing that may differ, so the same calls lead from trees that are
alike to trees that are alike.
-/
namespace Staging.Memory
open Pass

/-- Entries that are the same but for times, and but for what a directory lists unless that
counts. -/
inductive EntryLike (counts : Prop) : Option Entry → Option Entry → Prop
  | free : EntryLike counts none none
  | file (content : Bytes) (time time' : Int64) :
      EntryLike counts (some (.file content time)) (some (.file content time'))
  | dir (names names' : List String) : (counts → names = names') →
      EntryLike counts (some (.dir names)) (some (.dir names'))

namespace EntryLike

variable {counts : Prop} {a b c : Option Entry}

theorem refl (counts : Prop) (a : Option Entry) : EntryLike counts a a := by
  rcases a with _ | _ | names
  · exact .free
  · exact .file _ _ _
  · exact .dir names names fun _ => rfl

theorem trans (h : EntryLike counts a b) (h' : EntryLike counts b c) : EntryLike counts a c := by
  cases h with
  | free => exact h'
  | file content time time' =>
    cases h' with
    | file _ _ time'' => exact .file content time time''
  | dir names names' same =>
    cases h' with
    | dir _ names'' same' => exact .dir names names'' fun k => (same k).trans (same' k)

theorem kind_eq (h : EntryLike counts a b) : a.map Entry.kind = b.map Entry.kind := by
  cases h <;> rfl

theorem content_eq (h : EntryLike counts a b) : a.bind Entry.content? = b.bind Entry.content? := by
  cases h <;> rfl

/-- Where listings do not count, kinds and contents say everything. -/
theorem of_kind (out : ¬counts) (kind : a.map Entry.kind = b.map Entry.kind)
    (content : a.bind Entry.content? = b.bind Entry.content?) : EntryLike counts a b := by
  rcases a with _ | ⟨x, time⟩ | names <;> rcases b with _ | ⟨y, time'⟩ | names'
  · exact .free
  · cases kind
  · cases kind
  · cases kind
  · cases content
    exact .file x time time'
  · cases kind
  · cases kind
  · cases kind
  · exact .dir names names' fun k => absurd k out

/-- Files with the same content are alike. -/
theorem of_content {content : Bytes} (left : a.bind Entry.content? = some content)
    (right : b.bind Entry.content? = some content) : EntryLike counts a b := by
  rcases a with _ | ⟨x, time⟩ | names
  · cases left
  · rcases b with _ | ⟨y, time'⟩ | names
    · cases right
    · cases left
      cases right
      exact .file content time time'
    · cases right
  · cases left

end EntryLike

/-- Two trees that are alike; listings count at the places in `K`. -/
structure Like (K : List Part → Prop) (s t : Memory) : Prop where
  unreadable : s.unreadable = t.unreadable
  entries : ∀ key, EntryLike (K key) (s.at? key) (t.at? key)

namespace Like

variable {K : List Part → Prop} {s t u : Memory}

theorem refl (K : List Part → Prop) (s : Memory) : Like K s s := ⟨rfl, fun _ => .refl _ _⟩

theorem trans (h : Like K s t) (h' : Like K t u) : Like K s u :=
  ⟨h.unreadable.trans h'.unreadable, fun key => (h.entries key).trans (h'.entries key)⟩

theorem kindAt_eq (h : Like K s t) : s.kindAt = t.kindAt := by
  funext key
  exact (h.entries key).kind_eq

theorem contentAt_eq (h : Like K s t) (key : List Part) : s.contentAt key = t.contentAt key :=
  (h.entries key).content_eq

/-- Trees with the same kinds and contents are alike if the entries that count are. -/
theorem of_kinds (unreadable : s.unreadable = t.unreadable) (kinds : s.kindAt = t.kindAt)
    (contents : ∀ key, s.contentAt key = t.contentAt key)
    (counting : ∀ key, K key → EntryLike (K key) (s.at? key) (t.at? key)) : Like K s t := by
  refine ⟨unreadable, fun key => ?_⟩
  by_cases counts : K key
  · exact counting key counts
  · exact .of_kind counts (congrFun kinds key) (contents key)

theorem put (h : Like K s t) (p : Path) {e e' : Entry}
    (like : EntryLike (K p.parts) (some e) (some e')) : Like K (s.put p e) (t.put p e') := by
  refine ⟨h.unreadable, fun key => ?_⟩
  rw [at?_put, at?_put]
  split
  · rename_i same
    exact same ▸ like
  · exact h.entries key

theorem drop (h : Like K s t) (p : Path) : Like K (s.drop p) (t.drop p) := by
  refine ⟨h.unreadable, fun key => ?_⟩
  rw [at?_drop, at?_drop]
  split
  · exact .free
  · exact h.entries key

/-- What a directory lists may change where that does not count. -/
theorem relisted (h : Like K s t) {dir : List Part} {s' t' : Memory} (out : ¬K dir)
    (hs : Relisted dir s s') (ht : Relisted dir t t') : Like K s' t' := by
  apply of_kinds
  · rw [hs.unreadable_eq, ht.unreadable_eq, h.unreadable]
  · rw [hs.kindAt_eq, ht.kindAt_eq, h.kindAt_eq]
  · intro key
    rw [hs.contentAt_eq, ht.contentAt_eq, h.contentAt_eq]
  · intro key counts
    have other : key ≠ dir := fun same => out (same ▸ counts)
    rw [hs.at?_eq other, ht.at?_eq other]
    exact h.entries key

theorem link (h : Like K s t) (parent p : Path) : Like K (s.link parent p) (t.link parent p) := by
  by_cases counts : K parent.parts
  · have entry : EntryLike (K parent.parts) (s.entry? parent) (t.entry? parent) :=
      h.entries parent.parts
    unfold Memory.link
    generalize s.entry? parent = a, t.entry? parent = b at entry
    cases entry with
    | free => exact h
    | file => exact h
    | dir names names' same =>
      obtain rfl := same counts
      cases listedName p with
      | none => exact h
      | some name =>
        simp only
        split
        · exact h
        · exact h.put parent (.refl _ _)
  · exact h.relisted counts (relisted_link s parent p) (relisted_link t parent p)

theorem unlink (h : Like K s t) (p : Path) : Like K (s.unlink p) (t.unlink p) := by
  cases up : parentOf p with
  | none =>
    rw [unlink_of_top _ up, unlink_of_top _ up]
    exact h
  | some parent =>
    by_cases counts : K parent.parts
    · have entry : EntryLike (K parent.parts) (s.entry? parent) (t.entry? parent) :=
        h.entries parent.parts
      simp only [Memory.unlink, up]
      cases listedName p with
      | none => exact h
      | some name =>
        simp only
        generalize s.entry? parent = a, t.entry? parent = b at entry
        cases entry with
        | free => exact h
        | file => exact h
        | dir names names' same =>
          obtain rfl := same counts
          exact h.put parent (.refl _ _)
    · exact h.relisted counts (relisted_unlink s up) (relisted_unlink t up)

theorem isPresent_eq (h : Like K s t) (p : Path) : s.isPresent p = t.isPresent p := by
  rw [Memory.isPresent_eq, Memory.isPresent_eq, h.kindAt_eq]

theorem isDir_eq (h : Like K s t) (p : Path) : s.isDir p = t.isDir p := by
  rw [Bool.eq_iff_iff, isDir_iff, isDir_iff, h.kindAt_eq]

theorem isFile_eq (h : Like K s t) (p : Path) : s.isFile p = t.isFile p := by
  rw [Bool.eq_iff_iff, isFile_iff, isFile_iff, h.kindAt_eq]

theorem read_eq (h : Like K s t) (p : Path) : s.read p = t.read p := by
  have entry : EntryLike (K p.parts) (s.entry? p) (t.entry? p) := h.entries p.parts
  unfold Memory.read
  rw [h.unreadable]
  split
  · rfl
  · generalize s.entry? p = a, t.entry? p = b at entry
    cases entry <;> rfl

/-- Where the names that a directory lists count, they are the same. -/
theorem list_eq (h : Like K s t) {p : Path} (counts : K p.parts) : s.list p = t.list p := by
  have entry : EntryLike (K p.parts) (s.entry? p) (t.entry? p) := h.entries p.parts
  unfold Memory.list
  generalize s.entry? p = a, t.entry? p = b at entry
  cases entry with
  | free => rfl
  | file => rfl
  | dir names names' same => rw [same counts]

theorem ensureDirUpTo (h : Like K s t) (n : Nat) (p : Path) :
    Like K (ensureDirUpTo n s p) (ensureDirUpTo n t p) := by
  induction n generalizing s t p with
  | zero => exact h
  | succ n ih =>
    have made : Like K (s.put p (.dir [])) (t.put p (.dir [])) := h.put p (.refl _ _)
    rw [Memory.ensureDirUpTo, Memory.ensureDirUpTo, h.isPresent_eq]
    split
    · exact h
    · cases parentOf p with
      | none => exact made
      | some parent =>
        simp only
        split
        · exact made
        · exact (ih made parent).link parent p

theorem ensureDir (h : Like K s t) (p : Path) : Like K (s.ensureDir p) (t.ensureDir p) :=
  h.ensureDirUpTo _ p

theorem insertFile (h : Like K s t) (p : Path) (content : Bytes) (time time' : Int64) :
    Like K (s.insertFile p content time) (t.insertFile p content time') := by
  have put := h.put p (.file content time time')
  unfold Memory.insertFile
  cases parentOf p with
  | none => exact put
  | some parent => exact (put.ensureDir parent).link parent p

theorem addFile (h : Like K s t) (p : Path) (content : Bytes) :
    Like K (s.addFile p content) (t.addFile p content) :=
  insertFile (s := { s with clock := s.clock + 1 }) (t := { t with clock := t.clock + 1 })
    ⟨h.unreadable, h.entries⟩ p content _ _

theorem discard (h : Like K s t) (p : Path) : Like K (s.discard p) (t.discard p) :=
  (h.drop p).unlink p

theorem setModified (h : Like K s t) (p : Path) (time : Int64) :
    Like K (s.setModified p time) (t.setModified p time) := by
  have entry : EntryLike (K p.parts) (s.entry? p) (t.entry? p) := h.entries p.parts
  unfold Memory.setModified
  generalize s.entry? p = a, t.entry? p = b at entry
  cases entry with
  | free => exact h
  | file => exact h.put p (.file _ _ _)
  | dir => exact h

theorem makeUnreadable (h : Like K s t) (p : Path) :
    Like K (s.makeUnreadable p) (t.makeUnreadable p) :=
  ⟨congrArg (p.parts :: ·) h.unreadable, h.entries⟩

theorem rename (h : Like K s t) (source target : Path) :
    (s.rename source target).1 = (t.rename source target).1 ∧
      Like K (s.rename source target).2 (t.rename source target).2 := by
  have entry : EntryLike (K source.parts) (s.entry? source) (t.entry? source) :=
    h.entries source.parts
  unfold Memory.rename
  rw [h.isDir_eq]
  split
  · exact ⟨rfl, h⟩
  · generalize s.entry? source = a, t.entry? source = b at entry
    cases entry with
    | free => exact ⟨rfl, h⟩
    | file => exact ⟨rfl, (h.discard source).insertFile target _ _ _⟩
    | dir names names' same => exact ⟨rfl, (h.drop source).put source (.dir names names' same)⟩

theorem write (h : Like K s t) (p : Path) (content : Bytes) :
    SameOutcome (fun _ => True) (Like K) (s.write p content) (t.write p content) := by
  unfold Memory.write
  rw [h.isDir_eq]
  split
  · exact .error trivial
  · exact .ok (h.addFile p content)

theorem copy (h : Like K s t) (source target : Path) :
    SameOutcome (fun _ => True) (Like K) (s.copy source target) (t.copy source target) := by
  unfold Memory.copy
  rw [h.read_eq]
  cases t.read source with
  | error e => exact .error trivial
  | ok content => exact h.write target content

theorem removeFile (h : Like K s t) (p : Path) :
    SameOutcome (fun _ => True) (Like K) (s.removeFile p) (t.removeFile p) := by
  have entry : EntryLike (K p.parts) (s.entry? p) (t.entry? p) := h.entries p.parts
  unfold Memory.removeFile
  generalize s.entry? p = a, t.entry? p = b at entry
  cases entry with
  | free => exact .error trivial
  | file => exact .ok (h.discard p)
  | dir => exact .error trivial

theorem createDirs (h : Like K s t) (p : Path) :
    SameOutcome (fun _ => True) (Like K) (s.createDirs p) (t.createDirs p) := by
  unfold Memory.createDirs
  rw [h.isFile_eq]
  split
  · exact .error trivial
  · exact .ok (h.ensureDir p)

/-- Putting the content that a file has already changes nothing that counts, if listings count
nowhere above it. -/
theorem rewritten {p : Path} {content : Bytes} (same : s.contentAt p.parts = some content)
    (up : ∀ dir, above p.parts = some dir → s.kindAt dir ≠ none)
    (out : ∀ key, K key → key ∈ ascent p.parts → key = p.parts) :
    Like K (s.addFile p content) s := by
  have file : s.kindAt p.parts = some .file := by
    rw [kindAt_eq_file_iff, same]
    rfl
  have kept : Kinds.withFile s.kindAt p.parts = s.kindAt := by
    funext key
    rw [Kinds.withFile]
    split
    · rename_i here
      rw [here, file]
    · rfl
  have contents : ∀ key, (s.addFile p content).contentAt key = s.contentAt key := by
    intro key
    rw [contentAt_addFile]
    split
    · rename_i here
      rw [here, same]
    · rfl
  apply of_kinds
  · exact unreadable_addFile s p content
  · rw [kindAt_addFile, kept]
    cases found : above p.parts with
    | none => exact Kinds.openedAbove_of_none found
    | some dir =>
      rw [Kinds.openedAbove_of_some found]
      exact Kinds.opened_of_taken (up dir found)
  · exact contents
  · intro key counts
    by_cases mem : key ∈ ascent p.parts
    · obtain rfl := out key counts mem
      exact .of_content ((contents p.parts).trans same) same
    · rw [at?_addFile s content mem]
      exact .refl _ _

end Like
end Staging.Memory
