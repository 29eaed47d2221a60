import Mathlib.Data.List.Nodup
import Staging.Proofs.Memory.Steps

/-!
Listings. The directories of a tree that came about by the calls list names only, each of them once,
so a walk stays below the directory where it starts, and what it finds depends on nothing but what
lies there.
-/
namespace Staging.Memory

/-- What the directories of a tree list has `P`. -/
def Listing (P : List String → Prop) (s : Memory) : Prop :=
  ∀ key children, s.at? key = some (.dir children) → P children

/-- A property of the names in a directory that is kept where names come and go. -/
structure Maintained (P : List String → Prop) : Prop where
  nil : P []
  add : ∀ children (name : String), P children → Path.IsName name → name ∉ children →
    P (children ++ [name])
  remove : ∀ children name, P children → P (children.filter (· != name))

/-- Directories list names only. -/
def Named (s : Memory) : Prop :=
  ∀ key children, s.at? key = some (.dir children) → ∀ name ∈ children, Path.IsName name

theorem maintained_isName : Maintained fun children => ∀ name ∈ children, Path.IsName name where
  nil := nofun
  add children name all new _ := by
    simp only [List.forall_mem_append, List.forall_mem_singleton]
    exact ⟨all, new⟩
  remove children name all other mem := all other (List.mem_filter.mp mem).1

theorem maintained_nodup : Maintained List.Nodup where
  nil := .nil
  add children name distinct _ new := by
    rw [← List.concat_eq_append]
    exact List.Nodup.concat new distinct
  remove children name distinct := distinct.filter _

namespace Listing

variable {P : List String → Prop} {s : Memory}

theorem put (h : Listing P s) (p : Path) {e : Entry}
    (names : ∀ children, e = .dir children → P children) : Listing P (s.put p e) := by
  intro key children found
  rw [at?_put] at found
  split at found
  · exact names children (Option.some.inj found)
  · exact h key children found

theorem putFile (h : Listing P s) (p : Path) (content : Bytes) (time : Int64) :
    Listing P (s.put p (.file content time)) :=
  h.put p nofun

theorem drop (h : Listing P s) (p : Path) : Listing P (s.drop p) := by
  intro key children found
  rw [at?_drop] at found
  split at found
  · cases found
  · exact h key children found

theorem setModified (h : Listing P s) (p : Path) (time : Int64) :
    Listing P (s.setModified p time) := by
  rw [Memory.setModified]
  split
  · exact h.putFile p _ time
  · exact h

variable (keeps : Maintained P)
include keeps

theorem empty : Listing P empty := by
  intro key children found
  have one : Memory.empty = (⟨.empty, 0, []⟩ : Memory).put here (.dir []) := rfl
  rw [one, at?_put] at found
  split at found
  · cases found
    exact keeps.nil
  · cases found

theorem link (h : Listing P s) (parent p : Path) : Listing P (s.link parent p) := by
  rw [Memory.link]
  split
  · rename_i children name found last
    split
    · exact h
    · rename_i new
      refine h.put parent fun listed eq => ?_
      cases eq
      refine keeps.add children name (h _ children found) (isName_of_listedName last) ?_
      simpa using new
  · exact h

theorem unlink (h : Listing P s) (p : Path) : Listing P (s.unlink p) := by
  rw [Memory.unlink]
  split
  · split
    · rename_i children found
      refine h.put _ fun listed eq => ?_
      cases eq
      exact keeps.remove children _ (h _ children found)
    · exact h
  · exact h

theorem ensureDirUpTo (h : Listing P s) (n : Nat) (p : Path) :
    Listing P (ensureDirUpTo n s p) := by
  induction n generalizing s p with
  | zero => exact h
  | succ n ih =>
    have made : Listing P (s.put p (.dir [])) := h.put p fun children eq => by
      cases eq
      exact keeps.nil
    rw [Memory.ensureDirUpTo]
    split
    · exact h
    · simp only
      split
      · exact made
      · split
        · exact made
        · exact (ih made _).link keeps _ p

theorem ensureDir (h : Listing P s) (p : Path) : Listing P (s.ensureDir p) :=
  h.ensureDirUpTo keeps _ p

theorem insertFile (h : Listing P s) (p : Path) (content : Bytes) (time : Int64) :
    Listing P (s.insertFile p content time) := by
  have put := h.putFile p content time
  rw [Memory.insertFile]
  split
  · exact put
  · exact (put.ensureDir keeps _).link keeps _ p

theorem addFile (h : Listing P s) (p : Path) (content : Bytes) :
    Listing P (s.addFile p content) :=
  insertFile (s := { s with clock := s.clock + 1 }) keeps h p content _

theorem discard (h : Listing P s) (p : Path) : Listing P (s.discard p) :=
  (h.drop p).unlink keeps p

theorem openedFor (h : Listing P s) (output : Path) : Listing P (s.openedFor output) := by
  rw [Memory.openedFor]
  split
  · exact h.ensureDir keeps _
  · exact h

theorem rename (h : Listing P s) (source target : Path) :
    Listing P (s.rename source target).2 := by
  rw [Memory.rename]
  split
  · exact h
  · split
    · exact (h.discard keeps source).insertFile keeps target _ _
    · rename_i children found
      refine (h.drop source).put source fun listed eq => ?_
      cases eq
      exact h _ children found
    · exact h

theorem write (h : Listing P s) {t : Memory} {p : Path} {content : Bytes}
    (written : s.write p content = .ok t) : Listing P t := by
  rw [Memory.write] at written
  split at written
  · cases written
  · cases written
    exact h.addFile keeps p content

end Listing

namespace Named

variable {s : Memory}

theorem ensureDir (h : s.Named) (p : Path) : (s.ensureDir p).Named :=
  Listing.ensureDir maintained_isName h p

theorem insertFile (h : s.Named) (p : Path) (content : Bytes) (time : Int64) :
    (s.insertFile p content time).Named :=
  Listing.insertFile maintained_isName h p content time

theorem addFile (h : s.Named) (p : Path) (content : Bytes) : (s.addFile p content).Named :=
  Listing.addFile maintained_isName h p content

theorem setModified (h : s.Named) (p : Path) (time : Int64) : (s.setModified p time).Named :=
  Listing.setModified h p time

theorem discard (h : s.Named) (p : Path) : (s.discard p).Named :=
  Listing.discard maintained_isName h p

theorem openedFor (h : s.Named) (output : Path) : (s.openedFor output).Named :=
  Listing.openedFor maintained_isName h output

theorem rename (h : s.Named) (source target : Path) : (s.rename source target).2.Named :=
  Listing.rename maintained_isName h source target

end Named

/-- The trees that come about by filling an empty one and by the calls of a pass. -/
inductive Made : Memory → Prop
  | empty : Made empty
  | addFile {s : Memory} (p : Path) (content : Bytes) : Made s → Made (s.addFile p content)
  | addDir {s : Memory} (p : Path) : Made s → Made (s.addDir p)
  | setModified {s : Memory} (p : Path) (time : Int64) : Made s → Made (s.setModified p time)
  | makeUnreadable {s : Memory} (p : Path) : Made s → Made (s.makeUnreadable p)
  | write {s t : Memory} (p : Path) (content : Bytes) : Made s → s.write p content = .ok t → Made t
  | copy {s t : Memory} (source target : Path) : Made s → s.copy source target = .ok t → Made t
  | removeFile {s t : Memory} (p : Path) : Made s → s.removeFile p = .ok t → Made t
  | rename {s : Memory} (source target : Path) : Made s → Made (s.rename source target).2
  | createDirs {s t : Memory} (p : Path) : Made s → s.createDirs p = .ok t → Made t

theorem Made.listing {P : List String → Prop} (keeps : Maintained P) {s : Memory} (h : Made s) :
    Listing P s := by
  induction h with
  | empty => exact .empty keeps
  | addFile p content _ ih => exact ih.addFile keeps p content
  | addDir p _ ih => exact ih.ensureDir keeps p
  | setModified p time _ ih => exact ih.setModified p time
  | makeUnreadable p _ ih => exact ih
  | write p content _ written ih => exact ih.write keeps written
  | @copy s t source target _ copied ih =>
    rw [Memory.copy] at copied
    cases read : s.read source with
    | error e =>
      rw [read] at copied
      cases copied
    | ok content =>
      rw [read] at copied
      exact ih.write keeps copied
  | removeFile p _ removed ih =>
    rw [Memory.removeFile] at removed
    split at removed
    · cases removed
      exact ih.discard keeps p
    · cases removed
    · cases removed
  | rename source target _ ih => exact ih.rename keeps source target
  | createDirs p _ made ih =>
    rw [Memory.createDirs] at made
    split at made
    · cases made
    · cases made
      exact ih.ensureDir keeps p

theorem Made.named {s : Memory} (h : Made s) : s.Named := h.listing maintained_isName

/-- A directory lists each of its entries once. -/
theorem nodup_list {s : Memory} (made : s.Made) {dir : Path} {entries : List Path}
    (listing : s.list dir = .ok entries) : (entries.map Path.parts).Nodup := by
  rw [list] at listing
  split at listing
  · rename_i children found
    cases listing
    have each : ∀ name ∈ children, (dir.join name).parts = dir.parts ++ [.name (name : String)] :=
      fun name child => Path.parts_join dir (made.named _ _ found name child)
    have distinct : children.Nodup := made.listing maintained_nodup _ _ found
    rw [List.map_map, Function.comp_def, List.map_congr_left each]
    exact distinct.map fun a b same => by simpa using same
  · cases listing

/-! Walks -/

variable {s t : Memory}

/-- The places strictly below a place that are taken. -/
def below (s : Memory) (key : List Part) : List (List Part) :=
  s.nodes.keys.filter fun k => key <+: k ∧ k ≠ key

theorem length_below_le (s : Memory) (key : List Part) : (s.below key).length ≤ s.nodes.size := by
  refine (List.length_filter_le _ _).trans ?_
  rw [SortedMap.keys, List.length_map, SortedMap.size]

theorem mem_below {key k : List Part} :
    k ∈ s.below key ↔ k ∈ s.nodes.keys ∧ key <+: k ∧ k ≠ key := by
  rw [below, List.mem_filter, decide_eq_true_iff]

/-- Going down to a place that is taken leaves less below. -/
theorem length_below_lt {key : List Part} {part : Part} (taken : (s.at? (key ++ [part])).isSome) :
    (s.below (key ++ [part])).length < (s.below key).length := by
  have sub : (s.below (key ++ [part])).Sublist (s.below key) := by
    refine List.monotone_filter_right _ fun k deeper => ?_
    obtain ⟨down, -⟩ := of_decide_eq_true deeper
    refine decide_eq_true ⟨(List.prefix_append key [part]).trans down, ?_⟩
    rintro rfl
    have := down.length_le
    rw [List.length_append, List.length_singleton] at this
    omega
  have node : key ++ [part] ∈ s.nodes.keys := by
    rw [SortedMap.mem_keys_iff]
    rwa [at?, Option.isSome_map] at taken
  refine Nat.lt_of_le_of_ne sub.length_le fun same => ?_
  have here : key ++ [part] ∈ s.below key :=
    mem_below.mpr ⟨node, List.prefix_append key [part], by simp⟩
  rw [← sub.eq_of_length same] at here
  exact (mem_below.mp here).2.2 rfl

/-- What a directory lists lies one level below it. -/
theorem listed_of_named (named : s.Named) {p q : Path} {entries : List Path}
    (listed : s.list p = .ok entries) (mem : q ∈ entries) :
    ∃ name : String, q.parts = p.parts ++ [.name name] := by
  rw [list] at listed
  split at listed
  · rename_i children found
    cases listed
    obtain ⟨name, child, rfl⟩ := List.mem_map.mp mem
    exact ⟨name, Path.parts_join p (named _ children found name child)⟩
  · cases listed

theorem taken_of_isDir {p : Path} {key : List Part} (dir : s.isDir p = true)
    (place : p.parts = key) : (s.at? key).isSome := by
  rw [isDir_iff, place] at dir
  rw [← Option.isSome_map (f := Entry.kind)]
  exact Option.isSome_iff_exists.mpr ⟨_, dir⟩

/-- The same answers about a path whose entry is the same. -/
theorem answersAlike_of_entry {p : Path} (same : t.at? p.parts = s.at? p.parts) :
    AnswersAlike (StateM Memory) (StateM Memory) Eq s t p := by
  have entry : t.entry? p = s.entry? p := same
  refine ⟨⟨_, _, rfl, rfl, ?_⟩, ⟨_, _, rfl, rfl, ?_⟩, ⟨_, _, rfl, rfl, ?_⟩, ⟨_, _, rfl, rfl, ?_⟩⟩
  · simp only [isDir, entry]
  · simp only [isFile, entry]
  · simp only [modified, entry]
  · simp only [list, entry]

/-- What the discovery of a unit reads is the same: the entries in its trees, and the contents of its
property files. -/
structure SameSources (s t : Memory) (u : BuildUnit) : Prop where
  unreadable : t.unreadable = s.unreadable
  filters : ∀ p ∈ u.filters, t.contentAt p.parts = s.contentAt p.parts
  trees : ∀ pair ∈ Discovery.treesOf u, ∀ key, pair.2.directory.parts <+: key →
    t.at? key = s.at? key

/-- Two trees that answer alike in the resource trees of a unit, and whose property files have the
same contents, are the same for its discovery. -/
theorem sameInputs_of_answers {T : Int64 → Int64 → Prop} {u : BuildUnit} (named : s.Named)
    (filters : ∀ p ∈ u.filters, (s.read p).toOption = (t.read p).toOption)
    (answers : ∀ pair ∈ Discovery.treesOf u, ∀ q : Path, pair.2.directory.parts <+: q.parts →
      AnswersAlike (StateM Memory) (StateM Memory) T s t q) :
    SameInputs (StateM Memory) (StateM Memory) T s t u where
  filters p mem := by
    refine ⟨s.read p, t.read p, rfl, rfl, ?_⟩
    have same := filters p mem
    rcases read : s.read p with _ | bytes
    · rcases read' : t.read p with _ | bytes'
      · trivial
      · rw [read, read'] at same
        cases same
    · rcases read' : t.read p with _ | bytes'
      · rw [read, read'] at same
        cases same
      · rw [read, read'] at same
        exact Option.some.inj same
  trees pair mem := by
    -- The number of taken places below a directory bounds the levels still to go.
    refine ⟨fun q => pair.2.directory.parts <+: q.parts,
      fun i j q => (s.below q.parts).length < i ∧ (t.below q.parts).length < j,
      ⟨fun q inside => answers pair mem q inside, fun p entries inside listed q child => ?_,
        fun i j q enough => ?_, fun i j p entries inside enough listed q child isDir => ?_⟩,
      List.prefix_refl _, s.nodes.size, t.nodes.size, rfl, rfl, ?_⟩
    · obtain ⟨name, deeper⟩ := listed_of_named named (Prod.mk.inj listed).1 child
      rw [deeper]
      exact inside.trans (List.prefix_append _ _)
    · omega
    · obtain ⟨name, deeper⟩ := listed_of_named named (Prod.mk.inj listed).1 child
      have inside' : pair.2.directory.parts <+: q.parts :=
        deeper ▸ inside.trans (List.prefix_append _ _)
      have isDir' : t.isDir q = true := by
        obtain ⟨_, _, hs, ht, rfl⟩ := (answers pair mem q inside').isDir
        exact (congrArg Prod.fst ht).trans (congrArg Prod.fst (hs.symm.trans isDir))
      have less := length_below_lt (taken_of_isDir (Prod.mk.inj isDir).1 deeper)
      have less' := length_below_lt (taken_of_isDir isDir' deeper)
      rw [← deeper] at less less'
      omega
    · have := s.length_below_le pair.2.directory.parts
      have := t.length_below_le pair.2.directory.parts
      omega

theorem SameSources.inputs {u : BuildUnit} (h : SameSources s t u) (named : s.Named) :
    SameInputs (StateM Memory) (StateM Memory) Eq s t u := by
  apply sameInputs_of_answers named
  · intro p mem
    rw [toOption_read, toOption_read, h.unreadable, h.filters p mem]
  · intro pair mem q inside
    exact answersAlike_of_entry (h.trees pair mem _ inside)

/-- The same candidates are discovered wherever the same sources lie. -/
theorem units_of_sources {p : Project} {scope : Scope} {d : Discovery} (named : s.Named)
    (h : ∀ u ∈ p.covered scope, SameSources s t u)
    (discovered : exec (Discovery.ofProject p scope : ExceptT Cancelled (StateM Memory) _).run s =
      (.ok d, s)) :
    ∃ d', exec (Discovery.ofProject p scope : ExceptT Cancelled (StateM Memory) _).run t =
      (.ok d', t) ∧ d'.units = d.units := by
  obtain ⟨_, d', found, found', same⟩ := Discovery.ofProject_alike (m := StateM Memory)
    (n := StateM Memory) (p := p) (calm s) (calm t) fun u mem => (h u mem).inputs named
  cases discovered.symm.trans found
  exact ⟨d', found', same.symm⟩

end Staging.Memory
