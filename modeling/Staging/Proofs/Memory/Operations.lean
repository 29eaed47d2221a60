import Staging.Proofs.Memory.Listing
import Staging.Proofs.Memory.Names

/-!
The history of a tree: the calls that can change it, one after the other on an empty one, whether they
fail or not. After any of them every listed name stands for an entry, so a directory other than the
starting one lists the entries that lie in it, each of them once.
-/
namespace Staging.Memory

/-- A call that can change a tree. -/
inductive Operation where
  | addFile (p : Path) (content : Bytes)
  | addDir (p : Path)
  | makeUnreadable (p : Path)
  | setModified (p : Path) (time : Int64)
  | write (p : Path) (content : Bytes)
  | copy (source target : Path)
  | removeFile (p : Path)
  | rename (source target : Path)
  | createDirs (p : Path)

/-- The tree that a call leaves, also when it fails. -/
def perform (s : Memory) : Operation → Memory
  | .addFile p content => s.addFile p content
  | .addDir p => s.addDir p
  | .makeUnreadable p => s.makeUnreadable p
  | .setModified p time => s.setModified p time
  | .write p content => (exec (FileSystem.write p content : StateM Memory _) s).2
  | .copy source target => (exec (FileSystem.copy source target : StateM Memory _) s).2
  | .removeFile p => (exec (FileSystem.removeFile p : StateM Memory _) s).2
  | .rename source target => (exec (FileSystem.rename source target : StateM Memory _) s).2
  | .createDirs p => (exec (FileSystem.createDirs p : StateM Memory _) s).2

def performAll (s : Memory) (ops : List Operation) : Memory := ops.foldl perform s

/-- The tree after a history. -/
def after (ops : List Operation) : Memory := performAll empty ops

variable {s t : Memory} {p source target : Path} {content : Bytes} {time : Int64}

theorem perform_write (s : Memory) (p : Path) (content : Bytes) :
    s.perform (.write p content) = if s.isDir p then s else s.addFile p content := by
  rcases exec_write s p content with ⟨dir, ran⟩ | ⟨room, ran⟩
  · rw [perform, ran, if_pos ((isDir_iff s p).mpr dir)]
  · rw [perform, ran, if_neg (mt (isDir_iff s p).mp room)]

theorem perform_copy (s : Memory) (source target : Path) :
    s.perform (.copy source target) =
      match s.read source with
      | .error _ => s
      | .ok content => s.perform (.write target content) := by
  rw [perform, exec_copy]
  cases s.read source <;> rfl

theorem perform_createDirs (s : Memory) (p : Path) :
    s.perform (.createDirs p) = if s.isFile p then s else s.ensureDir p := by
  rcases exec_createDirs s p with ⟨file, ran⟩ | ⟨room, ran⟩
  · rw [perform, ran, if_pos ((isFile_iff s p).mpr file)]
  · rw [perform, ran, if_neg (mt (isFile_iff s p).mp room)]

theorem perform_removeFile (s : Memory) (p : Path) :
    s.perform (.removeFile p) = if s.isFile p then s.discard p else s := by
  have removed : s.perform (.removeFile p) = (change (·.removeFile p) s).2 := rfl
  rw [removed, change, removeFile, isFile]
  cases s.entry? p with
  | none => rfl
  | some entry => cases entry <;> rfl

/-- A directory that cannot be moved keeps its entry, and so everything but the spelling of its
path. -/
theorem perform_rename (s : Memory) (source target : Path) :
    (s.isFile source = true ∧ s.isDir target = false ∧ ∃ content time,
      s.perform (.rename source target) = (s.discard source).insertFile target content time) ∨
    (¬(s.isFile source = true ∧ s.isDir target = false) ∧
      ∀ key, (s.perform (.rename source target)).at? key = s.at? key) := by
  have moved : s.perform (.rename source target) = (s.rename source target).2 := rfl
  rw [moved, rename, isFile]
  cases dir : s.isDir target with
  | true => exact .inr ⟨by simp, fun key => rfl⟩
  | false =>
    simp only [Bool.false_eq_true, if_false, and_true]
    cases found : s.entry? source with
    | none => exact .inr ⟨by simp, fun key => rfl⟩
    | some entry =>
      cases entry with
      | file content time => exact .inl ⟨rfl, trivial, content, time, rfl⟩
      | dir children =>
        refine .inr ⟨by simp, fun key => ?_⟩
        simp only [at?_put, at?_drop]
        split
        · rename_i same
          rw [same, ← entry?_eq, found]
        · rfl

theorem listsName_setModified (s : Memory) (p : Path) (time : Int64) (dir : List Part)
    (name : String) : (s.setModified p time).ListsName dir name ↔ s.ListsName dir name := by
  rw [setModified]
  split
  · rename_i content _ found
    rw [listsName_putFile]
    constructor
    · exact And.right
    · intro listed
      refine ⟨?_, listed⟩
      rintro rfl
      have kind := listed.kind
      rw [kindAt, ← entry?_eq, found] at kind
      cases kind
  · rfl

/-- What a call can do: change no place and no list, open directories, put a file somewhere, or take
one away or elsewhere. -/
inductive Effect (s : Memory) : Memory → Prop
  | kept {t : Memory} (kinds : t.kindAt = s.kindAt)
      (names : ∀ dir name, t.ListsName dir name ↔ s.ListsName dir name) : Effect s t
  | opened (p : Path) : Effect s (s.ensureDir p)
  | put (p : Path) (content : Bytes) : Effect s (s.addFile p content)
  | discarded (p : Path) : Effect s (s.discard p)
  | moved (source target : Path) (content : Bytes) (time : Int64) :
      Effect s ((s.discard source).insertFile target content time)

theorem Effect.of_entries (same : ∀ key, t.at? key = s.at? key) : Effect s t := by
  refine .kept ?_ fun dir name => listsName_congr (same dir)
  funext key
  rw [kindAt, same, kindAt]

theorem effect (s : Memory) (o : Operation) : Effect s (s.perform o) := by
  have unchanged : Effect s s := .of_entries fun _ => rfl
  have writing (p : Path) (content : Bytes) : Effect s (s.perform (.write p content)) := by
    rw [perform_write]
    split
    · exact unchanged
    · exact .put p content
  cases o with
  | addFile p content => exact .put p content
  | addDir p => exact .opened p
  | makeUnreadable p => exact .of_entries fun _ => rfl
  | setModified p time => exact .kept (kindAt_setModified s p time) (listsName_setModified s p time)
  | write p content => exact writing p content
  | copy source target =>
    rw [perform_copy]
    split
    · exact unchanged
    · exact writing target _
  | removeFile p =>
    rw [perform_removeFile]
    split
    · exact .discarded p
    · exact unchanged
  | rename source target =>
    rcases perform_rename s source target with ⟨-, -, content, time, eq⟩ | ⟨-, same⟩
    · rw [eq]
      exact .moved source target content time
    · exact .of_entries same
  | createDirs p =>
    rw [perform_createDirs]
    split
    · exact unchanged
    · exact .opened p

theorem performAll_induction {P : Memory → Prop} (step : ∀ s o, P s → P (s.perform o))
    (ops : List Operation) (start : P s) : P (s.performAll ops) := by
  induction ops generalizing s with
  | nil => exact start
  | cons o ops ih => exact ih (step s o start)

theorem Made.perform (h : Made s) (o : Operation) : Made (s.perform o) := by
  have writing (p : Path) (content : Bytes) : Made (s.perform (.write p content)) := by
    rw [perform_write]
    split
    · exact h
    · exact .addFile p content h
  cases o with
  | addFile p content => exact .addFile p content h
  | addDir p => exact .addDir p h
  | makeUnreadable p => exact .makeUnreadable p h
  | setModified p time => exact .setModified p time h
  | write p content => exact writing p content
  | copy source target =>
    rw [perform_copy]
    split
    · exact h
    · exact writing target _
  | removeFile p =>
    have removed : s.perform (.removeFile p) = (change (·.removeFile p) s).2 := rfl
    rw [removed, change]
    split
    · rename_i ok
      exact .removeFile p h ok
    · exact h
  | rename source target => exact .rename source target h
  | createDirs p =>
    rw [perform_createDirs]
    split
    · exact h
    · exact .addDir p h

theorem made_after (ops : List Operation) : Made (after ops) :=
  performAll_induction (fun _ o made => made.perform o) ops .empty

/-- Every listed name is the name of an entry that lies in the directory. -/
def Backed (s : Memory) : Prop :=
  ∀ dir name, s.ListsName dir name →
    ∃ key, s.kindAt key ≠ none ∧ above key = some dir ∧ lastName key = some name

namespace Backed

theorem empty : Backed empty := by
  rintro dir name ⟨children, found, mem⟩
  have one : Memory.empty = (⟨.empty, 0, []⟩ : Memory).put here (.dir []) := rfl
  rw [one, at?_put] at found
  split at found
  · cases found
    cases mem
  · cases found

/-- A name stays backed where nothing is lost. -/
theorem of_new (h : s.Backed) (kept : ∀ key, s.kindAt key ≠ none → t.kindAt key ≠ none)
    (names : ∀ dir name, t.ListsName dir name → s.ListsName dir name ∨
      ∃ key, t.kindAt key ≠ none ∧ above key = some dir ∧ lastName key = some name) :
    t.Backed := by
  intro dir name listed
  rcases names dir name listed with old | new
  · obtain ⟨key, taken, lies⟩ := h dir name old
    exact ⟨key, kept key taken, lies⟩
  · exact new

theorem ensureDir (h : s.Backed) (p : Path) : (s.ensureDir p).Backed := by
  refine h.of_new (fun key taken => ?_) fun dir name listed => ?_
  · rw [kindAt_ensureDir]
    exact (Kinds.keeps_opened (K := fun _ => True) _ _).ne_none trivial taken
  · rcases (listsName_ensureDir s p).mp listed with old | ⟨⟨key, -, new⟩, -⟩
    · exact .inl old
    · exact .inr ⟨key, new⟩

theorem insertFile (h : s.Backed) (p : Path) (content : Bytes) (time : Int64) :
    (s.insertFile p content time).Backed := by
  have own : (s.insertFile p content time).kindAt p.parts ≠ none := by simp
  refine h.of_new (fun key => taken_insertFile s p content time) fun dir name listed => ?_
  rcases (listsName_insertFile s p content time).mp listed with
    ⟨-, old⟩ | ⟨⟨up, named⟩ | ⟨key, -, new⟩, -⟩
  · exact .inl old
  · exact .inr ⟨p.parts, own, up, named⟩
  · exact .inr ⟨key, new⟩

theorem discard (h : s.Backed) (p : Path) : (s.discard p).Backed := by
  intro dir name listed
  obtain ⟨-, old, other⟩ := (listsName_discard s p).mp listed
  obtain ⟨key, taken, up, named⟩ := h dir name old
  refine ⟨key, ?_, up, named⟩
  rwa [kindAt_discard_of_ne]
  rintro rfl
  exact other ⟨up, named⟩

theorem step (h : s.Backed) (effect : Effect s t) : t.Backed := by
  cases effect with
  | kept kinds names =>
    intro dir name listed
    rw [kinds]
    exact h dir name ((names dir name).mp listed)
  | opened p => exact h.ensureDir p
  | put p content => exact insertFile (s := { s with clock := s.clock + 1 }) h p content _
  | discarded p => exact h.discard p
  | moved source target content time => exact (h.discard source).insertFile target content time

end Backed

theorem backed_after (ops : List Operation) : (after ops).Backed :=
  performAll_induction (fun s o backed => backed.step (effect s o)) ops .empty

theorem isDir_iff_exists (s : Memory) (p : Path) :
    s.isDir p = true ↔ ∃ children, s.at? p.parts = some (.dir children) := by
  rw [isDir, entry?_eq]
  generalize s.at? p.parts = entry
  rcases entry with _ | _ | _ <;> simp

/-- After any history, a directory other than the starting one lists paths that are different from one
another, each of them an entry and a child of the directory. -/
theorem list_sound (ops : List Operation) (p : Path) (dir : (after ops).isDir p = true)
    (elsewhere : p.same here = false) :
    ∃ entries, (after ops).list p = .ok entries ∧ (entries.map Path.parts).Nodup ∧
      ∀ q ∈ entries, (after ops).isPresent q = true ∧
        ∃ parent, q.parent = some parent ∧ parent.same p = true := by
  obtain ⟨children, found⟩ := (isDir_iff_exists _ _).mp dir
  have listing : (after ops).list p = .ok (children.map fun (name : String) => p.join name) := by
    rw [list, entry?_eq, found]
  have place : p.parts ≠ [.here] := by
    rintro same
    rw [Path.same, same, parts_here, beq_self_eq_true] at elsewhere
    cases elsewhere
  refine ⟨_, listing, nodup_list (made_after ops) listing, fun q mem => ?_⟩
  obtain ⟨name, child, rfl⟩ := List.mem_map.mp mem
  have parts := Path.parts_join p ((made_after ops).named _ _ found name child)
  obtain ⟨key, taken, up, named⟩ := backed_after ops p.parts name ⟨children, found, child⟩
  constructor
  · rw [isPresent_eq, parts, ← eq_of_above up named place, Option.isSome_iff_ne_none]
    exact taken
  · have parent := Path.parts_parent (p.join name)
    rw [parts, if_neg (not_top_append p.parts name), List.dropLast_concat] at parent
    obtain ⟨dir, found, same⟩ := Option.map_eq_some_iff.mp parent
    exact ⟨dir, found, same_iff.mpr same⟩

/-- A file that is moved, a directory that a file replaces, and a call that fails. -/
theorem list_sound_sample :
    let s := after [.addFile ⟨"a/b"⟩ [1], .addFile ⟨"a/c/d"⟩ [2], .rename ⟨"a/b"⟩ ⟨"a/e"⟩,
      .addFile ⟨"a/c"⟩ [3], .removeFile ⟨"a/b"⟩]
    s.list ⟨"a"⟩ = .ok [⟨"a/c"⟩, ⟨"a/e"⟩] ∧
      ∀ q ∈ [⟨"a/c"⟩, ⟨"a/e"⟩], s.isPresent q = true ∧
        ∃ parent, q.parent = some parent ∧ parent.same ⟨"a"⟩ = true := by
  intro s
  have listing : s.list ⟨"a"⟩ = .ok [⟨"a/c"⟩, ⟨"a/e"⟩] := by decide +kernel
  obtain ⟨entries, listing', -, sound⟩ :=
    list_sound _ ⟨"a"⟩ (by decide +kernel : s.isDir ⟨"a"⟩ = true) (by decide +kernel)
  cases listing.symm.trans listing'
  exact ⟨listing, sound⟩

end Staging.Memory
