import Mathlib.Data.List.Lex
import Staging.Proofs.Discovery.Isolation

/-!
What is collected from a tree: every regular file that listings lead to and the selection takes,
once, in the order of paths. Directories are gone into whatever the selection says of them, and it
does not matter in which order they list their entries.
-/
namespace Staging

/-! The order of paths -/

/-- Parts of different kinds are in the order of their kinds, and names in the order of their
bytes. -/
def Part.Precedes (a b : Part) : Prop :=
  a.rank < b.rank ∨ a.rank = b.rank ∧ a.spelling.bytes < b.spelling.bytes

namespace Path

/-- Paths are compared part by part. -/
def Before (p q : Path) : Prop := List.Lex Part.Precedes p.parts q.parts

theorem before_of_names {p q : Path} {dir rest rest' : List Part} {a b : Spelling}
    (less : a.bytes < b.bytes) (left : p.parts = dir ++ .name a :: rest) (right : q.parts = dir ++ .name b :: rest') :
    p.Before q := by
  rw [Before, left, right]
  exact List.Lex.append_left _ (.rel (.inr ⟨rfl, less⟩)) dir

theorem parts_ne_of_before {p q : Path} (h : p.Before q) : p.parts ≠ q.parts := by
  intro same
  rw [Before, same] at h
  generalize q.parts = parts at h
  induction parts with
  | nil => cases h
  | cons part parts ih =>
    cases h with
    | rel precedes =>
      rcases precedes with less | ⟨-, less⟩
      · exact Nat.lt_irrefl _ less
      · exact List.lt_irrefl _ less
    | cons rest => exact ih rest

end Path

namespace Candidate

theorem nameOrder_iff {p q : Path} :
    nameOrder p q = true ↔ ∀ a ∈ p.fileName, ∃ b ∈ q.fileName, a.bytes ≤ b.bytes := by
  unfold nameOrder
  cases p.fileName with
  | none => simp
  | some a => cases q.fileName <;> simp

theorem nameOrder_trans (p q r : Path) (first : nameOrder p q = true)
    (second : nameOrder q r = true) : nameOrder p r = true := by
  rw [nameOrder_iff] at *
  intro a name
  obtain ⟨b, name', le⟩ := first a name
  obtain ⟨c, name'', le'⟩ := second b name'
  exact ⟨c, name'', List.le_trans le le'⟩

theorem nameOrder_total (p q : Path) : (nameOrder p q || nameOrder q p) = true := by
  rw [Bool.or_eq_true, nameOrder_iff, nameOrder_iff]
  cases p.fileName with
  | none => simp
  | some a =>
    cases q.fileName with
    | none => simp
    | some b => simpa using List.le_total a.bytes b.bytes

theorem lt_of_nameOrder {p q : Path} {dir : List Part} {a b : Spelling}
    (ordered : nameOrder p q = true) (distinct : p.parts ≠ q.parts)
    (left : p.parts = dir ++ [.name a]) (right : q.parts = dir ++ [.name b]) :
    a.bytes < b.bytes := by
  have name : p.fileName = some a := by simp [Path.fileName, left]
  have name' : q.fileName = some b := by simp [Path.fileName, right]
  obtain ⟨_, found, le⟩ := nameOrder_iff.mp ordered a name
  cases name'.symm.trans found
  refine List.not_le.mp fun ge => distinct ?_
  have same : a = b := congrArg Spelling.mk (List.le_antisymm le ge)
  rw [left, right, same]

end Candidate

/-! What a walk gets to -/

section
variable (m : Type → Type) {σ : Type} [Monad m] [Stateful m σ] [FileSystem m]

/-- A walk from the root gets to the directory so many levels down. -/
inductive ReachedAt (st : σ) (root : Path) : Nat → Path → Prop
  | root : (exec (FileSystem.isDir root : m Bool) st).1 = true → ReachedAt st root 0 root
  | listed {n : Nat} {dir p : Path} {entries : List Path} : ReachedAt st root n dir →
      (exec (FileSystem.list dir : m _) st).1 = .ok entries → p ∈ entries →
      (exec (FileSystem.isDir p : m Bool) st).1 = true → ReachedAt st root (n + 1) p

/-- The file system says that it is a file, and not that it is a directory. -/
def IsRegular (st : σ) (p : Path) : Prop :=
  (exec (FileSystem.isFile p : m Bool) st).1 = true ∧
    (exec (FileSystem.isDir p : m Bool) st).1 = false

/-- A directory that a walk from the root gets to lists the regular file. -/
def FileReached (st : σ) (root p : Path) : Prop :=
  ∃ dir entries, Reached m st root dir ∧ (exec (FileSystem.list dir : m _) st).1 = .ok entries ∧
    p ∈ entries ∧ IsRegular m st p

/-- Listings make a tree: a directory lists names, each of them once, and the directories below the
root lie no deeper than the file system says. -/
structure Treelike (st : σ) (root : Path) : Prop where
  named : ListsNames m (· = st)
  distinct : ∀ dir entries, (exec (FileSystem.list dir : m _) st).1 = .ok entries →
    (entries.map Path.parts).Nodup
  shallow : ∀ n dir, ReachedAt m st root n dir → n ≤ (exec (FileSystem.depth : m Nat) st).1

/-- The tree takes the file, and this is its candidate. -/
def Candidate.Taken (st : σ) (spec : TreeSpec) (p : Path) (c : Candidate) : Prop :=
  ∃ rel, relative spec.root p = some rel ∧ spec.selection.selects rel = true ∧
    c = ofFile spec p rel
      ((exec (FileSystem.modified p : m _) st).1.toOption.getD Stamp.unknownTime)

/-- The candidates are those of the files inside, in the order of paths. -/
structure Candidate.Exact (st : σ) (spec : TreeSpec) (inside : Path → Prop)
    (items : List Candidate) : Prop where
  mem_iff : ∀ c, c ∈ items ↔ ∃ p, inside p ∧ Taken m st spec p c
  ordered : items.Pairwise fun c d => c.source.Before d.source

/-- What visiting an entry of a directory looks at. -/
def Visited (st : σ) (p q : Path) : Prop :=
  if (exec (FileSystem.isDir p : m Bool) st).1 then FileReached m st p q
  else (exec (FileSystem.isFile p : m Bool) st).1 = true ∧ q = p

end

variable {m : Type → Type} {σ : Type} [Monad m] [LawfulMonad m] [Stateful m σ] [FileSystem m]
variable {st : σ} {root dir p q : Path} {n : Nat}

section
omit [LawfulMonad m]

theorem ReachedAt.reached (h : ReachedAt m st root n dir) : Reached m st root dir := by
  induction h with
  | root isDir => exact .root isDir
  | listed _ listing mem isDir ih => exact .listed ih listing mem isDir

theorem Reached.isDir (h : Reached m st root dir) :
    (exec (FileSystem.isDir dir : m Bool) st).1 = true := by
  cases h with
  | root isDir => exact isDir
  | listed _ _ _ isDir => exact isDir

theorem Reached.trans (h : Reached m st root dir) (below : Reached m st dir p) :
    Reached m st root p := by
  induction below with
  | root => exact h
  | listed _ listing mem isDir ih => exact .listed ih listing mem isDir

/-- The way to a directory begins with an entry of the root, unless it is the root. -/
theorem Reached.cases_head (h : Reached m st root dir) {entries : List Path}
    (listing : (exec (FileSystem.list root : m _) st).1 = .ok entries) :
    dir = root ∨ ∃ p ∈ entries, Reached m st p dir := by
  induction h with
  | root => exact .inl rfl
  | @listed dir p entries' _ listing' mem isDir ih =>
    right
    rcases ih with rfl | ⟨first, child, below⟩
    · cases listing.symm.trans listing'
      exact ⟨p, mem, .root isDir⟩
    · exact ⟨first, child, .listed below listing' mem isDir⟩

theorem Reached.within (named : ListsNames m (· = st)) (h : Reached m st root dir) :
    root.parts <+: dir.parts := by
  induction h with
  | root => exact List.prefix_refl _
  | listed _ listing mem _ ih =>
    obtain ⟨name, parts⟩ := named _ _ ⟨st, _, rfl, listing, mem⟩
    exact ih.trans (parts ▸ List.prefix_append _ _)

/-- A file below a directory is one that visiting its entries looks at. -/
theorem fileReached_iff (isDir : (exec (FileSystem.isDir dir : m Bool) st).1 = true)
    {entries : List Path} (listing : (exec (FileSystem.list dir : m _) st).1 = .ok entries) :
    FileReached m st dir q ↔ ∃ p ∈ entries, Visited m st p q := by
  constructor
  · rintro ⟨last, entries', below, listing', mem, regular⟩
    rcases below.cases_head listing with rfl | ⟨p, child, below⟩
    · cases listing.symm.trans listing'
      exact ⟨q, mem, by simp [Visited, regular.1, regular.2]⟩
    · have found : FileReached m st p q := ⟨last, entries', below, listing', mem, regular⟩
      exact ⟨p, child, by rwa [Visited, if_pos (Candidate.isDir_of_reached below)]⟩
  · rintro ⟨p, child, visited⟩
    unfold Visited at visited
    split at visited
    · rename_i isDir'
      obtain ⟨last, entries', below, rest⟩ := visited
      have first : Reached m st dir p := .listed (.root isDir) listing child isDir'
      exact ⟨last, entries', first.trans below, rest⟩
    · rename_i notDir
      obtain ⟨isFile, rfl⟩ := visited
      exact ⟨dir, entries, .root isDir, listing, child, isFile, eq_false_of_ne_true notDir⟩

theorem FileReached.within (named : ListsNames m (· = st)) (h : FileReached m st root p) :
    root.parts <+: p.parts := by
  obtain ⟨dir, entries, reached, listing, mem, -⟩ := h
  obtain ⟨name, parts⟩ := named _ _ ⟨st, _, rfl, listing, mem⟩
  exact (reached.within named).trans (parts ▸ List.prefix_append _ _)

theorem Visited.within (named : ListsNames m (· = st)) (h : Visited m st p q) :
    p.parts <+: q.parts := by
  unfold Visited at h
  split at h
  · exact h.within named
  · rw [h.2]

end

namespace Candidate

variable {spec : TreeSpec} {items : List Candidate} {inside inside' : Path → Prop}

section
omit [LawfulMonad m]

theorem Taken.source_eq {c : Candidate} (h : Taken m st spec p c) : c.source = p := by
  obtain ⟨rel, -, -, rfl⟩ := h
  rfl

/-- A file of the tree has a path below the root. -/
theorem exists_relative (within : spec.root.parts <+: p.parts) :
    ∃ rel, relative spec.root p = some rel := by
  obtain ⟨q, stripped⟩ := Path.exists_stripPrefix within
  rw [relative, stripped]
  exact ⟨_, rfl⟩

namespace Exact

theorem congr (h : Exact m st spec inside items) (same : ∀ p, inside' p ↔ inside p) :
    Exact m st spec inside' items where
  mem_iff c := by simp only [h.mem_iff, same]
  ordered := h.ordered

theorem nil : Exact m st spec (fun _ => False) [] where
  mem_iff c := by simp
  ordered := .nil

theorem append {items' : List Candidate} (h : Exact m st spec inside items)
    (h' : Exact m st spec inside' items')
    (apart : ∀ p q, inside p → inside' q → p.Before q) :
    Exact m st spec (fun p => inside p ∨ inside' p) (items ++ items') where
  mem_iff c := by simp only [List.mem_append, h.mem_iff, h'.mem_iff, or_and_right, exists_or]
  ordered := by
    refine List.pairwise_append.mpr ⟨h.ordered, h'.ordered, fun c left d right => ?_⟩
    obtain ⟨p, here, taken⟩ := (h.mem_iff c).mp left
    obtain ⟨q, there, taken'⟩ := (h'.mem_iff d).mp right
    rw [taken.source_eq, taken'.source_eq]
    exact apart p q here there

/-- What is found one after the other is found together, if the places are in order. -/
theorem flatten {visited : Path → Path → Prop} {ps : List Path} {found : List (List Candidate)}
    (each : List.Forall₂ (fun p items => Exact m st spec (visited p) items) ps found)
    (apart : ps.Pairwise fun p p' => ∀ q q', visited p q → visited p' q' → q.Before q') :
    Exact m st spec (fun q => ∃ p ∈ ps, visited p q) found.flatten := by
  induction each with
  | nil => exact nil.congr (by simp)
  | cons first _ ih =>
    obtain ⟨before, apart⟩ := List.pairwise_cons.mp apart
    refine (first.append (ih apart) ?_).congr fun q => List.exists_mem_cons_iff ..
    rintro q q' here ⟨p', mem, there⟩
    exact before p' mem q q' here there

theorem nodup (h : Exact m st spec inside items) : (items.map (·.source.parts)).Nodup := by
  rw [List.Nodup, List.pairwise_map]
  exact h.ordered.imp Path.parts_ne_of_before

end Exact

end

/-! Walks -/

theorem exec_poll (calm : Uncancelled m st) :
    exec (poll : ExceptT WalkStop m Unit).run st = (.ok (), st) := by
  rw [poll, exec_run_bind, exec_run_lift, calm]
  exact exec_pure _ _

omit [LawfulMonad m] in
theorem visitFile_exact (looks : Looks m (· = st)) (spec : TreeSpec) (p : Path) :
    ∃ items, exec (visitFile spec p : m _) st = (items, st) ∧ Exact m st spec (· = p) items := by
  unfold visitFile
  cases below : relative spec.root p with
  | none =>
    refine ⟨[], exec_pure _ _, ⟨fun c => ?_, .nil⟩⟩
    simp [Taken, below]
  | some rel =>
    simp only
    by_cases selected : spec.selection.selects rel = true
    · rw [if_pos selected, exec_bind, (looks.modified p).stays]
      refine ⟨_, exec_pure _ _, ⟨fun c => ?_, List.pairwise_singleton _ _⟩⟩
      simp [Taken, below, selected]
    · rw [if_neg selected]
      refine ⟨[], exec_pure _ _, ⟨fun c => ?_, .nil⟩⟩
      simp [Taken, below, selected]

theorem visit_exact (looks : Looks m (· = st)) (calm : Uncancelled m st)
    {descend : Path → ExceptT WalkStop m (List Candidate)}
    (deeper : (exec (FileSystem.isDir p : m Bool) st).1 = true →
      ∃ items, exec (descend p).run st = (.ok items, st) ∧
        Exact m st spec (FileReached m st p) items) :
    ∃ items, exec (visit spec descend p).run st = (.ok items, st) ∧
      Exact m st spec (Visited m st p) items := by
  unfold Visited
  rw [visit, exec_run_bind, exec_run_lift, (looks.isDir p).stays]
  cases isDir : (exec (FileSystem.isDir p : m Bool) st).1 with
  | true => simpa only [if_true] using deeper isDir
  | false =>
    simp only [Bool.false_eq_true, if_false]
    rw [exec_run_bind, exec_run_lift, (looks.isFile p).stays]
    cases isFile : (exec (FileSystem.isFile p : m Bool) st).1 with
    | true =>
      obtain ⟨items, visited, found⟩ := visitFile_exact looks spec p
      refine ⟨items, ?_, found.congr (by simp)⟩
      simp only [if_true]
      rw [exec_run_bind, exec_poll calm]
      simp only
      rw [exec_run_lift, visited]
    | false => exact ⟨[], exec_pure _ _, Exact.nil.congr (by simp)⟩

omit [LawfulMonad m] in
/-- Entries of one directory, once sorted, are visited in the order of what is found in them. -/
theorem sorted_apart (tree : Treelike m st root) {entries : List Path}
    (listing : (exec (FileSystem.list dir : m _) st).1 = .ok entries) :
    (entries.mergeSort nameOrder).Pairwise fun p p' =>
      ∀ q q', Visited m st p q → Visited m st p' q' → q.Before q' := by
  have sorted := List.pairwise_mergeSort nameOrder_trans nameOrder_total entries
  have distinct : (entries.mergeSort nameOrder).Pairwise fun p p' => p.parts ≠ p'.parts := by
    rw [← List.pairwise_map (f := Path.parts) (R := (· ≠ ·))]
    exact ((List.mergeSort_perm entries nameOrder).map _).nodup_iff.mpr
      (tree.distinct dir entries listing)
  refine (sorted.and distinct).imp_of_mem ?_
  rintro p p' mem mem' ⟨ordered, other⟩ q q' visited visited'
  have lists : ∀ p ∈ entries, Lists m (· = st) dir p := fun p mem => ⟨st, entries, rfl, listing, mem⟩
  obtain ⟨a, parts⟩ := tree.named _ _ (lists p (List.mem_mergeSort.mp mem))
  obtain ⟨b, parts'⟩ := tree.named _ _ (lists p' (List.mem_mergeSort.mp mem'))
  obtain ⟨rest, below⟩ := visited.within tree.named
  obtain ⟨rest', below'⟩ := visited'.within tree.named
  rw [parts, List.append_assoc] at below
  rw [parts', List.append_assoc] at below'
  exact Path.before_of_names (lt_of_nameOrder ordered other parts parts') below.symm below'.symm

theorem walk_exact (looks : Looks m (· = st)) (calm : Uncancelled m st)
    (tree : Treelike m st root)
    (listed : ∀ dir, Reached m st root dir →
      ∃ entries, (exec (FileSystem.list dir : m _) st).1 = .ok entries)
    {levels : Nat} (reached : ReachedAt m st root n dir)
    (enough : (exec (FileSystem.depth : m Nat) st).1 < n + levels) :
    ∃ items, exec (walk spec levels dir : ExceptT WalkStop m _).run st = (.ok items, st) ∧
      Exact m st spec (FileReached m st dir) items := by
  induction levels generalizing n dir with
  | zero =>
    have bound := tree.shallow n dir reached
    omega
  | succ levels ih =>
    obtain ⟨entries, listing⟩ := listed dir reached.reached
    have each : ∀ p ∈ entries.mergeSort nameOrder,
        ∃ items, exec (visit spec (walk spec levels) p : ExceptT WalkStop m _).run st =
          (.ok items, st) ∧ Exact m st spec (Visited m st p) items := by
      intro p mem
      refine visit_exact looks calm fun isDir => ?_
      exact ih (.listed reached listing (List.mem_mergeSort.mp mem) isDir) (by omega)
    obtain ⟨found, visited, all⟩ := exec_mapM_each each
    refine ⟨found.flatten, ?_, (Exact.flatten all (sorted_apart tree listing)).congr fun q => ?_⟩
    · rw [walk, exec_run_bind, exec_poll calm]
      simp only
      rw [exec_run_bind, exec_run_lift, (looks.list dir).stays, listing]
      simp only
      rw [exec_run_bind, visited]
      exact exec_pure _ _
    · simp only [fileReached_iff (reached.reached.isDir) listing, List.mem_mergeSort]

end Candidate

namespace Memory

/-- A tree that came about by the calls lists as a tree does, and can be listed throughout. -/
theorem treelike {st : Memory} (made : st.Made) (root : Path) :
    Treelike (StateM Memory) st root where
  named := by
    rintro p q ⟨_, entries, rfl, listing, mem⟩
    obtain ⟨name, deeper⟩ := listed_of_named made.named listing mem
    exact ⟨name, deeper⟩
  distinct dir entries listing := nodup_list made listing
  shallow n dir reached := by
    -- The number of taken places below a directory bounds the levels still to go.
    have bound : n + (st.below dir.parts).length ≤ (st.below root.parts).length := by
      induction reached with
      | root => omega
      | listed _ listing mem isDir ih =>
        obtain ⟨name, deeper⟩ := listed_of_named made.named listing mem
        have less := length_below_lt (taken_of_isDir isDir deeper)
        rw [← deeper] at less
        omega
    have whole : (exec (FileSystem.depth : StateM Memory Nat) st).1 = st.nodes.size := rfl
    have := st.length_below_le root.parts
    omega

theorem listed_of_reached {st : Memory} {root dir : Path}
    (reached : Reached (StateM Memory) st root dir) :
    ∃ entries, (exec (FileSystem.list dir : StateM Memory _) st).1 = .ok entries := by
  have isDir : st.isDir dir = true := reached.isDir
  change ∃ entries, st.list dir = .ok entries
  unfold Memory.isDir at isDir
  unfold list
  split at isDir
  · rename_i children found
    exact ⟨_, rfl⟩
  · cases isDir

end Memory

namespace Sample

/-- The directory that is left out holds a file that is not. -/
def excluding : TreeSpec :=
  { spec with
    selection := (Selection.compile [] ["sub", "sub/*.txt"]).toOption.getD ⟨[], none⟩ }

def unsorted : Memory :=
  (((Memory.empty.addFile ⟨"res/zeta.txt"⟩ [122]).addFile ⟨"res/sub/b.txt"⟩ [98]).addFile
    ⟨"res/alpha.txt"⟩ [97]).addFile ⟨"res/sub/deeper/c.xml"⟩ [99]

theorem made_unsorted : unsorted.Made :=
  .addFile _ _ (.addFile _ _ (.addFile _ _ (.addFile _ _ .empty)))

theorem deeper_reached :
    FileReached (StateM Memory) unsorted excluding.root ⟨"res/sub/deeper/c.xml"⟩ := by
  have lists : unsorted.isDir ⟨"res"⟩ = true ∧ unsorted.isDir ⟨"res/sub"⟩ = true ∧
      unsorted.isDir ⟨"res/sub/deeper"⟩ = true ∧
      unsorted.list ⟨"res"⟩ = .ok [⟨"res/zeta.txt"⟩, ⟨"res/sub"⟩, ⟨"res/alpha.txt"⟩] ∧
      unsorted.list ⟨"res/sub"⟩ = .ok [⟨"res/sub/b.txt"⟩, ⟨"res/sub/deeper"⟩] ∧
      unsorted.list ⟨"res/sub/deeper"⟩ = .ok [⟨"res/sub/deeper/c.xml"⟩] ∧
      unsorted.isFile ⟨"res/sub/deeper/c.xml"⟩ = true ∧
      unsorted.isDir ⟨"res/sub/deeper/c.xml"⟩ = false := by
    decide +kernel
  obtain ⟨res, sub, deeper, inRes, inSub, inDeeper, regular⟩ := lists
  have root : Reached (StateM Memory) unsorted excluding.root ⟨"res"⟩ := .root res
  have below := Reached.listed (p := ⟨"res/sub"⟩) root inRes (by decide) sub
  have last := Reached.listed (p := ⟨"res/sub/deeper"⟩) below inSub (by decide) deeper
  exact ⟨_, _, last, inDeeper, List.mem_singleton_self _, regular⟩

end Sample

namespace Candidate

/-- What is collected is exactly the candidates of the regular files that listings lead to and that
the selection takes, each once and in the order of paths, whatever the order of the listings. Each
of those files has a path below the root. -/
theorem collect_exact (spec : TreeSpec) (looks : Looks m (· = st)) (calm : Uncancelled m st)
    (tree : Treelike m st spec.root)
    (listed : ∀ dir, Reached m st spec.root dir →
      ∃ entries, (exec (FileSystem.list dir : m _) st).1 = .ok entries) :
    ∃ items, exec (collect spec : ExceptT WalkStop m _).run st = (.ok items, st) ∧
      (∀ c, c ∈ items ↔ ∃ p, FileReached m st spec.root p ∧ Taken m st spec p c) ∧
      (∀ p, FileReached m st spec.root p → ∃ rel, relative spec.root p = some rel) ∧
      (items.map (·.source.parts)).Nodup ∧
      items.Pairwise fun c d => c.source.Before d.source := by
  suffices ran : ∃ items, exec (collect spec : ExceptT WalkStop m _).run st = (.ok items, st) ∧
      Exact m st spec (FileReached m st spec.root) items by
    obtain ⟨items, ran, found⟩ := ran
    refine ⟨items, ran, found.mem_iff, fun p reached => ?_, found.nodup, found.ordered⟩
    exact exists_relative (reached.within tree.named)
  rw [collect, exec_run_bind, exec_run_lift, (looks.isDir spec.root).stays]
  cases isDir : (exec (FileSystem.isDir spec.root : m Bool) st).1 with
  | true =>
    simp only [if_true]
    rw [exec_run_bind, exec_run_lift, looks.depth.stays]
    exact walk_exact looks calm tree listed (.root isDir) (by omega)
  | false =>
    refine ⟨[], exec_pure _ _, Exact.nil.congr fun p => ⟨?_, False.elim⟩⟩
    rintro ⟨dir, _, reached, -⟩
    rw [isDir_of_reached reached] at isDir
    cases isDir

/-- An excluded directory that lists its entries in no order is gone into. -/
theorem collect_exact_unsorted :
    ∃ items, exec (collect Sample.excluding : ExceptT WalkStop (StateM Memory) _).run
        Sample.unsorted = (.ok items, Sample.unsorted) ∧
      (∃ c ∈ items, c.output = "out/sub/deeper/c.xml") ∧
      Sample.excluding.selection.selects "sub" = false ∧
      (∀ c, c ∈ items ↔ ∃ p,
        FileReached (StateM Memory) Sample.unsorted Sample.excluding.root p ∧
        Taken (StateM Memory) Sample.unsorted Sample.excluding p c) ∧
      (items.map (·.source.parts)).Nodup ∧
      items.Pairwise fun c d => c.source.Before d.source := by
  obtain ⟨items, ran, mem_iff, -, distinct, ordered⟩ :=
    collect_exact (m := StateM Memory) Sample.excluding (Memory.looks _)
      (Memory.calm Sample.unsorted) (Memory.treelike Sample.made_unsorted _)
      fun _ => Memory.listed_of_reached
  have selects : Sample.excluding.selection.selects "sub/deeper/c.xml" = true ∧
      Sample.excluding.selection.selects "sub" = false := by
    decide +kernel
  have below : relative Sample.excluding.root ⟨"res/sub/deeper/c.xml"⟩ = some "sub/deeper/c.xml" := by
    decide +kernel
  have found := (mem_iff _).mpr ⟨_, Sample.deeper_reached, _, below, selects.1, rfl⟩
  exact ⟨items, ran, ⟨_, found, by decide +kernel⟩, selects.2, mem_iff, distinct, ordered⟩

end Candidate

end Staging
