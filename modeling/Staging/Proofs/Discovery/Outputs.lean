import Staging.Proofs.Discovery.Sources
import Staging.Proofs.Memory.Listing
import Staging.Proofs.Path.Relative

/-!
Where the files of a tree go. An output lies below its destination, if that is text, and two files of
a tree have two outputs, as long as every name on the way from the root is text without a backslash.
A backslash is read as a separator: a name can then lead out of the destination, and two files can
meet in one output. What is no text is lost: no output lies below a destination that is none, and
names that differ in nothing else meet.
-/
namespace Staging

section
variable (m : Type → Type) {σ : Type} [Monad m] [Stateful m σ] [FileSystem m]

/-- What is listed in a directory lies one name below it. -/
def ListsNames (inv : σ → Prop) : Prop :=
  ∀ p q, Lists m inv p q → ∃ name, q.parts = p.parts ++ [.name name]

end

theorem Memory.looks (inv : Memory → Prop) : Looks (StateM Memory) inv := by
  constructor <;> intros <;> exact fun _ holds => ⟨holds, trivial⟩

theorem Memory.listsNames : ListsNames (StateM Memory) Memory.Named := by
  rintro p q ⟨s, entries, named, listed, mem⟩
  obtain ⟨name, deeper⟩ := listed_of_named named listed mem
  exact ⟨name, deeper⟩

theorem Memory.exec_collect {st : Memory} {spec : TreeSpec} (dir : st.isDir spec.root = true) :
    exec (Candidate.collect spec : ExceptT WalkStop (StateM Memory) _).run st =
      exec (Candidate.walk spec (st.nodes.size + 1) spec.root :
        ExceptT WalkStop (StateM Memory) _).run st := by
  have isDir : exec (FileSystem.isDir spec.root : StateM Memory _) st = (true, st) :=
    congrArg (·, st) dir
  have depth : exec (FileSystem.depth : StateM Memory _) st = (st.nodes.size, st) := rfl
  rw [Candidate.collect, exec_run_bind, exec_run_lift, isDir]
  simp only [if_true]
  rw [exec_run_bind, exec_run_lift, depth]

/-- A directory whose entries are in order already is walked as it is listed. -/
theorem Memory.exec_walk {st : Memory} {spec : TreeSpec} {dir : Path} {entries : List Path}
    (listed : st.list dir = .ok entries)
    (sorted : entries.Pairwise fun p q => Candidate.nameOrder p q) (levels : Nat) :
    exec (Candidate.walk spec (levels + 1) dir : ExceptT WalkStop (StateM Memory) _).run st =
      exec (List.flatten <$> entries.mapM (Candidate.visit spec (Candidate.walk spec levels)) :
        ExceptT WalkStop (StateM Memory) _).run st := by
  have lists : exec (FileSystem.list dir : StateM Memory _) st = (.ok entries, st) :=
    congrArg (·, st) listed
  have calm : exec (Candidate.poll : ExceptT WalkStop (StateM Memory) _).run st = (.ok (), st) := rfl
  have same : entries.mergeSort Candidate.nameOrder = entries := List.mergeSort_of_pairwise sorted
  rw [Candidate.walk, exec_run_bind, calm]
  simp only
  rw [exec_run_bind, exec_run_lift, lists]
  simp only [same, map_eq_pure_bind]

namespace Sample

def spec : TreeSpec where
  unit := "app"
  root := ⟨"res"⟩
  destination := ⟨"out"⟩
  selection := (Selection.compile [] []).toOption.getD ⟨[], none⟩
  filtered := false
  properties := .empty
  fingerprint := 0

/-- One name reads as a way up, and another as a directory with a file. -/
def backslashes : Memory :=
  ((Memory.empty.addFile ⟨"res/..\\up.txt"⟩ [117]).addFile ⟨"res/a/b.txt"⟩ [49]).addFile
    ⟨"res/a\\b.txt"⟩ [50]

end Sample

/-- What the tree gives: three candidates with two outputs. -/
theorem collected_backslashes :
    ∃ items t, exec (Candidate.collect Sample.spec : ExceptT WalkStop (StateM Memory) _).run
        Sample.backslashes = (.ok items, t) ∧
      items.map (fun c => (c.source, c.output)) =
        [(⟨"res/..\\up.txt"⟩, "out/../up.txt"), (⟨"res/a/b.txt"⟩, "out/a/b.txt"),
          (⟨"res/a\\b.txt"⟩, "out/a/b.txt")] := by
  have outputs : (exec (Candidate.collect Sample.spec : ExceptT WalkStop (StateM Memory) _).run
      Sample.backslashes).1.toOption.map (·.map fun c => (c.source, c.output)) =
        some [(⟨"res/..\\up.txt"⟩, "out/../up.txt"), (⟨"res/a/b.txt"⟩, "out/a/b.txt"),
          (⟨"res/a\\b.txt"⟩, "out/a/b.txt")] := by
    have listed : Sample.backslashes.list Sample.spec.root =
        .ok [⟨"res/..\\up.txt"⟩, ⟨"res/a"⟩, ⟨"res/a\\b.txt"⟩] := by
      decide +kernel
    rw [Memory.exec_collect (by decide +kernel), Memory.exec_walk listed (by decide +kernel)]
    decide +kernel
  rcases found : exec (Candidate.collect Sample.spec : ExceptT WalkStop (StateM Memory) _).run
    Sample.backslashes with ⟨_ | items, t⟩
  · rw [found] at outputs
    cases outputs
  · rw [found] at outputs
    exact ⟨items, t, rfl, Option.some.inj outputs⟩

section
variable {m : Type → Type} {σ : Type} [Monad m] [Stateful m σ] [FileSystem m] {inv : σ → Prop}

theorem ListsNames.names (h : ListsNames m inv) {p q : Path}
    (listed : Relation.TransGen (Lists m inv) p q) :
    ∃ names : List Spelling, names ≠ [] ∧ q.parts = p.parts ++ names.map Part.name := by
  induction listed with
  | single lists =>
    obtain ⟨name, parts⟩ := h _ _ lists
    exact ⟨[name], List.cons_ne_nil _ _, parts⟩
  | tail _ lists ih =>
    obtain ⟨names, -, parts⟩ := ih
    obtain ⟨name, parts'⟩ := h _ _ lists
    refine ⟨names ++ [name], by simp, ?_⟩
    rw [parts', parts, List.map_append, List.append_assoc]
    rfl

namespace Candidate

/-- The parts of an output that come from the names below the root. -/
def slashed (names : List Spelling) : List Part := names.flatMap fun name => (Part.name name).slashed

/-- How a candidate's output is made of the names that lead to its source. -/
structure Routed (spec : TreeSpec) (c : Candidate) (names : List Spelling) : Prop where
  nonempty : names ≠ []
  source : c.source.parts = spec.root.parts ++ names.map Part.name
  output : (⟨c.output⟩ : Path).parts = Path.base spec.destination ++ slashed names

theorem Arises.routed (lists : ListsNames m inv) {spec : TreeSpec} {c : Candidate}
    (h : Arises m inv spec c) : ∃ names, Routed spec c names := by
  obtain ⟨names, nonempty, source⟩ := lists.names h.listed
  obtain ⟨rel, below, output⟩ := h.output
  obtain ⟨rest, source', parts⟩ := Path.parts_of_relative below
  obtain rfl : rest = names.map Part.name :=
    List.append_cancel_left (source'.symm.trans source)
  refine ⟨names, nonempty, source, ?_⟩
  rw [output, parts, slashed, List.flatMap_map]

namespace Routed

variable {spec : TreeSpec} {c : Candidate} {names : List Spelling}

theorem isName (h : Routed spec c names) : ∀ name ∈ names, Path.IsName name := by
  intro name mem
  refine Path.isName_of_mem_parts (p := c.source) ?_
  rw [h.source]
  exact List.mem_append_right _ (List.mem_map_of_mem mem)

/-- Names without a backslash come to one name each. -/
theorem slashed_of_not_mem (h : Routed spec c names)
    (none : ∀ name ∈ names, Path.backslash ∉ name.bytes) :
    slashed names = names.map fun name => .name name.shown := by
  have each : ∀ name ∈ names, (Part.name name).slashed = [.name name.shown] := fun name mem =>
    Path.slashed_of_not_mem (h.isName name mem) (none name mem)
  rw [slashed, List.flatMap_congr each, List.map_eq_flatMap]

theorem slashed_eq (h : Routed spec c names) (plain : ∀ name ∈ names, name.Plain) :
    slashed names = names.map Part.name := by
  have each : ∀ name ∈ names, (Part.name name).slashed = [.name name] := fun name mem =>
    Path.slashed_of_plain (h.isName name mem) (plain name mem)
  rw [slashed, List.flatMap_congr each, List.map_eq_flatMap]

end Routed

/-- An output below a destination, whose backslashes are separators: it has all parts of the
destination, then at least one more, and does not go up again. -/
def Below (destination : Path) (output : String) : Prop :=
  ∃ rest, rest ≠ [] ∧ .up ∉ rest ∧
    (⟨output⟩ : Path).parts = destination.forward.parts ++ rest

theorem Routed.below_iff {spec : TreeSpec} {c : Candidate} {names : List Spelling}
    (h : Routed spec c names) :
    Below spec.destination c.output ↔ spec.destination.spelling.isText = true ∧
      (slashed names ≠ [] ∨ spec.destination.bytes = []) ∧ .up ∉ slashed names := by
  by_cases text : spec.destination.spelling.isText = true
  · rw [Below, h.output, Path.base, Path.respelled_of_isText text, and_iff_right text]
    split
    · rename_i bare
      have nothing : spec.destination.forward.parts = [] :=
        Path.parts_of_empty (List.map_eq_nil_iff.mpr bare)
      rw [nothing]
      simp [bare]
    · rename_i some
      simp only [List.append_cancel_left_eq, some, or_false]
      constructor
      · rintro ⟨rest, nonempty, level, rfl⟩
        exact ⟨nonempty, level⟩
      · rintro ⟨nonempty, level⟩
        exact ⟨_, nonempty, level, rfl⟩
  · -- an output is text, and so is whatever it lies below
    refine iff_of_false ?_ (text ·.1)
    rintro ⟨rest, -, -, parts⟩
    refine text ?_
    rw [← Path.isText_forward]
    exact Path.isText_of_above ⟨rest, parts.symm⟩ (Spelling.isText_ofString _)

theorem Routed.same_iff {spec : TreeSpec} {c c' : Candidate} {names names' : List Spelling}
    (h : Routed spec c names) (h' : Routed spec c' names') :
    (⟨c.output⟩ : Path).same ⟨c'.output⟩ = true ↔ slashed names = slashed names' := by
  rw [Path.same, beq_iff_eq, h.output, h'.output, List.append_cancel_left_eq]

variable [LawfulMonad m]

theorem routed_of_collected (looks : Looks m inv) (lists : ListsNames m inv) {spec : TreeSpec}
    {s t : σ} {items : List Candidate} (start : inv s)
    (found : exec (collect spec : ExceptT WalkStop m _).run s = (.ok items, t)) {c : Candidate}
    (mem : c ∈ items) : ∃ names, Routed spec c names := by
  have arise : GivesOk inv (fun items => ∀ c ∈ items, Arises m inv spec c)
      (collect spec : ExceptT WalkStop m _) := arises_collect looks
  have each := (arise s start).2
  rw [found] at each
  exact (each items rfl c mem).routed lists

/-- An output lies below its destination exactly if the destination is text, no name on the way to the
source reads as going up and one of them reads as something; names without backslashes are all
that. -/
theorem below_of_collected (looks : Looks m inv) (lists : ListsNames m inv) {spec : TreeSpec}
    {s t : σ} {items : List Candidate} (start : inv s)
    (found : exec (collect spec : ExceptT WalkStop m _).run s = (.ok items, t)) {c : Candidate}
    (mem : c ∈ items) :
    ∃ names, Routed spec c names ∧
      (Below spec.destination c.output ↔ spec.destination.spelling.isText = true ∧
        (slashed names ≠ [] ∨ spec.destination.bytes = []) ∧ .up ∉ slashed names) ∧
      (spec.destination.spelling.isText = true → (∀ name ∈ names, Path.backslash ∉ name.bytes) →
        Below spec.destination c.output) := by
  obtain ⟨names, routed⟩ := routed_of_collected looks lists start found mem
  refine ⟨names, routed, routed.below_iff, fun text none => ?_⟩
  rw [routed.below_iff, routed.slashed_of_not_mem none]
  refine ⟨text, .inl (mt List.map_eq_nil_iff.mp routed.nonempty), ?_⟩
  simp

/-- The file in a directory of the tree goes below the destination. -/
theorem below_of_collected_sample :
    ∃ items t, exec (collect Sample.spec : ExceptT WalkStop (StateM Memory) _).run
        Sample.backslashes = (.ok items, t) ∧
      ∃ c ∈ items, c.output = "out/a/b.txt" ∧ ∃ names, Routed Sample.spec c names ∧
        (Below Sample.spec.destination c.output ↔ Sample.spec.destination.spelling.isText = true ∧
          (slashed names ≠ [] ∨ Sample.spec.destination.bytes = []) ∧ .up ∉ slashed names) ∧
        (Sample.spec.destination.spelling.isText = true →
          (∀ name ∈ names, Path.backslash ∉ name.bytes) →
          Below Sample.spec.destination c.output) := by
  have named : Sample.backslashes.Named :=
    (Memory.Made.addFile _ _ (.addFile _ _ (.addFile _ _ .empty))).named
  obtain ⟨items, t, found, outputs⟩ := collected_backslashes
  have some : (⟨"res/a/b.txt"⟩, "out/a/b.txt") ∈ items.map fun c => (c.source, c.output) := by
    rw [outputs]
    decide
  obtain ⟨c, mem, same⟩ := List.mem_map.mp some
  exact ⟨items, t, found, c, mem, congrArg Prod.snd same,
    below_of_collected (Memory.looks _) Memory.listsNames named found mem⟩

/-- A name can lead out of the destination. -/
theorem outside_of_collected :
    ¬∀ (spec : TreeSpec) (st t : Memory) (items : List Candidate), st.Made →
      exec (collect spec : ExceptT WalkStop (StateM Memory) _).run st = (.ok items, t) →
      ∀ c ∈ items, Below spec.destination c.output := by
  intro below
  have made : Sample.backslashes.Made := .addFile _ _ (.addFile _ _ (.addFile _ _ .empty))
  obtain ⟨items, t, found, outputs⟩ := collected_backslashes
  have some : (⟨"res/..\\up.txt"⟩, "out/../up.txt") ∈ items.map fun c => (c.source, c.output) := by
    rw [outputs]
    decide
  obtain ⟨c, mem, same⟩ := List.mem_map.mp some
  obtain ⟨rest, -, level, parts⟩ := below _ _ _ _ made found c mem
  rw [(Prod.mk.inj same).2] at parts
  have output : (⟨"out/../up.txt"⟩ : Path).parts = [.name "out"] ++ [.up, .name "up.txt"] := by
    decide
  have destination : Sample.spec.destination.forward.parts = [.name "out"] := by decide
  rw [output, destination, List.append_cancel_left_eq] at parts
  exact level (parts ▸ List.mem_cons_self)

/-- Two outputs of one tree are the same exactly if the names on the ways to their sources read
alike; names that are text without backslashes read alike only if they are the same. -/
theorem apart_of_collected (looks : Looks m inv) (lists : ListsNames m inv) {spec : TreeSpec}
    {s t : σ} {items : List Candidate} (start : inv s)
    (found : exec (collect spec : ExceptT WalkStop m _).run s = (.ok items, t))
    {c c' : Candidate} (mem : c ∈ items) (mem' : c' ∈ items) :
    ∃ names names', Routed spec c names ∧ Routed spec c' names' ∧
      ((⟨c.output⟩ : Path).same ⟨c'.output⟩ = true ↔ slashed names = slashed names') ∧
      ((∀ name ∈ names ++ names', name.Plain) → c.source.same c'.source = false →
        (⟨c.output⟩ : Path).same ⟨c'.output⟩ = false) := by
  obtain ⟨names, routed⟩ := routed_of_collected looks lists start found mem
  obtain ⟨names', routed'⟩ := routed_of_collected looks lists start found mem'
  refine ⟨names, names', routed, routed', routed.same_iff routed', fun plain other => ?_⟩
  rw [List.forall_mem_append] at plain
  rw [← Bool.not_eq_true, routed.same_iff routed', routed.slashed_eq plain.1,
    routed'.slashed_eq plain.2]
  intro same
  rw [Path.same, routed.source, routed'.source, same, beq_self_eq_true] at other
  cases other

/-- A file in a directory and one that leads out of the tree have two outputs. -/
theorem apart_of_collected_sample :
    ∃ items t, exec (collect Sample.spec : ExceptT WalkStop (StateM Memory) _).run
        Sample.backslashes = (.ok items, t) ∧
      ∃ c ∈ items, ∃ c' ∈ items, c.output = "out/a/b.txt" ∧ c'.output = "out/../up.txt" ∧
        ∃ names names', Routed Sample.spec c names ∧ Routed Sample.spec c' names' ∧
        ((⟨c.output⟩ : Path).same ⟨c'.output⟩ = true ↔ slashed names = slashed names') ∧
        ((∀ name ∈ names ++ names', name.Plain) → c.source.same c'.source = false →
          (⟨c.output⟩ : Path).same ⟨c'.output⟩ = false) := by
  have named : Sample.backslashes.Named :=
    (Memory.Made.addFile _ _ (.addFile _ _ (.addFile _ _ .empty))).named
  obtain ⟨items, t, found, outputs⟩ := collected_backslashes
  have some : (⟨"res/a/b.txt"⟩, "out/a/b.txt") ∈ items.map (fun c => (c.source, c.output)) ∧
      (⟨"res/..\\up.txt"⟩, "out/../up.txt") ∈ items.map fun c => (c.source, c.output) := by
    rw [outputs]
    decide
  obtain ⟨c, mem, same⟩ := List.mem_map.mp some.1
  obtain ⟨c', mem', same'⟩ := List.mem_map.mp some.2
  exact ⟨items, t, found, c, mem, c', mem', congrArg Prod.snd same, congrArg Prod.snd same',
    apart_of_collected (Memory.looks _) Memory.listsNames named found mem mem'⟩

/-- Two files of one tree can have one output. -/
theorem meeting_of_collected :
    ¬∀ (spec : TreeSpec) (st t : Memory) (items : List Candidate), st.Made →
      exec (collect spec : ExceptT WalkStop (StateM Memory) _).run st = (.ok items, t) →
      ∀ c ∈ items, ∀ c' ∈ items, c.source.same c'.source = false →
        (⟨c.output⟩ : Path).same ⟨c'.output⟩ = false := by
  intro apart
  have made : Sample.backslashes.Made := .addFile _ _ (.addFile _ _ (.addFile _ _ .empty))
  obtain ⟨items, t, found, outputs⟩ := collected_backslashes
  have some : (⟨"res/a/b.txt"⟩, "out/a/b.txt") ∈ items.map (fun c => (c.source, c.output)) ∧
      (⟨"res/a\\b.txt"⟩, "out/a/b.txt") ∈ items.map fun c => (c.source, c.output) := by
    rw [outputs]
    decide
  obtain ⟨c, mem, same⟩ := List.mem_map.mp some.1
  obtain ⟨c', mem', same'⟩ := List.mem_map.mp some.2
  have source : c.source = ⟨"res/a/b.txt"⟩ := (Prod.mk.inj same).1
  have source' : c'.source = ⟨"res/a\\b.txt"⟩ := (Prod.mk.inj same').1
  have other := apart _ _ _ _ made found c mem c' mem' (by rw [source, source']; decide)
  rw [(Prod.mk.inj same).2, (Prod.mk.inj same').2, Path.same, beq_self_eq_true] at other
  cases other

end Candidate
end
end Staging
