import Mathlib.Data.List.Basic
import Staging.Path
import Staging.Proofs.Text.Spelling

/-!
The parts of computed paths. Whatever the spelling, the parent drops the last part, `join` with a
plain name adds one, and changing the file name changes the last.
-/
namespace Staging.Path

theorem splitSlash_slash (cs : Bytes) : splitSlash (slash :: cs) = [] :: splitSlash cs := by
  rw [splitSlash, if_pos rfl]

/-- A byte that is no separator goes to the first piece. -/
theorem splitSlash_other {c : UInt8} (h : c ≠ slash) (cs : Bytes) :
    ∃ piece pieces, splitSlash cs = piece :: pieces ∧
      splitSlash (c :: cs) = (c :: piece) :: pieces := by
  rw [splitSlash, if_neg h]
  cases rest : splitSlash cs with
  | cons piece pieces => exact ⟨piece, pieces, rfl, rfl⟩
  | nil =>
    cases cs with
    | nil => cases rest
    | cons d ds =>
      rw [splitSlash] at rest
      split at rest
      · cases rest
      · split at rest <;> cases rest

theorem slash_not_mem_splitSlash (cs : Bytes) : ∀ piece ∈ splitSlash cs, slash ∉ piece := by
  induction cs with
  | nil => simp [splitSlash]
  | cons c cs ih =>
    by_cases h : c = slash
    · subst h
      rw [splitSlash_slash]
      simpa using ih
    · obtain ⟨piece, pieces, rest, whole⟩ := splitSlash_other h cs
      rw [rest] at ih
      rw [whole]
      simp only [List.forall_mem_cons] at ih ⊢
      refine ⟨?_, ih.2⟩
      rw [List.mem_cons, not_or]
      exact ⟨Ne.symm h, ih.1⟩

theorem splitSlash_append (a b : Bytes) :
    splitSlash (a ++ slash :: b) = splitSlash a ++ splitSlash b := by
  induction a with
  | nil => exact splitSlash_slash b
  | cons c cs ih =>
    rw [List.cons_append]
    by_cases h : c = slash
    · subst h
      rw [splitSlash_slash, splitSlash_slash, ih]
      rfl
    · obtain ⟨piece, pieces, rest, whole⟩ := splitSlash_other h (cs ++ slash :: b)
      obtain ⟨piece', pieces', rest', whole'⟩ := splitSlash_other h cs
      rw [ih, rest'] at rest
      cases rest
      rw [whole, whole']
      rfl

theorem splitSlash_single {piece : Bytes} (h : slash ∉ piece) : splitSlash piece = [piece] := by
  induction piece with
  | nil => rfl
  | cons c cs ih =>
    rw [List.mem_cons, not_or] at h
    obtain ⟨piece, pieces, rest, whole⟩ := splitSlash_other (Ne.symm h.1) cs
    rw [ih h.2] at rest
    cases rest
    exact whole

theorem splitSlash_joinSlash {pieces : List Bytes} (some : pieces ≠ [])
    (plain : ∀ piece ∈ pieces, slash ∉ piece) : splitSlash (joinSlash pieces) = pieces := by
  induction pieces with
  | nil => exact absurd rfl some
  | cons piece rest ih =>
    have first := splitSlash_single (plain piece List.mem_cons_self)
    cases rest with
    | nil => exact first
    | cons next rest =>
      have others := ih (List.cons_ne_nil _ _) fun q hq => plain q (List.mem_cons_of_mem _ hq)
      rw [joinSlash, splitSlash_append, first, others]
      · rfl
      · simp

theorem splitSlash_ne_nil (cs : Bytes) : splitSlash cs ≠ [] := by
  cases cs with
  | nil => nofun
  | cons c cs =>
    by_cases h : c = slash
    · subst h
      rw [splitSlash_slash]
      nofun
    · obtain ⟨_, _, _, whole⟩ := splitSlash_other h cs
      rw [whole]
      nofun

theorem joinSlash_splitSlash (cs : Bytes) : joinSlash (splitSlash cs) = cs := by
  induction cs with
  | nil => rfl
  | cons c cs ih =>
    by_cases h : c = slash
    · subst h
      rw [splitSlash_slash, joinSlash, ih]
      · rfl
      · exact splitSlash_ne_nil cs
    · obtain ⟨piece, pieces, rest, whole⟩ := splitSlash_other h cs
      rw [rest] at ih
      rw [whole, ← ih]
      cases pieces <;> rfl

theorem eq_of_bytes {p q : Path} (same : p.bytes = q.bytes) : p = q := by
  obtain ⟨⟨a⟩⟩ := p
  obtain ⟨⟨b⟩⟩ := q
  cases same
  rfl

theorem startsWith_iff {p base : Path} : p.startsWith base = true ↔ base.parts <+: p.parts :=
  List.isPrefixOf_iff_prefix

/-- The pieces with the parts they name. -/
def label : List Bytes → List (Bytes × Option Part)
  | [] => []
  | piece :: pieces =>
    (piece, firstPart piece !pieces.isEmpty) :: pieces.map fun q => (q, partOf q)

theorem labelled_eq (p : Path) : p.labelled = label (splitSlash p.bytes) := rfl

theorem parts_mk (bs : Bytes) :
    (⟨⟨bs⟩⟩ : Path).parts = (label (splitSlash bs)).filterMap (·.2) := rfl

theorem parts_of_empty {p : Path} (empty : p.bytes = []) : p.parts = [] := by
  rw [parts, labelled_eq, empty]
  rfl

theorem map_fst_label (pieces : List Bytes) : (label pieces).map (·.1) = pieces := by
  cases pieces with
  | nil => rfl
  | cons piece pieces => simp [label, Function.comp_def]

/-- With two pieces in front, what follows does not change how they are labelled. -/
theorem label_append (a b : Bytes) (front back : List Bytes) :
    label (a :: b :: front ++ back) =
      label (a :: b :: front) ++ back.map fun q => (q, partOf q) := by
  simp [label]

theorem firstPart_of_ne_nil {piece : Bytes} (h : piece ≠ []) (more more' : Bool) :
    firstPart piece more = firstPart piece more' := by
  rw [firstPart, firstPart, if_neg h, if_neg h]

theorem partOf_ne_root (piece : Bytes) : partOf piece ≠ some .root := by
  rw [partOf]
  split
  · nofun
  · split <;> nofun

theorem firstPart_ne_root {piece : Bytes} (h : piece ≠ []) (more : Bool) :
    firstPart piece more ≠ some .root := by
  rw [firstPart, if_neg h]
  split
  · nofun
  · exact partOf_ne_root piece

/-! Trimming -/

theorem trimBack_append_dropped (pieces : List (Bytes × Option Part)) :
    ∃ back, pieces = trimBack pieces ++ back ∧ ∀ e ∈ back, e.2 = none := by
  refine ⟨(pieces.reverse.takeWhile (·.2.isNone)).reverse, ?_, ?_⟩
  · rw [trimBack, ← List.reverse_append, List.takeWhile_append_dropWhile, List.reverse_reverse]
  · intro e he
    have all := List.all_takeWhile (p := fun e : Bytes × Option Part => e.2.isNone)
      (l := pieces.reverse)
    exact Option.isNone_iff_eq_none.mp (List.all_eq_true.mp all e (List.mem_reverse.mp he))

theorem filterMap_trimBack (pieces : List (Bytes × Option Part)) :
    (trimBack pieces).filterMap (·.2) = pieces.filterMap (·.2) := by
  obtain ⟨back, whole, nameless⟩ := trimBack_append_dropped pieces
  have : back.filterMap (·.2) = [] := List.filterMap_eq_nil_iff.mpr nameless
  conv_rhs => rw [whole, List.filterMap_append, this, List.append_nil]

/-- What is left after trimming ends in a piece that names something. -/
theorem named_of_trimBack {pieces front : List (Bytes × Option Part)}
    {last : Bytes × Option Part} (h : trimBack pieces = front ++ [last]) : last.2 ≠ none := by
  have reversed : pieces.reverse.dropWhile (·.2.isNone) = last :: front.reverse := by
    have := congrArg List.reverse h
    rwa [trimBack, List.reverse_reverse, List.reverse_append, List.reverse_singleton] at this
  have first := List.head?_dropWhile_not (fun e : Bytes × Option Part => e.2.isNone)
    pieces.reverse
  rw [reversed] at first
  intro nameless
  simp [nameless] at first

/-- The spelling of the pieces in front of some others names what those pieces name. -/
theorem parts_spell {pieces : List Bytes} (plain : ∀ piece ∈ pieces, slash ∉ piece)
    {front back : List (Bytes × Option Part)} (whole : label pieces = front ++ back)
    (more : back ≠ []) :
    (spell front).parts = front.filterMap (·.2) := by
  have texts : pieces = front.map (·.1) ++ back.map (·.1) := by
    rw [← map_fst_label pieces, whole, List.map_append]
  have plain_front : ∀ piece ∈ front.map (·.1), slash ∉ piece := by
    intro piece mem
    exact plain piece (texts ▸ List.mem_append_left _ mem)
  cases front with
  | nil => exact parts_mk []
  | cons a rest =>
    cases rest with
    | nil =>
      obtain ⟨piece, part⟩ := a
      obtain ⟨next, rest, rfl⟩ := List.exists_cons_of_ne_nil more
      have part_eq : part = firstPart piece true := by
        rw [texts] at whole
        exact (congrArg Prod.snd (List.cons.inj whole).1).symm
      by_cases empty : piece = []
      · subst empty
        subst part_eq
        rfl
      · have : spell [(piece, part)] = ⟨⟨piece⟩⟩ := by
          rw [spell]
          · rfl
          · rintro _ h
            cases h
            exact firstPart_ne_root empty true part_eq.symm
        rw [this, parts_mk, splitSlash_single (plain_front piece List.mem_cons_self), part_eq,
          firstPart_of_ne_nil empty true false]
        rfl
    | cons b rest =>
      have split : splitSlash (joinSlash ((a :: b :: rest).map (·.1))) =
          (a :: b :: rest).map (·.1) :=
        splitSlash_joinSlash (by simp) plain_front
      have same : label ((a :: b :: rest).map (·.1)) = a :: b :: rest := by
        rw [texts] at whole
        have joined := label_append a.1 b.1 (rest.map (·.1)) (back.map (·.1))
        have lengths := congrArg List.length (map_fst_label ((a :: b :: rest).map (·.1)))
        rw [List.length_map, List.length_map] at lengths
        exact (List.append_inj (joined.symm.trans whole) lengths).1
      have : spell (a :: b :: rest) = ⟨⟨joinSlash ((a :: b :: rest).map (·.1))⟩⟩ := by
        rw [spell]
        rintro _ h
        cases h
      rw [this, parts_mk, split, same]

/-- The spelling of all pieces is the path itself. -/
theorem spell_labelled (p : Path) : spell p.labelled = p := by
  have pieces : p.labelled.map (·.1) = splitSlash p.bytes := map_fst_label _
  have text : spell p.labelled = ⟨⟨joinSlash (p.labelled.map (·.1))⟩⟩ := by
    rw [spell]
    intro piece lone
    rw [labelled_eq] at lone
    cases only : splitSlash p.bytes with
    | nil => exact splitSlash_ne_nil _ only
    | cons first rest =>
      rw [only, label] at lone
      obtain ⟨here, none⟩ := List.cons.inj lone
      obtain rfl := List.map_eq_nil_iff.mp none
      have root := congrArg Prod.snd here
      by_cases empty : first = []
      · subst empty
        cases root
      · exact firstPart_ne_root empty _ root
  rw [text, pieces, joinSlash_splitSlash]

/-- Without the pieces at its end that name nothing, a path names the same. -/
theorem parts_spell_trimBack (p : Path) : (spell (trimBack p.labelled)).parts = p.parts := by
  obtain ⟨back, whole, -⟩ := trimBack_append_dropped p.labelled
  cases back with
  | nil =>
    rw [List.append_nil] at whole
    rw [← whole, spell_labelled]
  | cons e back =>
    have spelled := parts_spell (slash_not_mem_splitSlash p.bytes) whole (List.cons_ne_nil e back)
    rw [spelled, filterMap_trimBack]
    rfl

/-- Only the first piece can name the root. -/
theorem front_eq_nil_of_root {pieces : List Bytes}
    {front back : List (Bytes × Option Part)} {piece : Bytes}
    (whole : label pieces = front ++ (piece, some .root) :: back) : front = [] := by
  cases pieces with
  | nil => simp [label] at whole
  | cons first rest =>
    cases front with
    | nil => rfl
    | cons x front =>
      have tail : rest.map (fun q => (q, partOf q)) = front ++ (piece, some .root) :: back :=
        (List.cons.inj whole).2
      have mem : (piece, some Part.root) ∈ rest.map fun q => (q, partOf q) := by
        rw [tail]
        exact List.mem_append_right _ List.mem_cons_self
      obtain ⟨q, -, eq⟩ := List.mem_map.mp mem
      exact absurd (congrArg Prod.snd eq) (partOf_ne_root q)

/-- The parent of a path that has one is spelled by its trimmed pieces, and lacks the last part. -/
theorem parent_cases (p : Path) :
    (p.parent = none ∧ (p.parts = [] ∨ p.parts = [.root])) ∨
      ∃ front, p.parent = some (spell (trimBack front)) ∧ p.parts ≠ [] ∧ p.parts ≠ [.root] ∧
        (spell (trimBack front)).parts = (trimBack front).filterMap (·.2) ∧
        (spell (trimBack front)).parts = p.parts.dropLast := by
  obtain ⟨back, whole, -⟩ := trimBack_append_dropped p.labelled
  have parts_eq : p.parts = (trimBack p.labelled).filterMap (·.2) :=
    (filterMap_trimBack p.labelled).symm
  rcases List.eq_nil_or_concat (trimBack p.labelled) with empty | ⟨front, ⟨piece, part⟩, trimmed⟩
  · left
    rw [parts_eq, parent, empty]
    simp
  · rw [List.concat_eq_append] at trimmed
    obtain ⟨part, rfl⟩ := Option.ne_none_iff_exists'.mp (named_of_trimBack trimmed)
    rw [trimmed, List.filterMap_append] at parts_eq
    rw [trimmed, List.append_assoc, labelled_eq] at whole
    by_cases root : part = .root
    · subst root
      obtain rfl := front_eq_nil_of_root whole
      simp [parent, trimmed, parts_eq]
    · right
      have parent_eq : p.parent = some (spell (trimBack front)) := by
        rw [parent, trimmed, List.reverse_append, List.reverse_singleton, List.singleton_append]
        cases part with
        | root => exact absurd rfl root
        | here | up | name => simp
      obtain ⟨back', front_eq, -⟩ := trimBack_append_dropped front
      rw [front_eq, List.append_assoc] at whole
      have spelled := parts_spell (slash_not_mem_splitSlash p.bytes) whole (by simp)
      have last : p.parts.getLast? = some part := by simp [parts_eq]
      refine ⟨front, parent_eq, ?_, ?_, spelled, ?_⟩
      · rintro empty
        simp [empty] at last
      · rintro alone
        rw [alone] at last
        exact root (Option.some.inj last).symm
      · rw [spelled, filterMap_trimBack, parts_eq]
        simp

/-- The parent has all parts but the last. Nothing and the root have no parent. -/
theorem parts_parent (p : Path) :
    p.parent.map parts =
      if p.parts = [] ∨ p.parts = [.root] then none else some p.parts.dropLast := by
  rcases parent_cases p with ⟨none, bare⟩ | ⟨front, parent, some, not_root, -, dropped⟩
  · rw [none, if_pos bare, Option.map_none]
  · rw [parent, if_neg (not_or.mpr ⟨some, not_root⟩), Option.map_some, dropped]

theorem parts_of_parent {p dir : Path} (h : p.parent = some dir) : dir.parts = p.parts.dropLast := by
  have dropped := parts_parent p
  rw [h, Option.map_some] at dropped
  split at dropped
  · cases dropped
  · exact Option.some.inj dropped

/-- A parent that has no parts is spelled by nothing. -/
theorem bytes_of_parent {p q : Path} (h : p.parent = some q) (bare : q.parts = []) :
    q.bytes = [] := by
  rcases parent_cases p with ⟨none, -⟩ | ⟨front, parent, -, -, spelled, -⟩
  · rw [none] at h
    cases h
  · rw [parent, Option.some.injEq] at h
    subst h
    rw [spelled] at bare
    rcases List.eq_nil_or_concat (trimBack front) with empty | ⟨_, last, trimmed⟩
    · rw [empty]
      rfl
    · rw [List.concat_eq_append] at trimmed
      obtain ⟨part, named⟩ := Option.ne_none_iff_exists'.mp (named_of_trimBack trimmed)
      rw [trimmed, List.filterMap_append] at bare
      simp [named] at bare

/-! Names -/

/-- A spelling that stands for one name in any path. -/
structure IsName (s : Spelling) : Prop where
  nonempty : s.bytes ≠ []
  not_here : s.bytes ≠ [dot]
  not_up : s.bytes ≠ [dot, dot]
  plain : slash ∉ s.bytes

namespace IsName

variable {s : Spelling}

theorem partOf_eq (h : IsName s) : partOf s.bytes = some (.name s) := by
  rw [partOf, if_neg (not_or.mpr ⟨h.nonempty, h.not_here⟩), if_neg h.not_up]

theorem firstPart_eq (h : IsName s) (more : Bool) :
    firstPart s.bytes more = some (.name s) := by
  rw [firstPart, if_neg h.nonempty, if_neg h.not_here, h.partOf_eq]

theorem not_absolute (h : IsName s) : Path.isAbsolute ⟨s⟩ = false := by
  rw [isAbsolute, beq_eq_false_iff_ne]
  exact fun first => h.plain (List.mem_of_head? first)

end IsName

theorem isName_of_partOf {piece : Bytes} {s : Spelling} (plain : slash ∉ piece)
    (h : partOf piece = some (.name s)) : IsName s := by
  rw [partOf] at h
  split at h
  · cases h
  · rename_i some
    split at h
    · cases h
    · rename_i not_up
      cases h
      rw [not_or] at some
      exact ⟨some.1, some.2, not_up, plain⟩

theorem isName_of_mem_parts {p : Path} {s : Spelling} (h : .name s ∈ p.parts) : IsName s := by
  have plain := slash_not_mem_splitSlash p.bytes
  rw [parts, labelled_eq] at h
  generalize splitSlash p.bytes = pieces at plain h
  cases pieces with
  | nil => simp [label] at h
  | cons first rest =>
    obtain ⟨⟨piece, part⟩, mem, rfl⟩ := List.mem_filterMap.mp h
    rcases List.mem_cons.mp mem with eq | mem
    · obtain ⟨rfl, named⟩ := Prod.mk.inj eq
      refine isName_of_partOf (plain piece List.mem_cons_self) (s := s) ?_
      rw [firstPart] at named
      split at named
      · split at named <;> cases named
      · split at named
        · cases named
        · exact named.symm
    · obtain ⟨q, hq, eq⟩ := List.mem_map.mp mem
      obtain ⟨rfl, named⟩ := Prod.mk.inj eq
      exact isName_of_partOf (plain q (List.mem_cons_of_mem _ hq)) named

/-- After the first part of a path nothing but names and `..` follow. -/
theorem named_of_mem_tail {p : Path} {part : Part} (mem : part ∈ p.parts.tail) :
    part = .up ∨ ∃ s, part = .name s := by
  have kinds (piece : Bytes) (named : partOf piece = some part) :
      part = .up ∨ ∃ s, part = .name s := by
    rw [partOf] at named
    split at named
    · cases named
    · split at named <;> cases named
      · exact .inl rfl
      · exact .inr ⟨_, rfl⟩
  rw [parts, labelled_eq] at mem
  cases split : splitSlash p.bytes with
  | nil => simp [split, label] at mem
  | cons first rest =>
    have mem : part ∈ rest.filterMap partOf := by
      rw [split, label, List.filterMap_cons, List.filterMap_map] at mem
      split at mem
      · exact List.mem_of_mem_tail mem
      · exact mem
    obtain ⟨piece, -, named⟩ := List.mem_filterMap.mp mem
    exact kinds piece named

theorem fileName_eq_some_iff {p : Path} {s : Spelling} :
    p.fileName = some s ↔ p.parts.getLast? = some (.name s) := by
  rw [fileName]
  split <;> simp_all

theorem isName_of_fileName {p : Path} {s : Spelling} (h : p.fileName = some s) : IsName s := by
  rw [fileName] at h
  split at h
  · rename_i last
    cases h
    exact isName_of_mem_parts (List.mem_of_getLast? last)
  · cases h

theorem parts_of_fileName {p : Path} {s : Spelling} (h : p.fileName = some s) :
    p.parts = p.parts.dropLast ++ [.name s] := by
  rw [fileName] at h
  split at h
  · rename_i last
    cases h
    exact (List.dropLast_append_getLast? _ last).symm
  · cases h

/-- The parts that pieces name when another piece follows them. -/
def named : List Bytes → List Part
  | [] => []
  | first :: rest => (firstPart first true).toList ++ rest.filterMap partOf

/-- Where pieces follow the first one anyway, another one changes nothing. -/
theorem named_eq {first : Bytes} {rest : List Bytes}
    (plain : first = [] → rest ≠ []) :
    named (first :: rest) = (label (first :: rest)).filterMap (·.2) := by
  have same : firstPart first true = firstPart first !rest.isEmpty := by
    by_cases h : first = []
    · rw [List.isEmpty_eq_false_iff.mpr (plain h), Bool.not_false]
    · exact firstPart_of_ne_nil h _ _
  rw [named, label, List.filterMap_cons, List.filterMap_map, Function.comp_def, same]
  cases firstPart first !rest.isEmpty <;> simp

theorem filterMap_label_append {front back : List Bytes} (some : front ≠ [])
    (more : back ≠ []) :
    (label (front ++ back)).filterMap (·.2) = named front ++ back.filterMap partOf := by
  obtain ⟨first, rest, rfl⟩ := List.exists_cons_of_ne_nil some
  have followed : (!(rest ++ back).isEmpty) = true := by simp [more]
  rw [List.cons_append, label, followed, List.filterMap_cons, List.filterMap_map,
    Function.comp_def, List.filterMap_append, named]
  cases firstPart first true <;> simp

/-- What a text names when a separator and more follow it. -/
theorem parts_of_append_slash (front back : Bytes) :
    (⟨⟨front ++ slash :: back⟩⟩ : Path).parts =
      named (splitSlash front) ++ (splitSlash back).filterMap partOf := by
  rw [parts_mk, splitSlash_append]
  exact filterMap_label_append (splitSlash_ne_nil front) (splitSlash_ne_nil back)

theorem partOf_of_slashes (n : Nat) :
    (splitSlash (List.replicate n slash)).filterMap partOf = [] := by
  induction n with
  | zero => decide
  | succ n ih =>
    rw [List.replicate_succ, splitSlash_slash, List.filterMap_cons, ih]
    rfl

/-- Separators at the end of a text name nothing, unless there is nothing else. -/
theorem parts_of_append_slashes {front : Bytes} {n : Nat} (some : front ++ List.replicate n slash ≠ []) :
    (⟨⟨front ++ List.replicate n slash⟩⟩ : Path).parts = named (splitSlash front) := by
  cases n with
  | succ n =>
    rw [List.replicate_succ, parts_of_append_slash, partOf_of_slashes, List.append_nil]
  | zero =>
    rw [List.replicate_zero, List.append_nil] at some ⊢
    obtain ⟨first, rest, pieces⟩ := List.exists_cons_of_ne_nil (splitSlash_ne_nil front)
    rw [parts_mk, pieces, named_eq]
    rintro rfl rfl
    have text := joinSlash_splitSlash front
    rw [pieces] at text
    exact some text.symm

/-- What a path names when more could follow it. -/
theorem named_splitSlash {p : Path} (some : p.bytes ≠ []) : named (splitSlash p.bytes) = p.parts := by
  have nonempty : p.bytes ++ List.replicate 0 slash ≠ [] := by simpa using some
  simpa using (parts_of_append_slashes nonempty).symm

theorem join_of_empty {p : Path} (empty : p.bytes = []) (rel : Spelling) : p.join rel = ⟨rel⟩ := by
  rw [join, empty]
  split <;> rfl

/-- What is put below a path adds what its pieces name. -/
theorem parts_join_relative {p : Path} {rel : Spelling} (some : p.bytes ≠ [])
    (below : Path.isAbsolute ⟨rel⟩ = false) :
    (p.join rel).parts = p.parts ++ (splitSlash rel.bytes).filterMap partOf := by
  rw [join, below, if_neg Bool.false_ne_true]
  split
  · rename_i empty
    exact absurd (List.getLast?_eq_none_iff.mp empty) some
  · rename_i last found
    split
    · rename_i slash
      subst slash
      obtain ⟨front, whole⟩ := List.getLast?_eq_some_iff.mp found
      have own : p.parts = named (splitSlash front) := by
        have spelled : p = ⟨⟨front ++ List.replicate 1 Path.slash⟩⟩ := by
          rw [List.replicate_one, ← whole]
        rw [spelled]
        exact parts_of_append_slashes (List.append_ne_nil_of_right_ne_nil _ (List.cons_ne_nil _ _))
      rw [whole, List.append_assoc, List.singleton_append, parts_of_append_slash, own]
    · rw [parts_of_append_slash, named_splitSlash some]

/-- A name put below a path is one part more. -/
theorem parts_join (p : Path) {name : Spelling} (h : IsName name) :
    (p.join name).parts = p.parts ++ [.name name] := by
  by_cases empty : p.bytes = []
  · rw [join_of_empty empty, parts_of_empty empty, parts, labelled_eq, splitSlash_single h.plain,
      label]
    simp [h.firstPart_eq]
  · rw [parts_join_relative empty h.not_absolute, splitSlash_single h.plain]
    simp [h.partOf_eq]

/-- Only a name can be exchanged; below any other path the new name is added. -/
theorem parts_withFileName (p : Path) {name : Spelling} (h : IsName name) :
    (p.withFileName name).parts =
      (if p.fileName.isSome then p.parts.dropLast else p.parts) ++ [.name name] := by
  rw [withFileName]
  split
  · rename_i old dir found parent
    rw [parts_join dir h, parts_of_parent parent, found, Option.isSome_some, if_pos rfl]
  · rename_i lone
    rw [parts_join p h]
    congr 1
    split
    · rename_i found
      obtain ⟨old, found⟩ := Option.isSome_iff_exists.mp found
      have parent := parts_parent p
      have not_root : p.parts ≠ [.root] := by
        rw [parts_of_fileName found]
        intro alone
        have last := congrArg List.getLast? alone
        simp at last
      have nonempty : p.parts ≠ [] := by
        rw [parts_of_fileName found]
        exact List.append_ne_nil_of_right_ne_nil _ (List.cons_ne_nil _ _)
      rw [if_neg (not_or.mpr ⟨nonempty, not_root⟩)] at parent
      cases dir : p.parent with
      | none => simp [dir] at parent
      | some dir' => exact absurd dir (lone old dir' found)
    · rfl

/-! Names of a path -/

section
variable {P : Bytes → Prop} (nil : P []) (here : P [dot]) (up : P [dot, dot])
include nil here up

theorem forall_partOf_iff (piece : Bytes) :
    (∀ s, partOf piece = some (.name s) → P s.bytes) ↔ P piece := by
  rw [partOf]
  split
  · rename_i nameless
    rcases nameless with rfl | rfl <;> simp [nil, here]
  · split
    · rename_i goesUp
      simp [goesUp, up]
    · simp

theorem forall_firstPart_iff (piece : Bytes) (more : Bool) :
    (∀ s, firstPart piece more = some (.name s) → P s.bytes) ↔ P piece := by
  rw [firstPart]
  split
  · rename_i empty
    cases more <;> simp [empty, nil]
  · split
    · rename_i stays
      simp [stays, here]
    · exact forall_partOf_iff nil here up piece

theorem forall_label_iff {pieces : List Bytes} {e : Bytes × Option Part} (mem : e ∈ label pieces) :
    (∀ s, e.2 = some (.name s) → P s.bytes) ↔ P e.1 := by
  cases pieces with
  | nil => cases mem
  | cons first rest =>
    rcases List.mem_cons.mp mem with rfl | mem
    · exact forall_firstPart_iff nil here up first _
    · obtain ⟨piece, -, rfl⟩ := List.mem_map.mp mem
      exact forall_partOf_iff nil here up piece

variable (cut : ∀ a b, P (a ++ slash :: b) ↔ P a ∧ P b)
include cut

omit here up in
theorem forall_joinSlash_iff (pieces : List Bytes) :
    (∀ piece ∈ pieces, P piece) ↔ P (joinSlash pieces) := by
  induction pieces with
  | nil => simp [joinSlash, nil]
  | cons piece rest ih =>
    cases rest with
    | nil => simp [joinSlash]
    | cons next rest =>
      have whole : joinSlash (piece :: next :: rest) = piece ++ slash :: joinSlash (next :: rest) := rfl
      rw [whole, cut, List.forall_mem_cons, ih]

/-- What holds of dots, and of bytes if it holds of the pieces between separators, holds of a path
exactly if it holds of its names. -/
theorem forall_names_iff (p : Path) : (∀ s, .name s ∈ p.parts → P s.bytes) ↔ P p.bytes := by
  have pieces : p.labelled.map (·.1) = splitSlash p.bytes := map_fst_label _
  rw [← joinSlash_splitSlash p.bytes, ← forall_joinSlash_iff nil cut, ← pieces,
    List.forall_mem_map, parts]
  simp only [List.mem_filterMap]
  constructor
  · intro names e mem
    exact (forall_label_iff nil here up mem).mp fun s named => names s ⟨e, mem, named⟩
  · rintro whole s ⟨e, mem, named⟩
    exact (forall_label_iff nil here up mem).mpr (whole e mem) s named

end

theorem isText_iff_names (p : Path) :
    (∀ s, .name s ∈ p.parts → s.isText = true) ↔ p.spelling.isText = true :=
  forall_names_iff (P := fun bs => Spelling.isText ⟨bs⟩ = true) (by decide +kernel) (by decide +kernel)
    (by decide +kernel) (Spelling.isText_append (by decide)) p

end Staging.Path
