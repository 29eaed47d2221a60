import Mathlib.Data.List.TakeWhile
import Staging.Candidate
import Staging.Proofs.Path
import Staging.Proofs.Text.Spelling

/-!
Relative paths and the outputs made of them, part by part. On the way from a source to its output a
name is read as text, with a replacement character for what is none, and read again with every
backslash for a separator. So one name can stand for several parts of the output, for none, or for
the directory above, and two names that are no text can stand for one part.
-/
namespace Staging

open Candidate

/-- The path as outputs spell it: as text, with losses if it is none, and with its backslashes as
separators. -/
def Path.respelled (p : Path) : Path := ⟨String.ofList (forwardSlashes p.text)⟩

/-- What a part of a source comes to in an output. -/
def Part.slashed : Part → List Part
  | .root | .here => []
  | .up => [.up]
  | .name s => (Path.splitSlash (Path.respelled ⟨s⟩).bytes).filterMap Path.partOf

def Path.backslash : UInt8 := 0x5c

/-- Outputs spell it as it is: it is text and has no backslash. -/
def Spelling.Plain (s : Spelling) : Prop := s.isText = true ∧ Path.backslash ∉ s.bytes

instance (s : Spelling) : Decidable s.Plain := inferInstanceAs (Decidable (_ ∧ _))

namespace Path

/-- A byte with the separator for the backslash. -/
def forwardByte (b : UInt8) : UInt8 := if b = backslash then slash else b

/-- The path with its backslashes as separators. -/
def forward (p : Path) : Path := ⟨⟨p.bytes.map forwardByte⟩⟩

/-- The bytes as outputs spell them. -/
def respell (bs : Bytes) : Bytes := (Utf8.mend bs).map forwardByte

theorem map_forwardByte {bs : Bytes} (none : backslash ∉ bs) : bs.map forwardByte = bs := by
  refine (List.map_congr_left fun b mem => ?_).trans (List.map_id _)
  rw [forwardByte, if_neg (ne_of_mem_of_not_mem mem none)]
  rfl

/-! Spelling again -/

theorem backslash_mem_encodeChars (cs : List Char) :
    backslash ∈ Utf8.encodeChars cs ↔ '\\' ∈ cs := by
  rw [Utf8.encodeChars, List.mem_flatMap]
  constructor
  · rintro ⟨c, mem, byte⟩
    have same : c.toNat = '\\'.toNat := (Utf8.encodeChar_of_mem byte (by decide)).1
    rwa [← Char.toNat_inj.mp same]
  · intro mem
    exact ⟨'\\', mem, by decide⟩

theorem plain_ofString {t : String} (none : '\\' ∉ t.toList) : Spelling.Plain t :=
  ⟨Spelling.isText_ofString t, mt (backslash_mem_encodeChars t.toList).mp none⟩

theorem plain_forwardSlashes (s : String) : '\\' ∉ forwardSlashes s := by
  intro mem
  obtain ⟨c, -, same⟩ := List.mem_map.mp mem
  split at same
  · cases same
  · rename_i other
    exact other same

theorem encodeChars_forward (cs : List Char) :
    Utf8.encodeChars (cs.map fun c => if c = '\\' then '/' else c) =
      (Utf8.encodeChars cs).map forwardByte := by
  rw [Utf8.encodeChars, Utf8.encodeChars, List.flatMap_map, List.map_flatMap]
  refine List.flatMap_congr fun c _ => ?_
  split
  · rename_i here
    subst here
    decide
  · rename_i other
    have none : backslash ∉ Utf8.encodeChar c := by
      intro byte
      have mem := (backslash_mem_encodeChars [c]).mp (by simpa [Utf8.encodeChars] using byte)
      exact other (List.mem_singleton.mp mem).symm
    exact (map_forwardByte none).symm

theorem bytes_respelled (p : Path) : p.respelled.bytes = respell p.bytes := by
  have spelled : p.respelled.bytes = Utf8.encodeChars (forwardSlashes p.text) := by
    rw [respelled, bytes, Spelling.ofString, Utf8.encode, String.toList_ofList]
  rw [spelled, forwardSlashes, encodeChars_forward, respell, ← Spelling.bytes_shown]
  rfl

theorem respell_eq_nil_iff {bs : Bytes} : respell bs = [] ↔ bs = [] :=
  List.map_eq_nil_iff.trans Utf8.mend_eq_nil_iff

theorem respell_append (a b : Bytes) : respell (a ++ slash :: b) = respell a ++ slash :: respell b := by
  rw [respell, Utf8.mend_append (by decide), List.map_append, List.map_cons]
  rfl

theorem mend_of_isText {s : Spelling} (text : s.isText = true) : Utf8.mend s.bytes = s.bytes := by
  obtain ⟨t, rfl⟩ := Spelling.isText_iff.mp text
  exact Utf8.mend_encodeChars t.toList

theorem respell_of_plain {s : Spelling} (plain : s.Plain) : respell s.bytes = s.bytes := by
  obtain ⟨text, none⟩ := plain
  rw [respell, mend_of_isText text, map_forwardByte none]

/-- A path that is text is spelled again with its backslashes as separators, and no more. -/
theorem respelled_of_isText {p : Path} (text : p.spelling.isText = true) :
    p.respelled = p.forward := by
  apply eq_of_bytes
  rw [bytes_respelled, respell, mend_of_isText text]
  rfl

theorem respelled_of_plain {p : Path} (plain : p.spelling.Plain) : p.respelled = p :=
  eq_of_bytes ((bytes_respelled p).trans (respell_of_plain plain))

theorem isText_append_map (a bs : Bytes) :
    Spelling.isText ⟨a ++ bs.map forwardByte⟩ = true ↔ Spelling.isText ⟨a ++ bs⟩ = true := by
  induction bs generalizing a with
  | nil => rfl
  | cons b bs ih =>
    rw [List.map_cons]
    by_cases here : b = backslash
    · subst here
      have rest := ih []
      rw [List.nil_append, List.nil_append] at rest
      rw [forwardByte, if_pos rfl, Spelling.isText_append (by decide),
        Spelling.isText_append (by decide), rest]
    · rw [forwardByte, if_neg here, List.append_cons, ih, List.append_cons a b bs]

theorem isText_forward (p : Path) : p.forward.spelling.isText = p.spelling.isText :=
  Bool.eq_iff_iff.mpr (isText_append_map [] p.bytes)

/-- What a piece names when it is spelled again. -/
def reread (piece : Bytes) : List Part := (splitSlash (respell piece)).filterMap partOf

theorem slashed_name (piece : Bytes) : (Part.name ⟨piece⟩).slashed = reread piece := by
  rw [Part.slashed, bytes_respelled]
  rfl

theorem reread_of_partOf (piece : Bytes) :
    reread piece = (partOf piece).toList.flatMap Part.slashed := by
  rw [partOf]
  split
  · rename_i nameless
    rcases nameless with rfl | rfl <;> decide +kernel
  · split
    · rename_i up
      subst up
      decide +kernel
    · simp [slashed_name]

theorem reread_of_firstPart (piece : Bytes) (more : Bool) :
    reread piece = (firstPart piece more).toList.flatMap Part.slashed := by
  rw [firstPart]
  split
  · rename_i empty
    subst empty
    cases more <;> decide +kernel
  · split
    · rename_i here
      subst here
      decide +kernel
    · exact reread_of_partOf piece

theorem reread_of_label {pieces : List Bytes} {e : Bytes × Option Part}
    (mem : e ∈ label pieces) : reread e.1 = e.2.toList.flatMap Part.slashed := by
  cases pieces with
  | nil => cases mem
  | cons first rest =>
    rcases List.mem_cons.mp mem with rfl | mem
    · exact reread_of_firstPart first _
    · obtain ⟨piece, -, rfl⟩ := List.mem_map.mp mem
      exact reread_of_partOf piece

/-- Pieces between separators are read again piece by piece. -/
theorem reread_joinSlash (pieces : List Bytes) :
    reread (joinSlash pieces) = pieces.flatMap reread := by
  induction pieces with
  | nil => decide +kernel
  | cons piece rest ih =>
    cases rest with
    | nil => simp [joinSlash]
    | cons next rest =>
      rw [joinSlash, List.flatMap_cons, ← ih]
      · simp only [reread, respell_append, splitSlash_append, List.filterMap_append]
      · exact List.cons_ne_nil _ _

theorem flatMap_reread {pieces : List (Bytes × Option Part)}
    (each : ∀ e ∈ pieces, reread e.1 = e.2.toList.flatMap Part.slashed) :
    (pieces.map (·.1)).flatMap reread = (pieces.filterMap (·.2)).flatMap Part.slashed := by
  induction pieces with
  | nil => rfl
  | cons e rest ih =>
    have first := each e List.mem_cons_self
    have others := ih fun x mem => each x (List.mem_cons_of_mem e mem)
    rw [List.map_cons, List.flatMap_cons, first, others]
    rcases e with ⟨piece, _ | part⟩ <;> simp

/-- A path is read again part by part. -/
theorem reread_bytes (p : Path) : reread p.bytes = p.parts.flatMap Part.slashed := by
  have pieces : p.labelled.map (·.1) = splitSlash p.bytes := map_fst_label _
  have each : ∀ e ∈ p.labelled, reread e.1 = e.2.toList.flatMap Part.slashed :=
    fun _ mem => reread_of_label mem
  rw [← joinSlash_splitSlash p.bytes, reread_joinSlash, ← pieces, flatMap_reread each]
  rfl

/-! Dropping a prefix -/

theorem filterMap_dropWhile_isNone (pieces : List (Bytes × Option Part)) :
    (pieces.dropWhile (·.2.isNone)).filterMap (·.2) = pieces.filterMap (·.2) := by
  induction pieces with
  | nil => rfl
  | cons e rest ih =>
    rcases e with ⟨piece, _ | part⟩
    · simpa [List.dropWhile_cons] using ih
    · simp

theorem filterMap_dropParts (n : Nat) (pieces : List (Bytes × Option Part)) :
    (dropParts n pieces).filterMap (·.2) = (pieces.filterMap (·.2)).drop n := by
  fun_induction dropParts n pieces with
  | case1 => simp
  | case2 => simp [filterMap_dropWhile_isNone]
  | case3 n piece rest ih => simpa using ih
  | case4 n piece part rest ih => simpa using ih

theorem dropParts_sublist (n : Nat) (pieces : List (Bytes × Option Part)) :
    (dropParts n pieces).Sublist pieces := by
  fun_induction dropParts n pieces with
  | case1 => exact .refl _
  | case2 => exact List.dropWhile_sublist _
  | case3 n piece rest ih => exact ih.cons _
  | case4 n piece part rest ih => exact ih.cons _

/-- The first piece that is left names something. -/
theorem named_of_dropParts {n : Nat} {pieces rest : List (Bytes × Option Part)}
    {e : Bytes × Option Part} (h : dropParts n pieces = e :: rest) : e.2 ≠ none := by
  fun_induction dropParts n pieces with
  | case1 => cases h
  | case2 pieces =>
    have first := List.head?_dropWhile_not (fun e : Bytes × Option Part => e.2.isNone) pieces
    rw [h] at first
    intro nameless
    simp [nameless] at first
  | case3 n piece rest ih => exact ih h
  | case4 n piece part rest ih => exact ih h

/-- Behind the first part, an empty piece or a dot names nothing. -/
theorem later_of_dropParts {n : Nat} {pieces : List Bytes}
    {front back : List (Bytes × Option Part)} (whole : label pieces = front ++ back) :
    ∀ e ∈ dropParts (n + 1) front, ∃ q ∈ pieces, e = (q, partOf q) := by
  intro e mem
  cases front with
  | nil => simp [dropParts] at mem
  | cons x front =>
    have later : e ∈ front := by
      rcases x with ⟨piece, _ | part⟩
      · exact (dropParts_sublist _ _).subset mem
      · exact (dropParts_sublist _ _).subset mem
    cases pieces with
    | nil => cases whole
    | cons first rest =>
      rw [label, List.cons_append] at whole
      obtain ⟨-, others⟩ := List.cons.inj whole
      obtain ⟨q, known, rfl⟩ := List.mem_map.mp (others ▸ List.mem_append_left back later)
      exact ⟨q, List.mem_cons_of_mem first known, rfl⟩

theorem firstPart_eq_partOf {piece : Bytes} (named : partOf piece ≠ none) (more : Bool) :
    firstPart piece more = partOf piece := by
  rw [firstPart, if_neg, if_neg]
  · rintro rfl
    exact named rfl
  · rintro rfl
    exact named rfl

/-- Pieces from behind the first part, if the first of them names something, spell what they
name. -/
theorem parts_spell_later {pieces : List (Bytes × Option Part)}
    (plain : ∀ e ∈ pieces, slash ∉ e.1) (later : ∀ e ∈ pieces, e.2 = partOf e.1)
    (first : ∀ e rest, pieces = e :: rest → e.2 ≠ none) :
    (spell pieces).parts = pieces.filterMap (·.2) := by
  cases pieces with
  | nil => exact parts_mk []
  | cons e rest =>
    have own := later e List.mem_cons_self
    have text : spell (e :: rest) = ⟨⟨joinSlash ((e :: rest).map (·.1))⟩⟩ := by
      rw [spell]
      rintro piece lone
      obtain ⟨rfl, -⟩ := List.cons.inj lone
      exact partOf_ne_root piece own.symm
    have texts : (e :: rest).map (·.1) ≠ [] := by simp
    have split := splitSlash_joinSlash texts (List.forall_mem_map.mpr plain)
    have relabelled : label ((e :: rest).map (·.1)) = e :: rest := by
      have head : (e.1, firstPart e.1 !(rest.map (·.1)).isEmpty) = e := by
        have named := first e rest rfl
        rw [own] at named
        rw [firstPart_eq_partOf named, ← own]
      have tail : (rest.map (·.1)).map (fun q => (q, partOf q)) = rest := by
        rw [List.map_map]
        refine (List.map_congr_left fun x mem => ?_).trans (List.map_id rest)
        rw [Function.comp_apply, ← later x (List.mem_cons_of_mem e mem)]
        rfl
      rw [List.map_cons, label, head, tail]
    rw [text, parts_mk, split, relabelled]

/-- What is left of a path below another one has the parts that follow. -/
theorem parts_of_stripPrefix {p base q : Path} (h : p.stripPrefix base = some q) :
    p.parts = base.parts ++ q.parts := by
  rw [stripPrefix] at h
  split at h
  · rename_i starts
    obtain ⟨rest, whole⟩ := startsWith_iff.mp starts
    rw [Option.some.injEq] at h
    suffices left : q.parts = rest by
      rw [left, whole]
    subst h
    split
    · rename_i bare
      rw [parts_spell_trimBack, ← whole, bare, List.nil_append]
    · rename_i some
      obtain ⟨n, length⟩ := Nat.exists_eq_succ_of_ne_zero (mt List.length_eq_zero_iff.mp some)
      obtain ⟨back, pieces, -⟩ := trimBack_append_dropped p.labelled
      have behind := later_of_dropParts (n := n) pieces
      rw [length, parts_spell_later, filterMap_dropParts, filterMap_trimBack, ← length]
      · change p.parts.drop _ = rest
        rw [← whole, List.drop_left]
      · intro e mem
        obtain ⟨piece, known, rfl⟩ := behind e mem
        exact slash_not_mem_splitSlash _ piece known
      · intro e mem
        obtain ⟨piece, -, rfl⟩ := behind e mem
        rfl
      · intro e rest left
        exact named_of_dropParts left
  · cases h

theorem exists_stripPrefix {p base : Path} (starts : base.parts <+: p.parts) :
    ∃ q, p.stripPrefix base = some q := by
  rw [stripPrefix, if_pos (startsWith_iff.mpr starts)]
  exact ⟨_, rfl⟩

/-! Outputs -/

/-- Bytes are what is left without the separators at their end, and these. -/
theorem eq_append_slashes (cs : List Char) :
    ∃ n, cs = (cs.reverse.dropWhile (· == '/')).reverse ++ List.replicate n '/' := by
  have slashes : ∀ c ∈ cs.reverse.takeWhile (· == '/'), c = '/' := fun c mem =>
    eq_of_beq (List.mem_takeWhile_imp (p := (· == '/')) mem)
  refine ⟨(cs.reverse.takeWhile (· == '/')).length, ?_⟩
  have last := List.eq_replicate_of_mem slashes
  have whole := congrArg List.reverse
    (List.takeWhile_append_dropWhile (p := (· == '/')) (l := cs.reverse))
  rw [List.reverse_append, List.reverse_reverse] at whole
  conv_lhs => rw [← whole, last, List.reverse_replicate]

/-- Where the outputs of a destination start. A destination spelled by nothing stands for the root
here. -/
def base (destination : Path) : List Part :=
  if destination.bytes = [] then [.root] else destination.respelled.parts

section
variable {destination : Path}

theorem base_of_empty (empty : destination.bytes = []) : base destination = [.root] := if_pos empty

theorem base_of_plain (plain : destination.spelling.Plain) (some : destination.bytes ≠ []) :
    base destination = destination.parts := by
  rw [base, if_neg some, respelled_of_plain plain]

/-- The outputs of a destination that is text without a backslash start with its parts. -/
theorem prefix_base_of_plain (plain : destination.spelling.Plain) :
    destination.parts <+: base destination := by
  by_cases empty : destination.bytes = []
  · rw [parts_of_empty empty]
    exact List.nil_prefix
  · have same := base_of_plain plain empty
    exact same ▸ List.prefix_refl destination.parts

end

theorem encode_append_slash (a b : List Char) :
    Utf8.encodeChars (a ++ '/' :: b) = Utf8.encodeChars a ++ slash :: Utf8.encodeChars b := by
  rw [Utf8.encodeChars, List.flatMap_append, List.flatMap_cons]
  rfl

theorem encodeChars_slashes (n : Nat) :
    Utf8.encodeChars (List.replicate n '/') = List.replicate n slash := by
  induction n with
  | zero => rfl
  | succ n ih =>
    rw [List.replicate_succ, List.replicate_succ, ← ih]
    rfl

/-- An output has the parts of its destination, and then what its relative path names. -/
theorem parts_outputPath (destination : Path) (rel : String) :
    (⟨outputPath destination rel⟩ : Path).parts =
      base destination ++ (splitSlash (Utf8.encode rel)).filterMap partOf := by
  obtain ⟨n, whole⟩ := eq_append_slashes (forwardSlashes destination.text)
  rw [outputPath, base]
  generalize ((forwardSlashes destination.text).reverse.dropWhile (· == '/')).reverse = front
    at whole ⊢
  have respelled : destination.respelled =
      ⟨⟨Utf8.encodeChars front ++ List.replicate n slash⟩⟩ := by
    rw [Path.respelled, whole, Spelling.ofString, Utf8.encode, String.toList_ofList,
      Utf8.encodeChars, List.flatMap_append, ← encodeChars_slashes]
    rfl
  have output : Spelling.ofString (String.ofList front ++ "/" ++ rel) =
      ⟨Utf8.encodeChars front ++ slash :: Utf8.encode rel⟩ := by
    have text : (String.ofList front ++ "/" ++ rel).toList = front ++ '/' :: rel.toList := by simp
    rw [Spelling.ofString, Utf8.encode, text, encode_append_slash]
    rfl
  rw [output, parts_of_append_slash]
  have bare : Utf8.encodeChars front ++ List.replicate n slash = [] ↔ destination.bytes = [] := by
    have spelled : respell destination.bytes = Utf8.encodeChars front ++ List.replicate n slash := by
      rw [← bytes_respelled, respelled]
    rw [← spelled, respell_eq_nil_iff]
  congr 1
  split
  · rename_i empty
    obtain ⟨nothing, -⟩ := List.append_eq_nil_iff.mp (bare.mpr empty)
    rw [nothing]
    decide
  · rename_i some
    rw [respelled, parts_of_append_slashes (mt bare.mp some)]

/-- An output has the parts of its destination, and for each part of the source below the root what
that part comes to. -/
theorem parts_of_relative {root p : Path} {rel : String} (h : relative root p = some rel) :
    ∃ rest, p.parts = root.parts ++ rest ∧ ∀ destination : Path,
      (⟨outputPath destination rel⟩ : Path).parts =
        base destination ++ rest.flatMap Part.slashed := by
  obtain ⟨q, stripped, rfl⟩ := Option.map_eq_some_iff.mp h
  refine ⟨q.parts, parts_of_stripPrefix stripped, fun destination => ?_⟩
  rw [parts_outputPath, ← reread_bytes, reread, ← bytes_respelled, Path.respelled, bytes,
    Spelling.ofString]

/-- A name without a backslash comes to one name, whether or not it is text. -/
theorem slashed_of_not_mem {s : Spelling} (h : IsName s) (none : backslash ∉ s.bytes) :
    (Part.name s).slashed = [.name s.shown] := by
  have mended (cs : List Char) (plain : Utf8.replacement ∉ cs) :
      Utf8.mend s.bytes = Utf8.encodeChars cs ↔ s.bytes = Utf8.encodeChars cs := by
    refine ⟨Utf8.eq_of_mend plain, fun same => ?_⟩
    rw [same, Utf8.mend_encodeChars]
  have name : IsName s.shown := by
    constructor <;> rw [Spelling.bytes_shown]
    · exact mt (mended [] (by decide)).mp h.nonempty
    · exact mt (mended ['.'] (by decide)).mp h.not_here
    · exact mt (mended ['.', '.'] (by decide)).mp h.not_up
    · exact mt (Utf8.mem_mend_iff (by decide)).mp h.plain
  have same : respell s.bytes = (Spelling.ofString s.shown).bytes := by
    rw [respell, Spelling.bytes_shown, map_forwardByte (mt (Utf8.mem_mend_iff (by decide)).mp none)]
  rw [slashed_name, reread, same, splitSlash_single name.plain]
  simp [name.partOf_eq]

/-- A name that is text without a backslash comes to itself. -/
theorem slashed_of_plain {s : Spelling} (h : IsName s) (plain : s.Plain) :
    (Part.name s).slashed = [.name s] := by
  rw [slashed_of_not_mem h plain.2, Spelling.ofString_shown_iff.mpr plain.1]

/-- Names that are no text can come to one name. -/
example : (Part.name ⟨[0xff]⟩).slashed = (Part.name ⟨[0xfe]⟩).slashed := by decide +kernel

theorem plain_iff_names (p : Path) :
    (∀ s, .name s ∈ p.parts → s.Plain) ↔ p.spelling.Plain := by
  have none : (∀ s, .name s ∈ p.parts → backslash ∉ s.bytes) ↔ backslash ∉ p.bytes :=
    forall_names_iff (P := (backslash ∉ ·)) (by decide) (by decide) (by decide) (by simp [backslash, slash]) p
  simp only [Spelling.Plain, ← isText_iff_names, ← none]
  grind

/-- Only a plain path lies above a plain one. -/
theorem plain_of_above {p q : Path} (above : p.parts <+: q.parts) (plain : q.spelling.Plain) :
    p.spelling.Plain :=
  (plain_iff_names p).mp fun s mem => (plain_iff_names q).mpr plain s (above.subset mem)

theorem isText_of_above {p q : Path} (above : p.parts <+: q.parts)
    (text : q.spelling.isText = true) : p.spelling.isText = true :=
  (isText_iff_names p).mp fun s mem => (isText_iff_names q).mpr text s (above.subset mem)

/-- All backslashes of an output are in the relative path that it is made of. -/
theorem plain_outputPath {rel : String} (plain : '\\' ∉ rel.toList) (destination : Path) :
    Spelling.Plain (outputPath destination rel) := by
  refine plain_ofString fun mem => ?_
  simp only [outputPath, String.toList_append, String.toList_ofList, List.mem_append] at mem
  rcases mem with (front | slash) | back
  · rw [List.mem_reverse] at front
    exact plain_forwardSlashes destination.text
      (List.mem_reverse.mp ((List.dropWhile_sublist _).subset front))
  · revert slash
    decide
  · exact plain back

/-- A relative path has no backslashes. -/
theorem plain_relative {root p : Path} {rel : String} (h : relative root p = some rel) :
    '\\' ∉ rel.toList := by
  obtain ⟨q, -, rfl⟩ := Option.map_eq_some_iff.mp h
  rw [String.toList_ofList]
  exact plain_forwardSlashes q.text

end Path
end Staging
