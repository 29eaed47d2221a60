import Staging.Proofs.Text.Utf8
import Staging.Text.Spelling

/-!
Spellings that are text. A text is read back from its spelling, with losses or without, and a
spelling is text exactly if nothing is lost when it is read. Cut at a byte below 0x80, a spelling is
text if both pieces are.
-/
namespace Staging

namespace Utf8

theorem exists_map_some_iff {α : Type} {os : List (Option α)} :
    (∃ cs : List α, os = cs.map some) ↔ none ∉ os := by
  induction os with
  | nil => exact ⟨fun _ => List.not_mem_nil, fun _ => ⟨[], rfl⟩⟩
  | cons o os ih =>
    rw [List.mem_cons, not_or, ← ih]
    constructor
    · rintro ⟨cs, whole⟩
      obtain ⟨c, rest, -, rfl, rfl⟩ := List.map_eq_cons_iff.mp whole.symm
      exact ⟨(Option.some_ne_none c).symm, rest, rfl⟩
    · rintro ⟨other, rest, rfl⟩
      obtain ⟨c, rfl⟩ := Option.ne_none_iff_exists'.mp (Ne.symm other)
      exact ⟨c :: rest, rfl⟩

/-- The bytes of the text that bytes are read as, with losses. -/
def mend (bs : Bytes) : Bytes := encodeChars (decodeLossy bs)

theorem mend_encodeChars (cs : List Char) : mend (encodeChars cs) = encodeChars cs := by
  rw [mend, decodeLossy_encodeChars]

/-- Something is left of any bytes. -/
theorem mend_eq_nil_iff {bs : Bytes} : mend bs = [] ↔ bs = [] := by
  cases bs with
  | nil => exact iff_of_true (mend_encodeChars []) rfl
  | cons b bs =>
    rw [mend, decodeLossy, scan, List.map_cons, encodeChars, List.flatMap_cons, List.append_eq_nil_iff]
    simp [encodeChar_ne_nil]

theorem mend_append {x : UInt8} (low : x.toNat < 0x80) (a b : Bytes) :
    mend (a ++ x :: b) = mend a ++ x :: mend b := by
  simp only [mend, encodeChars, decodeLossy, scan_append low, List.map_append, List.map_cons,
    Option.getD_some, List.flatMap_append, List.flatMap_cons, encodeChar_ofNat low]
  rfl

theorem mem_of_mem_scan {c : Char} {bs : Bytes} (mem : some c ∈ scan bs) :
    ∀ b ∈ encodeChar c, b ∈ bs := by
  induction bs using scan.induct with
  | case1 => simp [scan] at mem
  | case2 b bs ih =>
    rw [scan, List.mem_cons] at mem
    rcases mem with first | later
    · have own := encodeChar_of_next (Prod.ext first.symm rfl : next b bs = (some c, (next b bs).2))
      rw [own]
      exact List.cons_subset_cons b (List.take_subset _ bs)
    · intro x within
      exact List.mem_cons_of_mem b (List.mem_of_mem_drop (ih later x within))

/-- Bytes below 0x80 are neither lost nor made up. -/
theorem mem_mend_iff {x : UInt8} (low : x.toNat < 0x80) {bs : Bytes} : x ∈ mend bs ↔ x ∈ bs := by
  constructor
  · intro mem
    obtain ⟨c, read, byte⟩ := List.mem_flatMap.mp mem
    obtain ⟨o, scanned, rfl⟩ := List.mem_map.mp read
    cases o with
    | none =>
      have same := (encodeChar_of_mem byte low).1
      rw [← same] at low
      exact absurd low (by decide)
    | some c => exact mem_of_mem_scan scanned x byte
  · intro mem
    obtain ⟨front, back, rfl⟩ := List.append_of_mem mem
    rw [mend_append low]
    exact List.mem_append_right _ List.mem_cons_self

/-- Where nothing is replaced, nothing is lost. -/
theorem eq_of_mend {bs : Bytes} {cs : List Char} (none : replacement ∉ cs)
    (same : mend bs = encodeChars cs) : bs = encodeChars cs := by
  have read : decodeLossy bs = cs := by
    rw [← decodeLossy_encodeChars (decodeLossy bs), ← mend, same, decodeLossy_encodeChars]
  have whole : scan bs = cs.map some := by
    rw [← read, decodeLossy, List.map_map]
    refine (List.map_id _).symm.trans (List.map_congr_left fun o mem => ?_)
    cases o with
    | none => exact absurd (read ▸ List.mem_map.mpr ⟨Option.none, mem, rfl⟩) none
    | some c => rfl
  exact (encodeChars_of_scan whole).symm

end Utf8

namespace Spelling

variable {s : Spelling} {t : String}

theorem text?_eq_some_iff : s.text? = some t ↔ s = t := by
  constructor
  · intro read
    cases s
    exact congrArg mk (Utf8.encode_of_decode? read).symm
  · rintro rfl
    exact Utf8.decode?_encode t

@[simp] theorem text?_ofString (t : String) : text? t = some t := text?_eq_some_iff.mpr rfl

@[simp] theorem isText_ofString (t : String) : isText t = true := by
  rw [isText, text?_ofString]
  rfl

theorem isText_iff : s.isText = true ↔ ∃ t : String, s = t := by
  rw [isText, Option.isSome_iff_exists]
  exact exists_congr fun t => text?_eq_some_iff

@[simp] theorem ofString_inj {t' : String} : ofString t = t' ↔ t = t' := by
  constructor
  · intro same
    exact Utf8.encode_injective (congrArg bytes same)
  · rintro rfl
    rfl

@[simp] theorem shown_ofString (t : String) : shown t = t := by
  have read := Utf8.decodeLossy_encodeChars t.toList
  rw [shown, ofString, Utf8.encode, read, String.ofList_toList]

theorem bytes_shown (s : Spelling) : (ofString s.shown).bytes = Utf8.mend s.bytes := by
  rw [ofString, shown, Utf8.encode, String.toList_ofList]
  rfl

theorem ofString_shown_iff : s.shown = s ↔ s.isText = true := by
  rw [isText_iff]
  constructor
  · intro same
    exact ⟨_, same.symm⟩
  · rintro ⟨t, rfl⟩
    rw [shown_ofString]

theorem isText_iff_scan : s.isText = true ↔ none ∉ Utf8.scan s.bytes := by
  rw [isText, Option.isSome_iff_exists, ← Utf8.exists_map_some_iff]
  simp only [text?, Utf8.decode?, Utf8.decodeChars?, Option.map_eq_some_iff,
    Utf8.mapM_id_eq_some_iff]
  constructor
  · rintro ⟨-, cs, read, -⟩
    exact ⟨cs, read⟩
  · rintro ⟨cs, read⟩
    exact ⟨_, cs, read, rfl⟩

theorem isText_append {x : UInt8} (low : x.toNat < 0x80) (a b : Bytes) :
    isText ⟨a ++ x :: b⟩ = true ↔ isText ⟨a⟩ = true ∧ isText ⟨b⟩ = true := by
  simp [isText_iff_scan, Utf8.scan_append low]

end Spelling
end Staging
