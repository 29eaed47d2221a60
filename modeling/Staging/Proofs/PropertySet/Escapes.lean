import Staging.Proofs.PropertySet.Writing
import Staging.Proofs.Text.Numeral

/-!
Escapes piece by piece. By the rule of property texts a numeric escape is four hexadecimal digits
that name a character, and what is no such escape stands for itself. The reader keeps to the rule
except where it finds a shorter numeral, behind a plus sign or before the end of the text.
-/
namespace Staging.PropertySet
open Text

/-- What the reader of escapes takes at a time. -/
inductive Piece where
  | plain (c : Char)
  | escaped (c : Char)
  /-- What follows a backslash and `u`. -/
  | numeric (digits : List Char)
  /-- A backslash at the end. -/
  | dangling

/-- The escapes of control characters; every other character stands for itself. -/
def letterMeaning : Char → Char
  | 't' => '\t'
  | 'n' => '\n'
  | 'r' => '\r'
  | 'f' => '\x0c'
  | c => c

/-- Four hexadecimal digits that name a character. -/
def IsCode (digits : List Char) : Prop :=
  digits.length = 4 ∧ (∀ d ∈ digits, IsHex d) ∧ (hexValue digits).isValidChar

/-- A numeral that is too short, or that has a sign. -/
def IsLax (digits : List Char) : Prop :=
  unsigned digits ≠ [] ∧ (unsigned digits).length < 4 ∧ ∀ d ∈ unsigned digits, IsHex d

instance (digits : List Char) : Decidable (IsCode digits) := inferInstanceAs (Decidable (_ ∧ _))

instance (digits : List Char) : Decidable (IsLax digits) := inferInstanceAs (Decidable (_ ∧ _))

namespace Piece

/-- The piece as it stands in the text. -/
def text : Piece → List Char
  | plain c => [c]
  | escaped c => ['\\', c]
  | numeric digits => '\\' :: 'u' :: digits
  | dangling => ['\\']

/-- What the piece stands for by the rule. -/
def meaning : Piece → List Char
  | plain c => [c]
  | escaped c => [letterMeaning c]
  | numeric digits =>
    if IsCode digits then [Char.ofNat (hexValue digits)] else '\\' :: 'u' :: digits
  | dangling => []

/-- What the reader takes the piece for. -/
def reading : Piece → List Char
  | numeric digits =>
    if IsLax digits then [Char.ofNat (hexValue (unsigned digits))] else (numeric digits).meaning
  | piece => piece.meaning

end Piece

/-- Pieces that can stand one after the other: a numeric escape takes four characters, or what there
is before the end. -/
inductive Cut : List Piece → Prop
  | nil : Cut []
  | dangling : Cut [.dangling]
  | plain {c : Char} {pieces : List Piece} : c ≠ '\\' → Cut pieces → Cut (.plain c :: pieces)
  | escaped {c : Char} {pieces : List Piece} : c ≠ 'u' → Cut pieces → Cut (.escaped c :: pieces)
  | numeric {digits : List Char} {pieces : List Piece} : digits.length = 4 → Cut pieces →
      Cut (.numeric digits :: pieces)
  | short {digits : List Char} : digits.length < 4 → Cut [.numeric digits]

theorem IsLax.isValidChar {digits : List Char} (h : IsLax digits) :
    (hexValue (unsigned digits)).isValidChar := by
  have value := hexValue_lt h.2.2
  have length : 16 ^ (unsigned digits).length ≤ 16 ^ 3 :=
    Nat.pow_le_pow_right (by decide) (Nat.le_of_lt_succ h.2.1)
  exact .inl (by omega)

/-- Of four characters at most, those name a character that are a code or a lax numeral. -/
theorem namedChar_eq {digits : List Char} (bound : digits.length ≤ 4) :
    namedChar digits =
      if IsLax digits then some (Char.ofNat (hexValue (unsigned digits)))
      else if IsCode digits then some (Char.ofNat (hexValue digits))
      else none := by
  by_cases numeral : unsigned digits ≠ [] ∧ ∀ d ∈ unsigned digits, IsHex d
  · have read : readUnsigned 16 digits = some (hexValue (unsigned digits)) :=
      (readUnsigned_eq_some_iff _ _).mpr ⟨numeral.1, numeral.2, rfl⟩
    rw [namedChar, read]
    by_cases short : (unsigned digits).length < 4
    · have lax : IsLax digits := ⟨numeral.1, short, numeral.2⟩
      simp [lax, lax.isValidChar]
    · have length : digits.length ≤ (unsigned digits).length := by omega
      have same := unsigned_of_length length
      rw [same] at numeral short
      have lax : ¬IsLax digits := fun h => short (same ▸ h.2.1)
      have code : IsCode digits ↔ (hexValue digits).isValidChar :=
        ⟨fun h => h.2.2, fun valid => ⟨by omega, numeral.2, valid⟩⟩
      simp [lax, code, same]
  · have unread : readUnsigned 16 digits = none := by
      refine Option.eq_none_iff_forall_ne_some.mpr fun n read => numeral ?_
      obtain ⟨filled, hex, -⟩ := (readUnsigned_eq_some_iff n digits).mp read
      exact ⟨filled, hex⟩
    have lax : ¬IsLax digits := fun h => numeral ⟨h.1, h.2.2⟩
    have code : ¬IsCode digits := by
      intro h
      rw [unsigned_of_hex h.2.1] at numeral
      refine numeral ⟨?_, h.2.1⟩
      rintro rfl
      cases h.1
    simp [namedChar, unread, lax, code]

theorem exists_cut (text : List Char) :
    ∃ pieces, Cut pieces ∧ pieces.flatMap Piece.text = text := by
  induction length : text.length using Nat.strongRecOn generalizing text with
  | ind n ih =>
    subst length
    cases text with
    | nil => exact ⟨[], .nil, rfl⟩
    | cons c rest =>
      by_cases plain : c ≠ '\\'
      · obtain ⟨pieces, cut, after⟩ := ih _ (by simp) rest rfl
        exact ⟨.plain c :: pieces, .plain plain cut, by simp [Piece.text, after]⟩
      · obtain rfl := not_not.mp plain
        cases rest with
        | nil => exact ⟨[.dangling], .dangling, rfl⟩
        | cons d rest =>
          by_cases letter : d ≠ 'u'
          · obtain ⟨pieces, cut, after⟩ := ih _ (by simp only [List.length_cons]; omega) rest rfl
            exact ⟨.escaped d :: pieces, .escaped letter cut, by simp [Piece.text, after]⟩
          · obtain rfl := not_not.mp letter
            by_cases few : rest.length < 4
            · exact ⟨[.numeric rest], .short few, by simp [Piece.text]⟩
            · have four : (rest.take 4).length = 4 := List.length_take_of_le (by omega)
              obtain ⟨pieces, cut, after⟩ := ih _ (by simp; omega) (rest.drop 4) rfl
              refine ⟨.numeric (rest.take 4) :: pieces, .numeric four cut, ?_⟩
              simp [Piece.text, after]

theorem unescape_letter {c : Char} (h : c ≠ 'u') (rest : List Char) :
    unescape ('\\' :: c :: rest) = letterMeaning c :: unescape rest := by
  unfold letterMeaning
  split <;> simp [unescape, *]

theorem unescape_numeric {digits rest : List Char}
    (taken : digits.length = 4 ∨ digits.length < 4 ∧ rest = []) :
    unescape ('\\' :: 'u' :: (digits ++ rest)) =
      (Piece.numeric digits).reading ++ unescape rest := by
  have parts : (digits ++ rest).take 4 = digits ∧ (digits ++ rest).drop 4 = rest := by
    rcases taken with four | ⟨few, rfl⟩
    · exact ⟨List.take_left' four, List.drop_left' four⟩
    · rw [List.append_nil]
      exact ⟨List.take_of_length_le (by omega), List.drop_of_length_le (by omega)⟩
  rw [unescape, parts.1, parts.2, namedChar_eq (by omega), Piece.reading, Piece.meaning]
  by_cases lax : IsLax digits
  · simp [lax]
  · by_cases code : IsCode digits <;> simp [lax, code]

theorem unescape_text {pieces : List Piece} (cut : Cut pieces) :
    unescape (pieces.flatMap Piece.text) = pieces.flatMap Piece.reading := by
  induction cut with
  | nil => exact unescape.eq_1
  | dangling => exact unescape.eq_2
  | plain other _ ih =>
    rw [List.flatMap_cons, List.flatMap_cons, ← ih]
    exact unescape_bare other _
  | escaped other _ ih =>
    rw [List.flatMap_cons, List.flatMap_cons, ← ih]
    exact unescape_letter other _
  | numeric four _ ih =>
    rw [List.flatMap_cons, List.flatMap_cons, ← ih]
    exact unescape_numeric (.inl four)
  | short few =>
    have read := unescape_numeric (.inr ⟨few, rfl⟩)
    rw [unescape.eq_1, List.append_nil, List.append_nil] at read
    rw [List.flatMap_singleton, List.flatMap_singleton]
    exact read

theorem not_code_of_lax {digits : List Char} (lax : IsLax digits) : ¬IsCode digits := by
  intro code
  have length := lax.2.1
  rw [unsigned_of_hex code.2.1, code.1] at length
  exact absurd length (by decide)

/-- A lax numeral is read as one character where it stands for itself. -/
theorem length_reading_of_lax {digits : List Char} (lax : IsLax digits) :
    (Piece.numeric digits).reading.length < (Piece.numeric digits).meaning.length := by
  simp [Piece.reading, Piece.meaning, lax, not_code_of_lax lax]

theorem reading_eq_or_lax (piece : Piece) :
    piece.reading = piece.meaning ∨ ∃ digits, piece = .numeric digits ∧ IsLax digits := by
  cases piece with
  | plain c => exact .inl rfl
  | escaped c => exact .inl rfl
  | dangling => exact .inl rfl
  | numeric digits =>
    by_cases lax : IsLax digits
    · exact .inr ⟨digits, rfl, lax⟩
    · exact .inl (if_neg lax)

theorem length_reading_le (piece : Piece) : piece.reading.length ≤ piece.meaning.length := by
  rcases reading_eq_or_lax piece with same | ⟨digits, rfl, lax⟩
  · exact Nat.le_of_eq (congrArg List.length same)
  · exact Nat.le_of_lt (length_reading_of_lax lax)

theorem length_readings_le (pieces : List Piece) :
    (pieces.flatMap Piece.reading).length ≤ (pieces.flatMap Piece.meaning).length := by
  induction pieces with
  | nil => exact Nat.le_refl 0
  | cons piece pieces ih =>
    rw [List.flatMap_cons, List.flatMap_cons, List.length_append, List.length_append]
    exact Nat.add_le_add (length_reading_le piece) ih

/-- No reading is longer than it should be, so none makes up for one that is shorter. -/
theorem readings_eq_iff (pieces : List Piece) :
    pieces.flatMap Piece.reading = pieces.flatMap Piece.meaning ↔
      ∀ piece ∈ pieces, piece.reading = piece.meaning := by
  induction pieces with
  | nil => simp
  | cons piece pieces ih =>
    rw [List.flatMap_cons, List.flatMap_cons, List.forall_mem_cons, ← ih]
    constructor
    · intro same
      have total := congrArg List.length same
      rw [List.length_append, List.length_append] at total
      have first := length_reading_le piece
      have rest := length_readings_le pieces
      exact List.append_inj same (by omega)
    · rintro ⟨first, rest⟩
      rw [first, rest]

theorem all_readings_iff (pieces : List Piece) :
    (∀ piece ∈ pieces, piece.reading = piece.meaning) ↔
      ∀ digits, .numeric digits ∈ pieces → ¬IsLax digits := by
  constructor
  · intro all digits mem lax
    have shorter := length_reading_of_lax lax
    rw [all _ mem] at shorter
    exact Nat.lt_irrefl _ shorter
  · intro none piece mem
    rcases reading_eq_or_lax piece with same | ⟨digits, rfl, lax⟩
    · exact same
    · exact absurd lax (none digits mem)

/-- Every text falls into pieces. A text resolves to what its pieces stand for by the rule exactly if
none of its numeric escapes is a lax numeral, and lax numerals resolve to the characters that they
name. -/
theorem unescape_by_rule (text : List Char) :
    (∃ pieces, Cut pieces ∧ pieces.flatMap Piece.text = text) ∧
    ∀ pieces, Cut pieces → pieces.flatMap Piece.text = text →
      unescape text = pieces.flatMap Piece.reading ∧
      (unescape text = pieces.flatMap Piece.meaning ↔
        ∀ digits, .numeric digits ∈ pieces → ¬IsLax digits) := by
  refine ⟨exists_cut text, ?_⟩
  rintro pieces cut rfl
  rw [unescape_text cut, readings_eq_iff, all_readings_iff]
  exact ⟨rfl, Iff.rfl⟩

/-- A code, a surrogate, five digits, and a letter that is no digit. -/
theorem unescape_by_rule_sample :
    let pieces : List Piece := [.numeric "00E9".toList, .numeric "d800".toList, .escaped 't',
      .numeric "0041".toList, .plain '2', .numeric "+12g".toList, .dangling]
    let text := "\\u00E9\\ud800\\t\\u00412\\u+12g\\".toList
    Cut pieces ∧ pieces.flatMap Piece.text = text ∧
    unescape text = "\u00e9\\ud800\tA2\\u+12g".toList := by
  intro pieces text
  have cut : Cut pieces :=
    .numeric rfl <| .numeric rfl <| .escaped (by decide) <| .numeric rfl <| .plain (by decide) <|
      .numeric rfl .dangling
  have whole : pieces.flatMap Piece.text = text := by decide
  have strict : ∀ digits, .numeric digits ∈ pieces → ¬IsLax digits :=
    (all_readings_iff pieces).mp (by decide +kernel)
  refine ⟨cut, whole, ?_⟩
  rw [((unescape_by_rule text).2 pieces cut whole).2.mpr strict]
  decide +kernel

/-- Three digits behind a plus sign are read as a character. -/
theorem unescape_of_sign :
    ¬∀ pieces, Cut pieces →
      unescape (pieces.flatMap Piece.text) = pieces.flatMap Piece.meaning := by
  intro strict
  have read := strict [.numeric "+0e9".toList] (.numeric rfl .nil)
  revert read
  decide +kernel

end Staging.PropertySet
