import Staging.Proofs.PropertySet.Joining

/-!
Written property texts. A pair is written on a line of its own, its key and value escaped character
by character. A written character reads as itself wherever the reader looks at it: where it splits
lines, joins them, finds the separator or resolves escapes.
-/
namespace Staging.PropertySet
open Text

/-- The letter that stands for a character after a backslash. -/
def escapeLetter : Char → Option Char
  | '\\' => some '\\'
  | '\n' => some 'n'
  | '\r' => some 'r'
  | '\t' => some 't'
  | '\x0c' => some 'f'
  | _ => none

/-- The characters that may end a key or start a comment, and white space. -/
def isMark (c : Char) : Bool := c == '=' || c == ':' || c == '#' || c == '!' || isBlank c

/-- How a character is written, in a key and in a value alike. -/
def escapeChar (c : Char) : List Char :=
  match escapeLetter c with
  | some letter => ['\\', letter]
  | none => if isMark c then ['\\', c] else [c]

def escape (cs : List Char) : List Char := cs.flatMap escapeChar

/-- The line of a pair. -/
def writeLine (pair : String × String) : List Char :=
  escape pair.1.toList ++ '=' :: escape pair.2.toList

/-- The pairs in order, each on a line of its own. -/
def write (pairs : List (String × String)) : List Char :=
  pairs.flatMap fun pair => writeLine pair ++ ['\n']

/-- A character is written as itself, if it means nothing to the reader, or as a backslash and a
character that reads as it. -/
inductive Written (c : Char) : List Char → Prop
  | bare : c ≠ '\\' → c ≠ '\n' → c ≠ '\r' → isMark c = false → Written c [c]
  | escaped (d : Char) : d ≠ '\n' → d ≠ '\r' →
      (∀ rest, unescape ('\\' :: d :: rest) = c :: unescape rest) → Written c ['\\', d]

theorem unescape_bare {c : Char} (h : c ≠ '\\') (rest : List Char) :
    unescape (c :: rest) = c :: unescape rest := by
  simp [unescape, h]

theorem unescape_mark {c : Char} (mark : isMark c = true) (rest : List Char) :
    unescape ('\\' :: c :: rest) = c :: unescape rest := by
  rw [unescape]
  -- no letter of an escape is a mark
  all_goals
    rintro rfl
    revert mark
    decide

theorem written_escapeChar (c : Char) : Written c (escapeChar c) := by
  unfold escapeChar
  split
  · rename_i letter found
    unfold escapeLetter at found
    split at found <;> cases found
    all_goals exact .escaped _ (by decide) (by decide) fun rest => by simp [unescape]
  · rename_i unlettered
    have other : ∀ d, escapeLetter d ≠ none → c ≠ d := by
      rintro d lettered rfl
      exact lettered unlettered
    split
    · rename_i mark
      exact .escaped c (other _ (by decide)) (other _ (by decide)) (unescape_mark mark)
    · rename_i mark
      exact .bare (other _ (by decide)) (other _ (by decide)) (other _ (by decide))
        (eq_false_of_ne_true mark)

namespace Written

variable {c : Char} {piece : List Char}

theorem unescape_append (h : Written c piece) (rest : List Char) :
    unescape (piece ++ rest) = c :: unescape rest := by
  cases h with
  | bare backslash => exact unescape_bare backslash rest
  | escaped d _ _ read => exact read rest

/-- The separator is looked for after the piece. -/
theorem splitPair_append (h : Written c piece) (rest : List Char) :
    splitPair (piece ++ rest) = (piece ++ (splitPair rest).1, (splitPair rest).2) := by
  cases h with
  | bare backslash _ _ mark =>
    simp only [isMark, Bool.or_eq_false_iff, beq_eq_false_iff_ne] at mark
    simp [splitPair, backslash, mark]
  | escaped d => simp [splitPair]

/-- A piece begins with what neither is blank nor starts a comment. -/
theorem starts (h : Written c piece) :
    ∃ d rest, piece = d :: rest ∧ isBlank d = false ∧ isIgnored (d :: rest) = false := by
  cases h with
  | bare _ _ _ mark =>
    simp only [isMark, Bool.or_eq_false_iff] at mark
    exact ⟨c, [], rfl, mark.2, by simp [isIgnored, mark]⟩
  | escaped d => exact ⟨'\\', [d], rfl, by decide, by simp [isIgnored]⟩

theorem in_line (h : Written c piece) : '\n' ∉ piece ∧ '\r' ∉ piece := by
  cases h with
  | bare _ newline carriage => simp [Ne.symm newline, Ne.symm carriage]
  | escaped d newline carriage => simp [Ne.symm newline, Ne.symm carriage]

theorem whole (h : Written c piece) : continues piece = false := by
  cases h with
  | bare backslash => exact continues_concat backslash []
  | escaped d =>
    by_cases backslash : d = '\\'
    · subst backslash
      rfl
    · exact continues_concat backslash ['\\']

end Written

theorem escape_cons (c : Char) (cs : List Char) : escape (c :: cs) = escapeChar c ++ escape cs :=
  List.flatMap_cons

theorem unescape_escape (cs : List Char) : unescape (escape cs) = cs := by
  induction cs with
  | nil => simp [escape, unescape]
  | cons c cs ih => simp only [escape_cons, (written_escapeChar c).unescape_append, ih]

theorem splitPair_escape (cs rest : List Char) :
    splitPair (escape cs ++ rest) = (escape cs ++ (splitPair rest).1, (splitPair rest).2) := by
  induction cs with
  | nil => rfl
  | cons c cs ih =>
    simp only [escape_cons, List.append_assoc, (written_escapeChar c).splitPair_append, ih]

theorem trimStart_escape (cs : List Char) : trimStart (escape cs) = escape cs := by
  cases cs with
  | nil => rfl
  | cons c cs =>
    obtain ⟨d, piece, first, blank, -⟩ := (written_escapeChar c).starts
    simp only [escape_cons, first, List.cons_append, trimStart_cons_of_not_blank blank]

theorem continues_escape (cs : List Char) : continues (escape cs) = false := by
  induction cs with
  | nil => rfl
  | cons c cs ih => rw [escape_cons, continues_append (written_escapeChar c).whole, ih]

theorem in_line_escape (cs : List Char) : '\n' ∉ escape cs ∧ '\r' ∉ escape cs := by
  constructor
  all_goals
    intro mem
    obtain ⟨c, -, mem⟩ := List.mem_flatMap.mp mem
  · exact (written_escapeChar c).in_line.1 mem
  · exact (written_escapeChar c).in_line.2 mem

variable (pair : String × String)

theorem in_line_writeLine : '\n' ∉ writeLine pair ∧ '\r' ∉ writeLine pair := by
  have key := in_line_escape pair.1.toList
  have value := in_line_escape pair.2.toList
  constructor
  · simp [writeLine, key.1, value.1]
  · simp [writeLine, key.2, value.2]

theorem bare_writeLine : (writeLine pair).getLast? ≠ some '\r' :=
  fun last => (in_line_writeLine pair).2 (List.mem_of_getLast? last)

/-- A written line begins with no white space and is no comment. -/
theorem starts_writeLine :
    ∃ d rest, writeLine pair = d :: rest ∧ isBlank d = false ∧ isIgnored (d :: rest) = false := by
  cases key : pair.1.toList with
  | nil => exact ⟨'=', _, by rw [writeLine, key]; rfl, by decide, by simp [isIgnored]⟩
  | cons c cs =>
    obtain ⟨d, piece, first, blank, kept⟩ := (written_escapeChar c).starts
    refine ⟨d, piece ++ escape cs ++ '=' :: escape pair.2.toList, ?_, blank, kept⟩
    simp only [writeLine, key, escape_cons, first, List.cons_append, List.append_assoc]

theorem continues_writeLine : continues (writeLine pair) = false := by
  have separator : continues ['='] = false := by rfl
  rw [writeLine, continues_append (continues_escape _), ← List.singleton_append,
    continues_append separator, continues_escape]

theorem advance_writeLine : advance none (writeLine pair) = ([writeLine pair], none) := by
  obtain ⟨d, rest, first, blank, kept⟩ := starts_writeLine pair
  have whole := continues_writeLine pair
  rw [first] at whole ⊢
  simp [advance, trimStart_cons_of_not_blank blank, kept, whole]

theorem readPair_writeLine : readPair (writeLine pair) = pair := by
  have split : splitPair (writeLine pair) = (escape pair.1.toList, escape pair.2.toList) := by
    simp [writeLine, splitPair_escape, splitPair, trimStart_escape]
  simp only [readPair, split, unescape_escape, String.ofList_toList]

variable (pairs : List (String × String))

theorem lines_writeLine_append (text : List Char) :
    lines (writeLine pair ++ '\n' :: text) = writeLine pair :: lines text := by
  rw [lines_of_ended_line (in_line_writeLine pair).1, dropReturn_of_bare (bare_writeLine pair)]

theorem write_cons : write (pair :: pairs) = writeLine pair ++ '\n' :: write pairs := by
  simp only [write, List.flatMap_cons, List.append_assoc, List.singleton_append]

theorem lines_write : lines (write pairs) = pairs.map writeLine := by
  induction pairs with
  | nil => rfl
  | cons pair pairs ih => rw [write_cons, lines_writeLine_append, ih, List.map_cons]

/-- The last line may do without its line feed. -/
theorem lines_dropLast_write : lines (write pairs).dropLast = pairs.map writeLine := by
  induction pairs with
  | nil => rfl
  | cons pair pairs ih =>
    cases pairs with
    | nil =>
      have alone : (write [pair]).dropLast = writeLine pair := by simp [write]
      have filled : writeLine pair ≠ [] :=
        List.append_ne_nil_of_right_ne_nil _ (List.cons_ne_nil _ _)
      rw [alone, lines_of_open_line (in_line_writeLine pair).1, if_neg filled, List.map_singleton]
    | cons next pairs =>
      have more : write (next :: pairs) ≠ [] := by simp [write_cons]
      rw [write_cons, List.dropLast_append_of_ne_nil (List.cons_ne_nil _ _),
        List.dropLast_cons_of_ne_nil more, lines_writeLine_append, ih]
      rfl

theorem gather_map_writeLine : gather none (pairs.map writeLine) = pairs.map writeLine := by
  induction pairs with
  | nil => rfl
  | cons pair pairs ih =>
    simp only [List.map_cons, gather_cons, advance_writeLine, ih, List.singleton_append]

theorem readPairs_of_lines {text : List Char} (h : lines text = pairs.map writeLine) :
    readPairs text = pairs := by
  simp only [readPairs, logicalLines, h, gather_map_writeLine, List.map_map, Function.comp_def,
    readPair_writeLine, List.map_id']

/-- A written text reads as its pairs, whether or not its last line is ended; of the values of one
key the last one counts. -/
theorem read_write :
    readPairs (write pairs) = pairs ∧ readPairs (write pairs).dropLast = pairs ∧
    read (write pairs) = SortedMap.ofList pairs ∧
    read (write pairs).dropLast = SortedMap.ofList pairs ∧
    ∀ key, (read (write pairs)).get? key = SortedMap.lastValue key pairs := by
  have ended := readPairs_of_lines pairs (lines_write pairs)
  have opened := readPairs_of_lines pairs (lines_dropLast_write pairs)
  have read : read (write pairs) = SortedMap.ofList pairs := by rw [read, ended]
  refine ⟨ended, opened, read, by rw [PropertySet.read, opened], fun key => ?_⟩
  rw [read, SortedMap.get?_ofList]

end Staging.PropertySet
