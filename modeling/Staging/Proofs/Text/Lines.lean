import Mathlib.Data.List.Basic
import Staging.Text.Lines

/-!
The lines of a text put together from others. Where a text ends in a line feed, the lines of what
follows come after its own, so a text has the lines of its ended part and then what is left of it.
-/
namespace Staging.Text

/-- Every line of the text is ended. -/
def Ended (cs : List Char) : Prop := ∀ c ∈ cs.getLast?, c = '\n'

-- Looks at the last character; the statement could also be decided over all characters there are.
instance (cs : List Char) : Decidable (Ended cs) :=
  decidable_of_iff (cs.getLast?.all (· == '\n') = true) <| by
    cases h : cs.getLast? <;> simp [Ended, h]

theorem ended_nil : Ended [] := nofun

theorem ended_concat (cs : List Char) : Ended (cs ++ ['\n']) := by
  intro c last
  simpa using last.symm

theorem Ended.tail {c : Char} {cs : List Char} (h : Ended (c :: cs)) : Ended cs := by
  intro d last
  cases cs with
  | nil => cases last
  | cons e es => exact h d (List.getLast?_cons_cons.trans last)

/-- A text is some ended lines and the rest of a line. -/
theorem exists_ended_append (cs : List Char) :
    ∃ front rest, cs = front ++ rest ∧ Ended front ∧ '\n' ∉ rest := by
  induction cs with
  | nil => exact ⟨[], [], rfl, ended_nil, nofun⟩
  | cons c cs ih =>
    obtain ⟨front, rest, rfl, ended, plain⟩ := ih
    by_cases more : front = []
    · subst more
      by_cases newline : c = '\n'
      · exact ⟨[c], rest, rfl, newline ▸ ended_concat [], plain⟩
      · exact ⟨[], c :: rest, rfl, ended_nil, by simp [Ne.symm newline, plain]⟩
    · refine ⟨c :: front, rest, rfl, fun d last => ended d ?_, plain⟩
      rwa [List.getLast?_cons_of_ne_nil more] at last

theorem dropReturn_of_bare {line : List Char} (bare : line.getLast? ≠ some '\r') :
    dropReturn line = line := by
  induction line using dropReturn.induct with
  | case1 => rfl
  | case2 => exact absurd rfl bare
  | case3 c cs other ih =>
    have more : cs.getLast? ≠ some '\r' := by
      intro last
      cases cs with
      | nil => cases last
      | cons d ds => exact bare (List.getLast?_cons_cons.trans last)
    simp only [dropReturn, ih more]

theorem dropReturn_concat (line : List Char) : dropReturn (line ++ ['\r']) = line := by
  induction line with
  | nil => rfl
  | cons c line ih =>
    rw [List.cons_append, dropReturn, ih]
    simp

theorem linesFrom_newline (seen cs : List Char) :
    linesFrom seen ('\n' :: cs) = dropReturn seen.reverse :: lines cs := by
  simp only [linesFrom, lines]

theorem linesFrom_other {c : Char} (h : c ≠ '\n') (seen cs : List Char) :
    linesFrom seen (c :: cs) = linesFrom (c :: seen) cs := by
  simp only [linesFrom]

/-- A piece of a line is read into what has been seen of that line. -/
theorem linesFrom_append {piece : List Char} (plain : '\n' ∉ piece) (seen cs : List Char) :
    linesFrom seen (piece ++ cs) = linesFrom (piece.reverse ++ seen) cs := by
  induction piece generalizing seen with
  | nil => rfl
  | cons c piece ih =>
    simp only [List.mem_cons, not_or] at plain
    simp only [List.cons_append, linesFrom_other (Ne.symm plain.1), ih plain.2,
      List.reverse_cons, List.append_assoc, List.nil_append]

theorem lines_of_ended_line {line : List Char} (plain : '\n' ∉ line) (cs : List Char) :
    lines (line ++ '\n' :: cs) = dropReturn line :: lines cs := by
  have read := linesFrom_append plain [] ('\n' :: cs)
  simpa only [lines, linesFrom_newline, List.append_nil, List.reverse_reverse] using read

theorem lines_of_open_line {line : List Char} (plain : '\n' ∉ line) :
    lines line = if line = [] then [] else [line] := by
  have read := linesFrom_append plain [] []
  simp only [List.append_nil, linesFrom] at read
  simp [lines, read]

/-- What may come after the characters of a line: nothing, or its ending and more text. -/
inductive Ends : List Char → Prop
  | nothing : Ends []
  | newline (rest : List Char) : Ends ('\n' :: rest)
  | carriage (rest : List Char) : Ends ('\r' :: '\n' :: rest)

/-- The ending may take the last carriage return of a line, and a last line without characters is
none. -/
theorem lines_append_ends {line after : List Char} (plain : '\n' ∉ line) (ends : Ends after) :
    lines (line ++ after) = line :: (lines after).tail ∨
      lines (line ++ after) = dropReturn line :: (lines after).tail ∨
      line = [] ∧ after = [] := by
  cases ends with
  | nothing =>
    rw [List.append_nil, lines_of_open_line plain]
    by_cases blank : line = []
    · exact .inr (.inr ⟨blank, rfl⟩)
    · exact .inl (if_neg blank)
  | newline rest => exact .inr (.inl (lines_of_ended_line plain rest))
  | carriage rest =>
    have ended : '\n' ∉ line ++ ['\r'] := by simp [plain]
    have read := lines_of_ended_line ended rest
    rw [dropReturn_concat, List.append_assoc] at read
    exact .inl read

/-- What follows ended lines has its own lines. The induction is over the line being read as well,
which nothing has been read of where no ended line is left. -/
theorem linesFrom_append_of_ended {front : List Char} (ended : Ended front) {seen : List Char}
    (start : front = [] → seen = []) (cs : List Char) :
    linesFrom seen (front ++ cs) = linesFrom seen front ++ lines cs := by
  induction front generalizing seen with
  | nil =>
    obtain rfl := start rfl
    rfl
  | cons c front ih =>
    simp only [List.cons_append]
    by_cases newline : c = '\n'
    · subst newline
      have rest : lines (front ++ cs) = lines front ++ lines cs := ih ended.tail fun _ => rfl
      simp only [linesFrom_newline, rest, List.cons_append]
    · simp only [linesFrom_other newline]
      apply ih ended.tail
      rintro rfl
      exact absurd (ended c rfl) newline

theorem lines_append {front : List Char} (ended : Ended front) (cs : List Char) :
    lines (front ++ cs) = lines front ++ lines cs :=
  linesFrom_append_of_ended ended (fun _ => rfl) cs

/-- A line feed after a text ends its last line, or adds an empty one where none is open. -/
theorem lines_append_newline {front : List Char} (bare : front.getLast? ≠ some '\r')
    (cs : List Char) :
    lines (front ++ '\n' :: cs) =
      lines front ++ (if Ended front then [[]] else []) ++ lines cs := by
  obtain ⟨whole, line, rfl, ended, plain⟩ := exists_ended_append front
  cases line with
  | nil =>
    have blank : lines ('\n' :: cs) = [] :: lines cs := @lines_of_ended_line [] nofun cs
    simp only [List.append_nil, lines_append ended, if_pos ended, blank, List.append_assoc,
      List.singleton_append]
  | cons c line =>
    have last : (whole ++ c :: line).getLast? = (c :: line).getLast? :=
      List.getLast?_append_of_ne_nil _ (List.cons_ne_nil c line)
    have unended : ¬Ended (whole ++ c :: line) := by
      intro all
      have final := List.getLast?_eq_some_getLast (List.cons_ne_nil c line)
      have newline := all _ (last.trans final)
      exact plain (newline ▸ List.getLast_mem _)
    rw [last] at bare
    simp only [List.append_assoc, lines_append ended, lines_of_ended_line plain,
      lines_of_open_line plain, dropReturn_of_bare bare, if_neg unended,
      if_neg (List.cons_ne_nil c line), List.singleton_append, List.append_nil]

end Staging.Text
