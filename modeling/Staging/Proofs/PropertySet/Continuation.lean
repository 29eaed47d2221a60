import Mathlib.Data.List.DropRight
import Staging.Proofs.PropertySet.Joining

/-!
Lines that go on. A line may be broken in two with a backslash, a line feed and white space between
the parts; the reader of logical lines puts them together again, whatever stands around the line.
-/
namespace Staging.PropertySet
open Text

/-- A line may be broken after `x`: the reader keeps `x`, which does not go on by itself, and `y` has no
white space in front that would be lost. -/
structure Breaks (x y : List Char) : Prop where
  newline : '\n' ∉ x ++ y
  carriage : '\r' ∉ x ++ y
  kept : isIgnored (trimStart x) = false
  whole : continues x = false
  starts : ∀ c ∈ y.head?, isBlank c = false

/-- White space that stays on its line. -/
def Margin (blanks : List Char) : Prop := ∀ c ∈ blanks, isBlank c = true ∧ c ≠ '\n'

theorem trimStart_dropReturn (line : List Char) :
    trimStart (dropReturn line) = dropReturn (trimStart line) := by
  induction line using dropReturn.induct with
  | case1 => rfl
  | case2 => decide
  | case3 c line other ih =>
    rw [dropReturn]
    · by_cases blank : isBlank c = true
      · rw [trimStart_cons_of_blank blank, trimStart_cons_of_blank blank, ih]
      · have visible := eq_false_of_ne_true blank
        rw [trimStart_cons_of_not_blank visible, trimStart_cons_of_not_blank visible, dropReturn]
        exact other
    · exact other

theorem continues_of_blank {blanks : List Char} (blank : ∀ c ∈ blanks, isBlank c = true) :
    continues blanks = false := by
  rcases List.eq_nil_or_concat' blanks with rfl | ⟨front, c, rfl⟩
  · rfl
  · refine continues_concat ?_ front
    rintro rfl
    exact absurd (blank '\\' (by simp)) (by decide)

theorem continues_trimStart (line : List Char) : continues (trimStart line) = continues line := by
  have blank : ∀ c ∈ line.takeWhile isBlank, isBlank c = true := fun c mem =>
    List.mem_takeWhile_imp mem
  have parts := continues_append (continues_of_blank blank) (trimStart line)
  rwa [trimStart, List.takeWhile_append_dropWhile, eq_comm] at parts

theorem trimStart_append {line : List Char} (visible : trimStart line ≠ []) (more : List Char) :
    trimStart (line ++ more) = trimStart line ++ more := by
  rw [trimStart, List.dropWhile_append, if_neg]
  · rfl
  · simpa [trimStart] using visible

theorem trimStart_margin {blanks : List Char} (margin : Margin blanks) (more : List Char) :
    trimStart (blanks ++ more) = trimStart more :=
  List.dropWhile_append_of_pos fun c mem => (margin c mem).1

/-- Only what is left of a line after its leading white space counts. -/
theorem advance_trimStart (pending : Option (List Char)) (raw : List Char) :
    advance pending (trimStart raw) = advance pending raw := by
  have again : trimStart (trimStart raw) = trimStart raw := List.dropWhile_idempotent isBlank raw
  simp only [advance, again]

theorem gather_append_congr {back back' : List (List Char)}
    (same : ∀ pending, gather pending back = gather pending back')
    (pending : Option (List Char)) (front : List (List Char)) :
    gather pending (front ++ back) = gather pending (front ++ back') := by
  induction front generalizing pending with
  | nil => exact same pending
  | cons raw front ih => simp only [List.cons_append, gather_cons, ih]

namespace Breaks

variable {x y : List Char}

theorem visible (h : Breaks x y) : trimStart x ≠ [] := by
  intro blank
  have kept := h.kept
  rw [blank] at kept
  cases kept

theorem trimStart_back (h : Breaks x y) : trimStart y = y := by
  cases y with
  | nil => rfl
  | cons c y => exact trimStart_cons_of_not_blank (h.starts c rfl)

theorem not_ignored (h : Breaks x y) (more : List Char) :
    isIgnored (trimStart (x ++ more)) = false := by
  have kept := h.kept
  rw [trimStart_append h.visible]
  cases start : trimStart x with
  | nil => exact absurd start h.visible
  | cons c rest =>
    rw [start] at kept
    exact kept

theorem whole_trimStart (h : Breaks x y) : continues (trimStart x) = false := by
  rw [continues_trimStart, h.whole]

/-- The first part ends in one more backslash than the reader takes for escaped ones. -/
theorem advance_front (h : Breaks x y) (pending : Option (List Char)) :
    advance pending (x ++ ['\\']) = ([], some (pending.getD [] ++ trimStart x)) := by
  have goes_on : continues (trimStart x ++ ['\\']) = true := by
    rw [continues_append h.whole_trimStart]
    rfl
  have kept := h.not_ignored ['\\']
  rw [trimStart_append h.visible] at kept
  simp [advance, trimStart_append h.visible, kept, goes_on]

/-- The line as a whole goes on exactly if its second part does. -/
theorem advance_whole (h : Breaks x y) (pending : Option (List Char)) :
    advance pending (x ++ y) = advance (some (pending.getD [] ++ trimStart x)) y := by
  have kept := h.not_ignored y
  rw [trimStart_append h.visible] at kept
  simp only [advance, trimStart_append h.visible, kept, h.trimStart_back,
    continues_append h.whole_trimStart, Option.isNone_some, Bool.and_false, Bool.false_and,
    Option.getD_some, List.append_assoc]
  by_cases goes_on : continues y = true
  · have filled : y ≠ [] := by
      rintro rfl
      cases goes_on
    simp [goes_on, List.dropLast_append_of_ne_nil filled]
  · simp [goes_on]

theorem lines_front (h : Breaks x y) (text : List Char) :
    lines (x ++ '\\' :: '\n' :: text) = (x ++ ['\\']) :: lines text := by
  have plain : '\n' ∉ x ++ ['\\'] := by
    have newline := h.newline
    simp only [List.mem_append, not_or] at newline
    simp [newline.1]
  have read := lines_of_ended_line plain text
  rwa [dropReturn_of_bare (by simp), List.append_assoc] at read

theorem lines_whole (h : Breaks x y) {after : List Char} (ends : Ends after) :
    lines (x ++ y ++ after) = (x ++ y) :: (lines after).tail := by
  rcases lines_append_ends h.newline ends with kept | dropped | ⟨empty, -⟩
  · exact kept
  · rwa [dropReturn_of_bare fun last => h.carriage (List.mem_of_getLast? last)] at dropped
  · obtain ⟨rfl, -⟩ := List.append_eq_nil_iff.mp empty
    exact absurd rfl h.visible

/-- Where something is pending, the white space before the second part does not count. -/
theorem gather_back (h : Breaks x y) {blanks after : List Char} (margin : Margin blanks)
    (ends : Ends after) (pending : List Char) :
    gather (some pending) (lines (blanks ++ y ++ after)) =
      gather (some pending) (y :: (lines after).tail) := by
  have back : trimStart (blanks ++ y) = y := by rw [trimStart_margin margin, h.trimStart_back]
  have plain : '\n' ∉ blanks ++ y := by
    intro mem
    rcases List.mem_append.mp mem with blank | part
    · exact (margin _ blank).2 rfl
    · exact h.newline (List.mem_append_right x part)
  have bare : dropReturn y = y := dropReturn_of_bare fun last =>
    h.carriage (List.mem_append_right x (List.mem_of_getLast? last))
  rcases lines_append_ends plain ends with kept | dropped | ⟨empty, rfl⟩
  · rw [kept, gather_cons, gather_cons, ← advance_trimStart _ (blanks ++ y), back]
  · rw [dropped, gather_cons, gather_cons, ← advance_trimStart _ (dropReturn _),
      trimStart_dropReturn, back, bare]
  · -- the text ends with the line feed, and what is pending with it
    obtain ⟨rfl, rfl⟩ := List.append_eq_nil_iff.mp empty
    exact (gather_append_blank (some pending) [] []).symm

/-- From the broken line on, the reader comes to the same logical lines. -/
theorem gather_lines (h : Breaks x y) {blanks after : List Char} (margin : Margin blanks)
    (ends : Ends after) (pending : Option (List Char)) :
    gather pending (lines (x ++ '\\' :: '\n' :: (blanks ++ y ++ after))) =
      gather pending (lines (x ++ y ++ after)) :=
  calc
    _ = gather (some (pending.getD [] ++ trimStart x)) (lines (blanks ++ y ++ after)) := by
      rw [h.lines_front, gather_cons, h.advance_front, List.nil_append]
    _ = gather (some (pending.getD [] ++ trimStart x)) (y :: (lines after).tail) :=
      h.gather_back margin ends _
    _ = gather pending ((x ++ y) :: (lines after).tail) := by
      rw [gather_cons, gather_cons, h.advance_whole]
    _ = gather pending (lines (x ++ y ++ after)) := by rw [h.lines_whole ends]

end Breaks

theorem logicalLines_broken {before x y blanks after : List Char} (ended : Ended before)
    (h : Breaks x y) (margin : Margin blanks) (ends : Ends after) :
    logicalLines (before ++ (x ++ '\\' :: '\n' :: (blanks ++ y ++ after))) =
      logicalLines (before ++ (x ++ y ++ after)) := by
  rw [logicalLines, logicalLines, lines_append ended, lines_append ended]
  exact gather_append_congr (h.gather_lines margin ends) none (lines before)

/-- A line of a text may be broken with a backslash, a line feed and white space: the text has the
same pairs, and reads as the same set. -/
theorem read_continuation {before x y blanks after : List Char} (ended : Ended before)
    (h : Breaks x y) (margin : Margin blanks) (ends : Ends after) :
    let broken := before ++ (x ++ '\\' :: '\n' :: (blanks ++ y ++ after))
    let whole := before ++ (x ++ y ++ after)
    readPairs broken = readPairs whole ∧ read broken = read whole := by
  intro broken whole
  have pairs : readPairs broken = readPairs whole := by
    rw [readPairs, readPairs, logicalLines_broken ended h margin ends]
  exact ⟨pairs, by rw [read, read, pairs]⟩

/-- No white space, and a second part that would be a comment on a line of its own. -/
theorem read_continuation_mark :
    let before := "a = 1\n".toList
    let x := "k = \\\\".toList
    let y := "#1".toList
    let after := "\r\nb = 2".toList
    Ended before ∧ Breaks x y ∧ Margin [] ∧ Ends after ∧
    (read (before ++ (x ++ '\\' :: '\n' :: (y ++ after)))).toList =
      [("a", "1"), ("b", "2"), ("k", "\\#1")] := by
  intro before x y after
  have ended : Ended before := by decide
  have h : Breaks x y :=
    ⟨by decide, by decide, by decide +kernel, by decide +kernel, by rintro _ ⟨⟩; decide⟩
  have ends : Ends after := .carriage _
  have margin : Margin [] := nofun
  obtain ⟨-, same⟩ := read_continuation ended h margin ends
  exact ⟨ended, h, margin, ends, (congrArg SortedMap.toList same).trans (by decide +kernel)⟩

end Staging.PropertySet
