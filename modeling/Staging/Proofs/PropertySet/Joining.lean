import Staging.Proofs.SortedMap
import Staging.Proofs.Text.Lines
import Staging.PropertySet.Reader

/-!
Property texts put one after the other. The reader of logical lines carries only what is pending of a
line that goes on, so where nothing is pending, two texts read as one set over the other.
-/
namespace Staging.PropertySet
open Text

/-- What one line comes to after what is pending: the logical line that it ends, if it ends one, and
what is pending then. -/
def advance (pending : Option (List Char)) (raw : List Char) :
    List (List Char) × Option (List Char) :=
  let line := trimStart raw
  if pending.isNone && isIgnored line then ([], none)
  else if continues line then ([], some (pending.getD [] ++ line.dropLast))
  else ([pending.getD [] ++ line], none)

/-- What is pending after some lines. -/
def pendingAfter (pending : Option (List Char)) (front : List (List Char)) :
    Option (List Char) :=
  front.foldl (fun pending raw => (advance pending raw).2) pending

/-- The last line of the text has no line feed, and goes on. -/
def EndsOpen (text : List Char) : Prop :=
  ¬Ended text ∧ (pendingAfter none (lines text)).isSome

instance (text : List Char) : Decidable (EndsOpen text) := inferInstanceAs (Decidable (_ ∧ _))

theorem continues_concat {c : Char} (h : c ≠ '\\') (front : List Char) :
    continues (front ++ [c]) = false := by
  simp [continues, h]

/-- What goes before a text that does not go on changes nothing about the text. -/
theorem continues_append {front : List Char} (whole : continues front = false)
    (line : List Char) : continues (front ++ line) = continues line := by
  simp only [continues, List.reverse_append, List.takeWhile_append] at whole ⊢
  split
  · rename_i all
    simp only [List.length_append, beq_eq_false_iff_ne] at whole ⊢
    rw [all]
    grind
  · rfl

theorem gather_nil (pending : Option (List Char)) : gather pending [] = pending.toList := by
  cases pending <;> rfl

theorem gather_cons (pending : Option (List Char)) (raw : List Char) (rest : List (List Char)) :
    gather pending (raw :: rest) =
      (advance pending raw).1 ++ gather (advance pending raw).2 rest := by
  cases pending with
  | none =>
    simp only [gather, advance, Option.isNone_none, Bool.true_and]
    split
    · rfl
    · split <;> rfl
  | some line =>
    simp only [gather, advance, Option.isNone_some, Bool.false_and]
    split <;> simp_all

theorem gather_append {pending : Option (List Char)} {front : List (List Char)}
    (closed : pendingAfter pending front = none) (back : List (List Char)) :
    gather pending (front ++ back) = gather pending front ++ gather none back := by
  induction front generalizing pending with
  | nil =>
    obtain rfl : pending = none := closed
    rfl
  | cons raw front ih =>
    simp only [List.cons_append, gather_cons, ih closed, List.append_assoc]

/-- An empty line ends what is pending and adds nothing. -/
theorem gather_append_blank (pending : Option (List Char)) (front back : List (List Char)) :
    gather pending (front ++ [] :: back) = gather pending front ++ gather none back := by
  induction front generalizing pending with
  | nil =>
    simp only [List.nil_append, gather_cons, gather_nil]
    cases pending <;> simp [advance, trimStart, isIgnored, continues]
  | cons raw front ih =>
    simp only [List.cons_append, gather_cons, ih, List.append_assoc]

theorem logicalLines_append {front : List Char} (bare : front.getLast? ≠ some '\r')
    (closed : ¬EndsOpen front) (back : List Char) :
    logicalLines (front ++ '\n' :: back) = logicalLines front ++ logicalLines back := by
  simp only [logicalLines, lines_append_newline bare]
  by_cases ended : Ended front
  · simp only [if_pos ended, List.append_assoc, List.singleton_append, gather_append_blank]
  · have nothing : pendingAfter none (lines front) = none := by
      rw [← Option.not_isSome_iff_eq_none]
      exact fun pending => closed ⟨ended, pending⟩
    simp only [if_neg ended, List.append_nil, gather_append nothing]

/-- Two texts with a line feed between them read as the second set over the first, unless the first
ends in a carriage return or its last line goes on. -/
theorem read_append {front : List Char} (bare : front.getLast? ≠ some '\r')
    (closed : ¬EndsOpen front) (back : List Char) :
    read (front ++ '\n' :: back) = (read front).overlay (read back) := by
  simp only [read, readPairs, logicalLines_append bare closed, List.map_append,
    SortedMap.ofList_append]

/-- A comment never goes on, so the line after it counts. -/
theorem read_append_comment :
    ¬EndsOpen "k = 1\n# note \\".toList ∧
    read ("k = 1\n# note \\".toList ++ '\n' :: "k : 2\nm".toList) =
      (read "k = 1\n# note \\".toList).overlay (read "k : 2\nm".toList) ∧
    (read ("k = 1\n# note \\".toList ++ '\n' :: "k : 2\nm".toList)).toList =
      [("k", "2"), ("m", "")] :=
  ⟨by decide +kernel, read_append (by decide) (by decide +kernel) _, by decide +kernel⟩

end Staging.PropertySet
