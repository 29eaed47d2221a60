import Staging.Proofs.Path.Relative

/-!
Outputs and relative paths undo each other. The output of a relative path is that path put below the
destination, and seen from the destination it is that path again. There are two exceptions. A
destination that is spelled by nothing is taken for the root: then the output of the relative path
lies below the root. And an output is text, so no output lies below a destination that is none.
-/
namespace Staging

open Candidate

namespace Path

variable {destination : Path} {rel : String}

theorem isAbsolute_of_splitSlash {rest : List Bytes} (some : rest ≠ [])
    (pieces : splitSlash (Utf8.encode rel) = [] :: rest) : Path.isAbsolute ⟨rel⟩ = true := by
  have whole := joinSlash_splitSlash (Utf8.encode rel)
  obtain ⟨next, others, rfl⟩ := List.exists_cons_of_ne_nil some
  rw [pieces, joinSlash] at whole
  · rw [isAbsolute, bytes, Spelling.ofString, ← whole]
    rfl
  · exact List.cons_ne_nil next others

/-- A text that begins with neither the root nor a dot names the same behind other parts as alone. -/
theorem parts_of_floating (below : Path.isAbsolute ⟨rel⟩ = false)
    (first : (⟨rel⟩ : Path).parts.head? ≠ some .here) :
    (⟨rel⟩ : Path).parts = (splitSlash (Utf8.encode rel)).filterMap partOf := by
  have spelled : (⟨rel⟩ : Path).bytes = Utf8.encode rel := rfl
  rw [parts, labelled_eq, spelled] at first ⊢
  cases pieces : splitSlash (Utf8.encode rel) with
  | nil => exact absurd pieces (splitSlash_ne_nil _)
  | cons piece rest =>
    have same : firstPart piece (!rest.isEmpty) = partOf piece := by
      by_cases empty : piece = []
      · subst empty
        cases rest with
        | nil => rfl
        | cons next others =>
          rw [isAbsolute_of_splitSlash (List.cons_ne_nil next others) pieces] at below
          cases below
      · have visible : piece ≠ [dot] := by
          rintro rfl
          rw [pieces] at first
          exact first rfl
        rw [firstPart, if_neg empty, if_neg visible]
    rw [label, same, List.filterMap_cons, List.filterMap_cons, List.filterMap_map]
    rfl

/-- Seen from a place above, a text without backslashes has the parts that follow. -/
theorem exists_relative_of_prefix {root p : Path} {rest : List Part}
    (whole : p.parts = root.parts ++ rest) (plain : p.spelling.Plain) :
    ∃ back, relative root p = some back ∧ (⟨back⟩ : Path).parts = rest := by
  obtain ⟨q, stripped⟩ := exists_stripPrefix ⟨rest, whole.symm⟩
  have follows : q.parts = rest :=
    List.append_cancel_left ((parts_of_stripPrefix stripped).symm.trans whole)
  have plain_back : q.spelling.Plain := by
    rw [← plain_iff_names] at plain ⊢
    intro s mem
    refine plain s ?_
    rw [parts_of_stripPrefix stripped]
    exact List.mem_append_right _ mem
  have same : q.respelled.parts = rest := by rw [respelled_of_plain plain_back, follows]
  exact ⟨_, by rw [relative, stripped, Option.map_some], same⟩

theorem relative_of_not_prefix {root p : Path} (outside : ¬root.parts <+: p.parts) :
    relative root p = none := by
  cases found : relative root p with
  | none => rfl
  | some rel =>
    obtain ⟨rest, whole, -⟩ := parts_of_relative found
    exact absurd ⟨rest, whole.symm⟩ outside

/-- The output of a relative path is that path below the destination, and seen from the destination
it is that path. -/
def Inverts (destination : Path) (rel : String) : Prop :=
  (⟨outputPath destination rel⟩ : Path).parts = (destination.join rel).parts ∧
    ∃ back, relative destination ⟨outputPath destination rel⟩ = some back ∧
      (⟨back⟩ : Path).parts = (⟨rel⟩ : Path).parts

/-- For a destination that is text and not empty, outputs and relative paths undo each other. For the
empty destination, either has the root in front; and a destination that is no text has no outputs
below it. -/
theorem outputPath_inverts (plain : backslash ∉ destination.bytes) (plain_rel : '\\' ∉ rel.toList)
    (below : Path.isAbsolute ⟨rel⟩ = false) (first : (⟨rel⟩ : Path).parts.head? ≠ some .here) :
    (destination.spelling.isText = true → destination.bytes ≠ [] → Inverts destination rel) ∧
    (destination.bytes = [] →
      (⟨outputPath destination rel⟩ : Path).parts = .root :: (destination.join rel).parts ∧
      ∃ back, relative destination ⟨outputPath destination rel⟩ = some back ∧
        (⟨back⟩ : Path).parts = .root :: (⟨rel⟩ : Path).parts) ∧
    (destination.spelling.isText = false →
      (⟨outputPath destination rel⟩ : Path).startsWith destination = false ∧
      (destination.join rel).startsWith destination = true ∧
      relative destination ⟨outputPath destination rel⟩ = none) := by
  have named := parts_of_floating below first
  have output := parts_outputPath destination rel
  have plain_output := plain_outputPath plain_rel destination
  refine ⟨fun text some => ?_, fun empty => ?_, fun lossy => ?_⟩
  · rw [base_of_plain ⟨text, plain⟩ some] at output
    refine ⟨?_, ?_⟩
    · rw [output, parts_join_relative some below]
      rfl
    · rw [named]
      exact exists_relative_of_prefix output plain_output
  · rw [base_of_empty empty, ← named] at output
    constructor
    · rw [output, join_of_empty empty, List.singleton_append]
    · have whole : (⟨outputPath destination rel⟩ : Path).parts =
          destination.parts ++ .root :: (⟨rel⟩ : Path).parts := by
        rw [output, parts_of_empty empty, List.nil_append, List.singleton_append]
      exact exists_relative_of_prefix whole plain_output
  · have outside : ¬destination.parts <+: (⟨outputPath destination rel⟩ : Path).parts := by
      intro above
      rw [isText_of_above above (Spelling.isText_ofString _)] at lossy
      cases lossy
    have some : destination.bytes ≠ [] := by
      intro empty
      have nothing : destination = ⟨⟨[]⟩⟩ := eq_of_bytes empty
      rw [nothing] at lossy
      revert lossy
      decide +kernel
    refine ⟨?_, ?_, relative_of_not_prefix outside⟩
    · rwa [← Bool.not_eq_true, startsWith_iff]
    · rw [startsWith_iff, parts_join_relative some below]
      exact List.prefix_append _ _

theorem outputPath_inverts_slashes : Inverts ⟨"/out//"⟩ "a//b.txt" :=
  (outputPath_inverts (by decide +kernel) (by decide +kernel) (by decide +kernel)
    (by decide +kernel)).1 (by decide +kernel) (by decide +kernel)

/-- With the empty destination, or with one that is no text, outputs and relative paths need not undo
each other. -/
theorem outputPath_of_nothing :
    (¬∀ (destination : Path) (rel : String), destination.spelling.isText = true → rel ≠ "" →
      backslash ∉ destination.bytes → '\\' ∉ rel.toList → Path.isAbsolute ⟨rel⟩ = false →
      .up ∉ (⟨rel⟩ : Path).parts → (⟨rel⟩ : Path).parts.head? ≠ some .here →
      Inverts destination rel) ∧
    ¬∀ (destination : Path) (rel : String), destination.bytes ≠ [] → rel ≠ "" →
      backslash ∉ destination.bytes → '\\' ∉ rel.toList → Path.isAbsolute ⟨rel⟩ = false →
      .up ∉ (⟨rel⟩ : Path).parts → (⟨rel⟩ : Path).parts.head? ≠ some .here →
      Inverts destination rel := by
  refine ⟨fun inverse => ?_, fun inverse => ?_⟩
  · have below := (inverse ⟨""⟩ "a" (by decide +kernel) (by decide) (by decide) (by decide)
      (by decide) (by decide) (by decide)).1
    have apart : (⟨outputPath ⟨""⟩ "a"⟩ : Path).parts ≠ (Path.join ⟨""⟩ "a").parts := by
      decide +kernel
    exact apart below
  · have below := (inverse ⟨⟨[0xff]⟩⟩ "a" (by decide) (by decide) (by decide) (by decide)
      (by decide) (by decide) (by decide)).1
    have apart : (⟨outputPath ⟨⟨[0xff]⟩⟩ "a"⟩ : Path).parts ≠ (Path.join ⟨⟨[0xff]⟩⟩ "a").parts := by
      decide +kernel
    exact apart below

end Path
end Staging
