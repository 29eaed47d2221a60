import Staging.Proofs.Placeholder

/-!
Placeholder substitution word by word. No reference holds white space, so none goes across it, and
whether one is recognized does not depend on what comes behind the next white space. The words of a
text, and so its lines, are substituted one by one.
-/
namespace Staging.Placeholder
open Text

theorem not_blank_of_alphanum {c : Char} (h : c.isAlphanum = true) : isBlank c = false := by
  have range : 48 ≤ c.toNat ∧ c.toNat ≤ 122 := by
    rcases Bool.or_eq_true_iff.mp h with letter | digit
    · rcases Bool.or_eq_true_iff.mp letter with upper | lower
      · obtain ⟨low, high⟩ := of_decide_eq_true upper
        exact ⟨Nat.le_trans (by decide) low, Nat.le_trans high (by decide)⟩
      · obtain ⟨low, high⟩ := Bool.and_eq_true_iff.mp lower
        exact ⟨Nat.le_trans (by decide) (of_decide_eq_true low), of_decide_eq_true high⟩
    · obtain ⟨low, high⟩ := Bool.and_eq_true_iff.mp digit
      exact ⟨of_decide_eq_true low, Nat.le_trans (of_decide_eq_true high) (by decide)⟩
  simp [isBlank]
  omega

theorem IsReference.no_blank {r : Reference} (h : IsReference r) :
    ∀ c ∈ r.spelling, isBlank c = false := by
  cases h with
  | braces _ plain =>
    intro c mem
    simp only [List.mem_cons, List.mem_append, List.not_mem_nil, or_false] at mem
    rcases mem with rfl | rfl | inside | rfl
    · decide
    · decide
    · exact (plain c inside).2
    · decide
  | ats _ plain =>
    intro c mem
    simp only [List.mem_cons, List.mem_append, List.not_mem_nil, or_false] at mem
    rcases mem with rfl | inside | rfl
    · decide
    · rcases plain c inside with letter | rfl | rfl | rfl
      · exact not_blank_of_alphanum letter
      all_goals decide
    · decide

/-- White space behind a text takes no part in the reference that the text starts with, and starts
none where the text does not. -/
theorem reference_append_blank {w : Char} (blank : isBlank w = true) (cs back : List Char) :
    reference (cs ++ w :: back) =
      (reference cs).map fun (r, rest) => (r, rest ++ w :: back) := by
  cases own : reference cs with
  | some found =>
    obtain ⟨r, rest⟩ := found
    obtain ⟨written, rfl⟩ := reference_eq_some_iff.mp own
    exact reference_eq_some_iff.mpr ⟨written, by simp⟩
  | none =>
    refine Option.eq_none_iff_forall_ne_some.mpr ?_
    rintro ⟨r, rest⟩ found
    obtain ⟨written, whole⟩ := reference_eq_some_iff.mp found
    have free : ∀ more, r.spelling ++ more ≠ cs := by
      intro more within
      have starts := reference_eq_some_iff.mpr ⟨written, within⟩
      rw [own] at starts
      cases starts
    -- the reference either ends inside the text or holds the white space behind it
    rcases List.append_eq_append_iff.mp whole with ⟨more, within, -⟩ | ⟨more, spelling, behind⟩
    · exact free more within.symm
    · cases more with
      | nil => exact free [] (by simp [spelling])
      | cons d more =>
        obtain ⟨rfl, -⟩ := List.cons.inj behind
        have plain := written.no_blank w (by simp [spelling])
        rw [blank] at plain
        cases plain

theorem substituteChars_append_blank (properties : PropertySet) {w : Char}
    (blank : isBlank w = true) (front back : List Char) :
    substituteChars properties (front ++ w :: back) =
      substituteChars properties front ++ w :: substituteChars properties back := by
  induction front using substituteChars.induct with
  | case1 =>
    have alone : reference (w :: back) = none := reference_append_blank blank [] back
    rw [List.nil_append, substituteChars_of_none alone, substituteChars, List.nil_append]
  | case2 c cs r rest found _ ih =>
    have whole : reference (c :: cs ++ w :: back) = some (r, rest ++ w :: back) := by
      rw [reference_append_blank blank, found, Option.map_some]
    rw [substituteChars_of_some whole, substituteChars_of_some found, ih, List.append_assoc]
  | case3 c cs free ih =>
    have whole : reference (c :: cs ++ w :: back) = none := by
      rw [reference_append_blank blank, free, Option.map_none]
    rw [List.cons_append] at whole ⊢
    rw [substituteChars_of_none whole, substituteChars_of_none free, ih, List.cons_append]

theorem substituteChars_intercalate (properties : PropertySet) {w : Char}
    (blank : isBlank w = true) (words : List (List Char)) :
    substituteChars properties ([w].intercalate words) =
      [w].intercalate (words.map (substituteChars properties)) := by
  induction words with
  | nil => simp [substituteChars]
  | cons first words ih =>
    cases words with
    | nil => simp
    | cons second words =>
      rw [List.map_cons] at ih
      simp only [List.map_cons, List.intercalate_cons_cons, List.append_assoc,
        List.singleton_append, substituteChars_append_blank properties blank, ih]

/-- What stands before white space and what stands behind it are substituted apart, so that a text
is substituted piece by piece between the white space of one kind: between line feeds, line by
line. -/
theorem placeholders_wordwise {w : Char} (blank : isBlank w = true) (unit : String)
    (properties : PropertySet) :
    (∀ front back, TextFilter.placeholders unit (front ++ w :: back) properties =
      TextFilter.placeholders unit front properties ++
        w :: TextFilter.placeholders unit back properties) ∧
    ∀ text, TextFilter.placeholders unit text properties =
      [w].intercalate ((text.splitOn w).map (TextFilter.placeholders unit · properties)) := by
  refine ⟨substituteChars_append_blank properties blank, fun text => ?_⟩
  have words := substituteChars_intercalate properties blank (text.splitOn w)
  rwa [List.intercalate_splitOn] at words

/-- A reference that a line feed cuts in two, and one whose value has a line feed. -/
theorem placeholders_wordwise_cut :
    let properties : PropertySet := SortedMap.ofList [("name", "x"), ("two", "a\n@name@")]
    let text := "@na\nme@ @name@\n@two@".toList
    isBlank '\n' = true ∧
    TextFilter.placeholders "app" text properties =
      ['\n'].intercalate ((text.splitOn '\n').map (TextFilter.placeholders "app" · properties)) ∧
    TextFilter.placeholders "app" text properties = "@na\nme@ x\na\n@name@".toList := by
  intro properties text
  have blank : isBlank '\n' = true := by decide
  exact ⟨blank, (placeholders_wordwise blank "app" properties).2 text, by decide +kernel⟩

end Staging.Placeholder
