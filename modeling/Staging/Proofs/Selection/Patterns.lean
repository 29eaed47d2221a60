import Staging.Proofs.Glob
import Staging.Proofs.Selection

/-!
Selections by their patterns. Which paths are taken depends on the patterns only as two sets, for any
library in which a set of globs matches what one of them does. Which error bad lists give depends on
their order: if some pattern of a list is no glob, the first such pattern is named; if the library
does not take the globs together, no pattern is.
-/
namespace Staging

namespace GlobLibrary

/-- What is relied on in a library, where `hits` is what one glob matches. -/
structure Lawful (L : GlobLibrary) (hits : L.Glob → Bytes → Prop) : Prop where
  /-- A set matches what one of its globs does. -/
  union {globs : List L.Glob} {set : L.GlobSet} : L.gather globs = .ok set →
    ∀ text, L.isMatch set text = true ↔ ∃ g ∈ globs, hits g text
  /-- `*` is any name, and `**/` any directory or none. -/
  spans {g : L.Glob} : L.build ['*', '*', '/', '*'] = .ok g → ∀ name, Glob.slash ∉ name →
    hits g name ∧ ∀ dir, hits g (dir ++ Glob.slash :: name)

/-- The pattern is a glob that matches the path. -/
def Matches (L : GlobLibrary) (hits : L.Glob → Bytes → Prop) (pattern path : String) : Prop :=
  ∃ g, L.Reads pattern g ∧ hits g (Utf8.encode path)

variable {L : GlobLibrary} {hits : L.Glob → Bytes → Prop} {patterns includes excludes : List String}
  {pattern path : String} {set : L.GlobSet} {e : BadPatterns L.Fault} {s : PatternMatcher L}

theorem Reads.unique {g g' : L.Glob} (h : L.Reads pattern g) (h' : L.Reads pattern g') : g = g' :=
  Except.ok.inj (h.symm.trans h')

/-- What `**/*` is read as matches every text, whose last separator ends the directory. -/
theorem Lawful.matches_default (lawful : L.Lawful hits) {g : L.Glob}
    (read : L.Reads Selection.defaultInclude g) (text : Bytes) : hits g text := by
  have normal : Selection.normalize Selection.defaultInclude = ['*', '*', '/', '*'] := by decide
  rw [Reads, normal] at read
  by_cases separated : Glob.slash ∈ text
  · obtain ⟨name, dir, whole, last⟩ :=
      List.eq_append_cons_of_mem (List.mem_reverse.mpr separated)
    have halves : text = dir.reverse ++ Glob.slash :: name.reverse := by
      rw [← List.reverse_reverse text, whole]
      simp
    rw [halves]
    exact (lawful.spans read _ (mt List.mem_reverse.mp last)).2 _
  · exact (lawful.spans read text separated).1

theorem Lawful.isMatch_iff (lawful : L.Lawful hits) (read : L.readList patterns = .ok set)
    (path : String) :
    L.isMatch set (Utf8.encode path) = true ↔ ∃ p ∈ patterns, L.Matches hits p path := by
  obtain ⟨globs, reads, together⟩ := readList_eq_ok_iff.mp read
  rw [lawful.union together]
  constructor
  · rintro ⟨g, mem, hit⟩
    obtain ⟨p, known, own⟩ := mem_of_forall₂ reads mem
    exact ⟨p, known, g, own, hit⟩
  · rintro ⟨p, known, g, own, hit⟩
    obtain ⟨g', mem, read⟩ := mem_of_forall₂ reads.flip known
    have read : L.Reads p g' := read
    rw [← own.unique read] at mem
    exact ⟨g, mem, hit⟩

theorem Lawful.selects_iff (lawful : L.Lawful hits) (compiled : L.compile includes excludes = .ok s)
    (path : String) :
    s.selects path = true ↔ (includes = [] ∨ ∃ p ∈ includes, L.Matches hits p path) ∧
      ¬∃ p ∈ excludes, L.Matches hits p path := by
  obtain ⟨ins, outs⟩ := compile_eq_ok_iff.mp compiled
  have included : L.isMatch s.includes (Utf8.encode path) = true ↔
      includes = [] ∨ ∃ p ∈ includes, L.Matches hits p path := by
    rw [lawful.isMatch_iff ins]
    cases includes with
    | nil =>
      obtain ⟨globs, reads, -⟩ := readList_eq_ok_iff.mp ins
      obtain ⟨g, -, read⟩ := mem_of_forall₂ reads.flip (List.mem_singleton_self _)
      refine iff_of_true ⟨_, List.mem_singleton_self _, g, read, ?_⟩ (.inl rfl)
      exact lawful.matches_default read _
    | cons p rest => simp [Selection.orDefault]
  have excluded : (s.excludes.any fun set => L.isMatch set (Utf8.encode path)) = true ↔
      ∃ p ∈ excludes, L.Matches hits p path := by
    rcases outs with ⟨rfl, none⟩ | ⟨-, set, outs, some⟩
    · simp [none]
    · rw [some, Option.any_some, lawful.isMatch_iff outs]
  rw [PatternMatcher.selects, Bool.and_eq_true, Bool.not_eq_true', ← Bool.not_eq_true, included,
    excluded]

/-- Patterns count as two sets: no order and no repetition matters. -/
theorem Lawful.selects_congr (lawful : L.Lawful hits) {includes' excludes' : List String}
    (sameIncludes : ∀ p, p ∈ includes ↔ p ∈ includes')
    (sameExcludes : ∀ p, p ∈ excludes ↔ p ∈ excludes') {s' : PatternMatcher L}
    (compiled : L.compile includes excludes = .ok s)
    (compiled' : L.compile includes' excludes' = .ok s') (path : String) :
    s'.selects path = s.selects path := by
  have none : includes' = [] ↔ includes = [] := by
    simp only [List.eq_nil_iff_forall_not_mem, sameIncludes]
  rw [Bool.eq_iff_iff, lawful.selects_iff compiled', lawful.selects_iff compiled, none]
  simp only [sameIncludes, sameExcludes]

theorem readList_fails_iff :
    (∃ e, L.readList patterns = .error e) ↔ (∃ p ∈ patterns, ¬∃ g, L.Reads p g) ∨
      ∃ globs fault, List.Forall₂ L.Reads patterns globs ∧ L.gather globs = .error fault := by
  constructor
  · rintro ⟨e, failed⟩
    cases readList_eq_error_iff.mp failed with
    | @malformed _ _ p _ place _ bad =>
      refine .inl ⟨p, place ▸ List.mem_append_cons_self, ?_⟩
      rintro ⟨g, read⟩
      cases bad.symm.trans read
    | ungathered reads refused => exact .inr ⟨_, _, reads, refused⟩
  · rintro (⟨p, mem, unread⟩ | ⟨globs, fault, reads, refused⟩)
    · cases whole : L.readList patterns with
      | error e => exact ⟨e, rfl⟩
      | ok set =>
        obtain ⟨globs, reads, -⟩ := readList_eq_ok_iff.mp whole
        obtain ⟨g, -, read⟩ := mem_of_forall₂ reads.flip mem
        exact absurd ⟨g, read⟩ unread
    · exact ⟨_, readList_eq_error_iff.mpr (.ungathered reads refused)⟩

theorem compile_fails_iff :
    (∃ e, L.compile includes excludes = .error e) ↔
      (∃ e, L.readList (Selection.orDefault includes) = .error e) ∨
        excludes ≠ [] ∧ ∃ e, L.readList excludes = .error e := by
  simp only [compile_eq_error_iff, exists_or]
  cases L.readList (Selection.orDefault includes) <;> simp

theorem compile_eq_error_iff_blames :
    L.compile includes excludes = .error e ↔ L.Blames (Selection.orDefault includes) e ∨
      (¬∃ e', L.Blames (Selection.orDefault includes) e') ∧ excludes ≠ [] ∧
        L.Blames excludes e := by
  simp only [← readList_eq_error_iff, compile_eq_error_iff]
  cases L.readList (Selection.orDefault includes) <;> simp

end GlobLibrary

namespace Selection

theorem parse_default : Glob.parse ['*', '*', '/', '*'] = .ok Glob.everything := by
  simp [Glob.parse, Glob.readTokens, Glob.Progress.doubleStar, Glob.Progress.push, Glob.everything]

theorem reads_letter : Glob.library.Reads "a" ⟨[.literal 'a']⟩ := by
  have normal : normalize "a" = ['a'] := by decide
  rw [GlobLibrary.Reads, normal]
  simp [Glob.parse, Glob.readTokens, Glob.Progress.push, Except.mapError]

theorem lawful_library : Glob.library.Lawful fun g text => g.isMatch text = true where
  union together text := by
    obtain ⟨-, rfl⟩ := gather_eq_ok_iff.mp together
    exact List.any_eq_true
  spans read name _ := by
    rw [mapError_eq_ok, parse_default, Except.ok.injEq] at read
    rw [← read]
    exact ⟨Glob.isMatch_everything _, fun dir => Glob.isMatch_everything _⟩

theorem plain_braced (n : Nat) : '\\' ∉ Glob.bracedText n := by
  induction n with
  | zero => decide
  | succ n ih => simp [Glob.bracedText, ih]

/-- Braces are in glob syntax as they stand. -/
theorem normalize_braced (n : Nat) :
    normalize (String.ofList (Glob.bracedText (n + 1))) = Glob.bracedText (n + 1) := by
  have trimmed : Text.trim (Glob.bracedText (n + 1)) = Glob.bracedText (n + 1) := by
    have opening : Text.isBlank '{' = false := by decide
    have closing : Text.isBlank '}' = false := by decide
    rw [Glob.bracedText, Text.trim, Text.trimStart_cons_of_not_blank opening, Text.trimEnd]
    simp [closing]
  have forward : ((Glob.bracedText (n + 1)).map fun c => if c = '\\' then '/' else c) =
      Glob.bracedText (n + 1) := by
    refine (List.map_congr_left fun c mem => ?_).trans (List.map_id _)
    exact if_neg (ne_of_mem_of_not_mem mem (plain_braced (n + 1)))
  have closed : (Glob.bracedText (n + 1)).getLast? = some '}' := by
    rw [Glob.bracedText, ← List.cons_append, List.getLast?_concat]
  have kept : dropHere (Glob.bracedText (n + 1)) = Glob.bracedText (n + 1) := by
    simp [Glob.bracedText, dropHere]
  rw [normalize, String.toList_ofList, trimmed, forward, kept]
  rw [Glob.bracedText] at closed ⊢
  simp [closed]

theorem reads_braced (n : Nat) :
    Glob.library.Reads (String.ofList (Glob.bracedText (n + 1))) ⟨[Glob.braced (n + 1)]⟩ := by
  rw [GlobLibrary.Reads, normalize_braced]
  exact mapError_eq_ok.mpr (Glob.parse_braced (n + 1))

/-- Too many braces are refused, and the pattern is not named. -/
theorem readList_braced {n : Nat} (deep : Glob.maxDepth ≤ n + 1) :
    readList [String.ofList (Glob.bracedText (n + 1))] = .error (.ungathered (.deepPattern 0)) := by
  have deepest : Glob.isTooDeep ⟨[Glob.braced (n + 1)]⟩ = true := by
    rw [Glob.isTooDeep, Glob.depth_braced]
    exact decide_eq_true (Nat.lt_succ_of_le deep)
  refine GlobLibrary.readList_eq_error_iff.mpr (.ungathered (.cons (reads_braced n) .nil) ?_)
  simp [Glob.gather, Glob.deepest?, Glob.shape_braced, deepest]

/-- In any lawful library, a path is taken if some include pattern matches it, or none is declared,
and no exclude pattern does; so only the sets of patterns matter. Lists are refused if and only if
some pattern is no glob or the library does not take the globs of a list together. Then the error is
that of the include list if it is refused, and else that of the exclude list. -/
theorem selected_by_patterns {L : GlobLibrary} {hits : L.Glob → Bytes → Prop}
    (lawful : L.Lawful hits) (includes excludes : List String) :
    (∀ s, L.compile includes excludes = .ok s → ∀ path, s.selects path = true ↔
      (includes = [] ∨ ∃ p ∈ includes, L.Matches hits p path) ∧
        ¬∃ p ∈ excludes, L.Matches hits p path) ∧
    (∀ includes' excludes', (∀ p, p ∈ includes ↔ p ∈ includes') →
      (∀ p, p ∈ excludes ↔ p ∈ excludes') → ∀ s s', L.compile includes excludes = .ok s →
        L.compile includes' excludes' = .ok s' → ∀ path, s'.selects path = s.selects path) ∧
    ((∃ e, L.compile includes excludes = .error e) ↔
      (∃ p ∈ orDefault includes ++ excludes, ¬∃ g, L.Reads p g) ∨
        ∃ patterns ∈ [orDefault includes, excludes], patterns ≠ [] ∧
          ∃ globs fault, List.Forall₂ L.Reads patterns globs ∧ L.gather globs = .error fault) ∧
    ∀ e, L.compile includes excludes = .error e ↔ L.Blames (orDefault includes) e ∨
      (¬∃ e', L.Blames (orDefault includes) e') ∧ excludes ≠ [] ∧ L.Blames excludes e := by
  have some : orDefault includes ≠ [] := by
    cases includes <;> simp [orDefault]
  refine ⟨fun s compiled path => lawful.selects_iff compiled path, ?_, ?_,
    fun e => GlobLibrary.compile_eq_error_iff_blames⟩
  · intro includes' excludes' sameIncludes sameExcludes s s' compiled compiled' path
    exact lawful.selects_congr sameIncludes sameExcludes compiled compiled' path
  · rw [GlobLibrary.compile_fails_iff, GlobLibrary.readList_fails_iff,
      GlobLibrary.readList_fails_iff]
    simp only [List.mem_append, or_and_right, exists_or, List.mem_cons, List.not_mem_nil, or_false,
      exists_eq_left, some, ne_eq, not_false_eq_true, true_and]
    grind

theorem selected_by_patterns_sample :
    Glob.library.Lawful (fun g text => g.isMatch text = true) ∧
    (∃ s s', compile ["a"] [] = .ok s ∧ s.selects "a" = true ∧
      compile ["a", "a"] [] = .ok s' ∧ ∀ path, s'.selects path = s.selects path) ∧
    ∃ e, compile ["a"] ["\x7b"] = .error e ∧ Glob.library.Blames ["\x7b"] e := by
  let letter : Glob := ⟨[.literal 'a']⟩
  have once : readList ["a"] = .ok [letter] :=
    GlobLibrary.readList_eq_ok_iff.mpr ⟨[letter], .cons reads_letter .nil, rfl⟩
  have twice : readList ["a", "a"] = .ok [letter, letter] :=
    GlobLibrary.readList_eq_ok_iff.mpr
      ⟨[letter, letter], .cons reads_letter (.cons reads_letter .nil), rfl⟩
  have compiled : compile ["a"] [] = .ok ⟨[letter], none⟩ :=
    GlobLibrary.compile_eq_ok_iff.mpr ⟨once, .inl ⟨rfl, rfl⟩⟩
  have compiled' : compile ["a", "a"] [] = .ok ⟨[letter, letter], none⟩ :=
    GlobLibrary.compile_eq_ok_iff.mpr ⟨twice, .inl ⟨rfl, rfl⟩⟩
  have opened : ¬∃ g, Glob.library.Reads "\x7b" g := by
    rintro ⟨g, read⟩
    have normal : normalize "\x7b" = ['{'] := by decide
    rw [GlobLibrary.Reads, normal] at read
    simp [Glob.parse, Glob.readTokens, Glob.Progress.openGroup, Except.mapError] at read
  obtain ⟨selects, congr, -, -⟩ := selected_by_patterns lawful_library ["a"] []
  obtain ⟨-, -, fails, blames⟩ := selected_by_patterns lawful_library ["a"] ["\x7b"]
  refine ⟨lawful_library, ⟨_, _, compiled, (selects _ compiled "a").mpr ⟨.inr ?_, by simp⟩, compiled',
    congr _ _ (by simp) (by simp) _ _ compiled compiled'⟩, ?_⟩
  · exact ⟨"a", List.mem_singleton_self _, letter, reads_letter, by decide⟩
  · obtain ⟨e, failed⟩ := fails.mpr (.inl ⟨"\x7b", by simp, opened⟩)
    refine ⟨e, failed, ?_⟩
    rcases (blames e).mp failed with own | ⟨-, -, later⟩
    · cases (GlobLibrary.readList_eq_error_iff.mpr own).symm.trans once
    · exact later

/-- An error need not name a pattern: braces may nest so deeply that a list is refused as a whole. -/
theorem unnamed_of_nested : ¬∀ includes excludes e, compile includes excludes = .error e →
    ∃ front p back fault, includes ++ excludes = front ++ p :: back ∧
      (∀ q ∈ front, ¬Refused q) ∧ Refused p ∧ e = .malformed p fault := by
  intro named
  have failed : compile [String.ofList (Glob.bracedText 250)] [] =
      .error (.ungathered (.deepPattern 0)) :=
    GlobLibrary.compile_eq_error_iff.mpr (.inl (readList_braced (Nat.le_refl 250)))
  obtain ⟨_, _, _, _, -, -, -, same⟩ := named _ _ _ failed
  cases same

end Selection
end Staging
