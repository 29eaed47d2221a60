import Staging.Pass

/-!
Placeholder substitution and the references of a text. A reference is told by how it is written.
Those that count come one after the other: each is the first one behind the one before it. The text
has one such list of occurrences, and substitution puts the known values in their places and copies
the rest.
-/
namespace Staging.Placeholder
open Text

/-- The ways to write a reference. -/
inductive IsReference : Reference → Prop
  | braces {key : List Char} (filled : key ≠ []) (plain : ∀ c ∈ key, c ≠ '}' ∧ isBlank c = false) :
      IsReference ⟨key, '$' :: '{' :: (key ++ ['}'])⟩
  | ats {key : List Char} (filled : key ≠ [])
      (plain : ∀ c ∈ key, c.isAlphanum = true ∨ c = '_' ∨ c = '.' ∨ c = '-') :
      IsReference ⟨key, '@' :: (key ++ ['@'])⟩

/-- A reference at a place in a text. -/
structure Occurrence where
  start : Nat
  reference : Reference

namespace Occurrence

/-- The place behind the reference. -/
def stop (o : Occurrence) : Nat := o.start + o.reference.spelling.length

/-- The text reads as the reference there. -/
def In (o : Occurrence) (text : List Char) : Prop :=
  IsReference o.reference ∧ o.reference.spelling <+: text.drop o.start

end Occurrence

/-- The occurrences that count from a place on: the first one that starts there or later, and those
that count from its end on. -/
inductive Leftmost (text : List Char) : Nat → List Occurrence → Prop
  | nil {place : Nat} (free : ∀ o : Occurrence, o.In text → o.start < place) :
      Leftmost text place []
  | cons {place : Nat} {o : Occurrence} {rest : List Occurrence} (found : o.In text)
      (after : place ≤ o.start)
      (first : ∀ other : Occurrence, other.In text → place ≤ other.start → o.start ≤ other.start)
      (next : Leftmost text o.stop rest) : Leftmost text place (o :: rest)

/-- The text from a place on, with the value for every occurrence of a known key. -/
def splice (properties : PropertySet) (text : List Char) : Nat → List Occurrence → List Char
  | place, [] => text.drop place
  | place, o :: rest =>
    match properties.get? (String.ofList o.reference.key) with
    | some value =>
      text.extract place o.start ++ value.toList ++ splice properties text o.stop rest
    | none => splice properties text place rest

/-! Recognizing a reference -/

theorem delimited_eq_some_iff {ok : Char → Bool} {close : Char} (closes : ok close = false)
    {cs key rest : List Char} :
    delimited ok close cs = some (key, rest) ↔
      key ≠ [] ∧ (∀ c ∈ key, ok c = true) ∧ key ++ close :: rest = cs := by
  constructor
  · intro found
    have whole := delimited_append found
    unfold delimited at found
    split at found
    · cases found
    · split at found
      · rename_i closed
        obtain ⟨rfl, rfl⟩ := Prod.mk.inj (Option.some.inj found)
        exact ⟨closed.2, List.all_eq_true.mp List.all_takeWhile, whole⟩
      · cases found
  · rintro ⟨filled, plain, rfl⟩
    have taken : (key ++ close :: rest).takeWhile ok = key := by
      rw [List.takeWhile_append_of_pos plain]
      simp [closes]
    have dropped : (key ++ close :: rest).dropWhile ok = close :: rest := by
      rw [List.dropWhile_append_of_pos plain]
      simp [closes]
    simp [delimited, taken, dropped, filled]

theorem isAtKeyChar_iff (c : Char) :
    isAtKeyChar c = true ↔ c.isAlphanum = true ∨ c = '_' ∨ c = '.' ∨ c = '-' := by
  simp [isAtKeyChar, or_assoc]

theorem isBraceKeyChar_iff (c : Char) : isBraceKeyChar c = true ↔ c ≠ '}' ∧ isBlank c = false := by
  simp [isBraceKeyChar]

/-- A text starts with a reference exactly if it reads as one, and then goes on behind it. -/
theorem reference_eq_some_iff {cs rest : List Char} {r : Reference} :
    reference cs = some (r, rest) ↔ IsReference r ∧ r.spelling ++ rest = cs := by
  constructor
  · intro found
    refine ⟨?_, reference_append found⟩
    unfold reference at found
    split at found
    · obtain ⟨⟨key, after⟩, delimited, eq⟩ := Option.map_eq_some_iff.mp found
      obtain ⟨rfl, rfl⟩ := Prod.mk.inj eq
      obtain ⟨filled, plain, -⟩ := (delimited_eq_some_iff (by decide)).mp delimited
      exact .braces filled fun c mem => (isBraceKeyChar_iff c).mp (plain c mem)
    · obtain ⟨⟨key, after⟩, delimited, eq⟩ := Option.map_eq_some_iff.mp found
      obtain ⟨rfl, rfl⟩ := Prod.mk.inj eq
      obtain ⟨filled, plain, -⟩ := (delimited_eq_some_iff (by decide)).mp delimited
      exact .ats filled fun c mem => (isAtKeyChar_iff c).mp (plain c mem)
    · cases found
  · rintro ⟨written, rfl⟩
    cases written with
    | @braces key filled plain =>
      have found : delimited isBraceKeyChar '}' (key ++ '}' :: rest) = some (key, rest) :=
        (delimited_eq_some_iff (by decide)).mpr
          ⟨filled, fun c mem => (isBraceKeyChar_iff c).mpr (plain c mem), rfl⟩
      simp [reference, found]
    | @ats key filled plain =>
      have found : delimited isAtKeyChar '@' (key ++ '@' :: rest) = some (key, rest) :=
        (delimited_eq_some_iff (by decide)).mpr
          ⟨filled, fun c mem => (isAtKeyChar_iff c).mpr (plain c mem), rfl⟩
      simp [reference, found]

/-- An occurrence is what is recognized at its place. -/
theorem occurs_iff {text : List Char} {o : Occurrence} :
    o.In text ↔ reference (text.drop o.start) = some (o.reference, text.drop o.stop) := by
  rw [reference_eq_some_iff, Occurrence.In, Occurrence.stop, ← List.drop_drop]
  refine and_congr_right fun _ => ?_
  constructor
  · rintro ⟨rest, whole⟩
    rw [← whole, List.drop_left]
  · intro whole
    exact ⟨_, whole⟩

theorem reference_eq_none {text : List Char} {place : Nat}
    (free : ∀ o : Occurrence, o.In text → o.start ≠ place) :
    reference (text.drop place) = none := by
  refine Option.eq_none_iff_forall_ne_some.mpr ?_
  rintro ⟨r, rest⟩ found
  obtain ⟨written, whole⟩ := reference_eq_some_iff.mp found
  exact free ⟨place, r⟩ ⟨written, rest, whole⟩ rfl

/-- At most one reference is written at a place. -/
theorem occurrence_unique {text : List Char} {o other : Occurrence} (found : o.In text)
    (found' : other.In text) (same : o.start = other.start) : o = other := by
  have first := occurs_iff.mp found
  have second := occurs_iff.mp found'
  rw [same, second, Option.some.injEq, Prod.mk.injEq] at first
  cases o
  cases other
  simp_all

theorem start_lt_stop {text : List Char} {o : Occurrence} (found : o.In text) :
    o.start < o.stop ∧ o.start < text.length := by
  have shorter := reference_length (occurs_iff.mp found)
  simp only [List.length_drop, Occurrence.stop] at shorter ⊢
  omega

/-! The occurrences that count -/

theorem Leftmost.found {text : List Char} {place : Nat} {os : List Occurrence}
    (h : Leftmost text place os) : ∀ o ∈ os, o.In text := by
  induction h with
  | nil => simp
  | cons found _ _ _ ih => exact List.forall_mem_cons.mpr ⟨found, ih⟩

theorem Leftmost.place_le {text : List Char} {place : Nat} {os : List Occurrence}
    (h : Leftmost text place os) : ∀ o ∈ os, place ≤ o.start := by
  induction h with
  | nil => simp
  | cons found after _ _ ih =>
    intro o mem
    rcases List.mem_cons.mp mem with rfl | later
    · exact after
    · have behind := ih o later
      have := start_lt_stop found
      omega

/-- Where no reference starts, one may as well begin to look one place later. -/
theorem Leftmost.back {text : List Char} {place : Nat} {os : List Occurrence}
    (free : ∀ o : Occurrence, o.In text → o.start ≠ place) (h : Leftmost text (place + 1) os) :
    Leftmost text place os := by
  cases h with
  | nil none =>
    refine .nil fun o found => ?_
    have before := none o found
    have other := free o found
    omega
  | cons found after first next =>
    refine .cons found (by omega) (fun o mem le => first o mem ?_) next
    have other := free o mem
    omega

theorem exists_leftmost (text : List Char) (place : Nat) : ∃ os, Leftmost text place os := by
  -- from behind a reference that starts here, or else from the next place
  induction room : text.length - place using Nat.strongRecOn generalizing place with
  | ind n ih =>
    subst room
    by_cases inside : place < text.length
    · by_cases here : ∃ o : Occurrence, o.In text ∧ o.start = place
      · obtain ⟨o, found, rfl⟩ := here
        have forward := start_lt_stop found
        obtain ⟨rest, next⟩ := ih _ (by omega) o.stop rfl
        exact ⟨o :: rest, .cons found (Nat.le_refl _) (fun _ _ le => le) next⟩
      · obtain ⟨os, later⟩ := ih _ (by omega) (place + 1) rfl
        exact ⟨os, later.back fun o found same => here ⟨o, found, same⟩⟩
    · refine ⟨[], .nil fun o found => ?_⟩
      have := start_lt_stop found
      omega

theorem Leftmost.unique {text : List Char} {place : Nat} {os os' : List Occurrence}
    (h : Leftmost text place os) (h' : Leftmost text place os') : os = os' := by
  induction h generalizing os' with
  | nil free =>
    cases h' with
    | nil => rfl
    | cons found after => exact absurd (free _ found) (Nat.not_lt.mpr after)
  | cons found after first _ ih =>
    cases h' with
    | nil free => exact absurd (free _ found) (Nat.not_lt.mpr after)
    | cons found' after' first' next' =>
      have same := Nat.le_antisymm (first _ found' after') (first' _ found after)
      obtain rfl := occurrence_unique found found' same
      rw [ih next']

/-! Parts of a text -/

theorem drop_of_le (text : List Char) {i j : Nat} (le : i ≤ j) :
    text.drop j = (text.drop i).drop (j - i) := by
  rw [List.drop_drop, Nat.add_sub_cancel' le]

theorem extract_append_drop (text : List Char) {i j : Nat} (le : i ≤ j) :
    text.extract i j ++ text.drop j = text.drop i := by
  rw [drop_of_le text le]
  exact List.take_append_drop _ _

theorem extract_append_extract (text : List Char) {i j k : Nat} (le : i ≤ j) (le' : j ≤ k) :
    text.extract i j ++ text.extract j k = text.extract i k := by
  have length : k - i = (j - i) + (k - j) := by omega
  simp only [List.extract_eq_take_drop, drop_of_le text le, length, List.take_add]

theorem extract_occurrence {text : List Char} {o : Occurrence} (found : o.In text) :
    text.extract o.start o.stop = o.reference.spelling := by
  obtain ⟨rest, whole⟩ := found.2
  simp [Occurrence.stop, ← whole]

/-! What substitution does to them -/

theorem substituteChars_of_none {properties : PropertySet} {c : Char} {cs : List Char}
    (h : reference (c :: cs) = none) :
    substituteChars properties (c :: cs) = c :: substituteChars properties cs := by
  rw [substituteChars]
  split
  · rename_i found
    rw [h] at found
    cases found
  · rfl

theorem substituteChars_of_some {properties : PropertySet} {cs rest : List Char} {r : Reference}
    (h : reference cs = some (r, rest)) :
    substituteChars properties cs = r.resolve properties ++ substituteChars properties rest := by
  cases cs with
  | nil => simp [reference] at h
  | cons c cs =>
    rw [substituteChars]
    split
    · rename_i found
      rw [h] at found
      cases found
      rfl
    · rename_i free
      rw [h] at free
      cases free

/-- A stretch of text where no reference starts is copied. -/
theorem substituteChars_stretch (properties : PropertySet) {text : List Char} {i j : Nat}
    (le : i ≤ j) (bound : j ≤ text.length)
    (free : ∀ o : Occurrence, o.In text → i ≤ o.start → j ≤ o.start) :
    substituteChars properties (text.drop i) =
      text.extract i j ++ substituteChars properties (text.drop j) := by
  induction left : j - i generalizing i with
  | zero =>
    obtain rfl : i = j := by omega
    simp
  | succ n ih =>
    have head : text.drop i = text[i] :: text.drop (i + 1) := List.drop_eq_getElem_cons (by omega)
    have none : reference (text.drop i) = none := by
      refine reference_eq_none fun o found same => ?_
      have := free o found (by omega)
      omega
    have rest : substituteChars properties (text.drop (i + 1)) =
        text.extract (i + 1) j ++ substituteChars properties (text.drop j) :=
      ih (by omega) (fun o found le => free o found (by omega)) (by omega)
    have first : text.extract i (i + 1) = [text[i]] := by
      simp only [List.extract_eq_take_drop, Nat.add_sub_cancel_left, head, List.take_succ_cons,
        List.take_zero]
    rw [← extract_append_extract text (Nat.le_add_right i 1) (by omega : i + 1 ≤ j), first,
      List.append_assoc, ← rest]
    rw [head] at none ⊢
    exact substituteChars_of_none none

/-- Where all occurrences lie behind a place, the text up to there is copied. -/
theorem splice_extract (properties : PropertySet) (text : List Char) {i j : Nat} (le : i ≤ j)
    {os : List Occurrence} (behind : ∀ o ∈ os, j ≤ o.start) :
    splice properties text i os = text.extract i j ++ splice properties text j os := by
  induction os with
  | nil => exact (extract_append_drop text le).symm
  | cons o os ih =>
    rw [List.forall_mem_cons] at behind
    simp only [splice]
    split
    · rw [← extract_append_extract text le behind.1]
      simp only [List.append_assoc]
    · exact ih behind.2

theorem substituteChars_leftmost (properties : PropertySet) {text : List Char} {place : Nat}
    {os : List Occurrence} (h : Leftmost text place os) :
    substituteChars properties (text.drop place) = splice properties text place os := by
  induction h with
  | @nil place free =>
    by_cases inside : place ≤ text.length
    · have copied := substituteChars_stretch properties inside (Nat.le_refl _)
        fun o found le => absurd (free o found) (Nat.not_lt.mpr le)
      have whole := extract_append_drop text inside
      rw [List.drop_length] at copied whole
      rw [copied, splice, ← whole, substituteChars]
    · simp [splice, substituteChars, List.drop_eq_nil_of_le (Nat.le_of_not_le inside)]
  | @cons place o rest found after first next ih =>
    have forward := start_lt_stop found
    have copied := substituteChars_stretch properties after (by omega) first
    rw [copied, substituteChars_of_some (occurs_iff.mp found), ih, splice, Reference.resolve]
    cases properties.get? (String.ofList o.reference.key) with
    | some value => simp
    | none =>
      -- splicing goes on from the same place, so the reference is copied with what is before it
      have behind : splice properties text place rest =
          text.extract place o.stop ++ splice properties text o.stop rest :=
        splice_extract properties text (by omega) next.place_le
      rw [behind, ← extract_append_extract text after (Nat.le_of_lt forward.1),
        extract_occurrence found]
      simp

/-- A text has one list of occurrences that count. Substitution gives the text with the value in
place of each of them whose key is known, and everything else copied. -/
theorem placeholders_eq_splice (unit : String) (text : List Char) (properties : PropertySet) :
    ∃ occurrences, (∀ os, Leftmost text 0 os ↔ os = occurrences) ∧
      TextFilter.placeholders unit text properties = splice properties text 0 occurrences := by
  obtain ⟨occurrences, counted⟩ := exists_leftmost text 0
  refine ⟨occurrences, fun os => ⟨fun h => h.unique counted, fun same => same ▸ counted⟩, ?_⟩
  have read := substituteChars_leftmost properties counted
  rwa [List.drop_zero] at read

/-- The end of an unknown reference does not begin another one, and a value is not looked at again. -/
example : TextFilter.placeholders "app" "@no@name@ @name@".toList
      (SortedMap.ofList [("name", "@no@")]) = "@no@name@ @no@".toList := by
  decide +kernel

end Staging.Placeholder
