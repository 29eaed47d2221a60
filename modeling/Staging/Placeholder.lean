import Staging.PropertySet
import Staging.Text.Blank

/-!
Placeholder substitution. A reference is `${key}` or `@key@`; a reference to a known key is
replaced by its value, and everything else is copied. One pass from the left, and a value is never
looked at again.
-/
namespace Staging.Placeholder

/-- What may stand in a key in braces. -/
def isBraceKeyChar (c : Char) : Bool := c != '}' && !Text.isBlank c

/-- What may stand in a key between at signs. -/
def isAtKeyChar (c : Char) : Bool := c.isAlphanum || c == '_' || c == '.' || c == '-'

/-- A key of one or more `ok` characters that is closed by `close`: the key and the text after it. -/
def delimited (ok : Char → Bool) (close : Char) (cs : List Char) :
    Option (List Char × List Char) :=
  match cs.dropWhile ok with
  | [] => none
  | c :: rest =>
    if c = close ∧ cs.takeWhile ok ≠ [] then some (cs.takeWhile ok, rest) else none

/-- A reference to a key. -/
structure Reference where
  key : List Char
  /-- The reference as it is written. -/
  spelling : List Char
  deriving DecidableEq, Repr

/-- The reference a text starts with, and the text after it. -/
def reference : List Char → Option (Reference × List Char)
  | '$' :: '{' :: cs =>
    (delimited isBraceKeyChar '}' cs).map fun (key, rest) =>
      (⟨key, '$' :: '{' :: (key ++ ['}'])⟩, rest)
  | '@' :: cs =>
    (delimited isAtKeyChar '@' cs).map fun (key, rest) => (⟨key, '@' :: (key ++ ['@'])⟩, rest)
  | _ => none

theorem delimited_append {ok : Char → Bool} {close : Char} {cs key rest : List Char}
    (h : delimited ok close cs = some (key, rest)) : key ++ close :: rest = cs := by
  unfold delimited at h
  split at h
  · cases h
  · rename_i c more eq
    split at h
    · rename_i closed
      obtain ⟨rfl, rfl⟩ := Prod.mk.inj (Option.some.inj h)
      rw [← closed.1, ← eq]
      exact List.takeWhile_append_dropWhile
    · cases h

theorem reference_append {cs rest : List Char} {r : Reference}
    (h : reference cs = some (r, rest)) : r.spelling ++ rest = cs := by
  unfold reference at h
  split at h
  · obtain ⟨⟨key, after⟩, found, eq⟩ := Option.map_eq_some_iff.mp h
    obtain ⟨rfl, rfl⟩ := Prod.mk.inj eq
    simp [← delimited_append found]
  · obtain ⟨⟨key, after⟩, found, eq⟩ := Option.map_eq_some_iff.mp h
    obtain ⟨rfl, rfl⟩ := Prod.mk.inj eq
    simp [← delimited_append found]
  · cases h

theorem reference_length {cs rest : List Char} {r : Reference}
    (h : reference cs = some (r, rest)) : rest.length < cs.length := by
  have whole := reference_append h
  unfold reference at h
  split at h
  · obtain ⟨⟨key, after⟩, _, eq⟩ := Option.map_eq_some_iff.mp h
    obtain ⟨rfl, rfl⟩ := Prod.mk.inj eq
    rw [← whole]
    simp only [List.length_append, List.length_cons]
    omega
  · obtain ⟨⟨key, after⟩, _, eq⟩ := Option.map_eq_some_iff.mp h
    obtain ⟨rfl, rfl⟩ := Prod.mk.inj eq
    rw [← whole]
    simp only [List.length_append, List.length_cons]
    omega
  · cases h

/-- The text a reference stands for: the value of its key, or its own spelling. -/
def Reference.resolve (r : Reference) (props : PropertySet) : List Char :=
  match props.get? (String.ofList r.key) with
  | some value => value.toList
  | none => r.spelling

def substituteChars (props : PropertySet) : List Char → List Char
  | [] => []
  | c :: cs =>
    match h : reference (c :: cs) with
    | some (r, rest) =>
      have := reference_length h
      r.resolve props ++ substituteChars props rest
    | none => c :: substituteChars props cs
termination_by cs => cs.length
decreasing_by all_goals simp_all

def substitute (props : PropertySet) (text : String) : String :=
  String.ofList (substituteChars props text.toList)

end Staging.Placeholder
