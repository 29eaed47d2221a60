import Staging.Text.Quoted
import Staging.Text.Utf8

/-!
Spellings of file names and paths. A system takes any bytes for a name; most are text in UTF-8, and
a text stands for its own bytes. Other bytes can be read only with losses.
-/
namespace Staging

structure Spelling where
  bytes : Bytes
  deriving DecidableEq, Repr

namespace Spelling

def ofString (s : String) : Spelling := ⟨Utf8.encode s⟩

instance : Coe String Spelling := ⟨ofString⟩

instance : Inhabited Spelling := ⟨""⟩

/-- Spellings are in the order of their bytes. -/
instance : Ord Spelling := ⟨compareOn bytes⟩

instance : Std.TransOrd Spelling := inferInstanceAs (Std.TransCmp (compareOn bytes))

instance : Std.LawfulEqOrd Spelling where
  eq_of_compare {a b} h := by
    have same : compareOn bytes a b = .eq := h
    rw [compareOn, Std.LawfulEqOrd.compare_eq_iff_eq] at same
    cases a
    cases b
    exact congrArg mk same

/-- The text that the bytes are, if they are one. -/
def text? (s : Spelling) : Option String := Utf8.decode? s.bytes

def isText (s : Spelling) : Bool := s.text?.isSome

/-- The text that the bytes are, or what is left of it: each piece that is no text becomes one
replacement character. -/
def shown (s : Spelling) : String := String.ofList (Utf8.decodeLossy s.bytes)

/-- A byte that belongs to no text, as messages show it. -/
def escapeByte (b : UInt8) : List Char :=
  '\\' :: 'x' :: [b.toNat / 16, b.toNat % 16].map fun d => (Nat.digitChar d).toUpper

/-- The characters between the quotes; the bytes of a piece that is no text are shown by number. -/
def quoteBytes : Bytes → List Char
  | [] => []
  | b :: bs =>
    let piece := Utf8.next b bs
    let front := match piece.1 with
      | some c => Text.quoteChar c
      | none => (b :: bs.take piece.2).flatMap escapeByte
    front ++ quoteBytes (bs.drop piece.2)
termination_by bs => bs.length
decreasing_by
  simp only [List.length_drop, List.length_cons]
  omega

def quoted (s : Spelling) : String := String.ofList ('"' :: quoteBytes s.bytes ++ ['"'])

end Spelling
end Staging
