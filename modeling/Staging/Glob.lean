import Staging.Glob.Shape

/-!
Globs over the bytes of a slash-separated path. A glob is matched by moving a set of positions in
the text over one token after the other: a position set has a flag for every place between two
bytes and one for the end, and the text matches if the last flag is set. A glob that is found by a
file name matches no path without one.
-/
namespace Staging
namespace Glob

def slash : UInt8 := 0x2f

def inSet (negated : Bool) (ranges : List (Char × Char)) (b : UInt8) : Bool :=
  ((ranges.flatMap byteRanges).any fun (lo, hi) => lo ≤ b && b ≤ hi) != negated

/-- Positions right after a byte that passes the test and starts at a position of the set. -/
def after (ok : UInt8 → Bool) (text : Bytes) (marks : List Bool) : List Bool :=
  false :: List.zipWith (fun b m => m && ok b) text marks

/-- All positions from the first of the set on. -/
def fromFirst : (seen : Bool) → List Bool → List Bool
  | _, [] => []
  | seen, m :: ms => (seen || m) :: fromFirst (seen || m) ms

/-- Positions that are reached from the set over any number of bytes that pass the test. -/
def spread (ok : UInt8 → Bool) : (carry : Bool) → Bytes → List Bool → List Bool
  | _, _, [] => []
  | carry, [], m :: _ => [m || carry]
  | carry, b :: bs, m :: ms => (m || carry) :: spread ok ((m || carry) && ok b) bs ms

def union (x y : List Bool) : List Bool := List.zipWith (· || ·) x y

mutual

/-- The positions after one token. -/
def Token.advance (text : Bytes) (marks : List Bool) : Token → List Bool
  | .literal c => (Utf8.encodeChar c).foldl (fun ms b => after (· == b) text ms) marks
  | .single => after (· != slash) text marks
  | .run => spread (· != slash) false text marks
  | .leadingDirs => union marks (after (· == slash) text (fromFirst false marks))
  | .subtree => fromFirst false (after (· == slash) text marks)
  | .innerDirs =>
    after (· == slash) text (union marks (fromFirst false (after (· == slash) text marks)))
  | .set negated ranges => after (inSet negated ranges) text marks
  | .oneOf branches =>
    if allVanish branches then marks
    else advanceAny text marks branches (marks.map fun _ => false)

def advanceAll (text : Bytes) (marks : List Bool) : List Token → List Bool
  | [] => marks
  | t :: ts => advanceAll text (t.advance text marks) ts

/-- The positions after one of the branches, or in `found`. -/
def advanceAny (text : Bytes) (marks : List Bool) :
    List (List Token) → (found : List Bool) → List Bool
  | [], found => found
  | branch :: rest, found =>
    let found := if vanishes branch then found else union found (advanceAll text marks branch)
    advanceAny text marks rest found

end

end Glob

/-- A glob in its parsed form. -/
structure Glob where
  tokens : List Glob.Token

namespace Glob

def shape (g : Glob) : Shape := Shape.ofTokens g.tokens

/-- Whether a path ends in two points, which lead up and are no file name. -/
def leadsUp (text : Bytes) : Bool := text.reverse.takeWhile (· != slash) == [0x2e, 0x2e]

/-- Whether the glob covers the whole text. A glob that only spans directories covers all. -/
def covers (g : Glob) (text : Bytes) : Bool :=
  match g.tokens with
  | [.leadingDirs] => true
  | tokens => (advanceAll text (true :: text.map fun _ => false) tokens).getLastD false

/-- Whether the glob matches a path: covers it, and finds a file name in it if it needs one. -/
def isMatch (g : Glob) (text : Bytes) : Bool :=
  g.covers text && !(g.shape.needsFileName && leadsUp text)

end Glob
end Staging
