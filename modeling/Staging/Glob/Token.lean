import Staging.Text.Utf8

/-!
What globs are made of: characters, wildcards, sets, and groups of branches, of which nothing is
left if all branches are empty.
-/
namespace Staging.Glob

inductive Token where
  | literal (c : Char)
  /-- One byte, not a separator. -/
  | single
  /-- Any number of bytes, none a separator. -/
  | run
  /-- Nothing, a separator, or anything that ends in a separator. -/
  | leadingDirs
  /-- A separator and anything after it. -/
  | subtree
  /-- A separator, or anything between two separators together with them. -/
  | innerDirs
  | set (negated : Bool) (ranges : List (Char × Char))
  | oneOf (branches : List (List Token))

/-- The byte intervals that a range of characters stands for in a set: characters count as their
bytes, with the dash between the last byte of the first and the first byte of the second. -/
def byteRanges (range : Char × Char) : List (UInt8 × UInt8) :=
  let bytes (c : Char) := (Utf8.encodeChar c).map fun b => (b, b)
  if range.1 = range.2 then bytes range.1
  else
    let first := Utf8.encodeChar range.1
    let last := Utf8.encodeChar range.2
    match first.getLast?, last with
    | some lo, hi :: rest =>
      first.dropLast.map (fun b => (b, b)) ++ (lo, hi) :: rest.map fun b => (b, b)
    | _, _ => []

mutual

/-- Whether nothing is left of a token: a group whose branches are all empty. -/
def Token.vanishes : Token → Bool
  | .oneOf branches => allVanish branches
  | _ => false

def vanishes : List Token → Bool
  | [] => true
  | t :: ts => t.vanishes && vanishes ts

def allVanish : List (List Token) → Bool
  | [] => true
  | branch :: rest => vanishes branch && allVanish rest

end

end Staging.Glob
