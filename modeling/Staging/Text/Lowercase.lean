import Staging.Text.CaseTable

/-!
Full lower-casing of a text. Every character is mapped on its own, except capital sigma, which
takes its final form at the end of a word.
-/
namespace Staging.Text

def inRanges (ranges : List (Nat × Nat)) (n : Nat) : Bool :=
  ranges.any fun (first, last) => first ≤ n && n ≤ last

def isCased (c : Char) : Bool := inRanges casedRanges c.toNat

def isCaseIgnorable (c : Char) : Bool := inRanges caseIgnorableRanges c.toNat

/-- The lower case of one character; only the dotted capital I has two. -/
def lowerChar (c : Char) : List Char :=
  let n := c.toNat
  if n < 0x80 then [c.toLower]
  else if n = 0x130 then ['i', '\u0307']
  else
    match lowerRuns.find? fun (first, last, step, _) =>
        first ≤ n && n ≤ last && (n - first) % step == 0 with
    | some (_, _, _, offset) => [Char.ofNat (n + offset).toNat]
    | none => [c]

/-- Whether the nearest character that is not ignorable for case is cased. -/
def meetsCased (cs : List Char) : Bool :=
  match cs.dropWhile isCaseIgnorable with
  | [] => false
  | c :: _ => isCased c

/-- Lower case of a text that follows `before`, whose characters stand nearest first. -/
def lowerAfter (before : List Char) : List Char → List Char
  | [] => []
  | c :: cs =>
    let here := if c = 'Σ' then (if meetsCased before && !meetsCased cs then ['ς'] else ['σ'])
      else lowerChar c
    here ++ lowerAfter (c :: before) cs

def lower (s : String) : String := String.ofList (lowerAfter [] s.toList)

/-- Lower case of the ASCII letters only. -/
def lowerAscii (cs : List Char) : List Char := cs.map Char.toLower

end Staging.Text
