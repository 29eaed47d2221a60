import Staging.Glob

/-!
Globs as regular expressions over bytes. An expression that nests too deeply is not run, so a glob
is of use only if its expression is shallow enough.
-/
namespace Staging.Glob

/-- Whether a character means something in an expression unless a backslash is before it. -/
def isSpecial (c : Char) : Bool :=
  c ∈ ['\\', '.', '+', '*', '?', '(', ')', '|', '[', ']', '{', '}', '^', '$', '#', '&', '-', '~']

/-- A byte that stands for itself. Bytes past ASCII are written as two digits. -/
def byteExpression (b : UInt8) : List Char :=
  if b < 0x80 then
    let c := Char.ofNat b.toNat
    if isSpecial c then ['\\', c] else [c]
  else ['\\', 'x'] ++ Nat.toDigits 16 b.toNat

def charExpression (c : Char) : String :=
  String.ofList ((Utf8.encodeChar c).flatMap byteExpression)

def rangeExpression (range : Char × Char) : String :=
  if range.1 = range.2 then charExpression range.1
  else charExpression range.1 ++ "-" ++ charExpression range.2

mutual

def Token.expression : Token → String
  | .literal c => charExpression c
  | .single => "[^/]"
  | .run => "[^/]*"
  | .leadingDirs => "(?:/?|.*/)"
  | .subtree => "/.*"
  | .innerDirs => "(?:/|/.*/)"
  | .set negated ranges =>
    (if negated then "[^" else "[") ++ String.join (ranges.map rangeExpression) ++ "]"
  | .oneOf branches =>
    match branchExpressions branches with
    | [] => ""
    | parts => "(?:" ++ "|".intercalate parts ++ ")"

def allExpressions : List Token → String
  | [] => ""
  | t :: ts => t.expression ++ allExpressions ts

/-- The expressions of the branches that do not vanish. -/
def branchExpressions : List (List Token) → List String
  | [] => []
  | branch :: rest =>
    if vanishes branch then branchExpressions rest
    else allExpressions branch :: branchExpressions rest

end

/-- The expression of a whole glob. -/
def expression (g : Glob) : String :=
  let body := match g.tokens with
    | [.leadingDirs] => ".*"
    | tokens => allExpressions tokens
  "(?-u)^" ++ body ++ "$"

/-- How deeply parts nest when they stand together: one part alone adds no level. -/
def joined : List Nat → Nat
  | [] => 0
  | [depth] => depth
  | depths => 1 + depths.foldl max 0

mutual

/-- How deeply each of the parts nests that a token adds to the sequence it is in. Repeating, a
choice, a set and a group each make one level. -/
def Token.depths : Token → List Nat
  | .literal c => (Utf8.encodeChar c).map fun _ => 0
  | .single => [1]
  | .run => [2]
  | .leadingDirs => [4]
  | .subtree => [0, 1]
  | .innerDirs => [4]
  | .set _ ranges => [1 + joined ((ranges.flatMap byteRanges).map fun _ => 0)]
  | .oneOf branches =>
    match branchDepths branches with
    | [] => []
    | depths => [1 + joined depths]

def allDepths : List Token → List Nat
  | [] => []
  | t :: ts => t.depths ++ allDepths ts

/-- How deeply the branches nest that do not vanish. -/
def branchDepths : List (List Token) → List Nat
  | [] => []
  | branch :: rest =>
    if vanishes branch then branchDepths rest
    else joined (allDepths branch) :: branchDepths rest

end

/-- How deeply the expression of a glob nests, its two ends being parts of the sequence too. -/
def depth (g : Glob) : Nat := joined (0 :: allDepths g.tokens ++ [0])

/-- The deepest expression that is run. -/
def maxDepth : Nat := 250

/-- Whether the expression of a glob nests too deeply to be run. How large it is does not count here. -/
def isTooDeep (g : Glob) : Bool := maxDepth < g.depth

end Staging.Glob
