import Staging.Text.Numeral
import Staging.Toml.Value

/-!
Numbers as TOML writes them. Two questions are kept apart: whether a text is written as a number
is, and what the number amounts to. The first is asked of every value of a document; the second,
which a number out of range leaves without an answer, only of those that someone reads.
-/
namespace Staging.Toml
open Text

def isDigitIn (base : Nat) (c : Char) : Bool := (digitIn base c).isSome

/-- A sign at the front, and what follows it. -/
def splitSign : List Char → Option Char × List Char
  | '-' :: cs => (some '-', cs)
  | '+' :: cs => (some '+', cs)
  | cs => (none, cs)

/-- Whether a digit comes after every underscore, and a digit or the sign of the number before it.
`allowed` says that an underscore may come next. -/
def underscoresFit (base : Nat) : (allowed : Bool) → List Char → Bool
  | _, [] => true
  | allowed, c :: cs =>
    if c = '_' then allowed && cs.head?.any (isDigitIn base) && underscoresFit base false cs
    else underscoresFit base (isDigitIn base c) cs

/-- Whether a text is written as an integer in a base other than ten is after its mark. -/
def isBasedDigits (base : Nat) (cs : List Char) : Bool :=
  cs.all (fun c => c == '_' || isDigitIn base c) && underscoresFit 16 false cs

/-- The digits of one part of a float together with underscores, and what follows them. -/
def splitDigits (cs : List Char) : List Char × List Char :=
  cs.span fun c => c == '_' || c.isDigit

/-- Whether digits are there, underscores aside. -/
def hasDigits (cs : List Char) : Bool := cs.any Char.isDigit

/-- No zero stands before another digit. -/
def isPlainWhole (cs : List Char) : Bool :=
  cs.head? != some '0' || (cs.filter Char.isDigit).length ≤ 1

/-- Whether a text is an exponent from its mark on, or empty. -/
def isExponentPart : List Char → Bool
  | [] => true
  | c :: cs =>
    (c == 'e' || c == 'E') && hasDigits (splitSign cs).2 && (splitDigits (splitSign cs).2).2.isEmpty

/-- Whether a text is a fraction from its point on, an exponent, or both. -/
def isFractionPart : List Char → Bool
  | [] => false
  | '.' :: cs => hasDigits (splitDigits cs).1 && isExponentPart (splitDigits cs).2
  | cs => isExponentPart cs

/-- Whether a text without its sign is a float. -/
def isFloatBody (cs : List Char) : Bool :=
  let (whole, rest) := splitDigits cs
  hasDigits whole && isPlainWhole whole && isFractionPart rest

/-- What makes a text no integer after its first digits. -/
def marksNoInteger (c : Char) : Bool := c ∈ ['.', 'e', 'E', ' ']

/-- Whether a text without its sign is a decimal integer. What follows its first underscore is
seen to be no number only when the integer is read. -/
def isIntegerBody (cs : List Char) : Bool :=
  let rest := cs.dropWhile Char.isDigit
  cs = ['0'] || (cs.head? != some '0' && !cs.isEmpty && !rest.any marksNoInteger &&
    (rest.isEmpty || rest.head? == some '_'))

/-- Whether a text is written as a number is. -/
def isNumber : List Char → Bool
  | '0' :: 'x' :: cs => isBasedDigits 16 cs
  | '0' :: 'o' :: cs => isBasedDigits 8 cs
  | '0' :: 'b' :: cs => isBasedDigits 2 cs
  | cs =>
    let (sign, body) := splitSign cs
    if body = ['i', 'n', 'f'] ∨ body = ['n', 'a', 'n'] then true
    else if isFloatBody body then underscoresFit 10 sign.isSome body
    else isIntegerBody body && underscoresFit 16 sign.isSome body

/-- What a number amounts to. A finite float is digits times a power of ten. -/
inductive Number where
  | integer (n : Int)
  | float (negative : Bool) (digits : Nat) (exponent : Int)
  | infinite (negative : Bool)
  | nan
  deriving DecidableEq, Repr

namespace Number

def withSign (sign : Option Char) (n : Nat) : Int := if sign = some '-' then -n else n

def readInteger : List Char → Option Int
  | '0' :: 'x' :: cs => (readNumeral 16 cs).map Int.ofNat
  | '0' :: 'o' :: cs => (readNumeral 8 cs).map Int.ofNat
  | '0' :: 'b' :: cs => (readNumeral 2 cs).map Int.ofNat
  | cs => (readNumeral 10 (splitSign cs).2).map (withSign (splitSign cs).1)

/-- Digits and exponent of a float without its sign. -/
def readMagnitude (cs : List Char) : Option (Nat × Int) := do
  let isMark (c : Char) : Bool := c == 'e' || c == 'E'
  let mantissa := cs.takeWhile (!isMark ·)
  let fraction := (mantissa.dropWhile (· != '.')).tail
  let exponent ← match cs.dropWhile (!isMark ·) with
    | [] => some 0
    | _ :: part => (readNumeral 10 (splitSign part).2).map (withSign (splitSign part).1)
  let n ← readNumeral 10 (mantissa.takeWhile (· != '.') ++ fraction)
  return (n, exponent - fraction.length)

/-- Integers have at most 128 bits, signed or unsigned. -/
def fitsInteger (n : Int) : Bool := -(1 <<< 127 : Nat) ≤ n && n < (1 <<< 128 : Nat)

/-- Half a unit above the largest double. From here on a float would round to infinity. -/
def doubleBound : Nat := 1 <<< 1024 - 1 <<< 970

/-- Whether digits times a power of ten round to a finite double. -/
def fitsDouble (digits : Nat) (exponent : Int) : Bool :=
  let length := (Nat.toDigits 10 digits).length
  if digits = 0 || length + exponent < 308 then true
  else if length + exponent > 310 then false
  else digits * Nat.pow 10 exponent.toNat < doubleBound * Nat.pow 10 (-exponent).toNat

/-- What a text amounts to that is written as a number is, if that is within range. -/
def read (text : String) : Option Number :=
  let cs := text.toList.filter (· != '_')
  let (sign, body) := splitSign cs
  if body = ['i', 'n', 'f'] then some (.infinite (sign = some '-'))
  else if body = ['n', 'a', 'n'] then some .nan
  else
    match readInteger cs, readMagnitude body with
    | some n, _ => if fitsInteger n then some (.integer n) else none
    | none, some (digits, exponent) =>
      if fitsDouble digits exponent then some (.float (sign = some '-') digits exponent) else none
    | none, none => none

end Number
end Staging.Toml
