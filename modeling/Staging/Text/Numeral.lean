/-!
Numerals: digits in a base, and the numbers they stand for.
-/
namespace Staging.Text

/-- The value of a digit, letters of either case standing for ten and more. -/
def digitValue (c : Char) : Option Nat :=
  let n := c.toNat
  if 48 ≤ n ∧ n ≤ 57 then some (n - 48)
  else if 97 ≤ n ∧ n ≤ 122 then some (n - 87)
  else if 65 ≤ n ∧ n ≤ 90 then some (n - 55)
  else none

def digitIn (base : Nat) (c : Char) : Option Nat := (digitValue c).filter (· < base)

/-- The number that digits stand for after a number already read. -/
def readDigits (base : Nat) : (seen : Nat) → List Char → Option Nat
  | seen, [] => some seen
  | seen, c :: cs => (digitIn base c).bind fun d => readDigits base (seen * base + d) cs

/-- A numeral of one or more digits. -/
def readNumeral (base : Nat) : List Char → Option Nat
  | [] => none
  | cs => readDigits base 0 cs

/-- A numeral that may be led in by a plus sign. -/
def readUnsigned (base : Nat) : List Char → Option Nat
  | '+' :: cs => readNumeral base cs
  | cs => readNumeral base cs

end Staging.Text
