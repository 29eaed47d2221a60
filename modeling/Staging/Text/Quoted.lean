import Staging.Text.Lowercase
import Staging.Text.PrintTable

/-!
Text in double quotes for messages. Quotes, backslashes, the usual controls, and everything that
does not print on its own are written as escapes.
-/
namespace Staging.Text

/-- Whether the character shows by itself, neither invisible nor part of the one before it. -/
def isGraphic (c : Char) : Bool :=
  !inRanges extendingRanges c.toNat && !inRanges unprintableRanges c.toNat

/-- Lower-case hexadecimal digits without leading zeros. -/
def hexDigits (n : Nat) : List Char := Nat.toDigits 16 n

def quoteChar (c : Char) : List Char :=
  match c with
  | '\x00' => ['\\', '0']
  | '\t' => ['\\', 't']
  | '\r' => ['\\', 'r']
  | '\n' => ['\\', 'n']
  | '\\' => ['\\', '\\']
  | '"' => ['\\', '"']
  | c => if isGraphic c then [c] else ['\\', 'u', '{'] ++ hexDigits c.toNat ++ ['}']

def quote (s : String) : String :=
  String.ofList ('"' :: s.toList.flatMap quoteChar ++ ['"'])

end Staging.Text
