import Staging.Text.Numeral
import Staging.Toml.Value

/-!
The four kinds of TOML strings. Each reader starts after the opening quotes and gives the text of
the string and what follows the closing quotes.
-/
namespace Staging.Toml
open Text

/-- Anything but control characters; a tab is none of them. -/
def isText (c : Char) : Bool := c == '\t' || (0x20 ≤ c.toNat && c.toNat != 0x7f)

/-- The character that so many hexadecimal digits name. -/
def namedChar (count : Nat) (cs : List Char) : Option (Char × Nat) :=
  if (cs.take count).length = count then
    (readNumeral 16 (cs.take count)).bind fun n =>
      if n.isValidChar then some (Char.ofNat n, count + 1) else none
  else none

/-- What an escape stands for, and how many characters after the backslash belong to it. -/
def escaped : List Char → Option (Char × Nat)
  | 'b' :: _ => some ('\x08', 1)
  | 't' :: _ => some ('\t', 1)
  | 'n' :: _ => some ('\n', 1)
  | 'f' :: _ => some ('\x0c', 1)
  | 'r' :: _ => some ('\r', 1)
  | 'e' :: _ => some ('\x1b', 1)
  | '"' :: _ => some ('"', 1)
  | '\\' :: _ => some ('\\', 1)
  | 'x' :: cs => namedChar 2 cs
  | 'u' :: cs => namedChar 4 cs
  | 'U' :: cs => namedChar 8 cs
  | _ => none

def isSpace (c : Char) : Bool := c == ' ' || c == '\t'

/-- The text after a line ending, if there is one here. -/
def lineEnding : List Char → Option (List Char)
  | '\n' :: cs => some cs
  | '\r' :: '\n' :: cs => some cs
  | _ => none

/-- Skips blanks and line endings. -/
def skipLines : List Char → List Char
  | '\r' :: '\n' :: cs => skipLines cs
  | c :: cs => if isSpace c || c == '\n' then skipLines cs else c :: cs
  | [] => []

/-- The text after a backslash that ends its line, and after the blanks that start the next. -/
def joinedLine (cs : List Char) : Option (List Char) :=
  (lineEnding (cs.dropWhile isSpace)).map skipLines

theorem skipLines_length (cs : List Char) : (skipLines cs).length ≤ cs.length := by
  fun_induction skipLines cs with
  | case1 cs ih => simp; omega
  | case2 c cs _ _ ih => simp; omega
  | case3 => simp
  | case4 => simp

theorem lineEnding_length {cs rest : List Char} (h : lineEnding cs = some rest) :
    rest.length < cs.length := by
  unfold lineEnding at h
  split at h
  · cases h
    simp only [List.length_cons]
    omega
  · cases h
    simp only [List.length_cons]
    omega
  · cases h

theorem joinedLine_length {cs rest : List Char} (h : joinedLine cs = some rest) :
    rest.length < cs.length := by
  obtain ⟨next, found, rfl⟩ := Option.map_eq_some_iff.mp h
  have := lineEnding_length found
  have := skipLines_length next
  have := (List.dropWhile_suffix (l := cs) isSpace).length_le
  omega

abbrev Scanned := Except Fault (List Char × List Char)

def Scanned.cons (c : Char) (s : Scanned) : Scanned := s.map fun (text, rest) => (c :: text, rest)

/-- A string on one line, with escapes. -/
def basicString : List Char → Scanned
  | [] => .error .unclosedString
  | '"' :: cs => .ok ([], cs)
  | '\\' :: cs =>
    match escaped cs with
    | some (c, n) => .cons c (basicString (cs.drop n))
    | none => .error .badEscape
  | c :: cs => if isText c then .cons c (basicString cs) else .error (.control c)
termination_by cs => cs.length
decreasing_by all_goals simp; try omega

/-- A string on one line, as it stands. -/
def literalString : List Char → Scanned
  | [] => .error .unclosedString
  | '\'' :: cs => .ok ([], cs)
  | c :: cs => if isText c then .cons c (literalString cs) else .error (.control c)

/-- One or two quotes may stand right before the closing three. -/
def closing (quote : Char) : List Char → List Char × List Char
  | a :: b :: cs =>
    if a = quote then (if b = quote then ([quote, quote], cs) else ([quote], b :: cs))
    else ([], a :: b :: cs)
  | [a] => if a = quote then ([quote], []) else ([], [a])
  | [] => ([], [])

/-- A string over several lines, with escapes. -/
def basicBlock : List Char → Scanned
  | [] => .error .unclosedString
  | '"' :: '"' :: '"' :: cs => .ok (closing '"' cs)
  | '\\' :: cs =>
    match _h : joinedLine cs with
    | some rest => basicBlock rest
    | none =>
      match escaped cs with
      | some (c, n) => .cons c (basicBlock (cs.drop n))
      | none => .error .badEscape
  | '\r' :: '\n' :: cs => .cons '\r' (.cons '\n' (basicBlock cs))
  | c :: cs => if isText c || c == '\n' then .cons c (basicBlock cs) else .error (.control c)
termination_by cs => cs.length
decreasing_by
  · have := joinedLine_length _h
    simp; omega
  all_goals simp; try omega

/-- A string over several lines, as it stands. -/
def literalBlock : List Char → Scanned
  | [] => .error .unclosedString
  | '\'' :: '\'' :: '\'' :: cs => .ok (closing '\'' cs)
  | '\r' :: '\n' :: cs => .cons '\r' (.cons '\n' (literalBlock cs))
  | c :: cs => if isText c || c == '\n' then .cons c (literalBlock cs) else .error (.control c)

/-- The line ending right after the opening quotes of a block is no part of it. -/
def dropFirstEnding (cs : List Char) : List Char := (lineEnding cs).getD cs

/-- A string of any kind, from its opening quotes on. -/
def readString : List Char → Scanned
  | '"' :: '"' :: '"' :: cs => basicBlock (dropFirstEnding cs)
  | '\'' :: '\'' :: '\'' :: cs => literalBlock (dropFirstEnding cs)
  | '"' :: cs => basicString cs
  | '\'' :: cs => literalString cs
  | cs => .error (.unexpected cs.head?)

end Staging.Toml
