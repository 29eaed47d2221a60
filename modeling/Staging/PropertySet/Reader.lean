import Staging.PropertySet
import Staging.Text.Blank
import Staging.Text.Lines
import Staging.Text.Numeral

/-!
Property files. A logical line is a line with its continuations; it holds a key, a separator
(`=`, `:` or white space) and a value, both with backslash escapes. Later keys win.
-/
namespace Staging.PropertySet
open Text

/-- Blank lines, and lines that start with `#` or `!`. -/
def isIgnored : List Char → Bool
  | [] => true
  | c :: _ => c == '#' || c == '!'

/-- Whether the line goes on: it ends in an odd number of backslashes. -/
def continues (line : List Char) : Bool := (line.reverse.takeWhile (· == '\\')).length % 2 == 1

/-- Joins continuations onto `pending`, the part of a logical line that has been read. White space
at the start of a line never counts. -/
def gather : (pending : Option (List Char)) → List (List Char) → List (List Char)
  | none, [] => []
  | some pending, [] => [pending]
  | none, raw :: rest =>
    let line := trimStart raw
    if isIgnored line then gather none rest
    else if continues line then gather (some line.dropLast) rest
    else line :: gather none rest
  | some pending, raw :: rest =>
    let line := trimStart raw
    if continues line then gather (some (pending ++ line.dropLast)) rest
    else (pending ++ line) :: gather none rest

def logicalLines (text : List Char) : List (List Char) := gather none (lines text)

/-- The value after white space, which may hold one more separator. -/
def afterBlank (rest : List Char) : List Char :=
  match trimStart rest with
  | '=' :: value => trimStart value
  | ':' :: value => trimStart value
  | value => value

/-- Cuts a logical line at its first separator that no backslash escapes. -/
def splitPair : List Char → List Char × List Char
  | [] => ([], [])
  | ['\\'] => (['\\'], [])
  | '\\' :: c :: rest =>
    let (key, value) := splitPair rest
    ('\\' :: c :: key, value)
  | c :: rest =>
    if c = '=' ∨ c = ':' then ([], trimStart rest)
    else if isBlank c then ([], afterBlank rest)
    else
      let (key, value) := splitPair rest
      (c :: key, value)

/-- The character a numeric escape names, if it names one. -/
def namedChar (digits : List Char) : Option Char :=
  (readUnsigned 16 digits).bind fun n => if n.isValidChar then some (Char.ofNat n) else none

/-- Resolves escapes. A numeric escape takes the four characters after it, or as many as there
are; one that names no character stays as it is, and a lone backslash at the end vanishes. -/
def unescape : List Char → List Char
  | [] => []
  | ['\\'] => []
  | '\\' :: 'u' :: rest =>
    (match namedChar (rest.take 4) with
      | some c => [c]
      | none => '\\' :: 'u' :: rest.take 4) ++ unescape (rest.drop 4)
  | '\\' :: 't' :: rest => '\t' :: unescape rest
  | '\\' :: 'n' :: rest => '\n' :: unescape rest
  | '\\' :: 'r' :: rest => '\r' :: unescape rest
  | '\\' :: 'f' :: rest => '\x0c' :: unescape rest
  | '\\' :: c :: rest => c :: unescape rest
  | c :: rest => c :: unescape rest
termination_by cs => cs.length
decreasing_by all_goals simp; try omega

def readPair (line : List Char) : String × String :=
  let (key, value) := splitPair line
  (String.ofList (unescape key), String.ofList (unescape value))

/-- The pairs of a text in the order they stand. -/
def readPairs (text : List Char) : List (String × String) := (logicalLines text).map readPair

def read (text : List Char) : PropertySet := SortedMap.ofList (readPairs text)

end Staging.PropertySet
