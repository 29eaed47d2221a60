import Staging.Toml.Moment
import Staging.Toml.Number
import Staging.Toml.StringLiteral
import Staging.Toml.Table

/-!
Reading TOML documents: first the sections as they are written, then the table that they make.
-/
namespace Staging.Toml

/-- Reads from the front of a text. -/
abbrev Reader (α : Type) := StateT (List Char) (Except Fault) α

namespace Reader

def unexpected {α : Type} : Reader α := do throw (.unexpected (← get).head?)

def skipSpace : Reader Unit := modify (·.dropWhile isSpace)

def expect (c : Char) : Reader Unit := do
  match ← get with
  | d :: cs => if c = d then set cs else unexpected
  | [] => unexpected

/-- Skips white space, line endings and comments. -/
def gap : (comment : Bool) → List Char → Except Fault (List Char)
  | _, [] => .ok []
  | _, '\n' :: cs => gap false cs
  | _, '\r' :: '\n' :: cs => gap false cs
  | true, c :: cs => if isText c then gap true cs else .error (.control c)
  | false, '#' :: cs => gap true cs
  | false, c :: cs => if isSpace c then gap false cs else .ok (c :: cs)

def skipGap : Reader Unit := do set (← gap false (← get))

/-- Skips the rest of a line that holds nothing more but a comment. -/
def restOfLine : (comment : Bool) → List Char → Except Fault (List Char)
  | _, [] => .ok []
  | _, '\n' :: cs => .ok cs
  | _, '\r' :: '\n' :: cs => .ok cs
  | true, c :: cs => if isText c then restOfLine true cs else .error (.control c)
  | false, '#' :: cs => restOfLine true cs
  | false, c :: cs => if isSpace c then restOfLine false cs else .error (.unexpected (some c))

def endLine : Reader Unit := do set (← restOfLine false (← get))

/-- Runs a scanner that gives a text and what follows it. -/
def scan (scanner : List Char → Scanned) : Reader String := do
  let (text, rest) ← (scanner (← get) : Except Fault _)
  set rest
  return String.ofList text

def isBareKeyChar (c : Char) : Bool := c.isAlphanum || c == '_' || c == '-'

def simpleKey : Reader String := do
  match ← get with
  | '"' :: cs =>
    set cs
    scan basicString
  | '\'' :: cs =>
    set cs
    scan literalString
  | cs =>
    if (cs.takeWhile isBareKeyChar).isEmpty then unexpected
    else
      set (cs.dropWhile isBareKeyChar)
      return String.ofList (cs.takeWhile isBareKeyChar)

/-- How many parts a key may have, and how many arrays and inline tables may lie inside one
another. -/
def maxDepth : Nat := 80

/-- The keys after those already read, as long as dots follow. -/
def keysAfter : (fuel : Nat) → (path : List String) → Reader Key
  | 0, _ => unexpected
  | fuel + 1, path => do
    if path.length ≥ maxDepth then throw .tooDeep
    skipSpace
    let key ← simpleKey
    skipSpace
    match ← get with
    | '.' :: cs =>
      set cs
      keysAfter fuel (path ++ [key])
    | _ => return ⟨path, key⟩

def key : Reader Key := do keysAfter (← get).length []

/-- What ends a run of characters that stand in no quotes. -/
def endsWord (c : Char) : Bool :=
  c ∈ ['=', ',', '[', ']', '{', '}', ' ', '\t', '#', '\r', '\n']

/-- What can begin a word after white space. -/
def startsWord (c : Char) : Bool := !endsWord c && c ∉ ['.', '"', '\'']

/-- Words and the white space between them, so long as another word follows. -/
def wordsFrom : (fuel : Nat) → List Char → List Char × List Char
  | 0, cs => ([], cs)
  | fuel + 1, cs =>
    let (word, rest) := cs.span (!endsWord ·)
    let (blank, after) := rest.span isSpace
    if !blank.isEmpty && after.head?.any startsWord then
      let (more, rest) := wordsFrom fuel after
      (word ++ blank ++ more, rest)
    else (word, rest)

/-- A value without quotes or brackets. A date and a time may be two words of one value. -/
def scalar : Reader (List Char) := do
  let cs ← get
  let (text, rest) := wordsFrom cs.length.succ cs
  set rest
  return text

/-- The value of a text without quotes or brackets. -/
def ofScalar (cs : List Char) : Except Fault Value :=
  if cs = "true".toList then .ok (.boolean true)
  else if cs = "false".toList then .ok (.boolean false)
  else if isNumber cs then .ok (.number (String.ofList cs))
  else
    match readMoment cs with
    | some m => .ok (.moment m)
    | none => .error (.badValue (String.ofList cs))

mutual

/-- A value, with room for so many arrays and inline tables around others inside it. -/
def value : (fuel : Nat) → (depth : Nat) → Reader Value
  | 0, _ => unexpected
  | fuel + 1, depth => do
    match ← get with
    | '"' :: _ => return .string (← scan readString)
    | '\'' :: _ => return .string (← scan readString)
    | '[' :: cs =>
      set cs
      if depth = 0 then throw .tooDeep
      return .array (← items fuel (depth - 1))
    | '{' :: cs =>
      set cs
      if depth = 0 then throw .tooDeep
      inlineTable (← pairs fuel (depth - 1))
    | _ => ofScalar (← scalar)

/-- The items of an array up to its closing bracket. -/
def items : (fuel : Nat) → (depth : Nat) → Reader (List Value)
  | 0, _ => unexpected
  | fuel + 1, depth => do
    skipGap
    match ← get with
    | ']' :: cs =>
      set cs
      return []
    | _ =>
      let v ← value fuel depth
      skipGap
      match ← get with
      | ',' :: cs =>
        set cs
        return v :: (← items fuel depth)
      | _ =>
        expect ']'
        return [v]

/-- The pairs of an inline table up to its closing brace. Lines may end between their parts. -/
def pairs : (fuel : Nat) → (depth : Nat) → Reader (List (Key × Value))
  | 0, _ => unexpected
  | fuel + 1, depth => do
    skipGap
    match ← get with
    | '}' :: cs =>
      set cs
      return []
    | _ =>
      let k ← key
      skipGap
      expect '='
      skipGap
      let v ← value fuel depth
      skipGap
      match ← get with
      | ',' :: cs =>
        set cs
        return (k, v) :: (← pairs fuel depth)
      | _ =>
        expect '}'
        return [(k, v)]

end

/-- A key, an equals sign and a value on a line of their own. -/
def pair : Reader (Key × Value) := do
  let k ← key
  expect '='
  skipSpace
  let v ← value (← get).length.succ maxDepth
  endLine
  return (k, v)

/-- A header after its opening bracket. -/
def header : Reader Header := do
  match ← get with
  | '[' :: cs =>
    set cs
    let k ← key
    expect ']'
    expect ']'
    endLine
    return ⟨k, true⟩
  | _ =>
    let k ← key
    expect ']'
    endLine
    return ⟨k, false⟩

/-- The sections of a text, the first of which has begun already. -/
def sectionsAfter : (fuel : Nat) → (current : Section) → Reader (List Section)
  | 0, current => return [current]
  | fuel + 1, current => do
    skipGap
    match ← get with
    | [] => return [current]
    | '[' :: cs =>
      set cs
      let h ← header
      return current :: (← sectionsAfter fuel ⟨some h, []⟩)
    | _ =>
      let p ← pair
      sectionsAfter fuel { current with pairs := current.pairs ++ [p] }

end Reader

/-- The sections as they are written. Each line is read once, so its length bounds their number. -/
def sections (text : List Char) : Except Fault (List Section) :=
  ((Reader.sectionsAfter (text.length + 1) ⟨none, []⟩).run text).map (·.1)

/-- A byte order mark at the front is no part of the document. -/
def dropMark : List Char → List Char
  | '\ufeff' :: cs => cs
  | cs => cs

/-- The root table of a document. -/
def parse (text : String) : Except Fault (List (String × Value)) := do
  let found ← sections (dropMark text.toList)
  return entryValues (← found.foldlM Entries.addSection [])

end Staging.Toml
