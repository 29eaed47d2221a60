import Staging.Glob.Token

/-!
How globs are told apart when many of them are looked up at once. Most spell out enough of a path
to be found without going through it; those that spell out a file name or an extension are found
by the file name, and match nothing where a path has none.
-/
namespace Staging.Glob

/-- The characters of tokens that all stand for one character. -/
def plain? : List Token → Option (List Char)
  | [] => some []
  | .literal c :: ts => (plain? ts).map (c :: ·)
  | _ :: _ => none

/-- Whether these are characters of one name with no extension. -/
def isBareName (cs : List Char) : Bool := '.' ∉ cs && '/' ∉ cs

/-- A file name or an extension in any directory. -/
def spellsFileName : List Token → Bool
  | .leadingDirs :: .run :: .literal '.' :: ts => (plain? ts).any isBareName
  | .leadingDirs :: ts => (plain? ts).any fun cs => !cs.isEmpty && '/' ∉ cs
  | _ => false

/-- A whole path, the last segments of one, or a directory and everything below. -/
def spellsPath (tokens : List Token) : Bool :=
  match tokens, tokens.reverse with
  | .leadingDirs :: ts, _ => (plain? ts).any (!·.isEmpty)
  | _, .subtree :: ts => (plain? ts).isSome
  | ts, _ => (plain? ts).any (!·.isEmpty)

/-- Whether tokens in reverse order begin with an extension, read from its end to its point. -/
def extensionFirst : List Token → Bool
  | .literal c :: ts => c == '.' || (c != '/' && extensionFirst ts)
  | _ => false

inductive Shape where
  /-- A file name or an extension, in any directory. -/
  | fileName
  /-- Segments of a path and nothing else. -/
  | path
  /-- Anything that ends in an extension. -/
  | withExtension
  | free
  deriving DecidableEq, Repr

def Shape.ofTokens (tokens : List Token) : Shape :=
  if spellsFileName tokens then .fileName
  else if spellsPath tokens then .path
  else if extensionFirst tokens.reverse then .withExtension
  else .free

/-- Whether globs of this shape are found by the file name of a path. -/
def Shape.needsFileName : Shape → Bool
  | fileName => true
  | path => false
  | withExtension => true
  | free => false

end Staging.Glob
