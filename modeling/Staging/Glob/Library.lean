import Staging.Glob.Expression
import Staging.Glob.Parser

/-!
Libraries of globs. What reads a glob and looks up many of them at once is not part of this
development: it is used through the few calls of a `GlobLibrary`. To run a program there is
`Glob.library`, which reads and matches globs as the library in use does, but refuses a set of globs
for deep nesting only. The library in use also bounds the size of what a set comes to.
-/
namespace Staging

structure GlobLibrary where
  Glob : Type
  GlobSet : Type
  Fault : Type
  /-- Reads one glob, in which `*` and `?` leave out separators. -/
  build : List Char → Except Fault Glob
  /-- Prepares globs to be looked up together. -/
  gather : List Glob → Except Fault GlobSet
  isMatch : GlobSet → Bytes → Bool
  describe : Fault → String

namespace Glob

/-- Why a glob or a set of globs is refused. -/
inductive Fault where
  | malformed (glob : String) (fault : SyntaxFault)
  /-- The expression of a glob that ends in an extension nests too deeply. -/
  | deepExpression (expression : String)
  /-- A glob nests too deeply, by its place among those that are of no special shape. -/
  | deepPattern (place : Nat)
  deriving DecidableEq, Repr

def Fault.message : Fault → String
  | malformed glob fault => "error parsing glob '" ++ glob ++ "': " ++ fault.message
  | deepExpression expression =>
    "error parsing glob '" ++ expression ++ "': error parsing pattern 0"
  | deepPattern place => "error parsing pattern " ++ toString place

/-- Which of the globs nests too deeply. Those that end in an extension are looked at first. -/
def deepest? (globs : List Glob) : Option Fault :=
  match globs.find? fun g => g.shape = .withExtension ∧ g.isTooDeep with
  | some g => some (.deepExpression g.expression)
  | none => ((globs.filter (·.shape = .free)).findIdx? isTooDeep).map .deepPattern

def gather (globs : List Glob) : Except Fault (List Glob) :=
  match deepest? globs with
  | some fault => .error fault
  | none => .ok globs

/-- The library that programs are run with. -/
abbrev library : GlobLibrary where
  Glob := Glob
  GlobSet := List Glob
  Fault := Fault
  build cs := (parse cs).mapError (.malformed (String.ofList cs))
  gather := gather
  isMatch globs text := globs.any (·.isMatch text)
  describe := Fault.message

end Glob
end Staging
