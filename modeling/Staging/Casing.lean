import Staging.Text.Lowercase

/-!
Whether two spellings of an output path that differ in case are the same output.
-/
namespace Staging

inductive Casing where
  | sensitive
  | insensitive
  deriving DecidableEq, Repr

/-- What paths are compared by. -/
def Casing.key : Casing → String → String
  | sensitive, path => path
  | insensitive, path => Text.lower path

/-- The declared choice; `auto` follows the platform. -/
inductive CasePolicy where
  | auto
  | sensitive
  | insensitive
  deriving DecidableEq, Repr

/-- The casing that a policy comes to where file systems tell case apart, as on Linux. This is the
only platform built for: where they do not, as on macOS and Windows, `auto` comes to `insensitive`. -/
def CasePolicy.resolve : CasePolicy → Casing
  | auto => .sensitive
  | sensitive => .sensitive
  | insensitive => .insensitive

end Staging
