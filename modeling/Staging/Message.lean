import Staging.Path

/-!
Messages of a pass: what went wrong or is worth knowing, and what it is about.
-/
namespace Staging

inductive Severity where
  | error
  | warning
  | info
  deriving DecidableEq, Repr

def Severity.label : Severity → String
  | error => "error"
  | warning => "warning"
  | info => "info"

structure Message where
  severity : Severity
  unit : Option String := none
  location : Option Path := none
  text : String
  deriving DecidableEq, Repr

/-- One line: severity, unit, text and place. -/
def Message.render (m : Message) : String :=
  let unit := match m.unit with
    | some u => " [" ++ u ++ "]"
    | none => ""
  let location := match m.location with
    | some p => " (" ++ p.text ++ ")"
    | none => ""
  m.severity.label ++ unit ++ ": " ++ m.text ++ location

def Message.isError (m : Message) : Bool := m.severity == .error

end Staging
