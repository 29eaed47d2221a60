import Staging.Text.Blank
import Staging.Text.Lowercase

/-!
How much is logged. The command line decides, then the environment, and otherwise progress is
logged and nothing finer.
-/
namespace Staging

inductive LogLevel where
  | error
  | warn
  | info
  | debug
  | trace
  deriving DecidableEq, Repr

namespace LogLevel

def name : LogLevel → String
  | error => "error"
  | warn => "warn"
  | info => "info"
  | debug => "debug"
  | trace => "trace"

def all : List LogLevel := [error, warn, info, debug, trace]

/-- The level of a name as the command line takes it. -/
def ofName? (s : String) : Option LogLevel := all.find? (·.name == s)

/-- The level of a name as the environment has it, in any case and between blanks. -/
def ofSetting? (s : String) : Option LogLevel :=
  let plain := Text.lower (String.ofList (Text.trim s.toList))
  if plain = "warning" then some warn else ofName? plain

/-- The environment variable that sets the level. -/
def variableName : String := "RESFLOW_LOG"

def choose (flag : Option LogLevel) (setting : Option String) : LogLevel :=
  flag.getD ((setting.bind ofSetting?).getD info)

end LogLevel
end Staging
