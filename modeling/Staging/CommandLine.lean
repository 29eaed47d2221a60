import Staging.LogLevel
import Staging.ProjectFile

/-!
The command line. Options take their value from the next argument or after an equals sign. An
option waiting for its value is settled by the next option, or at the end; what cannot be an
option at all is refused at once.
-/
namespace Staging

structure CommandLine where
  config : String := ProjectFile.defaultName
  units : List String := []
  logLevel : Option LogLevel := none
  dryRun : Bool := false
  watch : Bool := false
  deriving DecidableEq, Repr

namespace CommandLine

/-- Why a command line is not carried out. -/
inductive Stop where
  | unknownArgument
  | invalidValue
  | conflict
  | tooManyValues
  | help
  | version
  deriving DecidableEq, Repr

inductive ValueOption where
  | config
  | unit
  | logLevel
  deriving DecidableEq, Repr

inductive Flag where
  | dryRun
  | watch
  | help
  | version
  deriving DecidableEq, Repr

def valueOptions : List (String × ValueOption) :=
  [("config", .config), ("unit", .unit), ("log-level", .logLevel)]

def flags : List (String × Flag) :=
  [("dry-run", .dryRun), ("watch", .watch), ("help", .help), ("version", .version)]

/-- What has been read. -/
structure Progress where
  config : Option String := none
  units : List String := []
  logLevel : Option LogLevel := none
  dryRun : Bool := false
  watch : Bool := false

/-- An option with its value. Only units may be given more than once. -/
def Progress.put (r : Progress) (o : ValueOption) (v : String) : Except Stop Progress :=
  match o with
  | .config => if r.config.isSome then .error .conflict else .ok { r with config := some v }
  | .unit => .ok { r with units := r.units ++ [v] }
  | .logLevel =>
    if r.logLevel.isSome then .error .conflict
    else
      match LogLevel.ofName? v with
      | some level => .ok { r with logLevel := some level }
      | none => .error .invalidValue

def Progress.raise (r : Progress) : Flag → Except Stop Progress
  | .dryRun => if r.dryRun then .error .conflict else .ok { r with dryRun := true }
  | .watch => if r.watch then .error .conflict else .ok { r with watch := true }
  | .help => .error .help
  | .version => .error .version

/-- The latest option as long as it is not settled, with its value if that has come. -/
abbrev Pending := Option (ValueOption × Option String)

def settle (r : Progress) : Pending → Except Stop Progress
  | none => .ok r
  | some (o, some v) => r.put o v
  | some (_, none) => .error .invalidValue

/-- An argument by its form. -/
inductive Argument where
  | separator
  | long (name : String) (value : Option String)
  | short (letters : List Char)
  | plain (text : String)
  deriving DecidableEq, Repr

def Argument.ofText (s : String) : Argument :=
  match s.toList with
  | ['-', '-'] => separator
  | '-' :: '-' :: cs =>
    let name := String.ofList (cs.takeWhile (· ≠ '='))
    match cs.dropWhile (· ≠ '=') with
    | [] => long name none
    | _ :: value => long name (some (String.ofList value))
  | '-' :: c :: cs => short (c :: cs)
  | _ => plain s

def finish (r : Progress) (pending : Pending) : Except Stop CommandLine := do
  let r ← settle r pending
  if r.dryRun && r.watch then throw .conflict
  return ⟨r.config.getD ProjectFile.defaultName, r.units, r.logLevel, r.dryRun, r.watch⟩

/-- Reads arguments one by one. -/
def readFrom (r : Progress) (pending : Pending) : List String → Except Stop CommandLine
  | [] => finish r pending
  | arg :: rest =>
    match Argument.ofText arg, pending with
    | .separator, _ => if rest.isEmpty then finish r pending else .error .unknownArgument
    | .long name value, _ =>
      match valueOptions.lookup name, flags.lookup name, value with
      | some o, _, none => do readFrom (← settle r pending) (some (o, none)) rest
      | some o, _, some v => do readFrom (← (← settle r pending).put o v) none rest
      | none, some _, some _ => .error .tooManyValues
      | none, some f, none => do readFrom (← (← settle r pending).raise f) none rest
      | none, none, _ => .error .unknownArgument
    | .short letters, _ =>
      match letters.head? with
      | some 'h' => do readFrom (← (← settle r pending).raise .help) none rest
      | some 'V' => do readFrom (← (← settle r pending).raise .version) none rest
      | _ => .error .unknownArgument
    | .plain v, some (o, none) => readFrom r (some (o, some v)) rest
    | .plain _, _ => .error .unknownArgument

def read (args : List String) : Except Stop CommandLine := readFrom {} none args

end CommandLine
end Staging
