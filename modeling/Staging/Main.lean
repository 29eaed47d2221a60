import Staging.FileSystem.Native
import Staging.Program

/-!
The program on a real machine. A watching program looks at its targets again and again and hands
over what has changed.
-/
namespace Staging.Main

def usage : String :=
  "Incrementally copy and filter project resources into module outputs.\n\n" ++
  "Usage: resflow [OPTIONS]\n\n" ++
  "Options:\n" ++
  "      --config <PATH>      Path to the project file [default: Resflow.toml]\n" ++
  "      --unit <NAME>        Only process the named unit; may be repeated\n" ++
  "      --log-level <LEVEL>  error, warn, info, debug or trace\n" ++
  "      --dry-run            Print the plan without touching any output\n" ++
  "      --watch              Keep running and process changes\n" ++
  "  -h, --help               Print help\n" ++
  "  -V, --version            Print version"

def stopped : CommandLine.Stop → IO UInt32
  | .help => do
    IO.println usage
    return 0
  | .version => do
    IO.println Program.versionLine
    return 0
  | _ => do
    IO.eprintln usage
    return 2

/-- How long to wait between two looks, in milliseconds. -/
def interval : UInt32 := 200

/-- Files and directories at and below a path with their times, so many levels down. -/
def survey : (levels : Nat) → Path → IO (List (String × Int))
  | 0, _ => return []
  | levels + 1, p => do
    match ← (Native.look p).toBaseIO with
    | .error _ => return []
    | .ok (kind, time) =>
      if kind == .dir then
        match ← (FileSystem.list p : IO _) with
        | .error _ => return [(p.text, time)]
        | .ok entries =>
          let below ← entries.mapM (survey levels)
          return (p.text, time) :: below.flatten
      else return [(p.text, time)]

def surveyAll (targets : List WatchTarget) : IO (List (String × Int)) :=
  return (← targets.mapM fun t => survey (if t.recursive then 4096 else 2) t.path).flatten

/-- The paths that one look has and the other has not, or has with another time. -/
def changes (before after : List (String × Int)) : List Path :=
  let missing (xs ys : List (String × Int)) := (xs.filter (!ys.contains ·)).map fun e => Path.mk e.1
  missing before after ++ missing after before

partial def watchLoop (w : Program.Watching) (before : List (String × Int)) : IO UInt32 := do
  IO.sleep interval
  let after ← surveyAll w.targets
  match ← (w.react (changes before after) : IO _) with
  | none => watchLoop w after
  | some next =>
    IO.println next.last.summary
    if next.last.isCancelled then return UInt32.ofNat next.last.status else watchLoop next after

def runArgs (args : List String) : IO UInt32 := do
  match CommandLine.read args with
  | .error stop => stopped stop
  | .ok c =>
    match ← (Program.run c : IO _) with
    | .failed error =>
      IO.eprint error
      return 2
    | .ended lines status =>
      lines.forM IO.println
      return UInt32.ofNat status
    | .watching w =>
      IO.println w.last.summary
      let level := LogLevel.choose c.logLevel (← IO.getEnv LogLevel.variableName)
      if level ∉ [.error, .warn] then
        IO.eprintln "watching for changes; press Ctrl-C to stop"
      watchLoop w (← surveyAll w.targets)

end Staging.Main

def main (args : List String) : IO UInt32 := Staging.Main.runArgs args
