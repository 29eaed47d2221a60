import Staging.CommandLine
import Staging.Pass
import Staging.ProjectFile.Loader
import Staging.WatchScope

/-!
The program as its user sees it: what a command line does, what is printed, and how it ends. A
watching program makes a first pass and then one for every batch of changes that counts.
-/
namespace Staging

namespace Report

/-- The line that closes a pass. -/
def summary (r : Report) : String :=
  if r.isCancelled then "resflow: cancelled, output cache unchanged"
  else "resflow: " ++ toString r.processed.length ++ " processed, " ++
    toString r.skipped.length ++ " up to date, " ++ toString r.deleted.length ++ " deleted, " ++
    toString r.errors.length ++ " error(s), " ++ toString r.warnings.length ++ " warning(s)"

/-- What the program ends with after this pass. -/
def status (r : Report) : Nat := if r.hasErrors then 1 else 0

end Report

def Readiness.label : Readiness → String
  | ready => "Ready"
  | misconfigured => "Misconfigured"

def Candidate.describe (c : Candidate) : String :=
  "  " ++ (if c.filtered then "filter " else "copy   ") ++ c.source.text ++ " -> " ++ c.output

def UnitPlan.describe (u : UnitPlan) : List String :=
  ["unit " ++ u.unit ++ " (" ++ u.readiness.label ++ "): " ++ toString u.candidates.length ++
    " candidate(s), " ++ toString u.deletions.length ++ " obsolete"] ++
  u.candidates.map Candidate.describe ++ u.deletions.map ("  delete " ++ ·)

/-- The lines of a dry run. -/
def Plan.describe (p : Plan) : List String :=
  "resflow dry-run" :: p.units.flatMap UnitPlan.describe ++ p.messages.map Message.render

namespace Program

def versionLine : String := "resflow 0.1.0"

/-- Text with its later lines indented. -/
def indented (indent : String) (text : String) : String :=
  String.ofList (text.toList.flatMap fun c => if c = '\n' then '\n' :: indent.toList else [c])

/-- The causes of an error, numbered if there are several. -/
def causeLines : List String → List String
  | [cause] => ["    " ++ indented "    " cause]
  | causes => causes.zipIdx.map fun (cause, n) =>
    "    " ++ toString n ++ ": " ++ indented "       " cause

/-- An error as the program reports it. -/
def errorText (what : String) (causes : List String) : String :=
  let because := if causes.isEmpty then [] else ["", "Caused by:"] ++ causeLines causes
  "\n".intercalate (("resflow error: " ++ what) :: because) ++ "\n"

def loadingFailed (c : CommandLine) (e : ProjectFile.LoadError) : String :=
  errorText ("loading " ++ c.config) e.chain

/-- A project file and everything that comes with it. -/
structure Setup where
  project : Project
  scope : Scope
  root : Path
  ledgerFile : Path
  ledger : Ledger
  encodings : Encodings

def Setup.stager {τ : Type} (s : Setup) (tracker : τ) : Stager τ where
  ledgerPath := s.ledgerFile
  ledger := s.ledger
  filter := .placeholders
  charsetFor := s.encodings.forSource
  tracker

/-- A program between two passes. -/
structure Watching where
  project : Project
  scope : Scope
  stager : Stager Stamps
  watch : WatchScope
  targets : List WatchTarget
  last : Report

/-- How far a command line goes by itself. -/
inductive Course where
  | ended (lines : List String) (status : Nat)
  | failed (error : String)
  | watching (w : Watching)

variable {m : Type → Type} [Monad m] [FileSystem m] [Host m]

/-- The root of a project: the directory of its file. -/
def rootOf (config : Path) : m Path := do
  let here : m Path := return (← Host.workingDir).getD ⟨"."⟩
  let dir ← match config.parent with
    | some parent => if parent.bytes.isEmpty then here else pure parent
    | none => here
  return (← Host.canonical dir).getD dir

def setUp (c : CommandLine) : m (Except ProjectFile.LoadError Setup) := do
  let config : Path := ⟨c.config⟩
  match ← ProjectFile.load config with
  | .error e => return .error e
  | .ok f =>
    let root ← rootOf config
    let ledgerFile := f.ledgerFile root
    let ledger ← Ledger.load ledgerFile f.casePolicy.resolve
    return .ok ⟨f.toProject root, Scope.ofNames c.units, root, ledgerFile, ledger, f.encodings⟩

def dryRun (s : Setup) : m Course := do
  match ← (Discovery.ofProject s.project s.scope).run with
  | .error _ => return .failed (errorText "Run cancelled" [])
  | .ok d =>
    let plan := Plan.ofDiscovery s.ledger d
    return .ended plan.describe (if plan.hasErrors then 1 else 0)

/-- The first pass, and what is to be watched unless it has been cancelled. -/
def beginWatch (s : Setup) : m Course := do
  let (report, stager) ← Pass.run (s.stager Stamps.empty) s.project s.scope
  if report.isCancelled then return .ended [report.summary] report.status
  else
    let watch ← WatchScope.ofProject Host.canonical s.project s.ledgerFile
    let root ← WatchScope.settle Host.canonical s.root
    return .watching ⟨s.project, s.scope, stager, watch, watch.targets root, report⟩

def run (c : CommandLine) : m Course := do
  match ← setUp c with
  | .error e => return .failed (loadingFailed c e)
  | .ok s =>
    if c.dryRun then dryRun s
    else if c.watch then beginWatch s
    else
      let (report, _) ← Pass.run (s.stager NoTracking.mk) s.project s.scope
      return .ended [report.summary] report.status

/-- One more pass, if one of the changed paths counts. -/
def Watching.react (w : Watching) (changed : List Path) : m (Option Watching) := do
  let counting ← changed.mapM (WatchScope.judge Host.canonical w.watch)
  if counting.any id then
    let (report, stager) ← Pass.run w.stager w.project w.scope
    return some { w with stager, last := report }
  else return none

end Program
end Staging
