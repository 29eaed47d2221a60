import Staging.Ledger.Storage
import Staging.Placeholder
import Staging.Plan
import Staging.Tracker

/-!
One pass over a project: discover, plan, apply, record. Obsolete outputs are deleted before
anything is staged, and candidates are staged in plan order, so the last one wins a shared output.
A failing item is reported and the pass goes on; cancelling stops it before the next item, and then
nothing is recorded.
-/
namespace Staging

/-- What is done to the text of filtered files: unit, text and properties to the new text. -/
abbrev TextFilter := String → List Char → PropertySet → List Char

def TextFilter.placeholders : TextFilter := fun _ text properties =>
  Placeholder.substituteChars properties text

/-- Everything that passes over a project share, and what they carry from one to the next. -/
structure Stager (τ : Type) where
  ledgerPath : Path
  ledger : Ledger
  filter : TextFilter
  charsetFor : Path → String
  tracker : τ

inductive Outcome where
  | completed
  | cancelled
  deriving DecidableEq, Repr

structure Report where
  outcome : Outcome
  processed : List Candidate := []
  /-- Outputs that were current already. -/
  skipped : List String := []
  deleted : List String := []
  messages : List Message := []
  deriving DecidableEq

namespace Report

def cancelled : Report := { outcome := .cancelled }

def isCancelled (r : Report) : Bool := r.outcome == .cancelled

def errors (r : Report) : List Message := r.messages.filter (·.severity == .error)

def warnings (r : Report) : List Message := r.messages.filter (·.severity == .warning)

def hasErrors (r : Report) : Bool := r.messages.any Message.isError

end Report

/-- Why an item could not be staged. -/
inductive ItemError where
  | call (e : FsError)
  | unsupportedCharset (name : String)
  | writing (output : Path) (e : FsError)
  deriving DecidableEq, Repr

def ItemError.message : ItemError → String
  | call e => e.message
  | unsupportedCharset name => Charset.unsupportedMessage name
  | writing output e => "writing filtered output " ++ output.quoted ++ ": " ++ e.message

/-- What applying a plan has done so far. -/
structure Applied (τ : Type) where
  tracker : τ
  processed : List Candidate := []
  skipped : List String := []
  deleted : List String := []
  messages : List Message := []

namespace Pass

def undeleted (target : Path) (e : FsError) : Message where
  severity := .warning
  location := target
  text := "cannot delete obsolete output: " ++ e.message

def unprocessed (item : Candidate) (e : ItemError) : Message where
  severity := .error
  unit := item.unit
  location := item.source
  text := "cannot process resource file: " ++ e.message

def unsaved (ledgerPath : Path) (e : Ledger.SaveError) : Message where
  severity := .error
  location := ledgerPath
  text := "cannot save output cache: " ++ e.summary

def forgotten (unit : String) : Message where
  severity := .info
  text := "forgot outputs of removed unit '" ++ unit ++ "'"

variable {m : Type → Type} [Monad m] [FileSystem m]

/-- Runs a file system call whose failure is the item's. -/
def calling {α : Type} (run : m (Except FsError α)) (wrap : FsError → ItemError := .call) :
    ExceptT ItemError m α :=
  ExceptT.adapt wrap (ExceptT.mk run)

/-- The new content of a filtered file. -/
def filterBytes {τ : Type} (s : Stager τ) (item : Candidate) (charset : Charset)
    (bytes : Bytes) : Bytes :=
  charset.encode (s.filter item.unit (charset.decode bytes) item.properties)

/-- Writes the output of one item. -/
def stageItem {τ : Type} (s : Stager τ) (item : Candidate) : ExceptT ItemError m Unit := do
  let output : Path := ⟨item.output⟩
  match output.parent with
  | some dir => calling (FileSystem.createDirs dir : m _)
  | none => pure ()
  if item.filtered then
    match Charset.ofName (s.charsetFor item.source) with
    | .error name => throw (.unsupportedCharset name)
    | .ok charset =>
      let bytes ← calling (FileSystem.read item.source : m _)
      calling (FileSystem.write output (filterBytes s item charset bytes) : m _) (.writing output)
  else
    calling (FileSystem.copy item.source output : m _)

variable {τ : Type} [Tracker τ]

/-- Deletes one obsolete output. The tracker forgets it first, whether or not it can be deleted. -/
def deleteStep (w : Applied τ) (path : String) : m (Applied τ) := do
  let target : Path := ⟨path⟩
  let w := { w with tracker := Tracker.forget w.tracker path }
  if ← FileSystem.isPresent target then
    match ← FileSystem.removeFile target with
    | .ok () => return { w with deleted := w.deleted ++ [path] }
    | .error e => return { w with messages := w.messages ++ [undeleted target e] }
  else return w

/-- Whether an item can be left alone: it is current, and its output still exists. -/
def isCurrent (w : Applied τ) (item : Candidate) : m Bool :=
  if Tracker.isCurrent w.tracker item then FileSystem.isPresent ⟨item.output⟩ else return false

def stageStep (s : Stager τ) (w : Applied τ) (item : Candidate) : m (Applied τ) := do
  if ← isCurrent w item then return { w with skipped := w.skipped ++ [item.output] }
  else
    match ← (stageItem s item).run with
    | .ok () =>
      return { w with
        tracker := Tracker.record w.tracker item
        processed := w.processed ++ [item] }
    | .error e => return { w with messages := w.messages ++ [unprocessed item e] }

/-- Takes one step for each element, looking before each whether the pass has been cancelled. The
flag says whether it was. -/
def sweep {α ω : Type} (step : ω → α → m ω) : List α → ω → m (ω × Bool)
  | [], w => return (w, false)
  | x :: xs, w => do
    if ← FileSystem.isCancelled then return (w, true)
    else sweep step xs (← step w x)

/-- Deletes and stages what the plan says. -/
def apply (s : Stager τ) (plan : Plan) : m (Applied τ × Bool) := do
  let (w, stopped) ← sweep deleteStep plan.deletions { tracker := s.tracker }
  if stopped then return (w, true)
  else sweep (stageStep s) plan.candidates w

/-- The ledger after the plan: current outputs of the ready units, and no units that do not exist
any more. -/
def recordPlan (l : Ledger) (plan : Plan) : Ledger :=
  plan.units.foldl (fun l u =>
    match u.current with
    | some outputs => l.record u.unit outputs
    | none => l) l

/-- Saves the ledger and says what is left to say. -/
def finish (s : Stager τ) (project : Project) (plan : Plan) (w : Applied τ) :
    m (Report × Stager τ) := do
  let recorded := recordPlan s.ledger plan
  let ledger := recorded.prune project.unitNames
  let gone := (recorded.strangers project.unitNames).map forgotten
  let unsaved := match ← ledger.save s.ledgerPath with
    | .ok () => []
    | .error e => [unsaved s.ledgerPath e]
  let report : Report :=
    { outcome := .completed
      processed := w.processed
      skipped := w.skipped
      deleted := w.deleted
      messages := plan.messages ++ w.messages ++ gone ++ unsaved }
  return (report, { s with ledger, tracker := w.tracker })

/-- One pass. It always has a report; the ledger changes only if the pass completes. -/
def run (s : Stager τ) (project : Project) (scope : Scope) : m (Report × Stager τ) := do
  match ← (Discovery.ofProject project scope).run with
  | .error _ => return (.cancelled, s)
  | .ok discovery =>
    let plan := Plan.ofDiscovery s.ledger discovery
    let (w, stopped) ← apply s plan
    if stopped then return (.cancelled, { s with tracker := w.tracker })
    else finish s project plan w

end Pass
end Staging
