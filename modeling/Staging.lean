import Staging.FileSystem.Disk
import Staging.FileSystem.Guarded
import Staging.FileSystem.History
import Staging.FileSystem.Memory
import Staging.FileSystem.Polls
import Staging.Main
import Staging.Proofs.Charset
import Staging.Proofs.Discovery.Alike
import Staging.Proofs.Discovery.Descent
import Staging.Proofs.Discovery.Exactness
import Staging.Proofs.Discovery.Isolation
import Staging.Proofs.Discovery.Messages
import Staging.Proofs.Discovery.Outputs
import Staging.Proofs.Discovery.Polling
import Staging.Proofs.Discovery.Properties
import Staging.Proofs.Discovery.Schedule
import Staging.Proofs.Discovery.Sources
import Staging.Proofs.Discovery.Units
import Staging.Proofs.Execution
import Staging.Proofs.Glob
import Staging.Proofs.Ledger.Acceptance
import Staging.Proofs.Ledger.Casing
import Staging.Proofs.Ledger.Reading
import Staging.Proofs.Ledger.Recording
import Staging.Proofs.Ledger.RoundTrip
import Staging.Proofs.Ledger.Saving
import Staging.Proofs.Memory.Abreast
import Staging.Proofs.Memory.Apart
import Staging.Proofs.Memory.Change
import Staging.Proofs.Memory.Discovery
import Staging.Proofs.Memory.Frame
import Staging.Proofs.Memory.Growth
import Staging.Proofs.Memory.Kinds
import Staging.Proofs.Memory.Likeness
import Staging.Proofs.Memory.Listing
import Staging.Proofs.Memory.Lockstep
import Staging.Proofs.Memory.Names
import Staging.Proofs.Memory.Operations
import Staging.Proofs.Memory.Place
import Staging.Proofs.Memory.Retracing
import Staging.Proofs.Memory.Steps
import Staging.Proofs.Memory.Sweep
import Staging.Proofs.Memory.Tree
import Staging.Proofs.Pass.Cancellation
import Staging.Proofs.Pass.Content
import Staging.Proofs.Pass.Deletion
import Staging.Proofs.Pass.Filtering
import Staging.Proofs.Pass.Footprint
import Staging.Proofs.Pass.Forecast
import Staging.Proofs.Pass.History
import Staging.Proofs.Pass.Idempotence
import Staging.Proofs.Pass.Interruption
import Staging.Proofs.Pass.Messages
import Staging.Proofs.Pass.Polling
import Staging.Proofs.Pass.Record
import Staging.Proofs.Pass.Recovery
import Staging.Proofs.Pass.Repetition
import Staging.Proofs.Pass.Resumption
import Staging.Proofs.Pass.Run
import Staging.Proofs.Pass.Scoping
import Staging.Proofs.Pass.Session
import Staging.Proofs.Pass.Skipping
import Staging.Proofs.Pass.Survival
import Staging.Proofs.Path
import Staging.Proofs.Path.Inverse
import Staging.Proofs.Path.Relative
import Staging.Proofs.PathSet
import Staging.Proofs.PathSet.Equality
import Staging.Proofs.PathSet.Spellings
import Staging.Proofs.Placeholder
import Staging.Proofs.Placeholder.Words
import Staging.Proofs.ProjectFile.Checking
import Staging.Proofs.PropertySet.Building
import Staging.Proofs.PropertySet.Continuation
import Staging.Proofs.PropertySet.Escapes
import Staging.Proofs.PropertySet.Fingerprint
import Staging.Proofs.PropertySet.Joining
import Staging.Proofs.PropertySet.Writing
import Staging.Proofs.Selection
import Staging.Proofs.Selection.Patterns
import Staging.Proofs.SortedMap
import Staging.Proofs.Stamp
import Staging.Proofs.Text.Lines
import Staging.Proofs.Text.Numeral
import Staging.Proofs.Text.Spelling
import Staging.Proofs.Text.Utf8
import Staging.Proofs.WatchScope
import Staging.Proofs.WatchScope.Inputs
import Staging.Proofs.WatchScope.Targets
