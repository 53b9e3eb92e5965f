import CastGuard.Text.Word
import CastGuard.Text.Class
import CastGuard.Text.Lowercase
import CastGuard.Text.Printable
import CastGuard.Text.Literal
import CastGuard.Lookup.Rule
import CastGuard.Downcast.Rule
import CastGuard.Fixer
import CastGuard.ScriptPath
import CastGuard.Selection
import CastGuard.Diff.Script
import CastGuard.Diff.Compaction
import CastGuard.Report
import CastGuard.Glob.Pattern
import CastGuard.Store.Memory
import CastGuard.Store.Fault
import CastGuard.Run
import CastGuard.Toml.Quoted
import CastGuard.Toml.Value
import CastGuard.SettingsFile
import CastGuard.Store.Tree
import CastGuard.Disk.Calls
import CastGuard.CommandLine
import CastGuard.Main
import CastGuard.Proofs.Lookup.Decomposition
import CastGuard.Proofs.Lookup.Occurrence
import CastGuard.Proofs.Lookup.Rematch
import CastGuard.Proofs.Lookup.Literals
import CastGuard.Proofs.Lookup.Alike
import CastGuard.Proofs.Downcast.Pass
import CastGuard.Proofs.Downcast.Settled
import CastGuard.Proofs.Downcast.Convergence
import CastGuard.Proofs.Downcast.TypeByType
import CastGuard.Proofs.Downcast.AnyOrder
import CastGuard.Proofs.Downcast.Temporaries
import CastGuard.Proofs.Downcast.Calls
import CastGuard.Proofs.Fixer.Stability
import CastGuard.Proofs.Fixer.Growth
import CastGuard.Proofs.Fixer.Counts
import CastGuard.Proofs.Fixer.Recount
import CastGuard.Proofs.Fixer.LineEnds
import CastGuard.Proofs.ScriptPath.Order
import CastGuard.Proofs.Run.Logged
import CastGuard.Proofs.Run.Atomicity
import CastGuard.Proofs.Diff.Compaction
import CastGuard.Proofs.Diff.Hunks
import CastGuard.Proofs.Diff.Reading
import CastGuard.Proofs.Run.Patch
import CastGuard.Proofs.Disk.Below
import CastGuard.Proofs.Glob.Pattern
import CastGuard.Proofs.Glob.Search
import CastGuard.Proofs.Glob.Refusal
import CastGuard.Proofs.Run.Preview
import CastGuard.Proofs.Run.Accounting
import CastGuard.Proofs.Store.Agreement
import CastGuard.Proofs.Store.Confinement
import CastGuard.Proofs.Store.Writing
import CastGuard.Proofs.CommandLine.Effects
import CastGuard.Proofs.Selection.Exclusion
import CastGuard.Proofs.Lookup.Preference
import CastGuard.Proofs.SettingsFile.ExtraTypes
