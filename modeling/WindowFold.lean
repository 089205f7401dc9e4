import WindowFold.Aggregate.Builtin
import WindowFold.Machine.Run
import WindowFold.Pass.Workspace
import WindowFold.Session.Step
import WindowFold.Stmt.Text
import WindowFold.Proofs.Machine.Assignment
import WindowFold.Proofs.Emit.Handles
import WindowFold.Proofs.Emit.Growth
import WindowFold.Proofs.Pass.Phases
import WindowFold.Proofs.Workspace.Record
import WindowFold.Proofs.Builtin.Code
import WindowFold.Proofs.Builtin.Edge
import WindowFold.Proofs.Builtin.Phases
import WindowFold.Proofs.Builtin.Record
import WindowFold.Proofs.Builtin.Unrolling
import WindowFold.Proofs.Builtin.Windowed
import WindowFold.Proofs.Workspace.Initialised
import WindowFold.Proofs.Workspace.Interference
import WindowFold.Proofs.Builtin.Confined
import WindowFold.Proofs.Workspace.Answers
import WindowFold.Proofs.Builtin.Rerun
import WindowFold.Proofs.Builtin.Account
import WindowFold.Proofs.Pass.Names
import WindowFold.Proofs.Builtin.Trace
import WindowFold.Proofs.Builtin.Folding
import WindowFold.Proofs.Builtin.Ledger
import WindowFold.Proofs.Builtin.Merged
import WindowFold.Proofs.Workspace.Lifecycle
import WindowFold.Proofs.Builtin.Calls
import WindowFold.Proofs.Builtin.Positions
import WindowFold.Proofs.Workspace.Merging
import WindowFold.Proofs.Machine.Reached
import WindowFold.Proofs.Machine.Conforming
import WindowFold.Proofs.Builtin.Typing
import WindowFold.Proofs.Builtin.Codes
import WindowFold.Proofs.Builtin.Preservation
import WindowFold.Proofs.Builtin.Layouts
import WindowFold.Proofs.Builtin.Nullability
import WindowFold.Proofs.Builtin.Refusals
import WindowFold.Proofs.Workspace.Identity
import WindowFold.Proofs.Registry.Lookup
import WindowFold.Proofs.Builtin.Sizing
import WindowFold.Proofs.Workspace.Checks
import WindowFold.Proofs.Text.Block
import WindowFold.Proofs.Frame.Completion
import WindowFold.Proofs.Builtin.Extremes
import WindowFold.Proofs.Builtin.Dropped
import WindowFold.Proofs.Builtin.Shifted
import WindowFold.Proofs.Machine.Numbers
import WindowFold.Proofs.Builtin.LargeExtremes
import WindowFold.Proofs.Machine.Formula
import WindowFold.Proofs.Machine.Logic
import WindowFold.Proofs.Workspace.Naming
import WindowFold.Proofs.Builtin.Means
import WindowFold.Proofs.Machine.Ways
import WindowFold.Proofs.Workspace.Completeness
import WindowFold.Proofs.Workspace.WarmUps
