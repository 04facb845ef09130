import MemShell.FileSystem.Results
import MemShell.Main
import MemShell.Proofs.Tree.Navigation
import MemShell.Proofs.Tree.Paths
import MemShell.Proofs.Endings
import MemShell.Proofs.FileSystem.Creation
import MemShell.Proofs.FileSystem.Changes
import MemShell.Proofs.FileSystem.WellFormed
import MemShell.Proofs.Snapshot.Reading
import MemShell.Proofs.Snapshot.RoundTrip
import MemShell.Proofs.Tree.Walk
import MemShell.Proofs.FileSystem.Reachable
import MemShell.Proofs.Snapshot.Names
import MemShell.Proofs.Line.Spelling
import MemShell.Proofs.Line.Sequences
import MemShell.Proofs.FileSystem.Access
import MemShell.Proofs.FileSystem.Rights
import MemShell.Proofs.Parallel
import MemShell.Proofs.Tree.Twins
import MemShell.Proofs.FileSystem.Secrecy
import MemShell.Proofs.Line.Comments
import MemShell.Proofs.Shell.Foreground
import MemShell.Proofs.Shell.Independence
import MemShell.Proofs.Shell.Durability
import MemShell.Proofs.Jobs.Ledger
import MemShell.Proofs.Jobs.Delivery
import MemShell.Proofs.Shell.Cancellation
import MemShell.Proofs.Shell.Authority
import MemShell.Proofs.Shell.ChangeFlag
import MemShell.Proofs.FileSystem.Reports
import MemShell.Proofs.Json.RoundTrip
import MemShell.Proofs.Snapshot.Containment
import MemShell.Proofs.Snapshot.Persistence
import MemShell.Proofs.Shell.Appending
import MemShell.Proofs.FileSystem.Owners
import MemShell.Proofs.Shell.Frames
import MemShell.Proofs.Shell.Shutdown
import MemShell.Proofs.Shell.Chains
import MemShell.Proofs.Session.Switching
import MemShell.Proofs.Shell.Outputs
import MemShell.Proofs.Shell.Removal
import MemShell.Proofs.Line.Pipelines
import MemShell.Proofs.Line.Operands
import MemShell.Proofs.Line.Composition
import MemShell.Proofs.Line.Gaps
import MemShell.Proofs.Line.Resolving
import MemShell.Proofs.Shell.Redirection
import MemShell.Proofs.Shell.Registration
import MemShell.Proofs.FileSystem.Moving
import MemShell.Proofs.FileSystem.Copying
import MemShell.Proofs.FileSystem.Removing
import MemShell.Proofs.FileSystem.Making
import MemShell.Proofs.FileSystem.Writing
import MemShell.Proofs.FileSystem.Places
import MemShell.Proofs.FileSystem.Times
import MemShell.Proofs.Command.Flags
import MemShell.Proofs.Command.Contracts
import MemShell.Proofs.FileSystem.Listing
import MemShell.Proofs.Builtins.Sorting
import MemShell.Proofs.Builtins.Counting
import MemShell.Proofs.Builtins.Searching
import MemShell.Proofs.Line.Variables
import MemShell.Proofs.Line.History
import MemShell.Proofs.Line.Division
import MemShell.Proofs.Membership
