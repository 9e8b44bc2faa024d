import RootStore.Proofs.Sequences
import RootStore.Proofs.Storage.Removal
import RootStore.Proofs.World.Run
import RootStore.Proofs.World.Sound
import RootStore.Script.Run
import RootStore.Proofs.World.Transition
import RootStore.Proofs.World.Effect
import RootStore.Proofs.Pass.Pinned
import RootStore.Proofs.Pass.Scans
import RootStore.Proofs.Pass.Once
import RootStore.Proofs.Handle.Contents
import RootStore.Proofs.Handle.Refinement
import RootStore.Proofs.World.Memory
import RootStore.Proofs.Race.Protocol
import RootStore.Proofs.Race.Invariant
import RootStore.Proofs.Race.Partition
import RootStore.Proofs.Pass.Iterate
import RootStore.Proofs.Storage.Shape
import RootStore.Proofs.World.Operation
import RootStore.Proofs.World.ActiveList
import RootStore.Proofs.World.Queue
import RootStore.Proofs.Handle.Null
import RootStore.Proofs.Race.Contest
import RootStore.Proofs.Race.Undisturbed
import RootStore.Proofs.Storage.Balance
import RootStore.Proofs.World.Accounts
import RootStore.Proofs.World.Blind
import RootStore.Proofs.Pass.Flag
import RootStore.Proofs.Pass.Shared
import RootStore.Proofs.Race.Workers
import RootStore.Proofs.Race.Plan
import RootStore.Proofs.Race.Crew
import RootStore.Proofs.Race.Alone
import RootStore.Proofs.Race.Agreement
import RootStore.Proofs.World.Capacity
import RootStore.Proofs.World.Record
import RootStore.Proofs.Pass.Trace
import RootStore.Proofs.World.Ledger
import RootStore.Proofs.Storage.Places
import RootStore.Proofs.Pass.Visits
import RootStore.Proofs.Pass.Culled
import RootStore.Proofs.Pass.Weak
import RootStore.Proofs.World.Outcome
import RootStore.Proofs.Handle.Overwritten
import RootStore.Proofs.Pass.Verdict
import RootStore.Proofs.World.Clearance
import RootStore.Proofs.Storage.Supply
import RootStore.Proofs.World.Reuse
import RootStore.Proofs.World.Attempt
import RootStore.Proofs.Handle.Stranded
import RootStore.Proofs.Handle.Unnamed
import RootStore.Proofs.World.Refusal
import RootStore.Proofs.Block.Run
import RootStore.Proofs.Block.Entries
import RootStore.Proofs.Block.Snapshot
import RootStore.Proofs.World.Course
import RootStore.Proofs.Storage.Walks
import RootStore.Proofs.Pass.Turns
import RootStore.Proofs.Pass.Termination
import RootStore.Proofs.Pass.Frame
import RootStore.Proofs.Storage.Marks
import RootStore.Proofs.World.Change
import RootStore.Proofs.World.Erasure
import RootStore.Proofs.World.Layout
import RootStore.Proofs.Handle.Addresses
