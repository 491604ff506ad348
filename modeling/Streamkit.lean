import Streamkit.Check
import Streamkit.Json.Lookup
import Streamkit.Pipeline
import Streamkit.Retry.Session
import Streamkit.Sequence.Collect
import Streamkit.Sequence.Counting
import Streamkit.Sequence.Memo.Session
import Streamkit.Sequence.Merge.Session
import Streamkit.Sequence.Window.Session
import Streamkit.Value.Ranking
import Streamkit.Proofs.Merge.Transfer
import Streamkit.Proofs.Merge.HeapOrder
import Streamkit.Proofs.Merge.Scan
import Streamkit.Proofs.Merge.StableSort
import Streamkit.Proofs.Memo.Replay
import Streamkit.Proofs.Memo.Shelf
import Streamkit.Proofs.Memo.Store
import Streamkit.Proofs.Memo.Reading
import Streamkit.Proofs.Memo.ReplaySession
import Streamkit.Proofs.Memo.Session
import Streamkit.Proofs.Memo.Demand
import Streamkit.Proofs.Memo.Independence
import Streamkit.Proofs.Window.Cuts
import Streamkit.Proofs.Window.Polls
import Streamkit.Proofs.Outcome
import Streamkit.Proofs.Merge.Shuffle
import Streamkit.Proofs.Merge.Conservation
import Streamkit.Proofs.Memo.Merging
import Streamkit.Proofs.Coupling
import Streamkit.Proofs.Memo.Lockstep
import Streamkit.Proofs.Memo.Poison
import Streamkit.Proofs.Memo.Standing
import Streamkit.Proofs.Memo.Histories
import Streamkit.Proofs.Memo.Poisoning
import Streamkit.Proofs.Retry.Trace
import Streamkit.Proofs.Merge.Accounting
import Streamkit.Proofs.Memo.Windows
import Streamkit.Proofs.Memo.Forcing
import Streamkit.Proofs.Memo.Layers
import Streamkit.Proofs.Memo.Spreading
import Streamkit.Proofs.Json.Collapse
import Streamkit.Proofs.Merge.ReadAhead
import Streamkit.Proofs.Merge.SizeHint
import Streamkit.Proofs.Retry.Reuse
import Streamkit.Proofs.Merge.Groups
import Streamkit.Proofs.Retry.Leaves
import Streamkit.Proofs.Collect.Payloads
import Streamkit.Proofs.Collect.Sides
import Streamkit.Proofs.Searching
import Streamkit.Proofs.Memo.Searching
import Streamkit.Proofs.Either.Mirror
import Streamkit.Proofs.Either.Chaining
import Streamkit.Proofs.Either.Views
import Streamkit.Proofs.Value.Derived
import Streamkit.Proofs.Pipeline.Query
import Streamkit.Proofs.Pipeline.Discipline
import Streamkit.Proofs.Merge.HeapInvariant
import Streamkit.Proofs.Merge.Rounds
import Streamkit.Proofs.Merge.Comparisons
