import PagedServing.Batch.Assembly
import PagedServing.Batch.Basic
import PagedServing.Batch.Tensors
import PagedServing.BlockHash
import PagedServing.Cache.Basic
import PagedServing.Cache.Coverage
import PagedServing.Cache.Release
import PagedServing.Cache.Swapping
import PagedServing.Config
import PagedServing.Decimal.Nearest
import PagedServing.Decimal.Number
import PagedServing.Decimal.Shortest
import PagedServing.Device
import PagedServing.Digest
import PagedServing.Engine.Background
import PagedServing.Engine.Basic
import PagedServing.Engine.Host
import PagedServing.Engine.Intake
import PagedServing.Engine.Iteration
import PagedServing.Engine.Lifecycle
import PagedServing.Engine.Offline
import PagedServing.Engine.TextService
import PagedServing.Fault
import PagedServing.Logging.Journal
import PagedServing.Logging.Registry
import PagedServing.Logging.Severity
import PagedServing.Logging.Template
import PagedServing.Model.Runner
import PagedServing.Model.Sampler
import PagedServing.Model.Shift
import PagedServing.Offset
import PagedServing.OrderedMap
import PagedServing.Output
import PagedServing.Pool
import PagedServing.Proofs.Batch.Flattening
import PagedServing.Proofs.Batch.Layout
import PagedServing.Proofs.Batch.Packing
import PagedServing.Proofs.Cache.Allocation
import PagedServing.Proofs.Cache.Chain
import PagedServing.Proofs.Cache.Change
import PagedServing.Proofs.Cache.Confinement
import PagedServing.Proofs.Cache.Content
import PagedServing.Proofs.Cache.Frame
import PagedServing.Proofs.Cache.Growth
import PagedServing.Proofs.Cache.Publication
import PagedServing.Proofs.Cache.Release
import PagedServing.Proofs.Cache.Sound
import PagedServing.Proofs.Cache.Supply
import PagedServing.Proofs.Cache.Swapping
import PagedServing.Proofs.Cache.Transcripts
import PagedServing.Proofs.Cache.Transfer
import PagedServing.Proofs.Ensures
import PagedServing.Proofs.Memory.Backing
import PagedServing.Proofs.Memory.Collisions
import PagedServing.Proofs.Memory.Execution
import PagedServing.Proofs.Memory.Moves
import PagedServing.Proofs.Memory.Runs
import PagedServing.Proofs.Memory.Settlement
import PagedServing.Proofs.Memory.Slots
import PagedServing.Proofs.Memory.Soundness
import PagedServing.Proofs.OrderedMap
import PagedServing.Proofs.Pool.Balance
import PagedServing.Proofs.Pool.Count
import PagedServing.Proofs.Pool.Entry
import PagedServing.Proofs.Pool.Holders
import PagedServing.Proofs.Pool.Labels
import PagedServing.Proofs.Queue
import PagedServing.Proofs.Returns
import PagedServing.Proofs.Scheduler.Admission
import PagedServing.Proofs.Scheduler.Assembly
import PagedServing.Proofs.Scheduler.Batching
import PagedServing.Proofs.Scheduler.Calls
import PagedServing.Proofs.Scheduler.Capacity
import PagedServing.Proofs.Scheduler.Commitment
import PagedServing.Proofs.Scheduler.Conservation
import PagedServing.Proofs.Scheduler.Delivery
import PagedServing.Proofs.Scheduler.Discipline
import PagedServing.Proofs.Scheduler.Ending
import PagedServing.Proofs.Scheduler.FailedBatch
import PagedServing.Proofs.Scheduler.FailedSample
import PagedServing.Proofs.Scheduler.Failure
import PagedServing.Proofs.Scheduler.Fates
import PagedServing.Proofs.Scheduler.Hearing
import PagedServing.Proofs.Scheduler.Intake
import PagedServing.Proofs.Scheduler.Iteration
import PagedServing.Proofs.Scheduler.Ledger
import PagedServing.Proofs.Scheduler.Lines
import PagedServing.Proofs.Scheduler.Orderly
import PagedServing.Proofs.Scheduler.Participation
import PagedServing.Proofs.Scheduler.Preemption
import PagedServing.Proofs.Scheduler.Progress
import PagedServing.Proofs.Scheduler.Ranking
import PagedServing.Proofs.Scheduler.Reference
import PagedServing.Proofs.Scheduler.Retreat
import PagedServing.Proofs.Scheduler.Rounds
import PagedServing.Proofs.Scheduler.Runs
import PagedServing.Proofs.Scheduler.Schedule
import PagedServing.Proofs.Scheduler.Sessions
import PagedServing.Proofs.Scheduler.Starvation
import PagedServing.Proofs.Scheduler.SwapPlan
import PagedServing.Proofs.Scheduler.Targets
import PagedServing.Proofs.Scheduler.Termination
import PagedServing.Proofs.Scheduler.Turns
import PagedServing.Proofs.Sequence
import PagedServing.Proofs.Yields
import PagedServing.Rehearsal.Bench
import PagedServing.Rehearsal.Desk
import PagedServing.Rehearsal.Script
import PagedServing.Rehearsal.Stage
import PagedServing.Sampling
import PagedServing.Scheduler.Audit
import PagedServing.Scheduler.Basic
import PagedServing.Scheduler.Commit
import PagedServing.Scheduler.Iteration
import PagedServing.Scheduler.Planning
import PagedServing.Scheduler.Queue
import PagedServing.Scheduler.Requests
import PagedServing.Scheduler.Stats
import PagedServing.Sequence.Basic
import PagedServing.Sequence.Status
import PagedServing.Sequence.Store
import PagedServing.Text.Blank
import PagedServing.Text.Capitals
import PagedServing.Text.CodePoints
import PagedServing.Text.Listed
import PagedServing.Text.Quoted
import PagedServing.Total
import PagedServing.Wire.Json
import PagedServing.Wire.Reader
import PagedServing.Wire.Writer
import PagedServing.Proofs.Engine.Service
import PagedServing.Proofs.Engine.Standing
import PagedServing.Proofs.Engine.Intake
import PagedServing.Proofs.Engine.Serving
import PagedServing.Proofs.Engine.Record
import PagedServing.Proofs.Engine.Telling
import PagedServing.Proofs.Engine.Truthfulness
import PagedServing.Proofs.Engine.Iterating
import PagedServing.Proofs.Engine.Winding
import PagedServing.Proofs.Engine.Completion
import PagedServing.Proofs.Engine.Following
import PagedServing.Proofs.Engine.Generation
import PagedServing.Proofs.Engine.Recovery
import PagedServing.Proofs.Scheduler.Consistency
import PagedServing.Proofs.Scheduler.Loss
import PagedServing.Proofs.Engine.Frame
import PagedServing.Proofs.Engine.Shutdown
import PagedServing.Proofs.Cache.Tally
import PagedServing.Proofs.Cache.Accounting
import PagedServing.Proofs.Tracks
import PagedServing.Proofs.Cache.Reports
import PagedServing.Proofs.Scheduler.Likeness
import PagedServing.Proofs.Scheduler.Submission
import PagedServing.Proofs.Cache.Blockwise
import PagedServing.Proofs.Cache.Exchange
import PagedServing.Proofs.Cache.Exactness
import PagedServing.Proofs.Cache.CopyOnWrite
import PagedServing.Proofs.Cache.Tidiness
import PagedServing.Proofs.Cache.LongestChain
import PagedServing.Proofs.Cache.Findability
import PagedServing.Proofs.Scheduler.Housekeeping
import PagedServing.Proofs.Scheduler.Upkeep
import PagedServing.Proofs.Scheduler.Sharing
import PagedServing.Proofs.Scheduler.Revocation
import PagedServing.Proofs.Scheduler.Stopping
import PagedServing.Proofs.Pool.Operations
import PagedServing.Proofs.Pool.Freshness
import PagedServing.Proofs.Cache.Prefixes
import PagedServing.Proofs.Batch.Rows
