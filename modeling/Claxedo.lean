import Claxedo.Lib.Run
import Claxedo.Sandbox.MemoryStore
import Claxedo.Sandbox.D1Store
import Claxedo.Sandbox.Linearization
import Claxedo.Lib.Interval
import Claxedo.Sandbox.MachineTime
import Claxedo.Delivery.Owner
import Claxedo.Delivery.AtMostOnce
import Claxedo.Events.Fanout
import Claxedo.Events.Stream
import Claxedo.Lib.Json
import Claxedo.Store.Usage
import Claxedo.Store.Projection
import Claxedo.Store.RuntimeStore
import Claxedo.Store.Journal
import Claxedo.Store.Fencing
import Claxedo.Store.Homes
import Claxedo.Store.Calls
import Claxedo.Lib.Lists
import Claxedo.Lib.Coalesce
import Claxedo.Store.Sessions
import Claxedo.Store.Recovery
import Claxedo.Store.Messages
import Claxedo.Store.Coverage
import Claxedo.Lib.Program
import Claxedo.Tasks.Contracts
import Claxedo.Tasks.Service
import Claxedo.Tasks.Store
import Claxedo.Tasks.Ledger
import Claxedo.Tasks.Traces
import Claxedo.Tasks.Forest
import Claxedo.Tasks.Effects
import Claxedo.Tasks.Pinned
import Claxedo.Tasks.Commit
import Claxedo.Tasks.Tree
import Claxedo.Tasks.Changes
import Claxedo.Tasks.Workspaces
import Claxedo.Tasks.Numbers
import Claxedo.Tasks.Once
import Claxedo.Tasks.Replay
import Claxedo.Tasks.RunsOnce
import Claxedo.Lib.Flight
import Claxedo.Pty.SafeSlice
import Claxedo.Pty.Terminal
import Claxedo.Pty.Reattach
import Claxedo.Pty.Retirement
import Claxedo.Pty.Retained
import Claxedo.Lib.LastMatch
import Claxedo.Pty.HistoryDisk
import Claxedo.Pty.Transcript
import Claxedo.Relay.Room
import Claxedo.Relay.Generations
import Claxedo.Relay.Channels
import Mathlib.Tactic
import Claxedo.Lib.Table
import Mathlib.Data.List.DropRight
import Claxedo.Turns.TurnLease
import Claxedo.Turns.Deadlines
import Claxedo.Documents.JobAuthority
import Claxedo.Documents.JobAsks
import Claxedo.Documents.Capabilities
import Claxedo.Usage.Contracts
import Claxedo.Usage.D1Ledger
import Claxedo.Usage.ReportsLinearize
import Claxedo.Usage.RuntimeLedger
import Claxedo.Usage.CloudTurn
import Claxedo.Usage.Outbox
import Claxedo.Subagents.ObservationRows
import Claxedo.Subagents.Index
import Claxedo.Subagents.Rebuild
import Claxedo.Turns.Admissions
import Claxedo.Turns.AdmissionsKept
import Claxedo.Turns.Handoffs
import Claxedo.Turns.Order
import Claxedo.Channels.ReplySink
import Claxedo.Connections.Tokens
import Claxedo.Connections.TokensOnce
import Claxedo.Connections.Service
import Claxedo.Connections.Rows
import Claxedo.Authority.SessionRows
import Claxedo.Authority.RowsPublished
import Claxedo.Authority.Republished
import Claxedo.Transcript.GroupParts
import Claxedo.Events.Shedding
import Claxedo.Hosted.Input
import Claxedo.Hosted.Snapshots
import Claxedo.Hosted.SnapshotCalls
import Claxedo.Hosted.SnapshotRuns
import Claxedo.Hosted.WholeTranscript
import Claxedo.Registration.Batches
import Claxedo.Registration.Registered
import Claxedo.Transcript.Alone
import Claxedo.Transcript.TurnWalk
import Claxedo.Transcript.Partition
import Claxedo.Transcript.TurnPages
import Claxedo.Access.OneRule
import Claxedo.Access.Standing
import Claxedo.Lib.SqlHoles
import Claxedo.Events.ReplayBuffer
import Claxedo.Tasks.Paging
import Claxedo.Net.OneVerdict
import Claxedo.Pty.CleanCut
import Claxedo.Pty.CwdTracked
import Claxedo.Presentation.Trace
import Claxedo.Presentation.Swept
import Claxedo.Presentation.Retracted
import Claxedo.Tasks.StartAccounts
import Claxedo.Presentation.Streamed
import Claxedo.Activity.StatusFollows
import Claxedo.Documents.Stamps
import Claxedo.Documents.BasedOnText
import Claxedo.Subagents.NewestRun
import Claxedo.Usage.VerdictKept
import Claxedo.Usage.Interleaving
import Claxedo.Helpers.LimitConcurrency
import Claxedo.Helpers.KeyedSerializer
import Claxedo.Turns.Leases
