import Rdap.Lib.Machine
import Rdap.Lib.KeyedTable
import Rdap.Lib.Framing
import Rdap.Lib.OnceCell
import Rdap.Lib.Program
import Rdap.Lib.Loop
import Rdap.Lib.History
import Rdap.Lib.LastWrite
import Rdap.Python.Text
import Rdap.Python.Codec
import Rdap.Python.Value
import Rdap.Python.Json
import Rdap.Python.JsonRoundTrip
import Rdap.Python.JsonValues
import Rdap.Python.Lines
import Rdap.Python.Equality
import Rdap.Python.Raise
import Rdap.Protocol.Canon
import Rdap.Protocol.Bech32m
import Rdap.Protocol.Address
import Rdap.Lib.Radix
import Rdap.Protocol.Regrouping
import Rdap.Protocol.Checksum
import Rdap.Protocol.Bech32mRoundTrip
import Rdap.Protocol.Display
import Rdap.Revocation.Record
import Rdap.Revocation.Snapshot
import Rdap.Revocation.Store
import Rdap.Revocation.Denial
import Rdap.Revocation.Pending
import Rdap.Revocation.Forks
import Rdap.Revocation.Convergence
import Rdap.Lib.Sorting
import Rdap.Protocol.Hmac
import Rdap.Protocol.EcRatchet
import Rdap.Protocol.RatchetChains
import Rdap.Protocol.RatchetSession
import Rdap.Protocol.RatchetHolds
import Rdap.Protocol.RatchetAgreement
import Rdap.Protocol.RatchetReplay
import Rdap.Protocol.Scka
import Rdap.Protocol.SckaAgreement
import Rdap.Braid.Anchor
import Rdap.Python.Control
import Rdap.Identity.ReplayCache
import Rdap.Identity.Signing
import Rdap.Identity.Keys
import Rdap.Identity.Verify
import Rdap.Identity.Completeness
import Rdap.Identity.Binding
import Rdap.Identity.OnceOnly
import Rdap.Identity.Revocations
import Rdap.Agent.Authorize
import Rdap.Agent.Rejection
import Rdap.Agent.CancelRouting
import Rdap.Agent.Execute
import Rdap.Agent.Gate
import Rdap.Server.Task
import Rdap.Server.TaskStore
import Rdap.Server.StoreInvariant
import Rdap.Server.Admission
import Rdap.Server.Listing
import Rdap.Server.Pagination
import Rdap.Server.Rfc3339
import Rdap.Server.Chronology
import Rdap.Server.Cancellation
import Rdap.Server.Ingress
import Rdap.Server.Transport
import Rdap.Relay.OutcomeStore
import Rdap.Relay.Envelope
import Rdap.Relay.Delivery
import Rdap.Relay.CrossCarrier
import Rdap.Relay.Poison
import Rdap.Relay.Poll
import Rdap.Relay.Progress
import Rdap.Relay.Settled
import Rdap.Memory.GitScope
import Rdap.Memory.ScopeCheck
import Rdap.Memory.ScopeRange
import Rdap.Memory.Deltas
import Rdap.Memory.DeltaReads
import Rdap.Memory.Board
import Rdap.Memory.BoardConvergence
import Rdap.Lib.Reader
import Rdap.Lib.TextOrder
import Rdap.Braid.WireReader
import Rdap.Braid.Wire
import Rdap.Braid.WireCodecs
import Rdap.Braid.WireCanon
import Rdap.Braid.State
import Rdap.Braid.StateCodecs
import Rdap.Braid.StateCanon
import Rdap.Braid.AnchorChain
import Rdap.Lib.Layout
import Rdap.Protocol.Envelope
import Rdap.Protocol.EnvelopeCodec
import Rdap.Protocol.SignedRecord
import Rdap.Protocol.PairInit
import Rdap.Protocol.PairCodec
import Rdap.Lib.SlotPool
import Rdap.Server.IngressSlots
import Rdap.Server.IngressRuns
import Rdap.Server.IngressBodies
import Rdap.Lib.Labels
import Rdap.Protocol.SignedForms
import Rdap.Protocol.SigningSeparation
import Rdap.Python.Strip
import Rdap.Agent.NodeName
import Rdap.Memory.FileClaims
import Rdap.Memory.Goal
import Rdap.Lib.Sightings
import Rdap.Memory.Mentions
import Rdap.Server.ActiveTasks
import Rdap.Python.JsonAscii
import Rdap.Python.JsonReread
import Rdap.Agent.NodeIpc
import Rdap.Lib.StackWalk
import Rdap.Python.Hex
import Rdap.Identity.Whoami
import Rdap.Identity.WhoamiWalk
import Rdap.Identity.Invite
import Rdap.Lib.Escaping
import Rdap.Memory.BoardText
import Rdap.Lib.KeepFirst
import Rdap.Agent.Replies
import Rdap.Python.JsonSpaced
import Rdap.Memory.DeltaWrites
import Rdap.Memory.RecentEvents
import Rdap.Memory.EventSnapshot
import Rdap.Relay.ReplySize
import Rdap.Protocol.RouteCounters
import Rdap.Protocol.ChainReception
import Rdap.Protocol.BraidChunks
import Rdap.Revocation.RecordCodec
import Rdap.Protocol.TypingSlips
import Rdap.Mesh.Mailbox
import Rdap.Braid.ChunkReassembly
import Rdap.Mesh.TaskObject
import Rdap.Cli.TrustUpdates
import Rdap.Cli.LostUpdates
import Rdap.Relay.ReplyDelivery
import Rdap.Braid.PreparedRuns
import Rdap.Protocol.PairHandshake
import Rdap.Protocol.PairAgreement
import Rdap.Protocol.PairCompletion
import Rdap.Lib.Parallel
import Rdap.Memory.SyncCommands
import Rdap.Memory.SyncWorld
import Rdap.Memory.SyncKeeps
import Rdap.Memory.SyncRuns
import Rdap.Protocol.IndexedSession
import Rdap.Protocol.LaneKeys
import Rdap.Protocol.SealedAcks
import Rdap.Protocol.ReceiveCommit
import Rdap.Protocol.CommitLedger
import Rdap.Relay.SendTask
import Rdap.Relay.TaskAnswered
