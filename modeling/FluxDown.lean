import FluxDown.Base.SortedMap
import FluxDown.Base.Tiling
import FluxDown.Base.Run
import FluxDown.Base.Saturating
import FluxDown.Engine.PathScheduler
import FluxDown.Engine.Segment
import FluxDown.Engine.WorkAssignment
import FluxDown.Engine.Layout
import FluxDown.Engine.LayoutInvariant
import FluxDown.Engine.Transfer
import FluxDown.Engine.TransferInvariant
import FluxDown.Engine.SyncGate
import FluxDown.Engine.SyncGateSafety
import FluxDown.Engine.RampPolicy
import FluxDown.Engine.RampSafety
import FluxDown.Base.Ranked
import FluxDown.Engine.QueueOrder
import FluxDown.Engine.QueueOrderSync
import FluxDown.Protocol.QueueTable
import FluxDown.Protocol.Event
import FluxDown.Protocol.Agent
import FluxDown.Protocol.TaskView
import FluxDown.Base.Coalescing
import FluxDown.Protocol.Coalesce
import FluxDown.Protocol.EventLocality
import FluxDown.Protocol.CoalesceMerge
import FluxDown.Protocol.CoalesceSafety
import FluxDown.Protocol.Backlog
import FluxDown.Link.Crypto
import FluxDown.Link.Types
import FluxDown.Link.Authorize
import FluxDown.Link.Text
import FluxDown.Link.Address
import FluxDown.Link.Transcript
import FluxDown.Link.Responder
import FluxDown.Link.PairingSafety
import FluxDown.Link.PairingRefusal
import FluxDown.Link.GuessingBound
import FluxDown.Base.Framing
import FluxDown.Link.Initiator
import FluxDown.Link.PairingSecrets
import FluxDown.Link.PairingAgreement
import FluxDown.Base.Indexed
import FluxDown.Daemon.EventHub
import FluxDown.Daemon.Counters
import FluxDown.Share.Hashing
import FluxDown.Share.Ticket
import FluxDown.Share.SwarmServer
import FluxDown.Share.SwarmAuthority
import FluxDown.Share.SwarmAnswers
import FluxDown.Share.SwarmCapacity
import FluxDown.Share.SwarmServing
import FluxDown.Engine.Seeding
import FluxDown.Engine.SeedingReconcile
import FluxDown.Engine.SeedingSafety
import FluxDown.Engine.SeedingConservation
import FluxDown.Engine.SeedingExact
import FluxDown.Agent.StateStore
import FluxDown.Agent.StateStoreSafety
import FluxDown.Ed2k.Hash
import FluxDown.Ed2k.Peer
import FluxDown.Ed2k.HonestPeer
import FluxDown.Ed2k.BlamedPeer
import FluxDown.Agent.SettingsEdits
import FluxDown.Engine.SegmentRetry
import FluxDown.Engine.VersionLatch
import FluxDown.Agent.AccountSwitch
import FluxDown.Engine.SpeedLimiter
import FluxDown.Daemon.Traffic
import FluxDown.Daemon.TrafficRuns
import FluxDown.Ed2k.Hashset
import FluxDown.Link.Messages
import FluxDown.Link.DataPlaneBinding
import FluxDown.Base.Intervals
import FluxDown.Ed2k.Frames
import FluxDown.Ed2k.BlockSafety
import FluxDown.Base.Sparse
import FluxDown.Engine.PartFile
import FluxDown.Engine.PartLoad
import FluxDown.Engine.PartRanges
import FluxDown.Engine.PartStorage
import FluxDown.Engine.PartBoundary
import FluxDown.Engine.PartRoundTrip
import FluxDown.Share.ChunkWords
import FluxDown.Engine.SpeedHistory
import FluxDown.Link.AddressRoundTrip
import FluxDown.Base.Utf8
import FluxDown.Engine.Naming
import FluxDown.Engine.ReportLease
import FluxDown.Engine.NodePool
import FluxDown.Engine.NodePoolSafety
import FluxDown.Base.Tombstones
import FluxDown.Web.TaskIndex
import FluxDown.Web.TaskDraft
import FluxDown.Web.TaskHistory
import FluxDown.Web.TaskLog
import FluxDown.Base.Percent
import FluxDown.Engine.ProxyHosts
import FluxDown.Engine.ProxyConfig
import FluxDown.Engine.ProxyRules
import FluxDown.Engine.ProxyUrlRoundTrip
import FluxDown.Engine.ProxyRulesAgree
import FluxDown.Engine.ProxyRuleCache
import FluxDown.Engine.RouteHealth
import FluxDown.Engine.RouteHealthSafety
import FluxDown.Engine.ReorderWindow
import FluxDown.Engine.ReorderWindowSteps
import FluxDown.Engine.ReorderWindowSafety
import FluxDown.Engine.ReorderWindowProgress
import FluxDown.Engine.Webhook
import FluxDown.Engine.WebhookLane
import FluxDown.Engine.WebhookQueue
import FluxDown.Engine.WebhookAccount
import FluxDown.Engine.RequestPatchOrder
import FluxDown.Ed2k.WireCodec
import FluxDown.Ed2k.WireAgreement
import FluxDown.Engine.WebhookTemplate
import FluxDown.Protocol.ServerTables
import FluxDown.Protocol.TableSyncReadings
import FluxDown.Ed2k.SchedulerContent
import FluxDown.Engine.SegmentStore
