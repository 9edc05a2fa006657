import NewZone.Lib.MontgomeryCurve
import NewZone.Lib.PrimeCertificate
import NewZone.Lib.ExceptBind
import NewZone.Js.Text
import NewZone.Crypto.X25519
import NewZone.Crypto.X25519Field
import NewZone.Crypto.X25519Agreement
import NewZone.Crypto.X25519Ladder
import NewZone.Lib.MontgomeryPoints
import NewZone.Crypto.X25519Points
import NewZone.Crypto.Node
import NewZone.Crypto.Hkdf
import NewZone.Crypto.HkdfRfc
import NewZone.Js.Number
import NewZone.Crypto.SessionKeys
import NewZone.Crypto.Aead
import NewZone.Crypto.SecureChannel
import NewZone.Lib.Runs
import NewZone.Lib.Registry
import NewZone.Lib.BoundedFifo
import NewZone.Lib.BoundedMap
import NewZone.Lib.Separator
import NewZone.Lib.Sha256
import NewZone.Lib.Words
import NewZone.Lib.KeyDerivation
import NewZone.Lib.Framing
import NewZone.Crypto.ChannelKeys
import NewZone.Crypto.ChannelRuns
import NewZone.Crypto.ChannelReplay
import NewZone.Crypto.ChannelSeparation
import NewZone.Crypto.Tabulated
import NewZone.Crypto.Ed25519
import NewZone.Crypto.Ed25519Modes
import NewZone.Crypto.Handshake
import NewZone.Crypto.KeyAgreement
import NewZone.Crypto.HandshakeRuns
import NewZone.Crypto.SecureSession
import NewZone.Js.NumberText
import NewZone.Js.Json
import NewZone.Js.Object
import NewZone.Js.Base64
import NewZone.Js.JsonOrder
import NewZone.Js.JsonEqual
import NewZone.Js.Conversion
import NewZone.Js.Url
import NewZone.Js.Casing
import NewZone.Crypto.Seed
import NewZone.Crypto.SeedKeys
import NewZone.Crypto.RoutingPacket
import NewZone.Crypto.RoutingAcceptance
import NewZone.Crypto.RoutingAnswers
import NewZone.Crypto.SignedPacket
import NewZone.Crypto.BodyBinding
import NewZone.Crypto.PacketExpiry
import NewZone.Lib.Latest
import NewZone.Lib.Gossip
import NewZone.Lib.Window
import NewZone.Lib.FifoCache
import NewZone.Lib.Leases
import NewZone.Js.Operators
import NewZone.Js.Prototype
import NewZone.Services.Replication
import NewZone.Services.TimedMap
import NewZone.Services.Convergence
import NewZone.Services.Snapshot
import NewZone.Services.Idempotence
import NewZone.Services.KeyValue
import NewZone.Services.Identity
import NewZone.Services.MergeHistory
import NewZone.Services.AcceptedEntries
import NewZone.Services.RefreshAnswers
import NewZone.Services.MergedEntries
import NewZone.Services.StateStore
import NewZone.Services.StateRetrieval
import NewZone.Services.StateBounds
import NewZone.Services.NewestWrite
import NewZone.Services.UnchangedMerge
import NewZone.Services.RefusedMerge
import NewZone.Services.TrustStore
import NewZone.Services.RequestBody
import NewZone.Services.RequestParsers
import NewZone.Services.ReplicationServer
import NewZone.Services.PushPull
import NewZone.Services.Gossip
import NewZone.Services.EventBus
import NewZone.Services.EventQueries
import NewZone.Services.Subscriptions
import NewZone.Services.Metrics
import NewZone.Services.Logging
import NewZone.Services.RecentMetrics
import NewZone.Services.Peers
import NewZone.Services.PeerRounds
import NewZone.Services.PeerMerges
import NewZone.Services.PeerHeartbeats
import NewZone.Services.RulesServer
import NewZone.Services.HistoryRule
import NewZone.Services.ReplicaHealth
import NewZone.Services.Consensus
import NewZone.Services.Decisions
import NewZone.Services.ProposalStatus
import NewZone.Services.Queue
import NewZone.Services.QueueFifo
import NewZone.Services.PacketCopy
import NewZone.Services.PacketReplay
import NewZone.Services.Discovery
import NewZone.Services.Scheduler
import NewZone.Services.Directory
import NewZone.Services.DirectoryLeases
import NewZone.Services.DirectoryHeartbeats
import NewZone.Services.DirectoryLiveness
import NewZone.Crypto.EncryptedPacket
import NewZone.Crypto.PacketEnvelope
import NewZone.Services.Gateway
import NewZone.Services.SignedDelivery
import NewZone.Services.SealedDelivery
import NewZone.Services.NonceCache
import NewZone.Services.Storage
import NewZone.Services.Publish
import NewZone.Services.HistoryQueue
import NewZone.Services.Forward
import NewZone.Services.HistoryPipeline
import NewZone.Services.PublishOutcomes
import NewZone.Services.ObjectIntegrity
import NewZone.Services.ContentIds
import NewZone.Services.Routing
import NewZone.Services.ForwardedAnswers
