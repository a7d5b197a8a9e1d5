import NavigatorEventbus.Lib.Base64
import NavigatorEventbus.Lib.Glob
import NavigatorEventbus.Lib.History
import NavigatorEventbus.Lib.IsoTime
import NavigatorEventbus.Lib.Json
import NavigatorEventbus.Lib.Program
import NavigatorEventbus.Lib.RelyGuarantee
import NavigatorEventbus.Lib.SortedSet
import NavigatorEventbus.Redis.Deliveries
import NavigatorEventbus.Redis.Effects
import NavigatorEventbus.Redis.Keyspace
import NavigatorEventbus.Redis.Pending
import NavigatorEventbus.Redis.Server
import NavigatorEventbus.Redis.Streams
import NavigatorEventbus.Events.Envelope
import NavigatorEventbus.Events.Ingress
import NavigatorEventbus.Events.Outbox
import NavigatorEventbus.Queues.Api
import NavigatorEventbus.Queues.Clients
import NavigatorEventbus.Queues.Config
import NavigatorEventbus.Queues.Deliverable
import NavigatorEventbus.Queues.Extensions
import NavigatorEventbus.Queues.Fanout
import NavigatorEventbus.Queues.Footprint
import NavigatorEventbus.Queues.Generation
import NavigatorEventbus.Queues.LeaseTiming
import NavigatorEventbus.Queues.MaxReceives
import NavigatorEventbus.Queues.Names
import NavigatorEventbus.Queues.Receipts
import NavigatorEventbus.Queues.Replicas
import NavigatorEventbus.Queues.Staleness
import NavigatorEventbus.Queues.Store
import NavigatorEventbus.Keyed.Config
import NavigatorEventbus.Keyed.Consistency
import NavigatorEventbus.Keyed.Fence
import NavigatorEventbus.Keyed.Guarded
import NavigatorEventbus.Keyed.Retention
import NavigatorEventbus.Keyed.Runs
import NavigatorEventbus.Keyed.Shelter
import NavigatorEventbus.Keyed.Silent
import NavigatorEventbus.Keyed.Store
import NavigatorEventbus.Keyed.System
import NavigatorEventbus.Bus.Dispatch
import NavigatorEventbus.Dlq.Handler
import NavigatorEventbus.Dlq.Replayable
import NavigatorEventbus.Backend.Core
import NavigatorEventbus.Backend.Loops
import NavigatorEventbus.Backend.Poison
import NavigatorEventbus.Backend.Steps
import NavigatorEventbus.Backend.Groups
import NavigatorEventbus.Backend.Broadcast
import NavigatorEventbus.Bus.Refusal
import NavigatorEventbus.Bus.Steps
import NavigatorEventbus.Bus.Echo
import NavigatorEventbus.Bus.Durability
import NavigatorEventbus.Bus.Recursion
import NavigatorEventbus.Lib.IpAddress
import NavigatorEventbus.Lib.Utf8
import NavigatorEventbus.Webhook.Core
import NavigatorEventbus.Webhook.Machine
import NavigatorEventbus.Webhook.Gate
import NavigatorEventbus.Lifecycle.Registry
import NavigatorEventbus.Webhook.Retries
import NavigatorEventbus.Lifecycle.Isolation
import NavigatorEventbus.Brokers.Core
import NavigatorEventbus.Brokers.Machine
import NavigatorEventbus.Brokers.Settlement
import NavigatorEventbus.Brokers.Authorization
import NavigatorEventbus.Brokers.Workers
import NavigatorEventbus.Brokers.Bridge
import NavigatorEventbus.Brokers.Republication
import NavigatorEventbus.Subscribers.Audit
import NavigatorEventbus.Subscribers.Conservation
import NavigatorEventbus.Subscribers.Notification
import NavigatorEventbus.Subscribers.Digests
import NavigatorEventbus.Events.RowCap
import NavigatorEventbus.Keyed.Names
import NavigatorEventbus.Lib.Double
import NavigatorEventbus.Keyed.Snapshots
import NavigatorEventbus.Keyed.Attempts
import NavigatorEventbus.Keyed.DefaultOrder
import NavigatorEventbus.Queues.Reclaim
import NavigatorEventbus.Events.Adapters
import NavigatorEventbus.Subscribers.Outgoing
import NavigatorEventbus.Subscribers.Buckets
import NavigatorEventbus.Bus.Permits
import NavigatorEventbus.Bus.Workers
import NavigatorEventbus.Keyed.Drained
import NavigatorEventbus.Bus.Backoff
import NavigatorEventbus.Keyed.Backoff
import NavigatorEventbus.Webhook.Registry
import NavigatorEventbus.Webhook.Dedup
import NavigatorEventbus.Bus.Subscriptions
import NavigatorEventbus.Webhook.Signatures
import NavigatorEventbus.Lib.Window
import NavigatorEventbus.Subscribers.Throttle
import NavigatorEventbus.Subscribers.Alerting
import NavigatorEventbus.Brokers.RoundTrip
import NavigatorEventbus.Lib.Hex
import NavigatorEventbus.Lifecycle.Trace
import NavigatorEventbus.Keyed.Exclusion
import NavigatorEventbus.Keyed.LostLease
import NavigatorEventbus.Keyed.Eligibility
import NavigatorEventbus.Keyed.HeadBlocking
import NavigatorEventbus.Keyed.Recovery
import NavigatorEventbus.Keyed.Economy
import NavigatorEventbus.Keyed.Consumer
import NavigatorEventbus.Keyed.Settlement
import NavigatorEventbus.Backend.PubSub
