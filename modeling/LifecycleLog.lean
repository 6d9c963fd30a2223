import LifecycleLog.Table
import LifecycleLog.Span
import LifecycleLog.Program
import LifecycleLog.Text.Utf8
import LifecycleLog.Store.Nested
import LifecycleLog.Store.Flat
import LifecycleLog.Errand
import LifecycleLog.Decimal.Shortest
import LifecycleLog.Json.Read
import LifecycleLog.Calendar
import LifecycleLog.Cache.Things
import LifecycleLog.Cache.Routes
import LifecycleLog.Event.Producer
import LifecycleLog.Projection
import LifecycleLog.Adapter
import LifecycleLog.Subscription.Loop
import LifecycleLog.Faults
import LifecycleLog.Subscription.Timed
import LifecycleLog.Wire.Frame
import LifecycleLog.Toml.Read
import LifecycleLog.Settings.Load
import LifecycleLog.Remote.Script
import LifecycleLog.Remote.Sharing
import LifecycleLog.Proofs.Cache.Stages
import LifecycleLog.Proofs.Cache.Pairing
import LifecycleLog.Proofs.Store.Groups
import LifecycleLog.Proofs.Store.Ledger
import LifecycleLog.Proofs.Store.Holdings
import LifecycleLog.Proofs.Subscription.Moves
import LifecycleLog.Proofs.Subscription.Order
import LifecycleLog.Proofs.Projection.Replay
import LifecycleLog.Proofs.Store.InLine
import LifecycleLog.Proofs.Projection.ExactlyOnce
import LifecycleLog.Proofs.Store.Trails
import LifecycleLog.Proofs.Store.Agreement
import LifecycleLog.Proofs.Text.Utf8
import LifecycleLog.Proofs.Remote.Transparency
import LifecycleLog.Proofs.Subscription.LostReplies
import LifecycleLog.Proofs.Store.Growth
import LifecycleLog.Proofs.Subscription.AtLeastOnce
import LifecycleLog.Proofs.Cache.Forgetting
import LifecycleLog.Proofs.Projection.ForeignIds
import LifecycleLog.Proofs.Projection.LastWriter
import LifecycleLog.Proofs.Remote.Oversize
import LifecycleLog.Proofs.Subscription.Claims
import LifecycleLog.Proofs.Cache.KeySpaces
import LifecycleLog.Proofs.Projection.Convergence
import LifecycleLog.Proofs.Wire.Truncation
import LifecycleLog.Proofs.Cache.Identification
import LifecycleLog.Proofs.Cache.SharedPairs
import LifecycleLog.Proofs.Cache.Clashes
import LifecycleLog.Proofs.Wire.Streams
import LifecycleLog.Proofs.LeftOut
import LifecycleLog.Proofs.Store.GroupsApart
import LifecycleLog.Proofs.Cache.RoutesApart
import LifecycleLog.Proofs.Subscription.Handovers
import LifecycleLog.Proofs.Event.Records
import LifecycleLog.Proofs.Cache.Retries
import LifecycleLog.Proofs.Store.Postings
import LifecycleLog.Proofs.Store.Bookkeeping
import LifecycleLog.Proofs.Remote.Traffic
import LifecycleLog.Proofs.Remote.Replies
import LifecycleLog.Proofs.Cache.HealthyPairs
import LifecycleLog.Proofs.Subscription.CatchUp
import LifecycleLog.Proofs.Remote.Deliverable
import LifecycleLog.Proofs.Store.Unread
import LifecycleLog.Proofs.Store.Crowds
import LifecycleLog.Proofs.Store.WakeUps
import LifecycleLog.Proofs.Store.Paging
import LifecycleLog.Proofs.Subscription.SetUp
import LifecycleLog.Proofs.Subscription.Delays
import LifecycleLog.Proofs.Subscription.Waits
import LifecycleLog.Proofs.Settings.Overrides
