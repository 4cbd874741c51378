import Fcam.Base.Run
import Fcam.Base.Attribute
import Fcam.Base.Tally
import Fcam.Base.TokenBucket
import Fcam.Base.RoundRobin
import Fcam.Base.Url
import Fcam.Base.Transaction
import Fcam.Base.PrefixCode
import Fcam.Model.ControlPlane
import Fcam.Model.KeyOperation
import Fcam.Model.ClientAdmin
import Fcam.Model.CreditAggregator
import Fcam.Model.RefreshPass
import Fcam.Model.AdminSession
import Fcam.Model.Migration
import Fcam.Model.RequestLog
import Fcam.Model.DispatchRun
import Fcam.Model.GatewayRun
import Fcam.Model.LeaseRun
import Fcam.Model.Governance
import Fcam.Model.LiveForward
import Fcam.Model.Routes
import Fcam.Proof.Dispatch
import Fcam.Proof.RateLimit
import Fcam.Proof.Passes
import Fcam.Proof.Live
import Fcam.Proof.Tenant
import Fcam.Proof.Rotation
import Fcam.Proof.Busy
import Fcam.Proof.Retry
import Fcam.Proof.FreshPool
import Fcam.Proof.Sent
import Fcam.Proof.AllowedPaths
import Fcam.Proof.UpstreamUrl
import Fcam.Proof.UrlBuilders
import Fcam.Proof.SelectSpec
import Fcam.Proof.BackOffEnds
import Fcam.Proof.Fairness
import Fcam.Proof.AttemptBound
import Fcam.Proof.CallReached
import Fcam.Proof.Tokens
import Fcam.Proof.Accounting
import Fcam.Proof.RowInvariant
import Fcam.Proof.Isolation
import Fcam.Proof.DailyUsage
import Fcam.Proof.Coherence
import Fcam.Proof.ActiveDispatch
import Fcam.Proof.Replay
import Fcam.Proof.Settled
import Fcam.Proof.ReplaySound
import Fcam.Proof.AtMostOnce
import Fcam.Proof.Counting
import Fcam.Proof.Moves
import Fcam.Proof.LostUpdate
import Fcam.Proof.QuotaBound
import Fcam.Proof.Disable
import Fcam.Proof.Leases
import Fcam.Proof.Governance
import Fcam.Proof.ClientDeletion
import Fcam.Proof.AuditAtomic
import Fcam.Proof.Migration
import Fcam.Proof.SnapshotPointer
import Fcam.Proof.Calendar
import Fcam.Proof.RefreshFetch
import Fcam.Proof.RefreshSession
import Fcam.Proof.RefreshPass
import Fcam.Proof.ErrorDetails
import Fcam.Proof.CreditCost
import Fcam.Proof.FetchSnapshot
import Fcam.Proof.CreditReports
import Fcam.Proof.UsageRange
import Fcam.Base.Window
import Fcam.Proof.FailureHistory
import Fcam.Proof.FailureWindow
import Fcam.Proof.Recovery
import Fcam.Proof.Benched
import Fcam.Proof.NextMidnight
import Fcam.Proof.LocalCharge
import Fcam.Proof.Bindings
import Fcam.Proof.BoundResource
import Fcam.Proof.Rebinding
import Fcam.Base.Condition
import Fcam.Base.Paging
import Fcam.Model.RequestLogs
import Fcam.Proof.LogPaging
import Fcam.Proof.LogWidths
import Fcam.Model.BatchKeys
import Fcam.Proof.BatchKeys
import Fcam.Base.Fields
import Fcam.Model.KeyImport
import Fcam.Proof.ImportColumns
import Fcam.Proof.KeyImport
import Fcam.Model.JsonLoads
import Fcam.Proof.JsonRoundTrip
import Fcam.Proof.Redaction
import Fcam.Base.Base64
import Fcam.Model.StoredResponse
import Fcam.Proof.StoredResponse
import Fcam.Proof.Fingerprint
import Fcam.Model.QuotaStats
import Fcam.Proof.JsonParsed
import Fcam.Proof.QuotaStats
import Fcam.Base.NestedMap
import Fcam.Model.LoadConfig
import Fcam.Proof.ConfigLayers
import Fcam.Proof.EnvOverrides
import Fcam.Proof.LeaseHistory
import Fcam.Proof.RefreshTime
import Fcam.Base.Path
import Fcam.Model.DatabaseUrl
import Fcam.Proof.DatabaseUrl
import Fcam.Model.DashboardChart
import Fcam.Proof.DashboardChart
import Fcam.Base.ScoredSet
import Fcam.Model.RedisLeases
import Fcam.Proof.RedisLeases
import Fcam.Base.ForeignKey
import Fcam.Model.Purge
import Fcam.Proof.Purge
import Fcam.Model.KeyCustody
import Fcam.Proof.KeyCustody
import Fcam.Proof.RedisCapacity
import Fcam.Model.LeaseBackends
import Fcam.Model.LogLine
import Fcam.Model.TokenRegistry
import Fcam.Proof.LeaseBackends
import Fcam.Proof.LogLine
import Fcam.Proof.TokenRegistry
import Fcam.Model.AuditLogs
import Fcam.Proof.LogWalk
import Fcam.Proof.Retention
import Fcam.Model.ErrorResponse
import Fcam.Model.Middleware
import Fcam.Proof.Middleware
