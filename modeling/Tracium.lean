import Tracium.Accounts.Linear
import Tracium.Accounts.Service
import Tracium.Anomaly.Detect
import Tracium.Anomaly.Exact
import Tracium.Anomaly.Flat
import Tracium.ApiKeys.Grant
import Tracium.ApiKeys.GrantBound
import Tracium.ApiKeys.Lifecycle
import Tracium.ApiKeys.Minting
import Tracium.ApiKeys.Revocation
import Tracium.ApiKeys.Store
import Tracium.Auth.Acceptance
import Tracium.Auth.Budget
import Tracium.Auth.Cache
import Tracium.Auth.CacheRuns
import Tracium.Auth.Flight
import Tracium.Auth.Freshness
import Tracium.Auth.Leader
import Tracium.Auth.Limiter
import Tracium.Auth.SenderRuns
import Tracium.Auth.Verify
import Tracium.CappedCounts
import Tracium.CappedMap
import Tracium.Chain
import Tracium.ContentOff
import Tracium.CustomAttributes
import Tracium.Dashboard.Incidents
import Tracium.Dashboard.PrettyJson
import Tracium.Dashboard.TraceView
import Tracium.Dashboard.TreeOrder
import Tracium.Dashboard.Versions
import Tracium.DeadLetter
import Tracium.Drops
import Tracium.Enrich
import Tracium.Exclusive
import Tracium.Exporter
import Tracium.Fallible
import Tracium.FixedWindow
import Tracium.Forgery
import Tracium.GenAI
import Tracium.Go.Ascii
import Tracium.Go.Bytes
import Tracium.Go.Compare
import Tracium.Go.Cut
import Tracium.Go.Float64
import Tracium.Go.Net
import Tracium.Go.Runes
import Tracium.Go.Strconv
import Tracium.Go.Utf8
import Tracium.GroupBy
import Tracium.History
import Tracium.Isolation
import Tracium.Js.Json
import Tracium.Js.JsonCanonical
import Tracium.Js.JsonPrint
import Tracium.Js.JsonString
import Tracium.Js.JsonSyntax
import Tracium.Js.Number
import Tracium.Js.Text
import Tracium.Js.Tree
import Tracium.Js.WholeNumber
import Tracium.Labels
import Tracium.Lru
import Tracium.Membership.Authority
import Tracium.Membership.Effects
import Tracium.Membership.Integrity
import Tracium.Membership.Invites
import Tracium.Membership.Joins
import Tracium.Membership.Lifecycle
import Tracium.Membership.Rely
import Tracium.Membership.Seats
import Tracium.Membership.Sessions
import Tracium.Membership.Store
import Tracium.MemoParts
import Tracium.MemoTree
import Tracium.MeterAgreement
import Tracium.Metering
import Tracium.Migrations.Apply
import Tracium.Migrations.Concurrent
import Tracium.Noninterference
import Tracium.OrderStatistics
import Tracium.OrderedMap
import Tracium.Otlp
import Tracium.Paging
import Tracium.PartialAggregates
import Tracium.Pipeline
import Tracium.PointPricing
import Tracium.PriceBounds
import Tracium.PriceRouting
import Tracium.PriceTable
import Tracium.Pricing
import Tracium.Processor
import Tracium.Query.AnomalySeries
import Tracium.Query.Attribution
import Tracium.Query.Boundary
import Tracium.Query.Headline
import Tracium.Query.Listing
import Tracium.Query.Reads
import Tracium.Query.RollupHeadline
import Tracium.Query.Rollups
import Tracium.Query.Scoping
import Tracium.Query.Series
import Tracium.Query.Statements
import Tracium.Query.SteadyTraffic
import Tracium.Query.SubtreeSums
import Tracium.Query.SubtreeTotals
import Tracium.Query.Tokens
import Tracium.Query.UserTrend
import Tracium.RateLimit.ClientIP
import Tracium.RateLimit.Goroutines
import Tracium.RateLimit.Limiter
import Tracium.RateLimit.NamedProxies
import Tracium.RateLimit.RetryAfter
import Tracium.ReadCommitted
import Tracium.Recency
import Tracium.Reconcile
import Tracium.Repair.Converge
import Tracium.Repair.Quiesce
import Tracium.Repair.Runner
import Tracium.Rollup.Agreement
import Tracium.Rollup.Breakdowns
import Tracium.Rollup.LongWindow
import Tracium.Rollup.Warehouse
import Tracium.Scripts
import Tracium.Sessions.Hashes
import Tracium.Sessions.Store
import Tracium.Sessions.Unbroken
import Tracium.SingleFlight
import Tracium.Sql
import Tracium.Steps
import Tracium.Succession
import Tracium.Tenancy.Observer
import Tracium.Tenancy.Provenance
import Tracium.Tenancy.Services
import Tracium.Timing
import Tracium.TokenBounds
import Tracium.ToolsDecode
import Tracium.ToolsJson
import Tracium.Traverse
import Tracium.TreeLayout
import Tracium.TreeWalk
import Tracium.Upgrade.Attempts
import Tracium.Upgrade.Database
import Tracium.Upgrade.Legacy
import Tracium.Upgrade.Rename
import Tracium.Upgrade.Runner
import Tracium.Upgrade.Version
