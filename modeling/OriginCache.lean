import OriginCache.Foundation.Splits
import OriginCache.Foundation.Tables
import OriginCache.Foundation.Registry
import OriginCache.Foundation.Slices
import OriginCache.Foundation.Files
import OriginCache.Foundation.Frontiers
import OriginCache.Foundation.Markup
import OriginCache.Foundation.Runs
import OriginCache.Foundation.Watch
import OriginCache.Foundation.Words
import OriginCache.Foundation.Calendar
import OriginCache.Foundation.Percent
import OriginCache.Foundation.Escapes
import OriginCache.Foundation.Trees
import OriginCache.Foundation.Buckets
import OriginCache.Foundation.Base64
import OriginCache.Foundation.Cursors
import OriginCache.Cache.SegName
import OriginCache.Cache.Key
import OriginCache.Cache.Coverage
import OriginCache.Cache.Intervals
import OriginCache.Cache.Merging
import OriginCache.Cache.Store
import OriginCache.Cache.Paths
import OriginCache.Cache.NameLengths
import OriginCache.Cache.Ledger
import OriginCache.Cache.Staging
import OriginCache.Cache.StagedPrefix
import OriginCache.Cache.SegmentFiles
import OriginCache.Cache.Rows
import OriginCache.Cache.Picks
import OriginCache.Cache.Evictions
import OriginCache.Cache.Budgets
import OriginCache.Cache.Guards
import OriginCache.Cache.Histories
import OriginCache.Cache.AgeSweep
import OriginCache.Cache.Accounts
import OriginCache.Cache.AccountBalance
import OriginCache.Cache.AccountRuns
import OriginCache.Cache.Viewing
import OriginCache.Cache.Ranged
import OriginCache.Cache.Flight
import OriginCache.Cache.Following
import OriginCache.Cache.Meta
import OriginCache.Cache.Magazine
import OriginCache.Cache.Victims
import OriginCache.Cache.DiskHit
import OriginCache.Cache.Pulls
import OriginCache.Cache.Watermarks
import OriginCache.Cache.Joiners
import OriginCache.Cache.Transfers
import OriginCache.Cache.PartFiles
import OriginCache.Cache.SpanSeals
import OriginCache.Cache.Sessions
import OriginCache.Cache.Slots
import OriginCache.Cache.Stalled
import OriginCache.Cache.RunAdmission
import OriginCache.Cache.Serving
import OriginCache.Cache.Tombstones
import OriginCache.Cache.Flights
import OriginCache.Cache.Inflight
import OriginCache.Cache.SingleFlight
import OriginCache.Cache.Agreement
import OriginCache.Cache.SingleWriter
import OriginCache.Cache.VersionFiles
import OriginCache.Cache.Responses
import OriginCache.Cache.Versions
import OriginCache.Request.Ranges
import OriginCache.Request.Canonical
import OriginCache.Request.Dates
import OriginCache.Request.Sigv4
import OriginCache.Request.SessionBudgets
import OriginCache.Request.SessionLimits
import OriginCache.Request.ContentAuth
import OriginCache.Request.Tickets
import OriginCache.Request.TicketWorker
import OriginCache.Request.MintedTickets
import OriginCache.Request.Listing
import OriginCache.Request.Business
import OriginCache.Request.Envelopes
import OriginCache.Request.Pages
import OriginCache.Request.Walks
import OriginCache.Request.Tenants
import OriginCache.Request.Timestamps
import OriginCache.Request.Encodings
import OriginCache.Backend.Retries
import OriginCache.Backend.OpenList
import OriginCache.Backend.Listings
import OriginCache.Request.Hosts
import OriginCache.Front.Gates
import OriginCache.Front.Proxy
import OriginCache.Front.Metered
import OriginCache.Front.Shutdown
import OriginCache.Cache.Startup
import OriginCache.Cache.Heads
import OriginCache.Request.Configuration
import OriginCache.Foundation.Memos
import OriginCache.Request.Lifetimes
import OriginCache.Request.TicketRuns
import OriginCache.Request.Snapshots
import OriginCache.Cache.Quarantine
import OriginCache.Cache.Ramp
import OriginCache.Foundation.Elements
import OriginCache.Request.Documents
import OriginCache.Cache.Touches
import OriginCache.Backend.Links
import OriginCache.Backend.Opens
import OriginCache.Request.Credentials
