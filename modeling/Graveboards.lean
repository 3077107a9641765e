import Graveboards.Library.Json
import Graveboards.Library.Schema
import Graveboards.Library.Text
import Graveboards.Rules.Config
import Graveboards.Rules.Registry
import Graveboards.Library.Coroutine
import Graveboards.Library.Formula
import Graveboards.Rules.Evaluator
import Graveboards.Rules.Phase2
import Graveboards.Rules.Gather
import Graveboards.Rules.Accepted
import Graveboards.Rules.Malformed
import Graveboards.Rules.Pipeline
import Graveboards.Rules.Agreement
import Graveboards.Rules.Bounds
import Graveboards.Rules.Faithful
import Graveboards.Rules.Composite
import Graveboards.Library.Calendar
import Graveboards.Library.Redis
import Graveboards.Library.Runs
import Graveboards.Library.Script
import Graveboards.Rules.Reserve
import Graveboards.Rules.RateLimit
import Graveboards.Rules.Cooldown
import Graveboards.Rules.Rollback
import Graveboards.Library.Canonical
import Graveboards.Rules.Crud
import Graveboards.Rules.Isolation
import Graveboards.Library.Iso
import Graveboards.Requests.Task
import Graveboards.Requests.World
import Graveboards.Requests.Moves
import Graveboards.Requests.Single
import Graveboards.Requests.LifeCycle
import Graveboards.Requests.Validation
import Graveboards.Requests.Dispatch
import Graveboards.Requests.Stuck
import Graveboards.Library.Pages
import Graveboards.Requests.Listing
import Graveboards.Daemon.Scheduler
import Graveboards.Daemon.Lost
import Graveboards.Requests.Songs
import Graveboards.Daemon.Preload
import Graveboards.Daemon.Fetcher
import Graveboards.Daemon.Disabled
import Graveboards.Coordination.Lock
import Graveboards.Daemon.ProfileLock
import Graveboards.Daemon.LastFetch
import Graveboards.Coordination.RateLimit
import Graveboards.Coordination.AuthRateLimit
import Graveboards.Daemon.LifeCycle
import Graveboards.Daemon.Retry
import Graveboards.Library.Decoder
import Graveboards.Library.ThreeValued
import Graveboards.Search.Operators
import Graveboards.Search.Fields
import Graveboards.Search.Values
import Graveboards.Search.Conditions
import Graveboards.Search.Terms
import Graveboards.Search.Filters
import Graveboards.Search.Schema
import Graveboards.Library.Zigzag
import Graveboards.Search.Floats
import Graveboards.Search.Encoding
import Graveboards.Library.Rounding
import Graveboards.Search.Instants
import Graveboards.Search.Clauses
import Graveboards.Search.Validation
import Graveboards.Library.Transaction
import Graveboards.Archive.Sessions
import Graveboards.Archive.Versions
import Graveboards.Archive.Deadlock
import Graveboards.Library.Numeral
import Graveboards.Parameters.Filters
import Graveboards.Parameters.DeepObject
import Graveboards.Parameters.Keys
import Graveboards.Library.Answers
import Graveboards.Library.Sorting
import Graveboards.Library.Pattern
import Graveboards.Library.Spacing
import Graveboards.Paging.Walk
import Graveboards.Paging.Links
import Graveboards.Archive.Manager
import Graveboards.Archive.Rows
import Graveboards.Archive.Isolation
import Graveboards.Archive.Convergence
import Graveboards.Archive.Population
import Graveboards.Archive.Profiles
import Graveboards.Library.Relational
import Graveboards.Snapshots.Derived
import Graveboards.Snapshots.Numbers
import Graveboards.Library.Dictionary
import Graveboards.Includes.Schema
import Graveboards.Includes.Merged
import Graveboards.Includes.Paths
import Graveboards.Includes.Items
import Graveboards.Library.Zoned
import Graveboards.Cache.Models
import Graveboards.Cache.Serialization
import Graveboards.Cache.Validation
import Graveboards.Cache.RoundTrip
import Graveboards.Cache.Agreement
import Graveboards.Spec.Expansion
import Graveboards.Spec.Populate
import Graveboards.Spec.Order
import Graveboards.Archive.Repeat
import Graveboards.Crud.Built
import Graveboards.Crud.Law
import Graveboards.Library.Best
import Graveboards.Scores.Statements
import Graveboards.Scores.Unrepeated
import Graveboards.Scores.Parents
import Graveboards.Scores.Entries
import Graveboards.Library.Base64
import Graveboards.Library.Shortest
import Graveboards.Compression.Numbers
import Graveboards.Compression.Dumps
import Graveboards.Compression.Documents
import Graveboards.Compression.Loads
import Graveboards.Compression.Nesting
import Graveboards.Compression.RoundTrip
import Graveboards.Compression.Query
import Graveboards.Rules.Normalization
import Graveboards.Rules.Documents
import Graveboards.Rules.SongIdentity
import Graveboards.Rules.VersionMarkers
import Graveboards.Library.Layers
import Graveboards.Seeding.Dependencies
import Graveboards.Seeding.Orchestrator
import Graveboards.Library.Selection
import Graveboards.Library.Like
import Graveboards.Engine.World
import Graveboards.Engine.Terms
import Graveboards.Engine.Filtering
import Graveboards.Engine.Sorting
import Graveboards.Engine.Scored
import Graveboards.Engine.Search
import Graveboards.Engine.Ordered
import Graveboards.Engine.Agreement
