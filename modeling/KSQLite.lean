import KSQLite.Boundary.Errors
import KSQLite.Boundary.Mapping
import KSQLite.Connection.Checkout
import KSQLite.Connection.Isolation
import KSQLite.Connection.Runner
import KSQLite.Connection.Serializing
import KSQLite.Connection.Statements
import KSQLite.Connection.Traffic
import KSQLite.Connection.Writes
import KSQLite.Lifetime.Consumers
import KSQLite.Lifetime.Draining
import KSQLite.Lifetime.Facade
import KSQLite.Lifetime.Starting
import KSQLite.Log.FirstWins
import KSQLite.Log.Latest
import KSQLite.Log.OffsetLog
import KSQLite.Naming.Formatting
import KSQLite.Naming.Shards
import KSQLite.Naming.Template
import KSQLite.Naming.Words
import KSQLite.Rehydrate.Blocking
import KSQLite.Rehydrate.Budget
import KSQLite.Rehydrate.Completion
import KSQLite.Rehydrate.Content
import KSQLite.Rehydrate.Coverage
import KSQLite.Rehydrate.Fetching
import KSQLite.Rehydrate.Fixpoint
import KSQLite.Rehydrate.Folding
import KSQLite.Rehydrate.Frame
import KSQLite.Rehydrate.Frozen
import KSQLite.Rehydrate.GrowingLog
import KSQLite.Rehydrate.HeadTrimming
import KSQLite.Rehydrate.Machine
import KSQLite.Rehydrate.Mirroring
import KSQLite.Rehydrate.Passing
import KSQLite.Rehydrate.Refinement
import KSQLite.Rehydrate.Regression
import KSQLite.Rehydrate.Runs
import KSQLite.Rehydrate.Skipping
import KSQLite.Rehydrate.Soundness
import KSQLite.Rehydrate.Termination
import KSQLite.Rehydrate.Watching
import KSQLite.Runs.Agreement
import KSQLite.Runs.Atomicity
import KSQLite.Runs.Budget
import KSQLite.Runs.Causes
import KSQLite.Runs.Checkpoint
import KSQLite.Runs.Confluence
import KSQLite.Runs.Convergence
import KSQLite.Runs.Footprint
import KSQLite.Runs.Handoff
import KSQLite.Runs.Hiding
import KSQLite.Runs.Latest
import KSQLite.Runs.Lives
import KSQLite.Runs.Losses
import KSQLite.Runs.Outcomes
import KSQLite.Runs.Poison
import KSQLite.Runs.Prefixes
import KSQLite.Runs.Refusal
import KSQLite.Runs.Replays
import KSQLite.Runs.Resting
import KSQLite.Runs.Retrying
import KSQLite.Runs.Reveal
import KSQLite.Runs.Rules
import KSQLite.Runs.Schedules
import KSQLite.Runs.Unreadable
import KSQLite.Schema.Accepting
import KSQLite.Schema.Catalog
import KSQLite.Schema.Configuration
import KSQLite.Schema.Ddl
import KSQLite.Schema.Drift
import KSQLite.Schema.Established
import KSQLite.Schema.Literals
import KSQLite.Schema.Migration
import KSQLite.Schema.Reconciling
import KSQLite.Schema.Restarting
import KSQLite.Schema.Tokens
import KSQLite.Store.Activity
import KSQLite.Store.Batching
import KSQLite.Store.Calls
import KSQLite.Store.Commits
import KSQLite.Store.Effects
import KSQLite.Store.Facade
import KSQLite.Store.Headers
import KSQLite.Store.Lifecycle
import KSQLite.Store.Sample
import KSQLite.Store.Schema
import KSQLite.Store.State
import KSQLite.Store.Topics
import KSQLite.Store.Transaction
import KSQLite.Store.Types
import KSQLite.Store.Wire
import KSQLite.Store.World
import KSQLite.Store.Write
import KSQLite.Store.WriteBacks
import KSQLite.Suspension.Branches
import KSQLite.Suspension.Expansion
import KSQLite.Suspension.History
import KSQLite.Suspension.Ledger
import KSQLite.Suspension.Pool
import KSQLite.Suspension.Program
import KSQLite.Suspension.Timeline
import KSQLite.Suspension.Watch
