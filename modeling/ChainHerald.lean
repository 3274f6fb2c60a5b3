import ChainHerald.Table
import ChainHerald.Chain
import ChainHerald.Event
import ChainHerald.Listener
import ChainHerald.Notice
import ChainHerald.Ledger
import ChainHerald.Pool
import ChainHerald.Mailbox
import ChainHerald.Gate
import ChainHerald.Lanes
import ChainHerald.Ranges
import ChainHerald.Backoff
import ChainHerald.Registry
import ChainHerald.Herald
import ChainHerald.Intake
import ChainHerald.Broadcaster.Handle
import ChainHerald.Broadcaster.Tasks
import ChainHerald.Rehearsal.Scripted
import ChainHerald.Sample
import ChainHerald.NullBroadcaster
import ChainHerald.Streams
import ChainHerald.Rehearsal.Bench
import ChainHerald.Provider.Subscription
import ChainHerald.Provider.Actors
import ChainHerald.Provider.Queues
import ChainHerald.Provider.Await
import ChainHerald.Rehearsal.Listening
import ChainHerald.Rehearsal.Relay
import ChainHerald.Proofs.Eviction
import ChainHerald.Proofs.ExactlyOnce
import ChainHerald.Proofs.Requests
import ChainHerald.Proofs.Service
import ChainHerald.Proofs.Consumed
import ChainHerald.Proofs.Demand
import ChainHerald.Proofs.Tuning
import ChainHerald.Proofs.Lanes
import ChainHerald.Proofs.Backfill
import ChainHerald.Proofs.Failover
import ChainHerald.Proofs.Standing
import ChainHerald.Proofs.Alike
import ChainHerald.Proofs.Recoding
import ChainHerald.Proofs.Isolation
import ChainHerald.Proofs.Gaps
import ChainHerald.Proofs.GrowingChain
import ChainHerald.Proofs.Tails
import ChainHerald.Proofs.Tended
import ChainHerald.Proofs.Seam
import ChainHerald.Proofs.Lifecycle
import ChainHerald.Proofs.Dependents
import ChainHerald.Proofs.Writers
import ChainHerald.Proofs.LaneOrder
import ChainHerald.Proofs.Failures
import ChainHerald.Proofs.Ranges
import ChainHerald.Proofs.Restart
import ChainHerald.Proofs.FlatPool
import ChainHerald.Proofs.Aggregates
import ChainHerald.Proofs.Coalescing
import ChainHerald.Proofs.WakeUps
import ChainHerald.Proofs.Course
import ChainHerald.Proofs.Dependable
import ChainHerald.Proofs.LastResort
import ChainHerald.Proofs.Effect
import ChainHerald.Proofs.FastPath
import ChainHerald.Proofs.Mailbox
import ChainHerald.Proofs.Streams
import ChainHerald.Proofs.Agenda
import ChainHerald.Proofs.Batches
import ChainHerald.Proofs.Around
import ChainHerald.Proofs.Backfilling
import ChainHerald.Proofs.Completion
import ChainHerald.Proofs.Backoff
import ChainHerald.Proofs.Rounds
import ChainHerald.Proofs.Visits
import ChainHerald.Proofs.Persistence
import ChainHerald.Proofs.Consistency
import ChainHerald.Proofs.Iterations
import ChainHerald.Proofs.Debounce
import ChainHerald.Proofs.Markers
import ChainHerald.Proofs.Tiling
