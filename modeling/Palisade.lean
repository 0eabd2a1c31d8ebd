import Palisade.Transition
import Palisade.Redis.Keyspace
import Palisade.Redis.Script
import Palisade.Redis.Collections
import Palisade.Lease
import Palisade.Core
import Palisade.Single.Scripts
import Palisade.Single.Exclusivity
import Palisade.Single.Fencing
import Palisade.Redlock.TryLock
import Palisade.Redlock.Rollback
import Palisade.Redlock.Availability
import Palisade.Redlock.Ring
import Palisade.Redlock.MutualExclusion
import Palisade.Redlock.FenceOrder
import Palisade.ReadWrite.Scripts
import Palisade.ReadWrite.Handles
import Palisade.ReadWrite.Operations
import Palisade.ReadWrite.Exclusion
import Palisade.Semaphore.Scripts
import Palisade.Semaphore.Capacity
import Palisade.Reentrant.Scripts
import Palisade.Reentrant.Handles
import Palisade.Reentrant.Holds
import Palisade.Reentrant.Nesting
import Palisade.Reentrant.Leases
import Palisade.Redis.Lists
import Palisade.Fair.Scripts
import Palisade.Fair.Line
import Palisade.Fair.Queue
import Palisade.Fair.Abandoned
import Palisade.Fair.Order
import Palisade.Fair.Handles
import Palisade.OnceOnly
import Palisade.Single.Handles
import Palisade.Redlock.Release
import Palisade.Etcd.Lock
import Palisade.Server.Wire
import Palisade.Client.Remote
import Palisade.Release
import Palisade.Single.Watchdog
import Palisade.Server.Registry
import Palisade.Server.Sessions
import Palisade.Server.Service
import Palisade.Server.Quota
import Palisade.Server.Slots
import Palisade.Monitor
import Palisade.Testing.Checker
import Palisade.Testing.Sim
import Palisade.Testing.Agreement
import Palisade.Testing.Realtime
import Palisade.Testing.Mirror
import Palisade.Single.Retention
import Palisade.Redis.Hoare
import Palisade.Redis.Mortal
import Palisade.Single.Semantic
import Palisade.Counters
import Palisade.Renewal
import Palisade.Server.Heartbeats
import Palisade.Server.WatchHub
import Palisade.Server.WatchEvents
import Palisade.Etcd.Cluster
import Palisade.Etcd.Grants
import Palisade.Etcd.Extend
import Palisade.Redis.Framing
import Palisade.Single.Testament
import Palisade.Names
import Palisade.Http.Header
import Palisade.Server.Auth
import Palisade.Server.Requests
import Palisade.ReadWrite.Accounting
import Palisade.Latch
import Palisade.Lua.Lexer
import Palisade.Single.Quoting
import Palisade.Single.Conditions
import Palisade.Single.Succession
import Palisade.Fair.Departures
import Palisade.Waiting
import Palisade.Single.Multi
import Palisade.Fnv
import Palisade.BlackBox
import Palisade.LeaseArguments
import Palisade.Single.Policy
import Palisade.Server.Silence
import Palisade.Server.Closing
import Palisade.Server.Rejection
import Palisade.Server.Forwarders
import Palisade.Redis.Glob
import Palisade.Single.Listing
import Palisade.Fnv.Short
import Palisade.Seal
import Palisade.Sql
import Palisade.FencePg
import Palisade.Server.Demo
import Palisade.Server.Registrations
import Palisade.Server.WatcherSlots
import Palisade.Testing.Termination
import Palisade.Binary64
import Palisade.Server.Lattice
import Palisade.Predictor
import Palisade.Redis.Upkeep
import Palisade.Primitives
import Palisade.Fences
import Palisade.Lapses
import Palisade.Barrier
import Palisade.Single.Wills
import Palisade.Sql.Tables
import Palisade.Records
import Palisade.FencedRows
import Palisade.Protected
import Palisade.Client.Attachments
import Palisade.Server.Accountability
