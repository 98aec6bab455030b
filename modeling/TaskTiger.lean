import TaskTiger.Framework.SortedSet
import TaskTiger.Framework.ExpiringKey
import TaskTiger.Framework.Lease
import TaskTiger.Framework.KeySort
import TaskTiger.Framework.Glob
import TaskTiger.Framework.Rounding
import TaskTiger.Framework.Machine
import TaskTiger.Framework.Program
import TaskTiger.Framework.Pool
import TaskTiger.Framework.Monitor
import TaskTiger.Framework.Recorder
import TaskTiger.Framework.Assuming
import TaskTiger.Framework.Helper
import TaskTiger.Framework.Emulation
import TaskTiger.Framework.Paging
import TaskTiger.Framework.Simulation
import TaskTiger.Framework.Isolation
import TaskTiger.Framework.Refinement
import TaskTiger.Framework.WaitingLine
import TaskTiger.Store.Data
import TaskTiger.Store.Store
import TaskTiger.Store.Cjson
import TaskTiger.Store.Scripts
import TaskTiger.Store.ExpiredTasks
import TaskTiger.Store.ScriptEffects
import TaskTiger.Store.MoveTask
import TaskTiger.Store.Zpoppush
import TaskTiger.Store.Commands
import TaskTiger.Store.CommandEffects
import TaskTiger.Store.Backlog
import TaskTiger.Store.Database
import TaskTiger.Store.RawCommands
import TaskTiger.Store.Migration
import TaskTiger.Invariants.AllOrNothing
import TaskTiger.Invariants.Index
import TaskTiger.Invariants.Expiry
import TaskTiger.Invariants.Postpone
import TaskTiger.Invariants.QueueIsolation
import TaskTiger.Invariants.Ownership
import TaskTiger.Invariants.Placement
import TaskTiger.Invariants.Conservation
import TaskTiger.Invariants.History
import TaskTiger.Invariants.StoredObject
import TaskTiger.Invariants.UniqueRequest
import TaskTiger.Invariants.NoLeak
import TaskTiger.Invariants.NoStarvation
import TaskTiger.Invariants.Lifecycle
import TaskTiger.Invariants.Promotion
import TaskTiger.Invariants.NoEarly
import TaskTiger.Invariants.Cycle
import TaskTiger.Semaphore.Semaphore
import TaskTiger.Semaphore.Leases
import TaskTiger.Semaphore.Counting
import TaskTiger.Semaphore.SystemLock
import TaskTiger.Worker.Task
import TaskTiger.Worker.ScheduledTime
import TaskTiger.Worker.Pages
import TaskTiger.Worker.QueuePages
import TaskTiger.Worker.Purge
import TaskTiger.Worker.Schedule
import TaskTiger.Worker.Worker
import TaskTiger.Worker.Routines
import TaskTiger.Worker.Races
import TaskTiger.Worker.Exclusive
import TaskTiger.Worker.Cleanup
import TaskTiger.Worker.QueueNames
import TaskTiger.Worker.QueueLocks
import TaskTiger.Worker.Listener
import TaskTiger.Worker.Notification
import TaskTiger.Worker.TaskLocks
import TaskTiger.Worker.LockPool
import TaskTiger.Worker.PyValue
import TaskTiger.Worker.UniqueIds
import TaskTiger.Worker.Periodic
import TaskTiger.Worker.DueTimes
import TaskTiger.Worker.MainLoop
import TaskTiger.Worker.Executor
import TaskTiger.Worker.HardTimeouts
import TaskTiger.Worker.ForkLoop
import TaskTiger.Worker.FailureHandling
import TaskTiger.Worker.PermanentErrors
import TaskTiger.Worker.NextRun
import TaskTiger.Worker.Departures
import TaskTiger.Worker.Batch
import TaskTiger.Worker.Disposal
import TaskTiger.Worker.CutShort
import TaskTiger.Worker.Shutdown
import TaskTiger.Worker.PubsubWait
import TaskTiger.Worker.SyncThreads
import TaskTiger.Worker.Processes
import TaskTiger.Worker.Sweep
import TaskTiger.Worker.QueueSize
import TaskTiger.Worker.StoredSchedule
import TaskTiger.Worker.Retries
import TaskTiger.Worker.Stats
import TaskTiger.Worker.QueuePages
