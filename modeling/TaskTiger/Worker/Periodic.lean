import TaskTiger.Framework.Pool
import TaskTiger.Invariants.Cycle
import TaskTiger.Worker.Listener
import TaskTiger.Worker.Races
import TaskTiger.Worker.Routines

namespace TaskTiger

open Redis Interleaving Prog

namespace Worker

variable (h : Host)

/-! Worker._queue_periodic_tasks. -/

/-- One function of the loop, with `Task(self.tiger, func)`. -/
def queuePeriodicTask (task : Task) : Routine Unit := do
  let results ← redis (.zscores task.queue task.data.id)
  -- any(results): already queued, scheduled, or running; a score of zero is false
  if results.any (fun score => score.any (fun ts => decide (ts ≠ 0))) then pure ()
  else task.queueForNextPeriod h

/-- Only queue periodic tasks for queues this worker is responsible for. -/
def queuePeriodicTasks (onlyQueues excludeQueues : Finset String) (periodicTasks : List Task) :
    Routine Unit :=
  (periodicTasks.filter (fun task => queueMatches task.queue onlyQueues excludeQueues)).forM
    (queuePeriodicTask h)

/-! Worker._worker_queue_scheduled_tasks. -/

/-- One queue of the loop; it is announced if there was a result. -/
def queueScheduledTasks (batchSize : Int) (now : Instant) (queue : String) : Routine Unit := do
  let result ← redis (.promote queue batchSize now)
  match result with
  | .error e => Prog.raise (.responseError e)
  | .ok ids =>
    if ids.isEmpty = false ∧ h.publishQueuedTasks = true then redis (.publish queue) else pure ()

/-- `lock` is the name of the lock, if QUEUE_SCHEDULED_TASKS_TIME is positive; `queues` are those
that were found in SCHEDULED. -/
def workerQueueScheduledTasks (lock : Option String) (queues : List String) (batchSize : Int)
    (now : Instant) : Routine Unit :=
  match lock with
  | none => queues.forM (queueScheduledTasks h batchSize now)
  | some name => do
    let acquired ← redis (.acquireLock name (h.token name))
    if acquired then queues.forM (queueScheduledTasks h batchSize now) else pure ()

end Worker

/-! Worker.run. -/

/-- What the main loop does. -/
inductive Chore where
  | fromQueue (queue : String) (batchSize : Int) (failedToAcquire : Bool) (now : Instant)
      (later : Time)
  | scheduledTasks (lock : Option String) (queues : List String) (batchSize : Int) (now : Instant)
  | expiredTasks

def Chore.routine (h : Host) : Chore → Routine Unit
  | .fromQueue queue batchSize failedToAcquire now later => do
    let _ ← Worker.processFromQueue h queue batchSize failedToAcquire now later
    pure ()
  | .scheduledTasks lock queues batchSize now =>
    Worker.workerQueueScheduledTasks h lock queues batchSize now
  | .expiredTasks => Worker.workerQueueExpiredTasks h

/-- A worker process: its start, and what it does in its main loop, each time with the clock and
the application as they are then. -/
structure WorkerProcess where
  onlyQueues : Finset String
  excludeQueues : Finset String
  periodicTasks : List Task
  startup : Host
  chores : List (Host × Chore)

namespace WorkerProcess

def start (w : WorkerProcess) : Routine Unit :=
  Worker.queuePeriodicTasks w.startup w.onlyQueues w.excludeQueues w.periodicTasks

def routine (w : WorkerProcess) : Routine Unit := do
  w.start
  w.chores.forM (fun (h, chore) => chore.routine h)

def hosts (w : WorkerProcess) : List Host := w.startup :: w.chores.map Prod.fst

end WorkerProcess

/-! The commands of a worker process. -/

section Commands

variable (h : Host)

variable {Q : Command → Prop}

/-- The startup of a worker only queues tasks. -/
theorem Worker.issues_queuePeriodicTasks (passive : ∀ c : Command, c.Passive → c.listsQueues = false → Q c)
    (delay : ∀ queue data ts now publish, Q (.delay queue data ts now publish))
    (onlyQueues excludeQueues : Finset String) (periodicTasks : List Task) :
    Issues Q (Worker.queuePeriodicTasks h onlyQueues excludeQueues periodicTasks) := by
  refine issues_forM (fun task => issues_bind (issues_ask (passive _ trivial rfl)) (fun results => ?_))
  exact issues_ite trivial (issues_queueForNextPeriod task (fun _ => passive _ trivial rfl)
    (fun _ _ _ => delay _ _ _ _ _))

theorem Worker.issues_workerQueueScheduledTasks
    (passive : ∀ c : Command, c.Passive → c.listsQueues = false → Q c)
    (promote : ∀ queue count now, Q (.promote queue count now)) (lock : Option String)
    (queues : List String) (batchSize : Int) (now : Instant) :
    Issues Q (Worker.workerQueueScheduledTasks h lock queues batchSize now) := by
  have all : Issues Q (queues.forM (Worker.queueScheduledTasks h batchSize now)) := by
    refine issues_forM (fun queue => issues_bind (issues_ask (promote _ _ _)) (fun result => ?_))
    cases result with
    | error e => trivial
    | ok ids => exact issues_ite (issues_ask (passive _ trivial rfl)) trivial
  cases lock with
  | none => exact all
  | some name =>
    exact issues_bind (issues_ask (passive _ trivial rfl)) (fun acquired => issues_ite all trivial)

theorem unfinishing_queuePeriodicTasks (onlyQueues excludeQueues : Finset String)
    (periodicTasks : List Task) : Issues (Command.Unfinishing h)
      (Worker.queuePeriodicTasks h onlyQueues excludeQueues periodicTasks) := by
  refine issues_forM (fun task => ?_)
  refine issues_bind (issues_ask ⟨trivial, trivial⟩) (fun results => issues_ite trivial ?_)
  exact issues_queueForNextPeriod task (fun _ => ⟨trivial, trivial⟩)
    (fun _ _ _ => ⟨trivial, trivial⟩)

theorem unfinishing_workerQueueScheduledTasks (lock : Option String) (queues : List String)
    (batchSize : Int) (now : Instant) : Issues (Command.Unfinishing h)
      (Worker.workerQueueScheduledTasks h lock queues batchSize now) := by
  have all : Issues (Command.Unfinishing h)
      (queues.forM (Worker.queueScheduledTasks h batchSize now)) := by
    refine issues_forM (fun queue => issues_bind (issues_ask ⟨trivial, trivial⟩) (fun result => ?_))
    cases result with
    | error e => trivial
    | ok ids => exact issues_ite (issues_ask ⟨trivial, trivial⟩) trivial
  cases lock with
  | none => exact all
  | some name =>
    exact issues_bind (issues_ask ⟨rfl, trivial⟩) (fun acquired => issues_ite all trivial)

end Commands

variable {C : Type} [DecidableEq C]

abbrev WorkerPool (C : Type) := Pool C Store Command Reply Exn Unit

/-- Any number of worker processes. One that crashes takes no more steps, and its restart is
another process. -/
def workersAfter (workers : C → WorkerProcess) (s : Store) (l : List (PoolEvent C Command)) :
    WorkerPool C :=
  run (Pool.exec exec) (Pool.start s (fun c => (workers c).routine)) l

end TaskTiger
