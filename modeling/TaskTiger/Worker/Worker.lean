import TaskTiger.Worker.Task

namespace TaskTiger

open Interleaving

def jobTimeoutException : String := "tasktiger.exceptions:JobTimeoutException"

namespace Worker

variable (h : Host)

/-! Worker._worker_queue_expired_tasks. -/

/-- The block under `try`: the task is requeued if it is retriable, and fails otherwise. -/
def expireTask (queue id : String) : Routine Unit := do
  let task ← Task.fromId .active queue id
  if task.shouldRetryOn h jobTimeoutException then
    task.move h .requeueExpired (some h.startTime.time) (h.time id)
  else
    task.move h .failExpired (some h.startTime.time) (h.time id)

/-- The handler: only TaskNotFound is caught, and an id without an object is removed. -/
def expireNotFound (queue id : String) : Exn → Routine Unit
  | .taskNotFound => do
    let data ← redis (.get id)
    if data.isNone then (Task.bare queue id).move h .missing none (h.time id) else pure ()
  | e => Prog.raise e

def expiredTasksLock : String := "queue_expired_tasks"

def workerQueueExpiredTasks : Routine Unit := do
  let acquired ← redis (.acquireLock expiredTasksLock (h.token expiredTasksLock))
  if acquired then do
    let taskData ← redis (.getExpiredTasks h.smembers
      (h.startTime.time - h.activeTaskUpdateTimeout) h.requeueExpiredTasksBatchSize)
    taskData.forM (fun (queue, id) =>
      Prog.attempt (expireTask h queue id) (expireNotFound h queue id))
    if (taskData.length : Int) = h.requeueExpiredTasksBatchSize then do
      -- a lock that has timed out is left alone
      let _ ← redis (.releaseLock expiredTasksLock (h.token expiredTasksLock))
      pure ()
    else pure ()
  else pure ()

/-! Worker._finish_task_processing. -/

/-- Which retry method applies: that of the execution, of the task, or the default one. -/
def retryMethod (task : Task) (execution : Option Execution) : Option RetryMethod :=
  let ofTask := match task.data.retryMethod with
    | none => none
    | some m =>
      if (task.data.retryOn.getD []).isEmpty then some m
      else match execution with
        | some e =>
          if h.importable e.exceptionName && task.shouldRetryOn h e.exceptionName then some m
          else none
        | none => if task.shouldRetryOn h jobTimeoutException then some m else none
  match execution with
  | some e =>
    if e.retry then
      some (e.retryMethod.getD (task.data.retryMethod.getD h.defaultRetryMethod))
    else ofTask
  | none => ofTask

def shouldLogError (execution : Option Execution) : Bool :=
  match execution with
  | some e => if e.retry then e.logError else true
  | none => true

/-- When the task is retried, or none if it has failed for good. -/
def retryTime (task : Task) (execution : Option Execution) (now : Instant) :
    Routine (Option Time) := do
  match retryMethod h task execution with
  | none => pure none
  | some m => do
    -- without executions, as after an unexpected exit of the child, pretend there is one
    let n ← task.nExecutions
    if h.importable m.func then
      match h.retryDelay m (if n = 0 then 1 else n) with
      | .delay d => pure (some (now.time + d))
      | .stop => pure none
      | .raised name => Prog.raise (.raised name)
    else pure none

/-- Without a runner class, or with the empty one, there is nothing to call. -/
def permanentError (task : Task) (execution : Option Execution) : Routine Unit :=
  match task.data.runnerClass with
  | none => pure ()
  | some path =>
    if path = "" then pure ()
    else do
      Host.call (h.loadRunner path)
      redis (.permanentError task.data.id)
      Host.call (h.onPermanentError task execution)

/-- Moves a failed task to SCHEDULED for its retry, or to ERROR; one that fails for good without
an error to log is removed. -/
def moveFailed (task : Task) (execution : Option Execution) (now : Instant) :
    Option Time → Routine Unit
  | some ts => task.move h .retryLater (some ts) now
  | none =>
    if shouldLogError execution then do
      task.move h .fail (some now.time) now
      permanentError h task execution
    else task.move h .done none now

def finishTaskProcessing (task : Task) (success : Bool) : Routine Unit := do
  let now := h.time task.data.id
  if success then task.move h .done none now
  else do
    let execution ← redis (.lastExecution task.data.id)
    let retry ← retryTime h task execution now
    moveFailed h task execution now retry
    if h.exitWorkerOnJobTimeout &&
        (execution.map Execution.exceptionName = some jobTimeoutException) then
      Prog.raise .systemExit
    else pure ()

/-! Worker._execute_task_group. -/

def lockId (task : Task) : String :=
  match task.data.lockKey with
  | some (k :: ks) =>
    h.genUniqueId task.data.func .null
      (.obj ((k :: ks).map (fun key => (key, (task.data.kwargs.lookup key).getD .null))))
  | _ => h.genUniqueId task.data.func (.arr task.data.args) (.obj task.data.kwargs)

/-- The locks held so far and the tasks that can run. A task whose lock is taken is rescheduled. -/
def acquireLocks : List Task → List String → List Task → Routine (List String × List Task)
  | [], locks, ready => pure (locks, ready)
  | task :: tasks, locks, ready =>
    if task.data.lock = true ∧ lockId h task ∉ locks then do
      let acquired ← redis (.acquireLock (lockId h task) (h.token (lockId h task)))
      if acquired then acquireLocks tasks (locks ++ [lockId h task]) (ready ++ [task])
      else do
        let now := h.time task.data.id
        task.move h .lockMiss (some (now.time + h.lockRetry)) now
        acquireLocks tasks locks ready
    else acquireLocks tasks locks (ready ++ [task])

/-- Before executing periodic tasks, queue them for the next period. -/
def prepareExecution (tasks : List Task) : Routine Unit :=
  match tasks with
  | [] => pure ()
  | task :: _ =>
    if h.isPeriodic task.data.func then task.queueForNextPeriod h else pure ()

def executorStep (queue : String) (tasks : List Task) : ExecutorStep → Routine Unit
  | .heartbeat now => redis (.heartbeat queue (tasks.map (fun task => task.data.id)) now)
  | .store e => tasks.forM (fun task =>
      redis (.storeExecution task.data.id task.data.maxStoredExecutions e))

def releaseLock (lock : String) : Routine Unit := do
  let _ ← redis (.releaseLock lock (h.token lock))
  pure ()

def executeTaskGroup (queue : String) (tasks : List Task) : Routine (Bool × List Task) := do
  let (locks, ready) ← acquireLocks h tasks [] []
  if ready.isEmpty then pure (true, [])
  else do
    prepareExecution h ready
    let (steps, success) ← Host.call (h.execute ready)
    steps.forM (executorStep queue ready)
    locks.forM (releaseLock h)
    pure (success, ready)

/-! Worker._process_queue_tasks. -/

/-- The tasks that were found. An id without an object is removed, and so is the task of an
object that has another id. -/
def loadTasks (queue : String) : List (String × Option TaskData) → Routine (List Task)
  | [] => pure []
  | (id, none) :: rest => do
    (Task.bare queue id).move h .missing none (h.time id)
    loadTasks queue rest
  | (id, some d) :: rest =>
    if d.id = id then do
      let tasks ← loadTasks queue rest
      pure (⟨queue, d⟩ :: tasks)
    else do
      (Task.mk queue d).move h .mismatch none (h.time id)
      loadTasks queue rest

/-- Adds a task to the group of its function; the groups are in the order of their first tasks. -/
def addToGroup (groups : List (List Task)) (task : Task) : List (List Task) :=
  if groups.any (fun g => g.any (fun t => t.data.func = task.data.func)) then
    groups.map (fun g => if g.any (fun t => t.data.func = task.data.func) then g ++ [task] else g)
  else groups ++ [[task]]

def processGroups (queue : String) : List (List Task) → Routine Nat
  | [] => pure 0
  | tasks :: groups => do
    let (success, processed) ← executeTaskGroup h queue tasks
    processed.forM (fun task => finishTaskProcessing h task success)
    let rest ← processGroups queue groups
    pure (processed.length + rest)

def processQueueTasks (queue : String) (taskIds : List String) : Routine Nat := do
  let serialized ← redis (.mget taskIds)
  let tasks ← loadTasks h queue (taskIds.zip serialized)
  processGroups h queue (tasks.foldl addToGroup [])

end Worker

end TaskTiger
