import TaskTiger.Store.Commands

namespace TaskTiger

open Interleaving

inductive Exn where
  | taskNotFound
  | queueFull
  | responseError (e : ScriptError)
  | raised (name : String)  -- by Python or by code outside the package
  | systemExit
  deriving DecidableEq, Repr

/-- A routine of a client or worker, a sequence of Redis commands. -/
abbrev Routine (α : Type) := Prog Command Reply Exn α

def redis (c : Command) : Routine (Reply c) := Prog.ask c

/-- A Task object of a queue. -/
structure Task where
  queue : String
  data : TaskData

/-- A Task that carries only its id; nothing reads its other data. -/
def Task.bare (queue id : String) : Task := ⟨queue, { id := id, func := "" }⟩

/-- What a retry function does with the number of the retry: it returns the delay, raises
StopRetry, or raises something else. -/
inductive RetryDelay where
  | delay (t : Time)
  | stop
  | raised (name : String)

/-- What an executor does in Redis while it runs the tasks. -/
inductive ExecutorStep where
  | heartbeat (now : Instant)
  | store (e : Execution)

/-- The configuration of a worker, and what lies outside the package: the clock, the modules of
the application and the code of its tasks. -/
structure Host where
  publishQueuedTasks : Bool
  alwaysEager : Bool
  lockRetry : Time
  activeTaskUpdateTimeout : Time
  requeueExpiredTasksBatchSize : Int
  defaultRetryMethod : RetryMethod
  exitWorkerOnJobTimeout : Bool
  startTime : Instant
  time : String → Instant
  token : String → String
  smembers : Enumeration
  genUniqueId : String → Json → Json → String
  importable : String → Bool
  isSubclass : String → String → Bool
  isPeriodic : String → Bool
  nextPeriod : String → Except String (Option Time)
  retryDelay : RetryMethod → Nat → RetryDelay
  executeEagerly : Task → Except String Unit
  execute : List Task → Except String (List ExecutorStep × Bool)
  loadRunner : String → Except String Unit  -- get_runner_class, and the class is called
  onPermanentError : Task → Option Execution → Except String Unit

/-- Runs code that may raise, such as that of the application. -/
def Host.call {α : Type} : Except String α → Routine α
  | .ok a => pure a
  | .error name => Prog.raise (.raised name)

namespace Task

variable (h : Host)

/-- The time in the new state: `when or time.time()`. -/
def resolveWhen (time : Option Time) (now : Instant) : Time :=
  match time with
  | none => now.time
  | some t => if t = 0 then now.time else t

/-- Task._move. -/
def move (t : Task) (kind : MoveKind) (time : Option Time) (now : Instant) : Routine Unit := do
  let reply ← redis (.move ⟨kind, t.queue, t.data.id, t.data.unique, resolveWhen time now,
    h.publishQueuedTasks⟩)
  match reply with
  | .ok () => pure ()
  | .error .failIfNotInZset => Prog.raise .taskNotFound
  | .error e => Prog.raise (.responseError e)

/-- Task.from_id, without executions. -/
def fromId (state : TaskState) (queue id : String) : Routine Task := do
  let (data, score) ← redis (.fromId state queue id)
  match data, score with
  | some d, some ts => if ts = 0 then Prog.raise .taskNotFound else pure ⟨queue, d⟩
  | _, _ => Prog.raise .taskNotFound

def nExecutions (t : Task) : Routine Nat := do
  let (found, count) ← redis (.nExecutions t.data.id)
  if found then pure (count.getD 0) else Prog.raise .taskNotFound

/-- A class that cannot be imported is skipped. -/
def shouldRetryOn (t : Task) (exceptionName : String) : Bool :=
  (t.data.retryOn.getD []).any (fun n => h.importable n && h.isSubclass exceptionName n)

/-- The check of max_queue_size in Task.delay: that of the call, or else that of the task. -/
def checkQueueSize (t : Task) (maxQueueSize : Option Int) : Routine Unit := do
  match maxQueueSize <|> t.data.maxQueueSize with
  | none => pure ()
  | some m =>
    if m = 0 then pure ()
    else do
      let size ← redis (.queueSizes t.queue)
      if m ≤ size then Prog.raise .queueFull else pure ()

/-- Task.delay. -/
def delay (t : Task) (ts : Option Time) (now : Instant) (maxQueueSize : Option Int) :
    Routine Unit := do
  t.checkQueueSize maxQueueSize
  if h.alwaysEager = true ∧ (delayTarget ts now).1 = .queued then Host.call (h.executeEagerly t)
  else redis (.delay t.queue t.data ts now h.publishQueuedTasks)

/-- Task._queue_for_next_period: the clone gets its id anew. -/
def queueForNextPeriod (t : Task) : Routine Unit := do
  let next ← Host.call (h.nextPeriod t.data.func)
  match next with
  | none => pure ()
  | some ts =>
    let id := h.genUniqueId t.data.func (.arr t.data.args) (.obj t.data.kwargs)
    delay h ⟨t.queue, { t.data with id := id }⟩ (some ts) (h.time id) none

end Task

end TaskTiger
