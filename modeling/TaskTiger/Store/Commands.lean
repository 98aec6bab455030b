import TaskTiger.Framework.Program
import TaskTiger.Store.MoveTask

namespace TaskTiger

open Redis Interleaving

/-! The calls of Task._move in the package, each with its states and mode. -/

inductive MoveKind where
  | done            -- _mark_done
  | mismatch        -- task ID mismatch in _process_queue_tasks
  | missing         -- removal of an id without a task object
  | retryLater      -- _finish_task_processing, state SCHEDULED
  | fail            -- _finish_task_processing, state ERROR
  | lockMiss        -- _execute_task_group, lock not acquired
  | requeueExpired  -- _worker_queue_expired_tasks, retriable task
  | failExpired     -- _worker_queue_expired_tasks, other task
  | retry           -- Task.retry
  | cancel          -- Task.cancel
  | delete          -- Task.delete
  deriving DecidableEq, Repr

namespace MoveKind

def fromState : MoveKind → TaskState
  | retry | delete => .error
  | cancel => .scheduled
  | _ => .active

def toState : MoveKind → Option TaskState
  | done | mismatch | missing | cancel | delete => none
  | retryLater | lockMiss => some .scheduled
  | fail | failExpired => some .error
  | requeueExpired | retry => some .queued

def mode : MoveKind → Mode
  | lockMiss => .min
  | requeueExpired => .nx
  | _ => .always

theorem toState_ne_fromState (k : MoveKind) : k.toState ≠ some k.fromState := by
  cases k <;> simp [toState, fromState]

theorem mode_ne_other (k : MoveKind) (name : String) : k.mode ≠ .other name := by
  cases k <;> simp [mode]

end MoveKind

/-- A call of Task._move: the task's id, queue and unique flag, and the resolved time. -/
structure Move where
  kind : MoveKind
  queue : String
  id : String
  unique : Bool
  when : Time
  publish : Bool

def Move.args (m : Move) : MoveTask where
  id := m.id
  queue := m.queue
  fromState := m.kind.fromState
  toState := m.kind.toState
  unique := m.unique
  when := m.when
  mode := m.kind.mode
  publishQueuedTasks := m.publish

/-- The move finds its id where it expects it. -/
def Move.Effective (m : Move) (s : Store) : Prop := m.id ∈ s.zset m.kind.fromState m.queue

instance (m : Move) (s : Store) : Decidable (m.Effective s) :=
  inferInstanceAs (Decidable (m.id ∈ s.zset m.kind.fromState m.queue))

/-! Task.delay. -/

/-- Immediately queue if there is no timestamp or it is in the past (zero is both). -/
def delayTarget (ts : Option Time) (now : Instant) : TaskState × Time :=
  match ts with
  | none => (.queued, now.time)
  | some t => if t ≤ now.time then (.queued, now.time) else (.scheduled, t)

/-- The object that is serialized. -/
def delayedData (data : TaskData) (ts : Option Time) (now : Instant) : TaskData :=
  { data with timeLastQueued := some now.time, scheduledAt := some (delayTarget ts now).2 }

/-- The MULTI pipeline of Task.delay. In case of unique tasks, it doesn't update the score. -/
def delayPipeline (queue : String) (data : TaskData) (ts : Option Time) (now : Instant)
    (publish : Bool) (s : Store) : Store :=
  let state := (delayTarget ts now).1
  let s := (s.sadd state queue).setTask data.id (some (delayedData data ts now))
  let s := s.setZset state queue
    (zaddNoupdate (s.zset state queue) (delayTarget ts now).2 data.id)
  if state = .queued ∧ publish = true then s.publish queue else s

/-- zpoppush in Worker._process_from_queue. -/
def pickupArgs (queue : String) (count : Int) (now : Instant) (later : Time) : Zpoppush :=
  ⟨.queued, .active, queue, none, count, now.time, some (.scheduled, later)⟩

/-- zpoppush in Worker._worker_queue_scheduled_tasks. -/
def promoteArgs (queue : String) (count : Int) (now : Instant) : Zpoppush :=
  ⟨.scheduled, .queued, queue, some now.time, count, now.time, none⟩

/-- ZADD of Worker.heartbeat. -/
def heartbeat (queue : String) (ids : List String) (now : Instant) (s : Store) : Store :=
  s.setZset .active queue (ids.foldl (fun z id => z.add now.time id) (s.zset .active queue))

/-- LTRIM key -m -1. -/
def ltrim {α : Type} (m : Int) (l : List α) : List α :=
  if 0 ≤ m then l.drop (l.length - m.toNat) else l.drop (-m).toNat

/-- The pipeline of Worker.store_task_execution for one task. -/
def storeExecution (id : String) (maxStored : Option Int) (e : Execution) (s : Store) : Store :=
  let pushed := s.executions id ++ [e]
  let kept := match maxStored with
    | none => pushed
    | some m => if m = 0 then pushed else ltrim m pushed
  { s with
    executionsCount := fun x => if x = id then some ((s.executionsCount id).getD 0 + 1)
      else s.executionsCount x
    executions := fun x => if x = id then kept else s.executions x }

/-- One round trip to Redis: a command, a MULTI pipeline or a script; and the callback of a
runner, which is no Redis command but is part of what a worker does. -/
inductive Command where
  | delay (queue : String) (data : TaskData) (ts : Option Time) (now : Instant) (publish : Bool)
  | pickup (queue : String) (count : Int) (now : Instant) (later : Time)
  | promote (queue : String) (count : Int) (now : Instant)
  | move (m : Move)
  | updateScheduledTime (number : ℚ → ℚ) (queue id : String) (ts : Time)
  | heartbeat (queue : String) (ids : List String) (now : Instant)
  | publish (queue : String)
  | storeExecution (id : String) (maxStored : Option Int) (e : Execution)
  | acquireLock (name token : String)
  | releaseLock (name token : String)
  | expireLock (name : String)
  | fromId (state : TaskState) (queue id : String)
  | mget (ids : List String)
  | get (id : String)
  | lastExecution (id : String)
  | nExecutions (id : String)
  | queueSizes (queue : String)
  | getExpiredTasks (e : Enumeration) (time : Time) (batchSize : Int)
  | permanentError (id : String)
  | zscores (queue id : String)  -- in QUEUED, ACTIVE and SCHEDULED
  | zrange (state : TaskState) (queue : String) (start stop : Int)  -- and ZCARD
  | mgetExecutions (ids : List String) (loadExecutions : Nat)
  | smembers (e : Enumeration) (state : TaskState)

@[reducible] def Reply : Command → Type
  | .pickup .. | .promote .. => Except ScriptError (List String)
  | .move _ => Except ScriptError Unit
  | .updateScheduledTime .. => Except ScriptError Bool
  | .acquireLock .. | .releaseLock .. => Bool
  | .fromId .. => Option TaskData × Option Time
  | .mget _ => List (Option TaskData)
  | .get _ => Option TaskData
  | .lastExecution _ => Option Execution
  | .nExecutions _ => Bool × Option Nat
  | .queueSizes _ => Nat
  | .getExpiredTasks .. => List (String × String)
  | .zscores .. => List (Option Time)
  | .zrange .. => Nat × List (Time × String)
  | .mgetExecutions .. => List (Option TaskData) × List (List Execution)
  | .smembers .. => List String
  | _ => Unit

/-- What Redis does with a command. -/
def exec : (c : Command) → Store → Reply c × Store
  | .delay queue data ts now publish, s => ((), delayPipeline queue data ts now publish s)
  | .pickup queue count now later, s => zpoppushExists (pickupArgs queue count now later) s
  | .promote queue count now, s => zpoppushExists (promoteArgs queue count now) s
  | .move m, s => moveTask m.args s
  | .updateScheduledTime number queue id ts, s => updateScheduledTime number queue id ts s
  | .heartbeat queue ids now, s => ((), heartbeat queue ids now s)
  | .publish queue, s => ((), s.publish queue)
  | .storeExecution id maxStored e, s => ((), storeExecution id maxStored e s)
  | .acquireLock name token, s =>
      match s.locks name with
      | some _ => (false, s)
      | none => (true, { s with locks := fun x => if x = name then some token else s.locks x })
  | .releaseLock name token, s =>
      if s.locks name = some token then
        (true, { s with locks := fun x => if x = name then none else s.locks x })
      else (false, s)
  | .expireLock name, s => ((), { s with locks := fun x => if x = name then none else s.locks x })
  | .fromId state queue id, s => ((s.task id, s.score state queue id), s)
  | .mget ids, s => (ids.map s.task, s)
  | .get id, s => (s.task id, s)
  | .lastExecution id, s => ((s.executions id).getLast?, s)
  | .nExecutions id, s => (((s.task id).isSome, s.executionsCount id), s)
  | .queueSizes queue, s =>
      ((s.zset .queued queue).card + (s.zset .scheduled queue).card + (s.zset .active queue).card, s)
  | .getExpiredTasks e time batchSize, s => (getExpiredTasks e time batchSize s, s)
  | .permanentError _, s => ((), s)
  | .zscores queue id, s =>
      ([.queued, .active, .scheduled].map (fun st => s.score st queue id), s)
  | .zrange state queue start stop, s =>
      (((s.zset state queue).card, (s.zset state queue).range start stop), s)
  | .mgetExecutions ids n, s =>
      ((ids.map s.task, ids.map (fun id => (s.executions id).rtake n)), s)
  | .smembers e state, s => (e.order (s.queues state), s)

/-- The store after a sequence of commands of any number of clients and workers. -/
abbrev runAll (s : Store) (l : List Command) : Store := run exec s l

/-- Each command of the sequence meets P in the store it finds. -/
abbrev Throughout (P : Store → Command → Prop) (s : Store) (l : List Command) : Prop :=
  Along exec P s l

end TaskTiger
