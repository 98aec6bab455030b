import TaskTiger.Worker.QueueNames
import TaskTiger.Worker.Worker

namespace TaskTiger

open Redis Interleaving

/-! Worker._process_from_queue, and what Worker._worker_run makes of its result. -/

/-- `failedToAcquire` is the answer of the queue's semaphore. -/
def Worker.processFromQueue (h : Host) (queue : String) (batchSize : Int) (failedToAcquire : Bool)
    (now : Instant) (later : Time) : Routine (List String × Int) :=
  if failedToAcquire then pure ([], -1)
  else do
    let reply ← redis (.pickup queue batchSize now later)
    match reply with
    | .error e => Prog.raise (.responseError e)
    | .ok [] => pure ([], 0)
    | .ok (id :: ids) => do
      let processedCount ← processQueueTasks h queue (id :: ids)
      pure (id :: ids, processedCount)

/-- Remove queue if queue was processed and was empty. -/
def Worker.removesQueue (result : List String × Int) : Bool :=
  result.1.isEmpty && decide (result.2 ≠ -1)

/-! Workers that listen to the activity channel. -/

/-- Where a worker is in its loop. -/
inductive Phase where
  | subscribed             -- before the first _refresh_queue_set
  | listening
  | dropping (q : String)  -- between an empty _process_from_queue and _queue_set.remove
  deriving DecidableEq

/-- A worker: its queue filter, its _queue_set, and how many messages of the channel it has read. -/
structure Listener where
  onlyQueues : Finset String
  excludeQueues : Finset String
  queueSet : Finset String
  delivered : Nat
  phase : Phase

/-- Redis, the workers that run, and the promoted queues that are not announced yet. -/
structure System where
  store : Store
  workers : String → Option Listener
  announcing : List String

inductive Event where
  | client (c : Command)
  | subscribe (worker : String) (onlyQueues excludeQueues : Finset String)
  | refresh (worker : String)
  | deliver (worker : String)
  | process (worker queue : String) (batchSize : Int) (failedToAcquire : Bool) (now : Instant)
      (later : Time)
  | drop (worker : String)
  | promote (queue : String) (batchSize : Int) (now : Instant)
  | announce (queue : String)

namespace System

def initial : System where
  store := Store.empty
  workers := fun _ => none
  announcing := []

def setWorker (sys : System) (worker : String) (l : Option Listener) : System :=
  { sys with workers := fun w => if w = worker then l else sys.workers w }

/-- A step of a worker, if there is such a worker. -/
def act (sys : System) (worker : String) (f : Listener → System) : System :=
  match sys.workers worker with
  | some l => f l
  | none => sys

/-- Worker._process_queue_message, for the next message of the channel. -/
def deliver (sys : System) (worker : String) (l : Listener) : System :=
  match sys.store.activity[l.delivered]? with
  | some queue =>
      let found := filterQueues l.onlyQueues l.excludeQueues {queue}
      sys.setWorker worker
        (some { l with queueSet := l.queueSet ∪ found, delivered := l.delivered + 1 })
  | none => sys

/-- One queue of _worker_run up to the removal. A script error ends the worker. -/
def process (sys : System) (worker queue : String) (batchSize : Int) (now : Instant) (later : Time)
    (l : Listener) : System :=
  let (reply, store) := exec (.pickup queue batchSize now later) sys.store
  let sys := { sys with store := store }
  match reply with
  | .ok [] => sys.setWorker worker (some { l with phase := .dropping queue })
  | .ok _ => sys
  | .error _ => sys.setWorker worker none

end System

/-- What an event does; the configuration publishes queued tasks. -/
def happen : Event → System → Unit × System
  | .client c, sys => ((), { sys with store := (exec c sys.store).2 })
  | .subscribe worker onlyQueues excludeQueues, sys =>
      ((), if (sys.workers worker).isNone then
        sys.setWorker worker (some ⟨onlyQueues, excludeQueues, ∅, sys.store.activity.length,
          .subscribed⟩)
      else sys)
  | .refresh worker, sys =>
      ((), sys.act worker (fun l =>
        if l.phase = .subscribed then
          let listed := retrieveQueues l.onlyQueues (sys.store.queues .queued)
          let found := filterQueues l.onlyQueues l.excludeQueues listed
          sys.setWorker worker (some { l with queueSet := found, phase := .listening })
        else sys))
  | .deliver worker, sys =>
      ((), sys.act worker (fun l =>
        if l.phase = .listening then sys.deliver worker l else sys))
  | .process worker queue batchSize failedToAcquire now later, sys =>
      ((), sys.act worker (fun l =>
        if l.phase = .listening ∧ queue ∈ l.queueSet ∧ failedToAcquire = false then
          sys.process worker queue batchSize now later l
        else sys))
  | .drop worker, sys =>
      ((), sys.act worker (fun l =>
        match l.phase with
        | .dropping queue => sys.setWorker worker
            (some { l with queueSet := l.queueSet.erase queue, phase := .listening })
        | _ => sys))
  | .promote queue batchSize now, sys =>
      let (reply, store) := exec (.promote queue batchSize now) sys.store
      match reply with
      | .ok (_ :: _) => ((), { sys with store := store, announcing := queue :: sys.announcing })
      | _ => ((), { sys with store := store })
  | .announce queue, sys =>
      ((), if queue ∈ sys.announcing then
        { sys with store := sys.store.publish queue, announcing := sys.announcing.erase queue }
      else sys)

/-- With notification on, a client's delays and moves publish; a promotion is not a single step. -/
def Event.Notifies : Event → Prop
  | .client (.delay _ _ _ _ publish) => publish = true
  | .client (.move m) => m.publish = true
  | .client (.promote ..) => False
  | _ => True

end TaskTiger
