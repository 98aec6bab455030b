import TaskTiger.Framework.Recorder
import TaskTiger.Worker.Notification
import TaskTiger.Worker.Periodic

namespace TaskTiger

open Redis Interleaving Prog

/-! Worker.run. -/

/-- A worker, as its main loop sees it. -/
structure MainWorker where
  onlyQueues : Finset String
  excludeQueues : Finset String
  batchQueues : String → Option Int
  scheduledTaskBatchSize : Int
  scheduledTasksLock : Option String  -- if QUEUE_SCHEDULED_TASKS_TIME is positive
  polls : Bool                        -- POLL_TASK_QUEUES_INTERVAL
  periodicTasks : List Task
  smembers : Enumeration
  once : Bool
  forceOnce : Bool

/-- One call of _process_from_queue: the clock and the application as they are then, the answer of
the semaphore, and whether a signal has come by its end. -/
structure Visit where
  host : Host
  failedToAcquire : Bool
  now : Instant
  later : Time
  stopRequested : Bool

/-- What an iteration of the loop meets. -/
structure Iteration where
  messages : List String  -- that _pubsub_for_queues reads
  interrupted : Bool      -- KeyboardInterrupt while the worker waits
  shuffle : Enumeration
  visit : String → Visit
  stopBeforeCheck : Bool
  checkDue : Bool         -- SELECT_TIMEOUT has passed since the last check
  check : Host
  checkTime : Instant
  stopRequested : Bool    -- a signal has come by the end of the iteration
  exitAfter : Bool

inductive LoopExit where
  | once
  | exitAfter
  | stopped  -- KeyboardInterrupt
  deriving DecidableEq

/-- How the loop has ended, if it has, with which _queue_set, and after how many iterations. -/
structure LoopRun where
  exit : Option LoopExit
  queueSet : Finset String
  iterations : Nat
  deriving DecidableEq

namespace MainWorker

variable (w : MainWorker)

def filterQueues (queues : Finset String) : Finset String :=
  TaskTiger.filterQueues w.onlyQueues w.excludeQueues queues

def retrieveQueues (state : TaskState) : Routine (Finset String) := do
  let members ← redis (.smembers w.smembers state)
  pure (TaskTiger.retrieveQueues w.onlyQueues members.toFinset)

def refreshQueueSet : Routine (Finset String) := do
  let queues ← w.retrieveQueues .queued
  pure (w.filterQueues queues)

def processQueueMessage (queueSet : Finset String) (message : String) : Finset String :=
  queueSet ∪ w.filterQueues {message}

/-- The batch size of the last part that has one. -/
def getQueueBatchSize (queue : String) : Int :=
  (dottedParts queue).foldl (fun batchSize part => (w.batchQueues part).getD batchSize) 1

/-- See if any worker has recently queued scheduled tasks. -/
def acquireScheduledTasksLock (h : Host) : Routine Bool :=
  match w.scheduledTasksLock with
  | none => pure true
  | some name => redis (.acquireLock name (h.token name))

def workerQueueScheduledTasks (h : Host) (now : Instant) : Routine Unit := do
  let acquired ← w.acquireScheduledTasksLock h
  if acquired then do
    let queues ← w.retrieveQueues .scheduled
    (w.smembers.order (w.filterQueues queues)).forM
      (Worker.queueScheduledTasks h w.scheduledTaskBatchSize now)
  else pure ()

def processFromQueue (v : Visit) (queue : String) : Routine (List String × Int) :=
  Worker.processFromQueue v.host queue (w.getQueueBatchSize queue) v.failedToAcquire v.now v.later

/-- The loop over the queues: what is left of _queue_set, and whether a stop is requested. -/
def processQueues (it : Iteration) : List String → Finset String → Routine (Finset String × Bool)
  | [], queueSet => pure (queueSet, false)
  | queue :: queues, queueSet => do
    let result ← w.processFromQueue (it.visit queue) queue
    let left := if Worker.removesQueue result then queueSet.erase queue else queueSet
    if (it.visit queue).stopRequested then pure (left, true) else processQueues it queues left

def workerRun (it : Iteration) (queueSet : Finset String) : Routine (Finset String × Bool) := do
  let (queueSet, stopped) ← w.processQueues it (it.shuffle.order queueSet) queueSet
  if stopped || it.stopBeforeCheck then pure (queueSet, true)
  else if it.checkDue then do
    w.workerQueueScheduledTasks it.check it.checkTime
    Worker.workerQueueExpiredTasks it.check
    pure (queueSet, it.stopRequested)
  else pure (queueSet, it.stopRequested)

/-- _poll_for_queues or _pubsub_for_queues. -/
def waitForQueues (it : Iteration) (queueSet : Finset String) : Routine (Finset String) :=
  if w.polls then w.refreshQueueSet else pure (it.messages.foldl w.processQueueMessage queueSet)

def loop : List Iteration → Finset String → Routine LoopRun
  | [], queueSet => pure ⟨none, queueSet, 0⟩
  | it :: its, queueSet => do
    if it.interrupted then pure ⟨some .stopped, queueSet, 0⟩
    else do
      let queueSet ← w.waitForQueues it queueSet
      let (queueSet, stopRequested) ← w.workerRun it queueSet
      if w.once && (queueSet = ∅ || w.forceOnce) then pure ⟨some .once, queueSet, 1⟩
      else if it.exitAfter then pure ⟨some .exitAfter, queueSet, 1⟩
      else if stopRequested then pure ⟨some .stopped, queueSet, 1⟩
      else do
        let rest ← loop its queueSet
        pure { rest with iterations := rest.iterations + 1 }

/-- Worker.run, as far as its iterations are given. -/
def run (startup : Host) (its : List Iteration) : Routine LoopRun := do
  Worker.queuePeriodicTasks startup w.onlyQueues w.excludeQueues w.periodicTasks
  let queueSet ← w.refreshQueueSet
  w.loop its queueSet

end MainWorker

/-- The command does not ask for the names of queues. -/
abbrev Command.Shown (c : Command) : Prop := c.listsQueues = false

namespace Worker

variable (h : Host)

theorem shown_executeTaskGroup (queue : String) (tasks : List Task) :
    Issues Command.Shown (executeTaskGroup h queue tasks) :=
  issues_executeTaskGroup tasks (fun _ => rfl) (fun _ _ => rfl) (fun _ => rfl)
    (fun _ _ _ _ _ => rfl) (fun _ _ => rfl) (fun _ _ _ => rfl) (fun _ => rfl)

theorem shown_processQueueTasks (queue : String) (taskIds : List String) :
    Issues Command.Shown (processQueueTasks h queue taskIds) := by
  have loads : ∀ entries, Issues Command.Shown (loadTasks h queue entries) :=
    issues_loadTasks (fun _ _ _ => rfl) (fun _ _ => rfl)
  have groups : ∀ groups, Issues Command.Shown (processGroups h queue groups) := by
    intro groups
    induction groups with
    | nil => trivial
    | cons tasks groups ih =>
      refine issues_bind (shown_executeTaskGroup h queue tasks) (fun processed => ?_)
      refine issues_bind (issues_forM (fun task => ?_)) (fun _ => issues_bind ih (fun _ => trivial))
      exact issues_finishTaskProcessing h (fun _ _ _ => rfl) rfl rfl rfl
  exact issues_bind (issues_ask rfl) (fun _ => issues_bind (loads _) (fun _ => groups _))

theorem shown_processFromQueue (queue : String) (batchSize : Int) (failedToAcquire : Bool)
    (now : Instant) (later : Time) :
    Issues Command.Shown (processFromQueue h queue batchSize failedToAcquire now later) := by
  refine issues_ite trivial (issues_bind (issues_ask rfl) (fun reply => ?_))
  cases reply with
  | error e => trivial
  | ok taskIds =>
    cases taskIds with
    | nil => trivial
    | cons id ids => exact issues_bind (shown_processQueueTasks h _ _) (fun _ => trivial)

theorem shown_queueScheduledTasks (batchSize : Int) (now : Instant) (queues : List String) :
    Issues Command.Shown (queues.forM (queueScheduledTasks h batchSize now)) := by
  refine issues_forM (fun queue => issues_bind (issues_ask rfl) (fun result => ?_))
  cases result with
  | error e => trivial
  | ok ids => exact issues_ite (issues_ask rfl) trivial

end Worker

/-! What becomes of the queues that a worker has found. -/

/-- The command asks for the queues that have something queued. -/
def Command.refreshes : Command → Bool
  | .smembers _ .queued => true
  | _ => false

theorem Command.Shown.not_refreshes {c : Command} (hc : c.Shown) : c.refreshes = false := by
  cases c with
  | smembers => cases hc
  | _ => rfl

/-- A pickup has found the queue empty or left it empty, unless it starves. -/
def FoundEmpty (queue : String) (tr : List (Store × Command)) : Prop :=
  ∃ s count now later, (s, Command.pickup queue count now later) ∈ tr ∧
    (((exec (.pickup queue count now later) s).2.zset .queued queue).nonempty = false ∨
      Starves queue count s)

/-- Each of the queues is still there, or has been found empty since. -/
def Accounts (queues left : Finset String) (tr : List (Store × Command)) : Prop :=
  ∀ q ∈ queues, q ∈ left ∨ FoundEmpty q tr

section

variable {tr tr' : List (Store × Command)} {queues left later : Finset String} {q : String}

theorem FoundEmpty.mono (h : FoundEmpty q tr) (sub : tr ⊆ tr') : FoundEmpty q tr' := by
  obtain ⟨t, count, now, later, here, empty⟩ := h
  exact ⟨t, count, now, later, sub here, empty⟩

theorem accounts_of_subset (h : queues ⊆ left) : Accounts queues left tr := fun _ hq => Or.inl (h hq)

theorem Accounts.trans (h : Accounts queues left tr) (h' : Accounts left later tr') :
    Accounts queues later (tr ++ tr') := by
  intro q hq
  rcases h q hq with here | empty
  · exact (h' q here).imp id (fun empty => empty.mono (List.subset_append_right tr tr'))
  · exact Or.inr (empty.mono (List.subset_append_left tr tr'))

theorem Accounts.mono (h : Accounts queues left tr) (sub : tr ⊆ tr') : Accounts queues left tr' :=
  fun q hq => (h q hq).imp id (fun empty => empty.mono sub)

end

namespace MainWorker

variable {w : MainWorker} {tr tr' : List (Store × Command)} {left : Finset String}

/-- The queues of the worker that have something queued. -/
def listed (w : MainWorker) (s : Store) : Finset String :=
  w.filterQueues (TaskTiger.retrieveQueues w.onlyQueues (s.queues .queued))

/-- The queues found by the last _refresh_queue_set are accounted for. -/
def AccountsForRefresh (w : MainWorker) (left : Finset String) (tr : List (Store × Command)) : Prop :=
  ∃ before t after, tr = before ++ (t, .smembers w.smembers .queued) :: after ∧
    (∀ y ∈ after, y.2.refreshes = false) ∧ Accounts (w.listed t) left after

/-- Between two refreshes, a part of the loop accounts for the queues it has been given. -/
structure Works (queues left : Finset String) (tr : List (Store × Command)) : Prop where
  accounts : Accounts queues left tr
  quiet : ∀ y ∈ tr, y.2.refreshes = false

theorem traces_processFromQueue (v : Visit) (q : String) :
    Traces exec (w.processFromQueue v q)
      (fun r tr => Worker.removesQueue r = true → FoundEmpty q tr) := by
  unfold processFromQueue Worker.processFromQueue
  split_ifs with failed
  · exact traces_pure (fun removed => by simp [Worker.removesQueue] at removed)
  · refine traces_ask_bind (fun t => ?_)
    cases reply : (exec (.pickup q (w.getQueueBatchSize q) v.now v.later) t).1 with
    | error e => exact traces_raise _
    | ok taskIds =>
      cases taskIds with
      | nil =>
        refine traces_pure (fun _ => ⟨t, _, _, _, List.mem_singleton_self _, ?_⟩)
        by_cases starves : Starves q (w.getQueueBatchSize q) t
        · exact Or.inr starves
        · exact Or.inl ((pickup_empties_iff reply).mpr starves)
      | cons id ids =>
        refine (traces_any _).bind (fun n _ _ => traces_pure (fun removed => ?_))
        simp [Worker.removesQueue] at removed

theorem traces_processQueues (it : Iteration) (order : List String) (queues : Finset String) :
    Traces exec (w.processQueues it order queues) (fun r tr => Accounts queues r.1 tr) := by
  induction order generalizing queues with
  | nil => exact traces_pure (accounts_of_subset (Finset.Subset.refl queues))
  | cons q order ih =>
    refine (traces_processFromQueue (it.visit q) q).bind (fun r new removes => ?_)
    have accounts : Accounts queues (if Worker.removesQueue r then queues.erase q else queues) new := by
      intro p hp
      split_ifs with removed
      · by_cases same : p = q
        · exact Or.inr (same ▸ removes removed)
        · exact Or.inl (Finset.mem_erase.mpr ⟨same, hp⟩)
      · exact Or.inl hp
    dsimp only
    cases (it.visit q).stopRequested with
    | true => exact traces_pure (by simpa using accounts)
    | false => exact (ih _).imp (fun _ _ rest => accounts.trans rest)

theorem shown_processQueues (it : Iteration) (order : List String) (queues : Finset String) :
    Issues Command.Shown (w.processQueues it order queues) := by
  induction order generalizing queues with
  | nil => trivial
  | cons q order ih =>
    refine issues_bind (Worker.shown_processFromQueue _ _ _ _ _ _) (fun result => ?_)
    exact issues_ite trivial (ih _)

/-- The worker looks for scheduled queues between two refreshes, but not for queued ones. -/
theorem quiet_workerRun (it : Iteration) (queues : Finset String) :
    Issues (fun c => c.refreshes = false) (w.workerRun it queues) := by
  have shown : ∀ {α : Type} {p : Routine α}, Issues Command.Shown p →
      Issues (fun c => c.refreshes = false) p := fun hp => hp.mono (fun _ hc => hc.not_refreshes)
  have lock : Issues (fun c => c.refreshes = false) (w.acquireScheduledTasksLock it.check) := by
    unfold acquireScheduledTasksLock
    cases w.scheduledTasksLock with
    | none => trivial
    | some name => exact issues_ask rfl
  have scheduled : Issues (fun c => c.refreshes = false)
      (w.workerQueueScheduledTasks it.check it.checkTime) := by
    refine issues_bind lock (fun acquired => issues_ite ?_ trivial)
    refine issues_bind (issues_bind (issues_ask rfl) (fun _ => trivial)) (fun members => ?_)
    exact shown (Worker.shown_queueScheduledTasks _ _ _ _)
  have expired : Issues Command.Shown (Worker.workerQueueExpiredTasks it.check) :=
    Worker.issues_workerQueueExpiredTasks _ (fun _ _ shown => shown) (fun _ _ => rfl)
  refine issues_bind (shown (shown_processQueues it _ queues)) (fun result => issues_ite trivial ?_)
  refine issues_ite (issues_bind scheduled (fun _ => ?_)) trivial
  exact issues_bind (shown expired) (fun _ => trivial)

theorem traces_workerRun (it : Iteration) (queues : Finset String) :
    Traces exec (w.workerRun it queues) (fun r tr => Works queues r.1 tr) := by
  have accounts : Traces exec (w.workerRun it queues) (fun r tr => Accounts queues r.1 tr) := by
    refine (traces_processQueues it _ queues).bind (fun r new accounts => ?_)
    obtain ⟨left, stopped⟩ := r
    have same : Accounts queues left (new ++ []) := by simpa using accounts
    dsimp only
    split_ifs with stop due
    · exact traces_pure same
    · refine (traces_any _).bind (fun _ tr1 _ => (traces_any _).bind (fun _ tr2 _ => traces_pure ?_))
      exact accounts.mono (List.subset_append_left new _)
    · exact traces_pure same
  exact (accounts.and (quiet_workerRun it queues).traces).imp (fun _ _ h => ⟨h.1, h.2⟩)

theorem traces_retrieveQueues (w : MainWorker) (st : TaskState) :
    Traces exec (w.retrieveQueues st) (fun queues tr => ∃ t, tr = [(t, .smembers w.smembers st)] ∧
      queues = TaskTiger.retrieveQueues w.onlyQueues (t.queues st)) := by
  refine traces_ask_bind (fun t => traces_pure ⟨t, rfl, ?_⟩)
  have all : (w.smembers.order (t.queues st)).toFinset = t.queues st := by
    ext q
    rw [List.mem_toFinset, w.smembers.mem]
  exact congrArg (TaskTiger.retrieveQueues w.onlyQueues) all

theorem traces_refreshQueueSet (w : MainWorker) :
    Traces exec w.refreshQueueSet
      (fun queues tr => ∃ t, tr = [(t, .smembers w.smembers .queued)] ∧ queues = w.listed t) := by
  refine (traces_retrieveQueues w .queued).bind (fun queues tr found => ?_)
  obtain ⟨t, rfl, rfl⟩ := found
  exact traces_pure ⟨t, by simp, rfl⟩

/-- A refresh starts the account anew. -/
theorem accounts_refresh (before : List (Store × Command)) (t : Store) :
    w.AccountsForRefresh (w.listed t) (before ++ [(t, .smembers w.smembers .queued)]) :=
  ⟨before, t, [], rfl, by simp, accounts_of_subset (Finset.Subset.refl _)⟩

theorem AccountsForRefresh.trans {queues : Finset String} (h : w.AccountsForRefresh queues tr)
    (h' : Works queues left tr') : w.AccountsForRefresh left (tr ++ tr') := by
  obtain ⟨before, t, after, rfl, quiet, accounts⟩ := h
  refine ⟨before, t, after ++ tr', by simp, fun y hy => ?_, accounts.trans h'.accounts⟩
  rcases List.mem_append.mp hy with hin | hin
  · exact quiet y hin
  · exact h'.quiet y hin

/-- The queues of the worker that are announced by messages. -/
def announced (w : MainWorker) (messages : List String) : Finset String :=
  w.filterQueues messages.toFinset

theorem mem_processMessages {messages : List String} {queues : Finset String} {q : String} :
    q ∈ messages.foldl w.processQueueMessage queues ↔ q ∈ queues ∨ q ∈ w.announced messages := by
  induction messages generalizing queues with
  | nil => simp [announced, filterQueues, TaskTiger.filterQueues]
  | cons message messages ih =>
    rw [List.foldl_cons, ih]
    simp only [processQueueMessage, announced, filterQueues, TaskTiger.filterQueues,
      Finset.mem_union, Finset.mem_filter, Finset.mem_singleton, List.mem_toFinset, List.mem_cons]
    tauto

/-- The channel only adds queues, and a refresh starts the account anew. -/
theorem traces_waitForQueues (it : Iteration) (queues : Finset String) :
    Traces exec (w.waitForQueues it queues) (fun next new =>
      (∀ tr, w.AccountsForRefresh queues tr → w.AccountsForRefresh next (tr ++ new)) ∧
        (w.polls = false → queues ⊆ next ∧ w.announced it.messages ⊆ next)) := by
  unfold waitForQueues
  split_ifs with polls
  · refine (traces_refreshQueueSet w).imp (fun next new found => ⟨fun tr _ => ?_, ?_⟩)
    · obtain ⟨t, rfl, rfl⟩ := found
      exact accounts_refresh tr t
    · intro other
      simp [polls] at other
  · refine traces_pure ⟨fun tr h => ?_, fun _ => ⟨?_, ?_⟩⟩
    · refine h.trans ⟨accounts_of_subset (fun q hq => ?_), by simp⟩
      exact mem_processMessages.mpr (Or.inl hq)
    · exact fun q hq => mem_processMessages.mpr (Or.inl hq)
    · exact fun q hq => mem_processMessages.mpr (Or.inr hq)

/-- What the loop does with its queues, and with those announced in its first iteration. -/
structure Loops (w : MainWorker) (its : List Iteration) (queues : Finset String) (r : LoopRun)
    (new : List (Store × Command)) : Prop where
  refreshed : ∀ tr, w.AccountsForRefresh queues tr → w.AccountsForRefresh r.queueSet (tr ++ new)
  kept : w.polls = false → Accounts queues r.queueSet new
  heard : w.polls = false → ∀ it ∈ its.head?, r.iterations ≠ 0 →
    Accounts (w.announced it.messages) r.queueSet new

theorem loops_none (its : List Iteration) (queues : Finset String) (exit : Option LoopExit) :
    w.Loops its queues ⟨exit, queues, 0⟩ [] where
  refreshed tr h := by simpa using h
  kept _ := accounts_of_subset (Finset.Subset.refl _)
  heard _ _ _ h := absurd rfl h

/-- An iteration, and what the rest of the loop does with the queues it leaves. -/
theorem Loops.iteration {it : Iteration} {its : List Iteration} {queues left : Finset String}
    {rest : LoopRun} {new new' : List (Store × Command)} (exit : Option LoopExit)
    (one : w.Loops (it :: its) queues ⟨exit, left, 1⟩ new) (looped : w.Loops its left rest new') :
    w.Loops (it :: its) queues { rest with iterations := rest.iterations + 1 } (new ++ new') where
  refreshed tr h := by simpa using looped.refreshed _ (one.refreshed tr h)
  kept polls := (one.kept polls).trans (looped.kept polls)
  heard polls it' hit _ := (one.heard polls it' hit one_ne_zero).trans (looped.kept polls)

theorem traces_loop (its : List Iteration) (queues : Finset String) :
    Traces exec (w.loop its queues) (w.Loops its queues) := by
  induction its generalizing queues with
  | nil => exact traces_pure (loops_none _ _ _)
  | cons it its ih =>
    rw [loop]
    by_cases interrupted : it.interrupted = true
    · rw [if_pos interrupted]
      exact traces_pure (loops_none _ _ _)
    · rw [if_neg interrupted]
      refine (traces_waitForQueues it queues).bind (fun next new1 waited => ?_)
      refine (traces_workerRun it next).bind (fun ran new2 worked => ?_)
      obtain ⟨left, stopRequested⟩ := ran
      have one : ∀ exit, w.Loops (it :: its) queues ⟨exit, left, 1⟩ (new1 ++ new2) := by
        intro exit
        refine ⟨fun tr h => ?_, fun polls => ?_, fun polls it' hit _ => ?_⟩
        · simpa using (waited.1 tr h).trans worked
        · exact (accounts_of_subset (waited.2 polls).1).trans worked.accounts
        · obtain rfl : it = it' := by simpa using hit
          exact (accounts_of_subset (waited.2 polls).2).trans worked.accounts
      have ends : ∀ exit, Traces exec (pure ⟨exit, left, 1⟩ : Routine LoopRun)
          (fun r new => w.Loops (it :: its) queues r (new1 ++ (new2 ++ new))) :=
        fun exit => traces_pure (by simpa using one exit)
      dsimp only
      split_ifs
      · exact ends _
      · exact ends _
      · exact ends _
      · refine (ih left).bind (fun rest new3 looped => traces_pure ?_)
        simpa using (one none).iteration none looped

/-! A loop over more iterations goes on where the loop over fewer has ended. -/

/-- What the rest of the loop does, if it has not come to its end by then. -/
def goOn (w : MainWorker) (more : List Iteration) (r : LoopRun) : Routine LoopRun :=
  if r.exit = none then do
    let rest ← w.loop more r.queueSet
    pure { rest with iterations := r.iterations + rest.iterations }
  else pure r

theorem goOn_exit {more : List Iteration} {r : LoopRun} (ended : r.exit ≠ none) :
    w.goOn more r = pure r := if_neg ended

theorem loop_append (first more : List Iteration) (queues : Finset String) :
    w.loop (first ++ more) queues = w.loop first queues >>= w.goOn more := by
  induction first generalizing queues with
  | nil =>
    change _ = w.loop more queues >>= fun rest => pure { rest with iterations := 0 + rest.iterations }
    simp only [Nat.zero_add]
    exact (bind_ret _).symm
  | cons it first ih =>
    rw [List.cons_append, loop, loop]
    by_cases interrupted : it.interrupted = true
    · rw [if_pos interrupted, if_pos interrupted]
      rfl
    · rw [if_neg interrupted, if_neg interrupted, Prog.bind_assoc]
      congr 1
      funext next
      rw [Prog.bind_assoc]
      congr 1
      funext ran
      obtain ⟨left, stopRequested⟩ := ran
      dsimp only
      split_ifs
      · rfl
      · rfl
      · rfl
      · rw [ih, Prog.bind_assoc, Prog.bind_assoc]
        congr 1
        funext r
        by_cases ended : r.exit = none
        · have later : w.goOn more { r with iterations := r.iterations + 1 } = (do
              let rest ← w.loop more r.queueSet
              pure { rest with iterations := r.iterations + 1 + rest.iterations }) := if_pos ended
          change _ = w.goOn more { r with iterations := r.iterations + 1 }
          rw [later, goOn, if_pos ended, Prog.bind_assoc]
          congr 1
          funext rest
          rw [Nat.add_right_comm]
          rfl
        · rw [goOn_exit ended]
          exact (goOn_exit (r := { r with iterations := r.iterations + 1 }) ended).symm

/-- The loop leaves iterations over only if it has come to its end. -/
theorem traces_iterations (its : List Iteration) (queues : Finset String) :
    Traces exec (w.loop its queues) (fun r _ => r.iterations ≤ its.length) := by
  induction its generalizing queues with
  | nil => exact traces_pure le_rfl
  | cons it its ih =>
    rw [loop]
    by_cases interrupted : it.interrupted = true
    · rw [if_pos interrupted]
      exact traces_pure (Nat.zero_le _)
    · rw [if_neg interrupted]
      refine (traces_any _).bind (fun next _ _ => (traces_any _).bind (fun ran _ _ => ?_))
      have one : ∀ exit left, Traces exec (pure ⟨exit, left, 1⟩ : Routine LoopRun)
          (fun r _ => r.iterations ≤ (it :: its).length) :=
        fun exit left => traces_pure (by simp)
      dsimp only
      split_ifs
      · exact one _ _
      · exact one _ _
      · exact one _ _
      · exact (ih _).bind (fun rest _ few => traces_pure (Nat.succ_le_succ few))

/-- A worker that runs once ends with an empty queue set, unless it is forced to. -/
theorem traces_loop_once (unforced : w.forceOnce = false) (its : List Iteration)
    (queues : Finset String) :
    Traces exec (w.loop its queues) (fun r _ => r.exit = some .once → r.queueSet = ∅) := by
  induction its generalizing queues with
  | nil => exact traces_pure (fun once => by simp at once)
  | cons it its ih =>
    rw [loop]
    by_cases interrupted : it.interrupted = true
    · rw [if_pos interrupted]
      exact traces_pure (fun once => by simp at once)
    · rw [if_neg interrupted]
      refine (traces_any _).bind (fun next _ _ => (traces_any _).bind (fun ran _ _ => ?_))
      obtain ⟨left, stopRequested⟩ := ran
      dsimp only
      split_ifs with once
      · refine traces_pure (fun _ => ?_)
        simp only [unforced, Bool.or_false, Bool.and_eq_true, decide_eq_true_eq] at once
        exact once.2
      · exact traces_pure (fun once => by simp at once)
      · exact traces_pure (fun once => by simp at once)
      · exact (ih left).bind (fun rest _ empty => traces_pure empty)

/-- What is announced in the first iteration after others is found empty later. -/
theorem traces_goOn (polls : w.polls = false) (unforced : w.forceOnce = false) (it : Iteration)
    (rest : List Iteration) {first : LoopRun} :
    Traces exec (w.goOn (it :: rest) first) (fun r tr => r.exit = some .once →
      first.iterations < r.iterations → ∀ q ∈ w.announced it.messages, FoundEmpty q tr) := by
  unfold goOn
  split_ifs
  · refine ((traces_loop (it :: rest) first.queueSet).and
      (traces_loop_once unforced (it :: rest) first.queueSet)).bind (fun r new h => traces_pure ?_)
    intro once more q hq
    have some_more : r.iterations ≠ 0 := by
      rintro none_more
      simp [none_more] at more
    have accounts := h.1.heard polls it (by simp) some_more
    rw [List.append_nil]
    refine (accounts q hq).resolve_left ?_
    simp [h.2 once]
  · exact traces_pure (fun _ more => absurd more (lt_irrefl _))

theorem run_append (startup : Host) (first more : List Iteration) :
    w.run startup (first ++ more) = w.run startup first >>= w.goOn more := by
  unfold run
  simp only [bind_assoc, loop_append]

/-- What a worker has found empty: the queues that its last refresh has found, and those that were
announced to it in an iteration, each since then. -/
structure Drained (w : MainWorker) (env : Nat → List Command) (startup : Host) (its : List Iteration)
    (n : Nat) (s : Store) (r : LoopRun) : Prop where
  refreshed : ∃ before t after, (go exec env (w.run startup its) n s).trace =
      before ++ (t, .smembers w.smembers .queued) :: after ∧
    (∀ y ∈ after, y.2.refreshes = false) ∧ ∀ q ∈ w.listed t, FoundEmpty q after
  announced : w.polls = false → ∀ first it rest, its = first ++ it :: rest →
    first.length < r.iterations →
      ∃ after, (go exec env (w.run startup its) n s).trace =
          (go exec env (w.run startup first) n s).trace ++ after ∧
        ∀ q ∈ w.announced it.messages, FoundEmpty q after

/-- When a worker that runs once ends, it has found empty every queue that its last refresh found,
and every queue that a message has announced to it since, whatever the other clients do. -/
theorem drains_run {env : Nat → List Command} {startup : Host} {its : List Iteration} {n : Nat}
    {s : Store} {r : LoopRun} (ended : (go exec env (w.run startup its) n s).result = .ok r)
    (once : r.exit = some .once) (unforced : w.forceOnce = false) :
    w.Drained env startup its n s r where
  refreshed := by
    have runs : Traces exec (w.run startup its) (fun r tr =>
        w.AccountsForRefresh r.queueSet tr ∧ (r.exit = some .once → r.queueSet = ∅)) := by
      refine (traces_any _).bind (fun _ tr1 _ => ?_)
      refine (traces_refreshQueueSet w).bind (fun queues tr2 found => ?_)
      obtain ⟨t, rfl, rfl⟩ := found
      refine ((traces_loop its _).and (traces_loop_once unforced its _)).imp (fun r new h => ?_)
      exact ⟨by simpa using h.1.refreshed _ (accounts_refresh tr1 t), h.2⟩
    obtain ⟨⟨before, t, after, split, quiet, accounts⟩, empty⟩ := runs env n s r ended
    refine ⟨before, t, after, split, quiet, fun q hq => (accounts q hq).resolve_left ?_⟩
    simp [empty once]
  announced := by
    rintro polls first it rest rfl more
    have few : Traces exec (w.run startup first) (fun r _ => r.iterations ≤ first.length) :=
      (traces_any _).bind (fun _ _ _ => (traces_any _).bind (fun _ _ _ => traces_iterations first _))
    rw [run_append] at ended ⊢
    cases before : (go exec env (w.run startup first) n s).result with
    | error e =>
      rw [go_bind_error _ before] at ended
      cases ended
    | ok r₁ =>
      rw [go_bind_ok _ before] at ended ⊢
      have within := few env n s r₁ before
      exact ⟨_, rfl, traces_goOn polls unforced it rest env _ _ r ended once (within.trans_lt more)⟩

end MainWorker

/-! A worker that runs once, and a task that is queued and announced while it runs. -/

def onceWorker : MainWorker where
  onlyQueues := ∅
  excludeQueues := {"slow"}
  batchQueues := fun _ => none
  scheduledTaskBatchSize := 10
  scheduledTasksLock := none
  polls := false
  periodicTasks := []
  smembers := sortedEnumeration
  once := true
  forceOnce := false

def quickVisit : Visit := ⟨plainHost, false, 100, 101, false⟩

def quickIteration (messages : List String) : Iteration where
  messages := messages
  interrupted := false
  shuffle := sortedEnumeration
  visit := fun _ => quickVisit
  stopBeforeCheck := false
  checkDue := false
  check := plainHost
  checkTime := 100
  stopRequested := false
  exitAfter := false

/-- A task is there when the worker starts, and another one comes when it has been executed. -/
def clientTasks : Nat → List Command
  | 0 => [.delay "default" { id := "a", func := "tasks:simple_task" } none 1 true]
  | 4 => [.delay "default" { id := "b", func := "tasks:simple_task" } none 1 true]
  | _ => []

def threeIterations : List Iteration :=
  [quickIteration [], quickIteration ["default"], quickIteration []]

theorem drains_run_announced : onceWorker.Drained clientTasks plainHost threeIterations 0 Store.empty
    ⟨some .once, ∅, 3⟩ :=
  MainWorker.drains_run (by decide +kernel) rfl rfl

end TaskTiger
