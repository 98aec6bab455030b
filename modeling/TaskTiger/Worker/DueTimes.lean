import TaskTiger.Framework.Monitor
import TaskTiger.Invariants.NoEarly
import TaskTiger.Worker.Periodic
import TaskTiger.Worker.TaskLocks

namespace TaskTiger

open Redis Interleaving Prog

/-! The times for which a worker schedules its tasks. -/

/-- How many times the task has failed, by the executions in the store: at least once, also after
an unexpected exit of the child, which stores none. -/
def retryCount (s : Store) (x : String) : Nat :=
  if (s.executionsCount x).getD 0 = 0 then 1 else (s.executionsCount x).getD 0

/-- The time of a worker's move to SCHEDULED, by what the worker has done so far. -/
inductive Reschedules (hosts : List Host) (tr : List (Store × Command)) (m : Move) : Prop
  -- the worker has just missed the lock, and waits for LOCK_RETRY
  | lockMiss (h : Host) (known : h ∈ hosts) (kind : m.kind = .lockMiss)
      (task : Task) (own : m.queue = task.queue ∧ m.id = task.data.id)
      (before : List (Store × Command)) (t : Store)
      (missed : tr = before ++
        [(t, .acquireLock (Worker.lockId h task) (h.token (Worker.lockId h task)))])
      (taken : t.locks (Worker.lockId h task) ≠ none)
      (time : m.when = Task.resolveWhen (some ((h.time m.id).time + h.lockRetry)) (h.time m.id))
  -- the task has failed, and is retried after the delay that its retry method gives for the last
  -- execution and the number of executions
  | retry (h : Host) (known : h ∈ hosts) (kind : m.kind = .retryLater) (task : Task)
      (own : m.queue = task.queue ∧ m.id = task.data.id) (before : List (Store × Command))
      (t u : Store) (asked : tr = before ++ [(t, .lastExecution m.id), (u, .nExecutions m.id)])
      (method : RetryMethod)
      (applies : Worker.retryMethod h task (t.executions m.id).getLast? = some method) (d : Time)
      (delay : h.retryDelay method (retryCount u m.id) = .delay d)
      (time : m.when = Task.resolveWhen (some ((h.time m.id).time + d)) (h.time m.id))

/-- Remembers what a worker has done, and allows its moves to SCHEDULED at these times. -/
def rescheduling (hosts : List Host) : Monitor Store Command (List (Store × Command)) where
  Expected _ _ := True
  Allowed tr _ c := ∀ m, c = .move m → m.kind.toState = some .scheduled → Reschedules hosts tr m
  update tr s c := tr ++ [(s, c)]

/-- The command reschedules no task. -/
def Command.Unscheduling (c : Command) : Prop :=
  ∀ m, c = .move m → m.kind.toState ≠ some .scheduled

theorem unscheduling_move {m : Move} (hm : m.kind.toState ≠ some .scheduled) :
    Command.Unscheduling (.move m) := by
  rintro _ ⟨⟩
  exact hm

theorem unscheduling_passive {c : Command} (hc : c.Passive) : c.Unscheduling := by
  rintro m rfl
  exact hc.elim

theorem unscheduling_delay {queue : String} {data : TaskData} {ts : Option Time} {now : Instant}
    {publish : Bool} : Command.Unscheduling (.delay queue data ts now publish) := by
  rintro m ⟨⟩

/-- Whatever the worker has done, it reschedules its tasks as it should. -/
abbrev ReschedulesIn (hosts : List Host) {α : Type} (p : Routine α) : Prop :=
  ∀ tr, Wp exec (rescheduling hosts) (fun _ => True) p tr (fun _ _ => True)

section

variable {h : Host} {hosts : List Host}

theorem Command.Unscheduling.reschedules {α : Type} {p : Routine α}
    (hp : Issues Command.Unscheduling p) : ReschedulesIn hosts p := by
  intro tr
  refine (hp.mono (fun c hc => ?_)).wp trivial
  intro _ _ _ _
  exact ⟨fun m hm ht => absurd ht (hc m hm), trivial⟩

theorem ReschedulesIn.bind {α β : Type} {p : Routine α} {k : α → Routine β}
    (hp : ReschedulesIn hosts p) (hk : ∀ a, ReschedulesIn hosts (k a)) :
    ReschedulesIn hosts (p >>= k) := fun tr => (hp tr).bind (fun a tr _ => hk a tr)

theorem reschedules_ite {α : Type} {c : Prop} [Decidable c] {p q : Routine α}
    (hp : ReschedulesIn hosts p) (hq : ReschedulesIn hosts q) :
    ReschedulesIn hosts (if c then p else q) := by
  split_ifs
  · exact hp
  · exact hq

theorem reschedules_forM {α : Type} {l : List α} {f : α → Routine PUnit}
    (hf : ∀ a ∈ l, ReschedulesIn hosts (f a)) : ReschedulesIn hosts (l.forM f) :=
  fun _ => wp_forM (fun a ha tr _ => hf a ha tr) trivial

/-- A move that is sent with the time that it should have. -/
theorem wp_rescheduling_move {task : Task} {kind : MoveKind} {time : Option Time} {now : Instant}
    {tr : List (Store × Command)}
    (hm : Reschedules hosts tr ⟨kind, task.queue, task.data.id, task.data.unique,
      Task.resolveWhen time now, h.publishQueuedTasks⟩) :
    Wp exec (rescheduling hosts) (fun _ => True) (task.move h kind time now) tr
      (fun _ _ => True) := by
  apply wp_ask_bind
  intro s _
  refine ⟨?_, ?_⟩
  · rintro _ ⟨⟩ _
    exact hm
  · cases (exec (.move ⟨kind, task.queue, task.data.id, task.data.unique,
        Task.resolveWhen time now, h.publishQueuedTasks⟩) s).1 with
    | ok u => trivial
    | error e => cases e <;> trivial

/-! Worker._execute_task_group. -/

theorem reschedules_acquireLocks (known : h ∈ hosts) (tasks : List Task) (locks : List String)
    (ready : List Task) : ReschedulesIn hosts (Worker.acquireLocks h tasks locks ready) := by
  induction tasks generalizing locks ready with
  | nil => exact fun _ => trivial
  | cons task tasks ih =>
    rw [Worker.acquireLocks]
    refine reschedules_ite (fun tr => ?_) (ih _ _)
    apply wp_ask_bind
    intro s _
    refine ⟨by rintro m ⟨⟩, ?_⟩
    by_cases free : s.locks (Worker.lockId h task) = none
    · rw [reply_acquireLock, if_pos (by simpa using free)]
      exact ih _ _ _
    · rw [reply_acquireLock, if_neg (by simpa using free)]
      apply (wp_rescheduling_move _).bind
      · intro _ tr _
        exact ih _ _ tr
      · exact .lockMiss h known rfl task ⟨rfl, rfl⟩ tr s rfl free rfl

theorem reschedules_executeTaskGroup (known : h ∈ hosts) (queue : String) (tasks : List Task) :
    ReschedulesIn hosts (Worker.executeTaskGroup h queue tasks) := by
  refine (reschedules_acquireLocks known tasks [] []).bind (fun acquired => ?_)
  refine reschedules_ite (fun _ => trivial) ?_
  refine (Command.Unscheduling.reschedules ?_).bind (fun _ => ?_)
  · exact Worker.issues_prepareExecution _ (fun _ => unscheduling_passive trivial)
      (fun _ _ _ _ _ => unscheduling_delay)
  · refine Command.Unscheduling.reschedules (issues_bind (issues_call _) (fun executed => ?_))
    refine issues_bind (issues_forM (fun step => ?_)) (fun _ =>
      issues_bind (issues_forM (fun lock => ?_)) (fun _ => trivial))
    · refine Worker.issues_executorStep _ (fun _ _ => ?_)
        (fun _ _ _ => unscheduling_passive trivial) step
      rintro m ⟨⟩
    · exact issues_bind (issues_ask (unscheduling_passive trivial)) (fun _ => trivial)

/-! Worker._finish_task_processing. -/

theorem wp_rescheduling_nExecutions {task : Task} (tr : List (Store × Command)) :
    Wp exec (rescheduling hosts) (fun _ => True) task.nExecutions tr
      (fun n tr' => ∃ u : Store, tr' = tr ++ [(u, .nExecutions task.data.id)] ∧
        n = (u.executionsCount task.data.id).getD 0) := by
  apply wp_ask_bind
  intro u _
  refine ⟨by rintro m ⟨⟩, ?_⟩
  have reply : (exec (.nExecutions task.data.id) u).1 =
      ((u.task task.data.id).isSome, u.executionsCount task.data.id) := rfl
  rw [reply]
  cases (u.task task.data.id).isSome with
  | false => trivial
  | true => exact ⟨u, rfl, rfl⟩

/-- The time of a retry is that of the finish, with the delay of the retry method. -/
theorem wp_rescheduling_retryTime {task : Task} {execution : Option Execution} {now : Instant}
    (tr : List (Store × Command)) :
    Wp exec (rescheduling hosts) (fun _ => True) (Worker.retryTime h task execution now) tr
      (fun retry tr' => ∀ ts ∈ retry, ∃ u method d, tr' = tr ++ [(u, .nExecutions task.data.id)] ∧
        Worker.retryMethod h task execution = some method ∧
        h.retryDelay method (retryCount u task.data.id) = .delay d ∧ ts = now.time + d) := by
  unfold Worker.retryTime
  cases applies : Worker.retryMethod h task execution with
  | none =>
    intro ts hts
    cases hts
  | some method =>
    apply (wp_rescheduling_nExecutions tr).bind
    rintro n tr' ⟨u, rfl, rfl⟩
    have count : (if (u.executionsCount task.data.id).getD 0 = 0 then 1
        else (u.executionsCount task.data.id).getD 0) = retryCount u task.data.id := rfl
    rw [count]
    by_cases importable : h.importable method.func = true
    · rw [if_pos importable]
      cases delay : h.retryDelay method (retryCount u task.data.id) with
      | delay d =>
        intro ts hts
        obtain rfl := Option.some.inj hts
        exact ⟨u, method, d, rfl, rfl, delay, rfl⟩
      | stop =>
        intro ts hts
        cases hts
      | raised name => trivial
    · rw [if_neg importable]
      intro ts hts
      cases hts

theorem unscheduling_moveFailed {task : Task} {execution : Option Execution} {now : Instant} :
    Issues Command.Unscheduling (Worker.moveFailed h task execution now none) := by
  refine issues_ite (issues_bind (issues_move ?_) (fun _ => ?_)) (issues_move ?_)
  · exact unscheduling_move (by simp [MoveKind.toState])
  · exact Worker.issues_permanentError h (unscheduling_passive trivial)
  · exact unscheduling_move (by simp [MoveKind.toState])

theorem reschedules_finishTaskProcessing (known : h ∈ hosts) (task : Task) (success : Bool) :
    ReschedulesIn hosts (Worker.finishTaskProcessing h task success) := by
  refine reschedules_ite ?_ (fun tr => ?_)
  · exact Command.Unscheduling.reschedules
      (issues_move (unscheduling_move (by simp [MoveKind.toState])))
  · apply wp_ask_bind
    intro t _
    refine ⟨by rintro m ⟨⟩, ?_⟩
    apply (wp_rescheduling_retryTime _).bind
    intro retry tr' computed
    have rest : ∀ p : Routine Unit, Wp exec (rescheduling hosts) (fun _ => True) p tr'
        (fun _ _ => True) → Wp exec (rescheduling hosts) (fun _ => True) (p >>= fun _ =>
          if h.exitWorkerOnJobTimeout && ((t.executions task.data.id).getLast?.map
            Execution.exceptionName = some jobTimeoutException) then Prog.raise .systemExit
          else pure ()) tr' (fun _ _ => True) := by
      intro p hp
      apply hp.bind
      intro _ tr _
      split_ifs <;> trivial
    apply rest
    cases retry with
    | none => exact Command.Unscheduling.reschedules unscheduling_moveFailed tr'
    | some ts =>
      obtain ⟨u, method, d, rfl, applies, delay, rfl⟩ := computed ts rfl
      apply wp_rescheduling_move
      exact .retry h known rfl task ⟨rfl, rfl⟩ tr t u (by simp [rescheduling]) method applies d
        delay rfl

/-! Worker.run. -/

theorem unscheduling_loadTasks (queue : String) (entries : List (String × Option TaskData)) :
    Issues Command.Unscheduling (Worker.loadTasks h queue entries) :=
  Worker.issues_loadTasks (fun _ hm _ => unscheduling_move (by simp [hm, MoveKind.toState]))
    (fun _ hm => unscheduling_move (by simp [hm, MoveKind.toState])) entries

theorem reschedules_processGroups (known : h ∈ hosts) (queue : String) (groups : List (List Task)) :
    ReschedulesIn hosts (Worker.processGroups h queue groups) := by
  induction groups with
  | nil => exact fun _ => trivial
  | cons tasks groups ih =>
    rw [Worker.processGroups]
    refine (reschedules_executeTaskGroup known queue tasks).bind (fun processed => ?_)
    refine (reschedules_forM (fun task _ => ?_)).bind (fun _ => ih.bind (fun _ _ => trivial))
    exact reschedules_finishTaskProcessing known task _

theorem reschedules_chore (known : h ∈ hosts) (chore : Chore) :
    ReschedulesIn hosts (chore.routine h) := by
  cases chore with
  | scheduledTasks lock queues batchSize now =>
    exact Command.Unscheduling.reschedules (Worker.issues_workerQueueScheduledTasks h
      (fun _ hc _ => unscheduling_passive hc) (fun _ _ _ => by rintro m ⟨⟩) lock queues batchSize now)
  | expiredTasks =>
    refine Command.Unscheduling.reschedules (Worker.issues_workerQueueExpiredTasks h
      (fun _ hc _ => unscheduling_passive hc) (fun m hm => unscheduling_move ?_))
    rcases hm with hm | hm | hm <;> simp [hm, MoveKind.toState]
  | fromQueue queue batchSize failedToAcquire now later =>
    refine ReschedulesIn.bind ?_ (fun _ _ => trivial)
    refine reschedules_ite (fun _ => trivial) ((Command.Unscheduling.reschedules
      (issues_ask (by rintro m ⟨⟩))).bind (fun reply => ?_))
    cases reply with
    | error e => exact fun _ => trivial
    | ok taskIds =>
      cases taskIds with
      | nil => exact fun _ => trivial
      | cons id ids =>
        refine ReschedulesIn.bind ?_ (fun _ _ => trivial)
        have load : Issues Command.Unscheduling (redis (.mget (id :: ids))) :=
          issues_ask (unscheduling_passive trivial)
        refine (Command.Unscheduling.reschedules load).bind (fun serialized => ?_)
        exact (Command.Unscheduling.reschedules (unscheduling_loadTasks queue _)).bind
          (fun tasks => reschedules_processGroups known queue _)

theorem reschedules_workerProcess (w : WorkerProcess) : ReschedulesIn w.hosts w.routine := by
  refine (Command.Unscheduling.reschedules ?_).bind (fun _ => reschedules_forM (fun chore hc => ?_))
  · exact Worker.issues_queuePeriodicTasks w.startup (fun _ hc _ => unscheduling_passive hc)
      (fun _ _ _ _ _ => unscheduling_delay) _ _ _
  · exact reschedules_chore (List.mem_cons_of_mem _ (List.mem_map_of_mem hc)) chore.2

theorem after_rescheduling (tr tr' : List (Store × Command)) :
    (rescheduling hosts).after tr tr' = tr ++ tr' := by
  induction tr' generalizing tr with
  | nil => exact (List.append_nil tr).symm
  | cons y tr' ih =>
    change (rescheduling hosts).after (tr ++ [y]) tr' = _
    rw [ih, List.append_assoc]
    rfl

end

/-! Runs with the times of their commands. -/

section Run

variable {C : Type} [DecidableEq C]

/-- The commands of a run of worker processes and clients, each with its time. -/
def timed (pool : WorkerPool C) : List (Time × PoolEvent C Command) → List Timed
  | [] => []
  | (τ, ev) :: l =>
    (pool.next ev).toList.map (fun c => (τ, c)) ++ timed (step (Pool.exec exec) pool ev) l

def timedCommands (workers : C → WorkerProcess) (s : Store)
    (l : List (Time × PoolEvent C Command)) : List Timed :=
  timed (Pool.start s fun c => (workers c).routine) l

theorem timed_append (pool : WorkerPool C) (l k : List (Time × PoolEvent C Command)) :
    timed pool (l ++ k) =
      timed pool l ++ timed (run (Pool.exec exec) pool (l.map Prod.snd)) k := by
  induction l generalizing pool with
  | nil => rfl
  | cons e l ih => simp [timed, ih]

theorem run_timed (pool : WorkerPool C) (l : List (Time × PoolEvent C Command)) :
    run execAt pool.state (timed pool l) =
      (run (Pool.exec exec) pool (l.map Prod.snd)).state := by
  induction l generalizing pool with
  | nil => rfl
  | cons e l ih =>
    rw [timed, run_append, List.map_cons, run_cons, ← ih, Pool.state_step]
    cases pool.next e.2 <;> rfl

theorem timed_sublist (pool : WorkerPool C) (l : List (Time × PoolEvent C Command)) :
    ((timed pool l).map Prod.fst).Sublist (l.map Prod.fst) := by
  induction l generalizing pool with
  | nil => exact List.Sublist.slnil
  | cons e l ih =>
    rw [timed, List.map_append, List.map_cons]
    cases pool.next e.2 with
    | none => exact (ih _).cons _
    | some c => exact (ih _).cons_cons _

/-- When x is due, after a run: the time for which it was scheduled most recently. -/
def dueAfter (workers : C → WorkerProcess) (s : Store) (x : String)
    (l : List (Time × PoolEvent C Command)) : Option Time :=
  watch execAt (dueTime x) s none (timedCommands workers s l)

/-- No pickup returns x before it is due, and the workers schedule their tasks for the times that
they should. -/
structure OnTime (workers : C → WorkerProcess) (s : Store) (x : String)
    (l : List (Time × PoolEvent C Command)) : Prop where
  pickups : ∀ pre τ ev, pre ++ [(τ, ev)] <+: l → ∀ queue count now later,
    (workersAfter workers s (pre.map Prod.snd)).next ev = some (.pickup queue count now later) →
    Returned queue count now later (workersAfter workers s (pre.map Prod.snd)).state queue x →
    ∀ t ∈ dueAfter workers s x pre, t ≤ τ
  moves : ∀ pre τ c, pre ++ [(τ, .step c)] <+: l → ∀ m,
    (workersAfter workers s (pre.map Prod.snd)).next (.step c) = some (.move m) →
    m.kind.toState = some .scheduled →
    Reschedules (workers c).hosts ((workersAfter workers s (pre.map Prod.snd)).trace c) m

theorem reschedules_next {workers : C → WorkerProcess} {s : Store} {l : List (PoolEvent C Command)}
    {c : C} {m : Move} (next : (workersAfter workers s l).next (.step c) = some (.move m))
    (hm : m.kind.toState = some .scheduled) :
    Reschedules (workers c).hosts ((workersAfter workers s l).trace c) m := by
  have reached := Pool.reaches_run (e := exec) s (fun c => (workers c).routine) l c
  obtain ⟨-, left⟩ := (reschedules_workerProcess (workers c) []).reaches reached
    (fun _ _ _ => trivial)
  rw [after_rescheduling, List.nil_append] at left
  cases hc : (workersAfter workers s l).client c with
  | ret a => simp [Pool.next, hc] at next
  | raise e => simp [Pool.next, hc] at next
  | call i k =>
    have left' : Wp exec (rescheduling (workers c).hosts) (fun _ => True) (.call i k)
        ((workersAfter workers s l).trace c) (fun _ _ => True) := hc ▸ left
    obtain rfl : i = .move m := by simpa [Pool.next, hc] using next
    exact (left' (workersAfter workers s l).state trivial).1 m rfl hm

/-- A task that is delayed once is never picked up before the time for which it was last
scheduled, unless it was requeued from ERROR or by its expiry since. The workers schedule it for
the time of its failure and the delay of its retry, or for that of the lock miss and LOCK_RETRY. -/
theorem not_early_run {workers : C → WorkerProcess} {s : Store} {x : String}
    {l : List (Time × PoolEvent C Command)} (ha : Absent s x)
    (hclock : (l.map Prod.fst).Pairwise (· ≤ ·))
    (hread : ∀ e ∈ timedCommands workers s l, e.ReadBefore)
    (once : (timedCommands workers s l).countP (fun e => decide (e.2.Delays x)) ≤ 1)
    (hb : Along execAt (fun s e => ¬e.2.Strays s x) s (timedCommands workers s l)) :
    OnTime workers s x l where
  pickups := by
    rintro pre τ ev ⟨post, rfl⟩ queue count now later next returned t ht
    have split : timedCommands workers s (pre ++ [(τ, ev)] ++ post) =
        timedCommands workers s pre ++ (τ, .pickup queue count now later) ::
          timed (workersAfter workers s (pre.map Prod.snd ++ [ev])) post := by
      rw [timedCommands, List.append_assoc, timed_append, List.singleton_append, timed,
        workersAfter, run_append]
      rw [workersAfter] at next
      rw [next]
      rfl
    have state : run execAt s (timedCommands workers s pre) =
        (workersAfter workers s (pre.map Prod.snd)).state :=
      run_timed (Pool.start s fun c => (workers c).routine) pre
    refine not_early ha (hclock.sublist (timed_sublist _ _)) hread once hb split ?_ ht
    rwa [state]
  moves _ _ _ _ _ next hm := reschedules_next next hm

/-- A task with a lock, which fails at each attempt. -/
def stubbornTask : TaskData where
  id := "a"
  func := "tasks:locked_task"
  lock := true
  retryMethod := some ⟨"tasktiger.retry:fixed", .arr [.num 60, .num 3]⟩

def failingAt (now : Instant) : Host :=
  { plainHost with time := fun _ => now, execute := fun _ => .ok ([.heartbeat now], false) }

/-- The worker promotes the task and picks it up, three times. -/
def retryingWorker (_ : Unit) : WorkerProcess where
  onlyQueues := ∅
  excludeQueues := ∅
  periodicTasks := []
  startup := plainHost
  chores :=
    [(failingAt 12, .scheduledTasks none ["default"] 1000 12),
      (failingAt 13, .fromQueue "default" 1 false 13 14),
      (failingAt 15, .scheduledTasks none ["default"] 1000 15),
      (failingAt 16, .fromQueue "default" 1 false 16 17),
      (failingAt 80, .scheduledTasks none ["default"] 1000 80),
      (failingAt 81, .fromQueue "default" 1 false 81 82)]

def stepsAt (τ : Time) (n : Nat) : List (Time × PoolEvent Unit Command) :=
  List.replicate n (τ, .step ())

/-- The task is scheduled for 10 and postponed to 11. At 13 its lock is taken, so that it waits
until 14; at 16 it fails, and is to be retried at 76. -/
def missedAndFailed : List (Time × PoolEvent Unit Command) :=
  [(1, .other (.delay "default" stubbornTask (some 10) 1 true)),
    (2, .other (.updateScheduledTime id "default" "a" 11)),
    (3, .other (.acquireLock "tasks:locked_task" "token_2"))] ++
  stepsAt 12 2 ++ stepsAt 13 4 ++ [(14, .other (.releaseLock "tasks:locked_task" "token_2"))] ++
  stepsAt 15 2 ++ stepsAt 16 8 ++ stepsAt 80 2

theorem not_early_run_retried :
    dueAfter retryingWorker Store.empty "a" missedAndFailed = some 76 ∧
      Returned "default" 1 81 82
        (workersAfter retryingWorker Store.empty (missedAndFailed.map Prod.snd)).state "default" "a" ∧
      OnTime retryingWorker Store.empty "a" (missedAndFailed ++ [(81, .step ())]) := by
  refine ⟨by decide +kernel, by decide +kernel, ?_⟩
  exact not_early_run (absent_empty "a") (by decide +kernel) (by decide +kernel) (by decide +kernel)
    (by decide +kernel)

end Run

end TaskTiger
