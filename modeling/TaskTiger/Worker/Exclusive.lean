import TaskTiger.Framework.Assuming
import TaskTiger.Worker.CutShort
import TaskTiger.Worker.Periodic
import TaskTiger.Worker.PermanentErrors
import TaskTiger.Worker.Purge

namespace TaskTiger

open Redis Interleaving Prog

/-! A task whose worker sends its heartbeats in time is left to it. -/

/-- The command takes x out of ACTIVE:q, if it is there. -/
def Command.TakesActive (q x : String) : Command → Prop
  | .move m => m.kind.fromState = .active ∧ m.queue = q ∧ m.id = x
  | _ => False

instance (q x : String) (c : Command) : Decidable (c.TakesActive q x) := by
  induction c using Command.casesOn with
  | move m => exact inferInstanceAs (Decidable (m.kind.fromState = .active ∧ m.queue = q ∧ m.id = x))
  | _ => exact inferInstanceAs (Decidable False)

/-- The reply of the command hands x to its client, to execute it or to expire it. -/
def Command.Hands (q x : String) (s : Store) : Command → Prop
  | .pickup queue count now later => Returned queue count now later s q x
  | .getExpiredTasks e time batchSize => (q, x) ∈ TaskTiger.getExpiredTasks e time batchSize s
  | _ => False

instance (q x : String) (s : Store) (c : Command) : Decidable (c.Hands q x s) := by
  induction c using Command.casesOn with
  | pickup queue count now later =>
    exact inferInstanceAs (Decidable (Returned queue count now later s q x))
  | getExpiredTasks e time batchSize => exact inferInstanceAs (Decidable (_ ∈ _))
  | _ => exact inferInstanceAs (Decidable False)

/-- The latest heartbeat of x is in time for the command. -/
def Command.InTime (q x : String) (s : Store) : Command → Prop
  | .getExpiredTasks _ time _ => ∀ t ∈ s.score .active q x, time < t
  | _ => True

instance (q x : String) (s : Store) (c : Command) : Decidable (c.InTime q x s) := by
  induction c using Command.casesOn with
  | getExpiredTasks e time batchSize =>
    exact inferInstanceAs (Decidable (∀ t ∈ s.score .active q x, time < t))
  | _ => exact inferInstanceAs (Decidable True)

/-- The command finds x active, with its heartbeat in time. -/
structure Attended (q x : String) (s : Store) (c : Command) : Prop where
  keyed : Keyed s
  active : x ∈ s.zset .active q
  inTime : c.InTime q x s

section

variable {s : Store} {q x : String} {c : Command}

theorem mem_active_step (active : x ∈ s.zset .active q) (hc : ¬c.TakesActive q x) :
    x ∈ (exec c s).2.zset .active q := by
  by_cases ht : c.Takes
  · rw [Store.mem_iff_score] at active ⊢
    cases c with
    | pickup queue count now later =>
      cases pickup_effect queue count now later s q x with
      | untouched scores => rwa [scores]
      | picked same pending idle scores => simp [scores]
      | diverted same pending busy scores => rwa [scores]
      | lost same pending popped failed scores => rwa [scores]
    | promote queue count now =>
      cases promote_effect queue count now s q x with
      | untouched scores => rwa [scores]
      | promoted same due scores => rwa [scores]
      | lost same due popped failed scores => rwa [scores]
    | move m =>
      by_cases he : m.Effective s
      · rw [score_move he]
        by_cases here : q = m.queue ∧ x = m.id
        · have elsewhere : TaskState.active ≠ m.kind.fromState :=
            fun hf => hc ⟨hf.symm, here.1.symm, here.2.symm⟩
          rw [if_pos here, if_neg elsewhere]
          split_ifs
          · simp
          · exact active
        · rwa [if_neg here]
      · rwa [exec_move_of_not_effective he]
    | _ => exact ht.elim
  · exact mem_zset_exec ht active

theorem Attended.not_hands (h : Attended q x s c) : ¬c.Hands q x s := by
  cases c with
  | pickup queue count now later =>
    intro hands
    obtain ⟨rfl, moved, -⟩ := returned_iff.mp hands
    exact (Zpoppush.mem_moved.mp moved).2 h.active
  | getExpiredTasks e time batchSize =>
    intro listed
    obtain ⟨-, expired⟩ := mem_expiredOf.mp ((expiredIn_sublist _ _ _).subset listed)
    obtain ⟨t, ht, -, late⟩ := mem_expired.mp expired
    exact absurd late (not_le.mpr (h.inTime t ht))
  | _ => exact id

end

/-- The task is x of the queue q. -/
def Task.Is (q x : String) (task : Task) : Prop := task.queue = q ∧ task.data.id = x

/-- The command finds each object under its own id, and does not hand x to its client. -/
structure PassesBy (q x : String) (s : Store) (c : Command) : Prop where
  keyed : Keyed s
  not_hands : ¬c.Hands q x s

theorem Attended.passesBy {q x : String} {s : Store} {c : Command} (h : Attended q x s c) :
    PassesBy q x s c := ⟨h.keyed, h.not_hands⟩

/-- A client that has nothing to do with x: as long as nothing hands x to it, it does not take it out
of ACTIVE:q. -/
abbrev Uninvolved (q x : String) {α : Type} (p : Routine α) (post : α → Prop) : Prop :=
  Assuming exec (PassesBy q x) (fun c => ¬c.TakesActive q x) p post

section Routines

variable {q x : String} (h : Host)

theorem not_takesActive_passive {c : Command} (hc : c.Passive) : ¬c.TakesActive q x := by
  cases c with
  | move => exact hc.elim
  | _ => exact id

theorem uninvolved_move {task : Task} (other : ¬task.Is q x) (kind : MoveKind) (time : Option Time)
    (now : Instant) : Uninvolved q x (task.move h kind time now) (fun _ => True) :=
  Issues.assuming (issues_move (fun taken => other taken.2))

/-! The sweep. -/

theorem uninvolved_fromId (st : TaskState) (queue id : String) :
    Uninvolved q x (Task.fromId st queue id)
      (fun task => task.queue = queue ∧ task.data.id = id) := by
  refine assuming_ask_bind not_false (fun s hs => ?_)
  simp only [exec]
  cases hd : s.task id with
  | none => trivial
  | some d =>
    cases s.score st queue id with
    | none => trivial
    | some ts => exact assuming_ite (fun _ => trivial) (fun _ => ⟨rfl, hs.keyed id d hd⟩)

theorem uninvolved_expireTask {queue id : String} (other : ¬(queue = q ∧ id = x)) :
    Uninvolved q x (Worker.expireTask h queue id) (fun _ => True) := by
  refine (uninvolved_fromId .active queue id).bind (fun task own => ?_)
  have hother : ¬task.Is q x := fun hx => other ⟨own.1 ▸ hx.1, own.2 ▸ hx.2⟩
  exact assuming_ite (fun _ => uninvolved_move h hother _ _ _)
    (fun _ => uninvolved_move h hother _ _ _)

theorem uninvolved_expireNotFound {queue id : String} (other : ¬(queue = q ∧ id = x)) (e : Exn) :
    Uninvolved q x (Worker.expireNotFound h queue id e) (fun _ => True) := by
  cases e with
  | taskNotFound =>
    have bare : ¬(Task.bare queue id).Is q x := other
    refine assuming_ask_bind not_false (fun s _ => assuming_ite (fun _ => ?_) (fun _ => trivial))
    exact uninvolved_move h bare _ _ _
  | _ => trivial

theorem uninvolved_workerQueueExpiredTasks :
    Uninvolved q x (Worker.workerQueueExpiredTasks h) (fun _ => True) := by
  refine assuming_ask_bind not_false (fun _ _ => assuming_ite (fun _ => ?_) (fun _ => trivial))
  refine assuming_ask_bind not_false (fun s hs => ?_)
  refine (assuming_forM (fun entry hentry => ?_)).bind (fun _ _ => ?_)
  · obtain ⟨queue, id⟩ := entry
    have other : ¬(queue = q ∧ id = x) := by
      rintro ⟨rfl, rfl⟩
      exact hs.not_hands hentry
    exact (uninvolved_expireTask h other).attempt (uninvolved_expireNotFound h other)
  · exact assuming_ite (fun _ => assuming_ask_bind not_false (fun _ _ => trivial)) (fun _ => trivial)

/-! A batch of other tasks. -/

theorem uninvolved_acquireLocks (tasks : List Task) (locks : List String) (ready : List Task)
    (others : ∀ t ∈ tasks, ¬t.Is q x) (kept : ∀ t ∈ ready, ¬t.Is q x) :
    Uninvolved q x (Worker.acquireLocks h tasks locks ready)
      (fun r => ∀ t ∈ r.2, ¬t.Is q x) := by
  induction tasks generalizing locks ready with
  | nil => exact kept
  | cons task tasks ih =>
    obtain ⟨other, others⟩ := List.forall_mem_cons.mp others
    have kept' : ∀ t ∈ ready ++ [task], ¬t.Is q x := by
      intro t ht
      rcases List.mem_append.mp ht with ht | ht
      · exact kept t ht
      · obtain rfl := List.mem_singleton.mp ht
        exact other
    rw [Worker.acquireLocks]
    refine assuming_ite (fun _ => ?_) (fun _ => ih _ _ others kept')
    refine assuming_ask_bind not_false
      (fun _ _ => assuming_ite (fun _ => ih _ _ others kept') (fun _ => ?_))
    exact (uninvolved_move h other _ _ _).bind (fun _ _ => ih _ _ others kept)

theorem uninvolved_executeTaskGroup {queue : String} {tasks : List Task}
    (others : ∀ t ∈ tasks, ¬t.Is q x) :
    Uninvolved q x (Worker.executeTaskGroup h queue tasks) (fun r => ∀ t ∈ r.2, ¬t.Is q x) := by
  refine (uninvolved_acquireLocks h tasks [] [] others (by simp)).bind (fun acquired ready => ?_)
  refine assuming_ite (fun _ t ht => absurd ht (by simp)) (fun _ => ?_)
  have prepare : Issues (fun c => ¬c.TakesActive q x) (Worker.prepareExecution h acquired.2) :=
    Worker.issues_prepareExecution _ (fun _ => id) (fun _ _ _ _ _ => id)
  refine prepare.assuming.bind (fun _ _ => ?_)
  refine (issues_call _).assuming.bind (fun executed _ => ?_)
  refine (assuming_forM (fun step _ => ?_)).bind (fun _ _ => ?_)
  · exact (Worker.issues_executorStep _ (fun _ _ => id) (fun _ _ _ => id) step).assuming
  · refine (assuming_forM (fun lock _ => ?_)).bind (fun _ _ => ready)
    exact assuming_ask_bind not_false (fun _ _ => trivial)

theorem uninvolved_finishTaskProcessing {task : Task} (other : ¬task.Is q x) (success : Bool) :
    Uninvolved q x (Worker.finishTaskProcessing h task success) (fun _ => True) := by
  refine assuming_ite (fun _ => uninvolved_move h other _ _ _) (fun _ => ?_)
  refine assuming_ask_bind not_false (fun s _ => ?_)
  have retryTime : Issues (fun c => ¬c.TakesActive q x) (Worker.retryTime h task
      (exec (.lastExecution task.data.id) s).1 (h.time task.data.id)) :=
    Worker.issues_retryTime h id
  refine retryTime.assuming.bind (fun retry _ => ?_)
  refine Assuming.bind (m := fun _ => True) ?_
    (fun _ _ => assuming_ite (fun _ => trivial) (fun _ => trivial))
  cases retry with
  | some ts => exact uninvolved_move h other _ _ _
  | none =>
    refine assuming_ite (fun _ => ?_) (fun _ => uninvolved_move h other _ _ _)
    exact (uninvolved_move h other _ _ _).bind
      (fun _ _ => (Worker.issues_permanentError h id).assuming)

theorem uninvolved_processGroups {queue : String} {groups : List (List Task)}
    (others : ∀ g ∈ groups, ∀ t ∈ g, ¬t.Is q x) :
    Uninvolved q x (Worker.processGroups h queue groups) (fun _ => True) := by
  induction groups with
  | nil => trivial
  | cons tasks groups ih =>
    obtain ⟨first, others⟩ := List.forall_mem_cons.mp others
    rw [Worker.processGroups]
    refine (uninvolved_executeTaskGroup h first).bind (fun processed hprocessed => ?_)
    refine (assuming_forM (fun task ht => ?_)).bind (fun _ _ => (ih others).bind (fun _ _ => trivial))
    exact uninvolved_finishTaskProcessing h (hprocessed task ht) _

theorem uninvolved_loadTasks {queue : String} (entries : List (String × Option TaskData))
    (others : ∀ e ∈ entries, ¬(queue = q ∧ e.1 = x)) (keyed : ∀ e ∈ entries, ∀ d ∈ e.2, d.id = e.1) :
    Uninvolved q x (Worker.loadTasks h queue entries) (fun tasks => ∀ t ∈ tasks, ¬t.Is q x) := by
  induction entries with
  | nil => exact fun t ht => absurd ht (by simp)
  | cons entry entries ih =>
    rw [List.forall_mem_cons] at others keyed
    obtain ⟨id, data⟩ := entry
    have loaded := ih others.2 keyed.2
    cases data with
    | none =>
      have bare : ¬(Task.bare queue id).Is q x := others.1
      rw [Worker.loadTasks]
      exact (uninvolved_move h bare _ _ _).bind (fun _ _ => loaded)
    | some d =>
      have own : d.id = id := keyed.1 d rfl
      rw [Worker.loadTasks, if_pos own]
      refine loaded.bind (fun tasks htasks => ?_)
      have hd : ¬(Task.mk queue d).Is q x := fun hx => others.1 ⟨hx.1, own ▸ hx.2⟩
      exact List.forall_mem_cons.mpr ⟨hd, htasks⟩

theorem uninvolved_processQueueTasks {queue : String} {taskIds : List String}
    (other : queue = q → x ∉ taskIds) :
    Uninvolved q x (Worker.processQueueTasks h queue taskIds) (fun _ => True) := by
  refine assuming_ask_bind not_false (fun s hs => ?_)
  refine (uninvolved_loadTasks h (taskIds.zip (taskIds.map s.task)) ?_ ?_).bind
    (fun tasks htasks => ?_)
  · rintro e he ⟨hq, rfl⟩
    exact other hq (Worker.mem_entries he).1
  · intro e he d hd
    rw [(Worker.mem_entries he).2] at hd
    exact hs.keyed e.1 d hd
  · refine uninvolved_processGroups h (fun g hg t ht => ?_)
    rcases mem_groups hg ht with here | ⟨g', hg', -⟩
    · exact htasks t here
    · simp at hg'

/-! The worker process. -/

theorem uninvolved_chore (chore : Chore) : Uninvolved q x (chore.routine h) (fun _ => True) := by
  cases chore with
  | expiredTasks => exact uninvolved_workerQueueExpiredTasks h
  | scheduledTasks lock queues batchSize now =>
    have all : Uninvolved q x (queues.forM (Worker.queueScheduledTasks h batchSize now))
        (fun _ => True) := by
      refine assuming_forM (fun queue _ => assuming_ask_bind not_false (fun s _ => ?_))
      cases (exec (.promote queue batchSize now) s).1 with
      | error e => trivial
      | ok ids =>
        exact assuming_ite (fun _ => assuming_ask_bind not_false (fun _ _ => trivial))
          (fun _ => trivial)
    cases lock with
    | none => exact all
    | some name =>
      exact assuming_ask_bind not_false (fun _ _ => assuming_ite (fun _ => all) (fun _ => trivial))
  | fromQueue queue batchSize failedToAcquire now later =>
    refine Assuming.bind (m := fun _ => True) ?_ (fun _ _ => trivial)
    refine assuming_ite (fun _ => trivial) (fun _ => assuming_ask_bind not_false (fun s hs => ?_))
    have kept : ¬Returned queue batchSize now later s q x := hs.not_hands
    cases hr : (exec (.pickup queue batchSize now later) s).1 with
    | error e => trivial
    | ok taskIds =>
      cases taskIds with
      | nil => trivial
      | cons id ids =>
        refine (uninvolved_processQueueTasks h ?_).bind (fun _ _ => trivial)
        intro hq hx
        exact kept ⟨hq.symm, id :: ids, hr, hx⟩

/-- At its start and between its chores, a worker is involved with no task. -/
theorem uninvolved_workerProcess (w : WorkerProcess) :
    Uninvolved q x w.routine (fun _ => True) := by
  have start : Issues (fun c => ¬c.TakesActive q x) w.start :=
    Worker.issues_queuePeriodicTasks _ (fun c hc _ => not_takesActive_passive hc)
      (fun _ _ _ _ _ => id) _ _ _
  exact start.assuming.bind (fun _ _ => assuming_forM (fun entry _ => uninvolved_chore entry.1 entry.2))

end Routines

/-! Any number of workers. -/

section Workers

variable {C : Type} [DecidableEq C] {q x : String}

/-- The event is a step of another worker than w. -/
def ofOther (w : C) : PoolEvent C Command → Bool
  | .step c => decide (c ≠ w)
  | .other _ => false

/-- A point of a run in which w processes x: its heartbeat is in time, and neither w nor a client
takes x out of ACTIVE. -/
def Processes (w : C) (q x : String) (pool : WorkerPool C) (ev : PoolEvent C Command) : Prop :=
  pool.Meets (fun s c => c.InTime q x s) ev ∧
    (ofOther w ev = false → pool.Meets (fun _ c => ¬c.TakesActive q x) ev)

instance (w : C) (q x : String) (pool : WorkerPool C) (ev : PoolEvent C Command) :
    Decidable (Processes w q x pool ev) := inferInstanceAs (Decidable (_ ∧ _))

/-- Since its start, or since it was last between two chores, nothing has handed x to the worker. -/
def HasNot (q x : String) (pool : WorkerPool C) (c : C) : Prop :=
  ∃ (rest : WorkerProcess) (tr : List (Store × Command)), tr <:+ pool.trace c ∧
    Reaches exec rest.routine tr (pool.client c) ∧ ∀ y ∈ tr, ¬y.2.Hands q x y.1

/-- x is active, and the event neither hands it to anybody nor takes it out of ACTIVE. -/
def LeftAlone (q x : String) (pool : WorkerPool C) (ev : PoolEvent C Command) : Prop :=
  x ∈ pool.state.zset .active q ∧
    pool.Meets (fun s c => ¬c.Hands q x s ∧ ¬c.TakesActive q x) ev

omit [DecidableEq C] in
theorem HasNot.uninvolved {pool : WorkerPool C} {c : C} (h : HasNot q x pool c)
    (keyed : ∀ y ∈ pool.trace c, Keyed y.1) : Uninvolved q x (pool.client c) (fun _ => True) := by
  obtain ⟨rest, tr, suffix, reached, unhanded⟩ := h
  exact (uninvolved_workerProcess rest).reaches reached
    (fun y hy => ⟨keyed y (suffix.subset hy), unhanded y hy⟩)

theorem keyed_workersAfter {workers : C → WorkerProcess} {s : Store} (keyed : Keyed s)
    (l : List (PoolEvent C Command)) : Keyed (workersAfter workers s l).state := by
  have keep : ∀ (pool : WorkerPool C) (ev : PoolEvent C Command), Keyed pool.state → True →
      Keyed (step (Pool.exec exec) pool ev).state := by
    intro pool ev keyed _
    rw [Pool.state_step]
    cases pool.next ev with
    | none => exact keyed
    | some c => exact keyed.step c
  have always : Along (Pool.exec exec) (fun _ _ => True)
      (Pool.start s (fun c => (workers c).routine)) l := along_of_forall (by simp)
  exact run_invariant keep keyed always

end Workers

/-- The task has been queued at 9. -/
def slowTaskQueued : Store :=
  runAll Store.empty [.delay "default" { id := "a", func := "tasks:slow_task" } none 9 true]

def beatingHost : Host :=
  { plainHost with execute := fun _ => .ok ([.heartbeat 50, .heartbeat 90], true) }

/-- One worker executes the task and sends its heartbeats at 50 and 90; the other one looks for
expired tasks at 65 and 105, and for queued ones in between. -/
def busyAndSweeping (busy : Bool) : WorkerProcess where
  onlyQueues := ∅
  excludeQueues := ∅
  periodicTasks := []
  startup := plainHost
  chores :=
    if busy then [(beatingHost, .fromQueue "default" 1 false 10 11)]
    else [({ plainHost with startTime := 65 }, .expiredTasks),
      (plainHost, .fromQueue "default" 1 false 70 71),
      ({ plainHost with startTime := 105 }, .expiredTasks)]

/-- One worker has got the lock of its sweep when the other one picks up the task. -/
def sweepAndPickup : List (PoolEvent Bool Command) := [.step false, .step true]

end TaskTiger
