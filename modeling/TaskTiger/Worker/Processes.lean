import TaskTiger.Framework.Emulation
import TaskTiger.Worker.Shutdown

namespace TaskTiger

open Redis Interleaving Prog

/-! The chores of a main loop. -/

abbrev runChores (chores : List (Host × Chore)) : Routine Unit :=
  chores.forM (fun (h, chore) => chore.routine h)

theorem runChores_append (chores later : List (Host × Chore)) :
    runChores (chores ++ later) = runChores chores >>= fun _ => runChores later := by
  induction chores with
  | nil => rfl
  | cons chore chores ih =>
    have rest : runChores (chore :: chores) = chore.2.routine chore.1 >>= fun _ => runChores chores := rfl
    have first : runChores (chore :: chores ++ later) =
        chore.2.routine chore.1 >>= fun _ => runChores (chores ++ later) := rfl
    rw [first, rest, bind_assoc, ih]

namespace MainWorker

variable {w : MainWorker}

def choreAt (w : MainWorker) (v : Visit) (queue : String) : Host × Chore :=
  (v.host, .fromQueue queue (w.getQueueBatchSize queue) v.failedToAcquire v.now v.later)

/-- The checks of an iteration, with the queues that it finds in SCHEDULED. -/
def checks (w : MainWorker) (it : Iteration) : Option (List String) → List (Host × Chore)
  | none => []
  | some queues =>
    [(it.check, .scheduledTasks w.scheduledTasksLock queues w.scheduledTaskBatchSize it.checkTime),
      (it.check, .expiredTasks)]

def Owns (w : MainWorker) (queues : List String) : Prop :=
  ∀ q ∈ queues, TaskTiger.queueMatches q w.onlyQueues w.excludeQueues = true

/-- What the loop may do in the iterations: in each it takes tasks from some queues of its own, and
looks for scheduled tasks in some, and for expired ones, or not. -/
inductive Does (w : MainWorker) : List Iteration → List (Host × Chore) → Prop where
  | stops (its : List Iteration) : Does w its []
  | iteration (it : Iteration) {its : List Iteration} {later : List (Host × Chore)}
      {queues : List String} {found : Option (List String)} (own : w.Owns queues)
      (ownScheduled : ∀ scheduled ∈ found, w.Owns scheduled) (rest : Does w its later) :
      Does w (it :: its) (queues.map (fun q => w.choreAt (it.visit q) q) ++ w.checks it found ++ later)

/-- Whatever the part of the loop does, but for asking for the names of queues, is to run chores of
a kind. -/
abbrev RunsChores {α : Type} (p : Routine α) (kind : List (Host × Chore) → Prop) : Prop :=
  Emulates exec Command.listsQueues p (fun p' => ∃ chores, kind chores ∧ p' = runChores chores)

theorem RunsChores.bind {α β : Type} {p : Routine α} {k : α → Routine β} {m : α → Prop}
    {kind later all : List (Host × Chore) → Prop} (hp : RunsChores p kind) (post : w.Minds p m)
    (hk : ∀ a, m a → RunsChores (k a) later) (some : later [])
    (seq : ∀ c c', kind c → later c' → all (c ++ c')) : RunsChores (p >>= k) all := by
  refine Emulates.bind hp (fun tr a ended => post.returned ended) hk ⟨_, [], some, rfl⟩ ?_
  rintro p q ⟨c, hc, rfl⟩ ⟨c', hc', rfl⟩
  exact ⟨c ++ c', seq c c' hc hc', (runChores_append c c').symm⟩

/-- A first part without chores. -/
theorem RunsChores.idle_bind {α β : Type} {p : Routine α} {k : α → Routine β} {m : α → Prop}
    {kind : List (Host × Chore) → Prop} (hp : RunsChores p (fun chores => chores = []))
    (post : w.Minds p m) (hk : ∀ a, m a → RunsChores (k a) kind) (some : kind []) :
    RunsChores (p >>= k) kind := by
  refine hp.bind post hk some ?_
  rintro _ c rfl later
  exact later

theorem runsChores_pure {α : Type} (a : α) {kind : List (Host × Chore) → Prop} (none : kind []) :
    RunsChores (pure a) kind := emulates_pure ⟨[], none, rfl⟩ a

theorem runsChores_processFromQueue (v : Visit) (queue : String) :
    RunsChores (w.processFromQueue v queue) (fun chores => chores = [w.choreAt v queue]) := by
  have shown : Issues (fun c => c.listsQueues = false) (w.processFromQueue v queue) :=
    Worker.shown_processFromQueue v.host queue _ _ _ _
  refine (emulates_forget shown).imp (fun p' same => ⟨_, rfl, ?_⟩)
  have chore : runChores [w.choreAt v queue] =
      (w.processFromQueue v queue >>= fun _ => pure ()) >>= fun _ => pure () := rfl
  rw [chore, bind_assoc]
  exact same

theorem runsChores_processQueues (it : Iteration) {order : List String} (queues : Finset String)
    (own : w.Owns order) : RunsChores (w.processQueues it order queues) (fun chores =>
      ∃ visited, w.Owns visited ∧ chores = visited.map (fun q => w.choreAt (it.visit q) q)) := by
  induction order generalizing queues with
  | nil => exact runsChores_pure _ ⟨[], by simp [Owns], rfl⟩
  | cons q order ih =>
    obtain ⟨first, own⟩ := List.forall_mem_cons.mp own
    have rest : ∀ left stop, RunsChores
        (if stop = true then pure (left, true) else w.processQueues it order left : Routine _)
        (fun chores => ∃ visited, w.Owns visited ∧
          chores = visited.map (fun q => w.choreAt (it.visit q) q)) := by
      intro left stop
      cases stop with
      | true => exact runsChores_pure _ ⟨[], by simp [Owns], rfl⟩
      | false => exact ih left own
    refine (runsChores_processFromQueue (it.visit q) q).bind (minds_processFromQueue _ first)
      (fun result _ => rest _ _) ⟨[], by simp [Owns], rfl⟩ ?_
    rintro _ _ rfl ⟨visited, own, rfl⟩
    exact ⟨q :: visited, List.forall_mem_cons.mpr ⟨first, own⟩, rfl⟩

theorem runsChores_workerQueueScheduledTasks (it : Iteration) :
    Emulates exec Command.listsQueues (w.workerQueueScheduledTasks it.check it.checkTime) (fun p' =>
      ∃ queues, w.Owns queues ∧ p' = Worker.workerQueueScheduledTasks it.check w.scheduledTasksLock
        queues w.scheduledTaskBatchSize it.checkTime) := by
  have queue : ∀ members, Issues (fun c => c.listsQueues = false)
      ((w.smembers.order (w.filterQueues members)).forM
        (Worker.queueScheduledTasks it.check w.scheduledTaskBatchSize it.checkTime)) :=
    fun members => Worker.shown_queueScheduledTasks _ _ _ _
  have own : ∀ members, w.Owns (w.smembers.order (w.filterQueues members)) :=
    fun members q hq => filtered_filterQueues members q ((w.smembers.mem _ _).mp hq)
  unfold workerQueueScheduledTasks acquireScheduledTasksLock Worker.workerQueueScheduledTasks
  cases w.scheduledTasksLock with
  | none =>
    refine emulates_silent rfl (fun members => ?_) ⟨_, [], by simp [Owns], rfl⟩
    exact (emulates_self (queue _)).imp (fun p' same => ⟨_, own _, same⟩)
  | some name =>
    refine emulates_ask rfl (fun acquired => ?_) ⟨_, [], by simp [Owns], rfl⟩
    cases acquired with
    | false => exact (emulates_pure ⟨_, ⟨[], by simp [Owns], rfl⟩, rfl⟩ ())
    | true =>
      refine emulates_silent rfl (fun members => ?_) ⟨_, _, ⟨[], by simp [Owns], rfl⟩, rfl⟩
      refine (emulates_self (queue _)).imp ?_
      rintro _ rfl
      exact ⟨_, ⟨_, own _, rfl⟩, rfl⟩

theorem runsChores_checks (it : Iteration) (left : Finset String) :
    RunsChores (do
        w.workerQueueScheduledTasks it.check it.checkTime
        Worker.workerQueueExpiredTasks it.check
        pure (left, it.stopRequested) : Routine (Finset String × Bool))
      (fun chores => ∃ found, (∀ scheduled ∈ found, w.Owns scheduled) ∧ chores = w.checks it found) := by
  have expired : Issues (fun c => c.listsQueues = false) (Worker.workerQueueExpiredTasks it.check) :=
    Worker.issues_workerQueueExpiredTasks _ (fun _ _ shown => shown) (fun _ _ => rfl)
  have sweep : Issues (fun c => c.listsQueues = false) (do
      Worker.workerQueueExpiredTasks it.check
      pure (left, it.stopRequested) : Routine (Finset String × Bool)) :=
    issues_bind expired (fun _ => trivial)
  refine Emulates.bind (m := fun _ => True) (runsChores_workerQueueScheduledTasks it)
    (fun _ _ _ => trivial) (fun _ _ => emulates_forget sweep) ⟨_, rfl⟩ ?_
  rintro _ _ ⟨queues, own, rfl⟩ rfl
  refine ⟨_, ⟨some queues, by simpa using own, rfl⟩, ?_⟩
  rw [bind_assoc]
  rfl

theorem runsChores_workerRun (it : Iteration) {queues : Finset String} (own : w.Filtered queues) :
    RunsChores (w.workerRun it queues) (fun chores => ∃ visited found, w.Owns visited ∧
      (∀ scheduled ∈ found, w.Owns scheduled) ∧
        chores = visited.map (fun q => w.choreAt (it.visit q) q) ++ w.checks it found) := by
  have order : w.Owns (it.shuffle.order queues) := fun q hq => own q ((it.shuffle.mem _ _).mp hq)
  have check : ∀ r : Finset String × Bool, RunsChores
      (if (r.2 || it.stopBeforeCheck) = true then pure (r.1, true)
        else if it.checkDue = true then do
          w.workerQueueScheduledTasks it.check it.checkTime
          Worker.workerQueueExpiredTasks it.check
          pure (r.1, it.stopRequested)
        else pure (r.1, it.stopRequested) : Routine (Finset String × Bool))
      (fun chores => ∃ found, (∀ scheduled ∈ found, w.Owns scheduled) ∧ chores = w.checks it found) := by
    intro r
    split_ifs
    · exact runsChores_pure _ ⟨none, by simp, rfl⟩
    · exact runsChores_checks it r.1
    · exact runsChores_pure _ ⟨none, by simp, rfl⟩
  refine (runsChores_processQueues it queues order).bind (minds_processQueues it queues order)
    (fun r _ => check r) ⟨none, by simp, rfl⟩ ?_
  rintro _ _ ⟨visited, own, rfl⟩ ⟨found, ownScheduled, rfl⟩
  exact ⟨visited, found, own, ownScheduled, rfl⟩

theorem runsChores_waitForQueues (it : Iteration) (queues : Finset String) :
    RunsChores (w.waitForQueues it queues) (fun chores => chores = []) := by
  unfold waitForQueues
  split_ifs
  · exact emulates_silent rfl (fun members => runsChores_pure _ rfl) ⟨_, [], rfl, rfl⟩
  · exact runsChores_pure _ rfl

theorem runsChores_loop (its : List Iteration) {queues : Finset String} (own : w.Filtered queues) :
    RunsChores (w.loop its queues) (w.Does its) := by
  induction its generalizing queues with
  | nil => exact runsChores_pure _ (.stops [])
  | cons it its ih =>
    rw [loop]
    by_cases interrupted : it.interrupted = true
    · rw [if_pos interrupted]
      exact runsChores_pure _ (.stops _)
    rw [if_neg interrupted]
    refine (runsChores_waitForQueues it queues).idle_bind (minds_waitForQueues it own)
      (fun next own => ?_) (.stops _)
    have goesOn : ∀ r : Finset String × Bool, w.Filtered r.1 → RunsChores
        (if (w.once && (decide (r.1 = ∅) || w.forceOnce)) = true then pure ⟨some .once, r.1, 1⟩
          else if it.exitAfter = true then pure ⟨some .exitAfter, r.1, 1⟩
          else if r.2 = true then pure ⟨some .stopped, r.1, 1⟩
          else do
            let rest ← w.loop its r.1
            pure { rest with iterations := rest.iterations + 1 } : Routine LoopRun) (w.Does its) := by
      intro r own
      split_ifs
      · exact runsChores_pure _ (.stops _)
      · exact runsChores_pure _ (.stops _)
      · exact runsChores_pure _ (.stops _)
      · refine (ih own).bind (minds_loop its own) (fun rest _ => runsChores_pure _ rfl) rfl ?_
        rintro c _ does rfl
        simpa using does
    refine (runsChores_workerRun it own).bind (minds_workerRun it own) (fun r own => goesOn r own)
      (.stops _) ?_
    rintro _ later ⟨visited, found, own, ownScheduled, rfl⟩ rest
    exact .iteration it own ownScheduled rest

/-- The worker process that does the chores. -/
def process (w : MainWorker) (startup : Host) (chores : List (Host × Chore)) : WorkerProcess :=
  ⟨w.onlyQueues, w.excludeQueues, w.periodicTasks, startup, chores⟩

theorem emulates_run (startup : Host) (its : List Iteration) :
    Emulates exec Command.listsQueues (w.run startup its) (fun p' =>
      ∃ chores, w.Does its chores ∧ p' = (w.process startup chores).routine) := by
  have periodic : Issues (fun c => c.listsQueues = false) (Worker.queuePeriodicTasks startup
      w.onlyQueues w.excludeQueues w.periodicTasks) :=
    Worker.issues_queuePeriodicTasks _ (fun _ _ shown => shown) (fun _ _ _ _ _ => rfl) _ _ _
  have loops : RunsChores (do
      let queueSet ← w.refreshQueueSet
      w.loop its queueSet : Routine LoopRun) (w.Does its) :=
    emulates_silent rfl (fun members => runsChores_loop its (filtered_filterQueues _)) ⟨_, [], .stops _, rfl⟩
  refine Emulates.bind (m := fun _ => True) (emulates_self periodic) (fun _ _ _ => trivial)
    (fun _ _ => loops) ⟨_, [], .stops _, rfl⟩ ?_
  rintro _ _ rfl ⟨chores, does, rfl⟩
  exact ⟨chores, does, rfl⟩

variable {C : Type} [DecidableEq C]

/-- Any number of main loops do together what worker processes do: in the same order the same
commands, in the same states, but for asking for the names of queues, and their chores are those of
their iterations, in queues of their own. -/
theorem workers_run (workers : C → MainWorker) (startup : C → Host) (its : C → List Iteration)
    (s : Store) (l : List (PoolEvent C Command)) :
    ∃ chores : C → List (Host × Chore), (∀ c, (workers c).Does (its c) (chores c)) ∧
      ∃ l', Pool.Mirrors exec Command.listsQueues
        (Pool.start s (fun c => (workers c).run (startup c) (its c))) l
        (Pool.start s (fun c => ((workers c).process (startup c) (chores c)).routine)) l' := by
  obtain ⟨p', kind, l', mirrors⟩ :=
    Pool.exists_mirrors (fun c => emulates_run (w := workers c) (startup c) (its c)) s l
  choose chores does same using kind
  obtain rfl : p' = fun c => ((workers c).process (startup c) (chores c)).routine := funext same
  exact ⟨chores, does, l', mirrors⟩

end MainWorker

end TaskTiger
