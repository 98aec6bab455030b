import TaskTiger.Framework.Helper
import TaskTiger.Worker.Executor
import TaskTiger.Worker.Shutdown

namespace TaskTiger

open Redis Interleaving Prog

/-! The two threads of SyncExecutor.execute. -/

namespace SyncExecutor

/-- Executor.heartbeat, as _periodic_heartbeat calls it. Reacquiring a task lock does not change who
holds it. -/
def periodicHeartbeat (queue : String) (tasks : List Task) (now : Instant) : Command :=
  .heartbeat queue (tasks.map (fun task => task.data.id)) now

/-- What the worker does with the tasks when execute has returned. -/
def afterExecute (h : Host) (locks : List String) (tasks : List Task) (success : Bool) :
    Routine Unit := do
  locks.forM (Worker.releaseLock h)
  tasks.forM (fun task => Worker.finishTaskProcessing h task success)

abbrev ExecutorThreads := Threads Store Command Reply Exn Bool Unit

abbrev ExecutorTurn := ThreadTurn Command Instant

/-- The heartbeat thread waits for stop_event with a timeout, again and again; the main thread runs
execute_tasks, sets stop_event and joins the heartbeat thread, also when it raises. -/
def turn (h : Host) (queue : String) (locks : List String) (tasks : List Task) :
    ExecutorTurn → ExecutorThreads → Unit × ExecutorThreads :=
  Threads.turn exec (periodicHeartbeat queue tasks) (afterExecute h locks tasks)

def taskIds (g : TaskGroup) : List String := g.tasks.map (fun task => task.data.id)

/-- Nobody else has put the tasks into ACTIVE or taken them out. -/
def SparesTasks (queue : String) (g : TaskGroup) : ExecutorThreads → ExecutorTurn → Prop :=
  Threads.Mild exec (SameActive queue (taskIds g))

/-- The heartbeat thread is gone, no heartbeat has put a task back into ACTIVE, and each task has
left it once for all. -/
structure LeavesClean (queue : String) (g : TaskGroup) (fin : ExecutorThreads) : Prop where
  ended : fin.helper = .ended
  beats : ∀ t q ids now, (t, .heartbeat q ids now) ∈ fin.trace →
    q = queue ∧ ∀ x ∈ ids, x ∈ t.zset .active queue
  once : ∀ x ∈ taskIds g, (departed queue fin.trace).count x = 1
  gone : ∀ x ∈ taskIds g, x ∉ fin.state.zset .active queue

section

variable {h : Host} {queue : String} {locks : List String} {cfg : ExecutorConfig} {app : Application}
  {p : Process} {loaded : Option PyFunc} {g : TaskGroup} {s : Store}

/-- The commands of execute_tasks. -/
theorem issues_routine {Q : Command → Prop}
    (store : ∀ e, Issues Q (Worker.executorStep queue g.tasks (.store e))) :
    Issues Q (executeTasks cfg app p loaded g).routine := by
  refine issues_bind ?_ (fun _ => issues_call _)
  unfold executeTasks
  cases runTasks cfg app loaded g with
  | ok u => trivial
  | error e =>
    simp only
    cases failedExecution p e with
    | error escaped => trivial
    | ok execution =>
      have stores := store (failedEntry cfg p e execution).toExecution
      rwa [executorStep_store] at stores

theorem raises_routine : Raises (· ≠ Exn.systemExit) (executeTasks cfg app p loaded g).routine :=
  raises_bind (raises_forM (fun _ => raises_redis _)) (fun _ => raises_call _)

/-- The commands of both threads keep the tasks in ACTIVE until they are finished. -/
theorem concludes_process {q : Routine Bool} (distinct : (taskIds g).Nodup)
    (here : ∀ t ∈ g.tasks, t.queue = queue)
    (among : Among (fun c => ∃ now, c = periodicHeartbeat queue g.tasks now)
      (executeTasks cfg app p loaded g).routine q) :
    Concludes exec (batch queue (taskIds g) s) (exits h queue (taskIds g) (taskIds g))
      (q >>= afterExecute h locks g.tasks) [] (fun _ tr =>
        Progress h queue (taskIds g) (taskIds g) [] tr) := by
  have start : Progress h queue (taskIds g) (taskIds g) (taskIds g ++ []) [] := by
    refine ⟨⟨fun _ => List.Perm.refl _, fun _ t ht => by simp at ht⟩, ?_, fun t x ht => by simp at ht⟩
    simp [departed_nil]
  have keeps : ∀ step, Issues ((batch queue (taskIds g) s).Keeps
      (Progress h queue (taskIds g) (taskIds g) (taskIds g ++ [])))
      (Worker.executorStep queue g.tasks step) := Worker.keeps_executorStep distinct g.tasks
  have body : Issues ((batch queue (taskIds g) s).Keeps
      (Progress h queue (taskIds g) (taskIds g) (taskIds g ++ []))) q := by
    refine among.issues ?_ (issues_routine (fun e => keeps (.store e)))
    rintro c ⟨now, rfl⟩
    exact (keeps (.heartbeat now)).1
  refine Concludes.bind ((Issues.concludes body (among.raises raises_routine) start).mono
    (fun e tr he exit => absurd exit he.1) (fun _ _ kept => kept)) ?_
  intro success tr1 left
  have release : ∀ lock, Issues Command.Quiet (Worker.releaseLock h lock) :=
    fun lock => issues_bind (issues_ask trivial) (fun _ => trivial)
  have silent : ∀ lock, Raises (· ≠ Exn.systemExit) (Worker.releaseLock h lock) :=
    fun lock => raises_bind (raises_redis _) (fun _ => trivial)
  refine (concludes_quiet_progress (issues_forM release) (raises_forM silent) left).bind ?_
  intro _ tr2 left
  exact Worker.concludes_finishGroup here left

/-- Heartbeats are for the tasks. -/
theorem onBatch_process {q : Routine Bool}
    (among : Among (fun c => ∃ now, c = periodicHeartbeat queue g.tasks now)
      (executeTasks cfg app p loaded g).routine q) :
    Issues (Command.OnBatch queue (taskIds g)) (q >>= afterExecute h locks g.tasks) := by
  have stores : ∀ e, Issues (Command.OnBatch queue (taskIds g))
      (Worker.executorStep queue g.tasks (.store e)) :=
    fun e => issues_forM (fun task => issues_ask trivial)
  refine issues_bind (among.issues ?_ (issues_routine stores)) (fun success => ?_)
  · rintro c ⟨now, rfl⟩
    exact ⟨rfl, List.Subset.refl _⟩
  · refine issues_bind (issues_forM (fun lock => issues_bind (issues_ask trivial) (fun _ => trivial)))
      (fun _ => issues_forM (fun task => ?_))
    exact Worker.issues_finishTaskProcessing h (fun _ _ _ => trivial) trivial trivial trivial

variable {l : List ExecutorTurn}

/-- In every interleaving of both threads with others, execute_tasks is followed by the end of the
heartbeat thread, for which two turns of it are enough; and the worker leaves no task in ACTIVE that
it has finished, no heartbeat coming too late. -/
theorem threads_run (distinct : (taskIds g).Nodup) (here : ∀ t ∈ g.tasks, t.queue = queue)
    (active : ∀ x ∈ taskIds g, x ∈ s.zset .active queue)
    (others : Along (turn h queue locks g.tasks) (SparesTasks queue g)
      (.start s (executeTasks cfg app p loaded g).routine) l) :
    let after := run (turn h queue locks g.tasks) (.start s (executeTasks cfg app p loaded g).routine)
    (∀ pre late, l = pre ++ late → (after pre).stopEvent = true → 2 ≤ late.countP Threads.isHelper →
      ∃ rest, (after (l ++ [.main])).main = .rest rest) ∧
    ((after l).main = .rest (.ret ()) → LeavesClean queue g (after l)) := by
  intro after
  constructor
  · rintro pre late rfl stopped turns
    have sound : (after pre).Sound := Threads.sound_run (Threads.sound_start _ _) pre
    have waits : ∃ rest, (run (turn h queue locks g.tasks) (after pre) (late ++ [.main])).main =
        .rest rest := Threads.rest_of_turns sound stopped turns
    have split : after (pre ++ late ++ [.main]) =
        run (turn h queue locks g.tasks) (after pre) (late ++ [.main]) := by
      simp only [after, List.append_assoc, run_append]
    rw [split]
    exact waits
  · intro ended
    have refines : ∃ q tr, Among (fun c => ∃ now, c = periodicHeartbeat queue g.tasks now)
        (executeTasks cfg app p loaded g).routine q ∧
        RunsTo exec (SameActive queue (taskIds g)) (q >>= afterExecute h locks g.tasks) s tr (.ok ())
          (after l).state ∧ (after l).trace = tr :=
      Threads.finishes_run (fun now => ⟨now, rfl⟩) (Threads.sound_start s _) others ended
    obtain ⟨q, tr, among, runs, traced⟩ := refines
    obtain ⟨undisturbed, last⟩ := runs.undisturbed (fun _ _ _ => Iff.rfl)
      (fun _ _ _ st tu x hx => (tu x hx).trans (st x hx))
    obtain ⟨env, result, own⟩ := runs.go 0
    have within : Issues (Command.OnBatch queue (taskIds g)) (q >>= afterExecute h locks g.tasks) :=
      onBatch_process among
    have issued : ∀ y ∈ tr, y.2.OnBatch queue (taskIds g) := by
      rw [← own]
      exact within.trace 0 _
    have concluded : Concludes exec (batch queue (taskIds g) s) _ (q >>= afterExecute h locks g.tasks)
        [] _ := concludes_process distinct here among
    obtain ⟨commands, returned, -⟩ := concluded.recorded (own.symm ▸ undisturbed)
    have progress := returned () result
    rw [own] at commands progress
    have finds : FindsOwn (taskIds g) tr := progress.own.mpr (List.Perm.refl _)
    let o : Outcome Store Command Exn Nat := ⟨.ok 0, endState exec s tr, tr⟩
    have batchRun : BatchRun queue (taskIds g) s o := ⟨distinct, active, undisturbed, commands, rfl⟩
    have disposed := batchRun.disposedOnce finds (by simpa using progress.perm)
    refine ⟨?_, ?_, fun x hx => traced ▸ (disposed x hx).1, fun x hx => ?_⟩
    · have phases : (after l).Sound := Threads.sound_run (Threads.sound_start _ _) l
      unfold Threads.Sound at phases
      rw [ended] at phases
      exact phases.2
    · intro t r ids now beat
      rw [traced] at beat
      obtain ⟨same, within⟩ := issued _ beat
      refine ⟨same, fun x hx => ?_⟩
      obtain ⟨pre, rest, split⟩ := List.append_of_mem beat
      rw [batchRun.mem_active_iff finds split (within hx)]
      refine commands pre _ rest split (fun t' ht => finds t' ?_) x hx
      rw [split]
      exact List.mem_append_left _ ht
    · rw [last x hx]
      exact (disposed x hx).2

end

/-- Two tasks that a worker has picked up. -/
def bothActive : Store :=
  runAll Store.empty
    [.delay "default" { id := "a", func := "tasks:retry_task" } none 1 true,
      .delay "default" { id := "b", func := "tasks:retry_task" } none 2 true,
      .pickup "default" 2 99 100]

/-- A heartbeat between the two stored executions, and one after stop_event has been set. -/
def lateHeartbeat : List ExecutorTurn :=
  [.main, .helper none, .helper (some 103),
    .other (.delay "default" { id := "c", func := "tasks:simple_task" } none 104 true),
    .helper none, .main, .main, .main, .helper (some 105), .helper none, .main] ++
    List.replicate 6 .main

theorem threads_run_lateHeartbeat :
    LeavesClean "default" twoTasks (run (turn plainHost "default" [] twoTasks.tasks)
      (.start bothActive (executeTasks plainConfig (retryingApplication false)
        (processAt 100 "worker") none twoTasks).routine) lateHeartbeat) := by
  refine (threads_run (by decide) (by decide +kernel) (by decide +kernel) ?_).2 rfl
  have client : ∀ s, SameActive "default" (taskIds twoTasks) s (exec
      (.delay "default" { id := "c", func := "tasks:simple_task" } none 104 true) s).2 :=
    fun s x _ => Command.SparesActive.mem_iff trivial
  exact ⟨trivial, trivial, trivial, client _, trivial, trivial, trivial, trivial, trivial, trivial,
    trivial, trivial, trivial, trivial, trivial, trivial, trivial, trivial⟩

end SyncExecutor

end TaskTiger
