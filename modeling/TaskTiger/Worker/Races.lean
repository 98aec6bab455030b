import TaskTiger.Worker.Worker
import TaskTiger.Store.CommandEffects

namespace TaskTiger

open Redis Interleaving Interleaving.Prog

/-- The command is one that makes its routine raise TaskNotFound outside a try block: a move that
does not find its id, the two of the expiry apart, or a count of executions without an object. -/
def Command.Misses (s : Store) : Command → Prop
  | .move m => m.kind ≠ .requeueExpired ∧ m.kind ≠ .failExpired ∧ ¬m.Effective s
  | .nExecutions id => s.task id = none
  | _ => False

/-- TaskNotFound leaves the routine exactly when one of its commands misses, whatever the other
clients and workers do between its commands. -/
abbrev RaisesOnMiss {α : Type} (p : Routine α) : Prop :=
  EscapesIff exec .taskNotFound (fun s c => c.Misses s) p

variable (h : Host)

/-! The commands and the code of the application. -/

theorem raisesOnMiss_redis {c : Command} (hc : ∀ s, ¬c.Misses s) : RaisesOnMiss (redis c) :=
  escapesIff_ask hc

theorem raisesOnMiss_call {α : Type} (r : Except String α) : RaisesOnMiss (Host.call r) := by
  cases r with
  | ok a => exact escapesIff_pure a
  | error name => exact escapesIff_raise (by simp)

theorem raisesOnMiss_move (task : Task) {kind : MoveKind} (time : Option Time) (now : Instant)
    (hk : kind ≠ .requeueExpired ∧ kind ≠ .failExpired) :
    RaisesOnMiss (task.move h kind time now) := by
  refine escapesIff_call ?_ ?_
  · intro s hb
    rw [exec_move_of_not_effective hb.2.2]
    rfl
  · intro s hb
    have he : Move.Effective ⟨kind, task.queue, task.data.id, task.data.unique,
        Task.resolveWhen time now, h.publishQueuedTasks⟩ s := by
      by_contra hn
      exact hb ⟨hk.1, hk.2, hn⟩
    rw [exec_move_ok he]
    exact escapesIff_pure _

theorem raisesOnMiss_nExecutions (task : Task) : RaisesOnMiss task.nExecutions := by
  refine escapesIff_call ?_ ?_
  · intro s hb
    have hnone : s.task task.data.id = none := hb
    simp [exec, hnone]
    rfl
  · intro s hb
    have hsome : (s.task task.data.id).isSome = true := Option.isSome_iff_ne_none.mpr hb
    simp only [exec, hsome]
    exact escapesIff_pure _

/-! Worker._worker_queue_expired_tasks. -/

/-- The commands of the try block miss nothing: its moves are the guarded ones. -/
theorem issues_expireTask (queue id : String) :
    Issues (fun c => ∀ s, ¬Command.Misses s c) (Worker.expireTask h queue id) := by
  refine issues_bind ?_ (fun task => ?_)
  · refine issues_bind (issues_ask (fun _ hb => hb)) (fun reply => ?_)
    obtain ⟨data, score⟩ := reply
    cases data with
    | none => trivial
    | some d =>
      cases score with
      | none => trivial
      | some ts =>
        simp only
        split_ifs <;> trivial
  · have guarded : ∀ kind, kind = .requeueExpired ∨ kind = .failExpired → ∀ time,
        Issues (fun c => ∀ s, ¬Command.Misses s c) (task.move h kind time (h.time id)) := by
      intro kind hk time
      refine issues_bind (issues_ask ?_) (fun reply => ?_)
      · intro s hb
        rcases hk with rfl | rfl
        · exact hb.1 rfl
        · exact hb.2.1 rfl
      · cases reply with
        | ok u => trivial
        | error e => cases e <;> trivial
    split_ifs
    · exact guarded _ (Or.inl rfl) _
    · exact guarded _ (Or.inr rfl) _

theorem raisesOnMiss_expireNotFound (queue id : String) :
    RaisesOnMiss (Worker.expireNotFound h queue id .taskNotFound) := by
  refine escapesIff_bind (raisesOnMiss_redis (fun _ hb => hb)) (fun data => ?_)
  refine escapesIff_ite ?_ (escapesIff_pure _)
  exact raisesOnMiss_move h _ _ _ (by simp)

theorem raisesOnMiss_workerQueueExpiredTasks : RaisesOnMiss (Worker.workerQueueExpiredTasks h) := by
  refine escapesIff_bind (raisesOnMiss_redis (fun _ hb => hb)) (fun acquired => ?_)
  refine escapesIff_ite ?_ (escapesIff_pure _)
  refine escapesIff_bind (raisesOnMiss_redis (fun _ hb => hb)) (fun taskData => ?_)
  refine escapesIff_bind (escapesIff_forM (fun entry => ?_)) (fun _ => ?_)
  · refine escapesIff_attempt (issues_expireTask h entry.1 entry.2)
      (raisesOnMiss_expireNotFound h entry.1 entry.2) ?_
    intro e he
    cases e with
    | taskNotFound => exact absurd rfl he
    | _ => rfl
  · refine escapesIff_ite ?_ (escapesIff_pure _)
    exact escapesIff_bind (raisesOnMiss_redis (fun _ hb => hb)) (fun _ => escapesIff_pure _)

/-! Worker._finish_task_processing. -/

theorem raisesOnMiss_retryTime (task : Task) (execution : Option Execution) (now : Instant) :
    RaisesOnMiss (Worker.retryTime h task execution now) := by
  unfold Worker.retryTime
  cases Worker.retryMethod h task execution with
  | none => exact escapesIff_pure _
  | some m =>
    refine escapesIff_bind (raisesOnMiss_nExecutions task) (fun n => ?_)
    refine escapesIff_ite ?_ (escapesIff_pure _)
    cases h.retryDelay m (if n = 0 then 1 else n) with
    | delay d => exact escapesIff_pure _
    | stop => exact escapesIff_pure _
    | raised name => exact escapesIff_raise (by simp)

theorem raisesOnMiss_permanentError (task : Task) (execution : Option Execution) :
    RaisesOnMiss (Worker.permanentError h task execution) := by
  unfold Worker.permanentError
  cases task.data.runnerClass with
  | none => exact escapesIff_pure _
  | some path =>
    refine escapesIff_ite (escapesIff_pure _) ?_
    refine escapesIff_bind (raisesOnMiss_call _) (fun _ => ?_)
    exact escapesIff_bind (raisesOnMiss_redis (fun _ hb => hb)) (fun _ => raisesOnMiss_call _)

theorem raisesOnMiss_moveFailed (task : Task) (execution : Option Execution) (now : Instant)
    (retry : Option Time) : RaisesOnMiss (Worker.moveFailed h task execution now retry) := by
  cases retry with
  | some ts => exact raisesOnMiss_move h _ _ _ (by simp)
  | none =>
    refine escapesIff_ite ?_ (raisesOnMiss_move h _ _ _ (by simp))
    exact escapesIff_bind (raisesOnMiss_move h _ _ _ (by simp))
      (fun _ => raisesOnMiss_permanentError h task execution)

theorem raisesOnMiss_finishTaskProcessing (task : Task) (success : Bool) :
    RaisesOnMiss (Worker.finishTaskProcessing h task success) := by
  refine escapesIff_ite (raisesOnMiss_move h _ _ _ (by simp)) ?_
  refine escapesIff_bind (raisesOnMiss_redis (fun _ hb => hb)) (fun execution => ?_)
  refine escapesIff_bind (raisesOnMiss_retryTime h _ _ _) (fun retry => ?_)
  refine escapesIff_bind (raisesOnMiss_moveFailed h _ _ _ _) (fun _ => ?_)
  exact escapesIff_ite (escapesIff_raise (by simp)) (escapesIff_pure _)

/-! Worker._execute_task_group and Worker._process_queue_tasks. -/

theorem raisesOnMiss_acquireLocks (tasks : List Task) (locks : List String) (ready : List Task) :
    RaisesOnMiss (Worker.acquireLocks h tasks locks ready) := by
  induction tasks generalizing locks ready with
  | nil => exact escapesIff_pure _
  | cons task tasks ih =>
    rw [Worker.acquireLocks]
    refine escapesIff_ite ?_ (ih _ _)
    refine escapesIff_bind (raisesOnMiss_redis (fun _ hb => hb)) (fun acquired => ?_)
    refine escapesIff_ite (ih _ _) ?_
    exact escapesIff_bind (raisesOnMiss_move h _ _ _ (by simp)) (fun _ => ih _ _)

theorem raisesOnMiss_checkQueueSize (task : Task) (maxQueueSize : Option Int) :
    RaisesOnMiss (task.checkQueueSize maxQueueSize) := by
  unfold Task.checkQueueSize
  cases maxQueueSize <|> task.data.maxQueueSize with
  | none => exact escapesIff_pure _
  | some m =>
    refine escapesIff_ite (escapesIff_pure _) ?_
    refine escapesIff_bind (raisesOnMiss_redis (fun _ hb => hb)) (fun size => ?_)
    exact escapesIff_ite (escapesIff_raise (by simp)) (escapesIff_pure _)

theorem raisesOnMiss_queueForNextPeriod (task : Task) : RaisesOnMiss (task.queueForNextPeriod h) := by
  refine escapesIff_bind (raisesOnMiss_call _) (fun next => ?_)
  cases next with
  | none => exact escapesIff_pure _
  | some ts =>
    refine escapesIff_bind (raisesOnMiss_checkQueueSize _ _) (fun _ => ?_)
    exact escapesIff_ite (raisesOnMiss_call _) (raisesOnMiss_redis (fun _ hb => hb))

theorem raisesOnMiss_executeTaskGroup (queue : String) (tasks : List Task) :
    RaisesOnMiss (Worker.executeTaskGroup h queue tasks) := by
  refine escapesIff_bind (raisesOnMiss_acquireLocks h _ _ _) (fun acquired => ?_)
  refine escapesIff_ite (escapesIff_pure _) ?_
  refine escapesIff_bind ?_ (fun _ => ?_)
  · unfold Worker.prepareExecution
    cases acquired.2 with
    | nil => exact escapesIff_pure _
    | cons task _ =>
      exact escapesIff_ite (raisesOnMiss_queueForNextPeriod h task) (escapesIff_pure _)
  · refine escapesIff_bind (raisesOnMiss_call _) (fun executed => ?_)
    refine escapesIff_bind (escapesIff_forM (fun step => ?_)) (fun _ => ?_)
    · cases step with
      | heartbeat now => exact raisesOnMiss_redis (fun _ hb => hb)
      | store e => exact escapesIff_forM (fun task => raisesOnMiss_redis (fun _ hb => hb))
    · refine escapesIff_bind (escapesIff_forM (fun lock => ?_)) (fun _ => escapesIff_pure _)
      exact escapesIff_bind (raisesOnMiss_redis (fun _ hb => hb)) (fun _ => escapesIff_pure _)

theorem raisesOnMiss_loadTasks (queue : String) (entries : List (String × Option TaskData)) :
    RaisesOnMiss (Worker.loadTasks h queue entries) := by
  induction entries with
  | nil => exact escapesIff_pure _
  | cons entry entries ih =>
    obtain ⟨id, data⟩ := entry
    cases data with
    | none =>
      rw [Worker.loadTasks]
      exact escapesIff_bind (raisesOnMiss_move h _ _ _ (by simp)) (fun _ => ih)
    | some d =>
      rw [Worker.loadTasks]
      refine escapesIff_ite ?_ ?_
      · exact escapesIff_bind ih (fun _ => escapesIff_pure _)
      · exact escapesIff_bind (raisesOnMiss_move h _ _ _ (by simp)) (fun _ => ih)

theorem raisesOnMiss_processGroups (queue : String) (groups : List (List Task)) :
    RaisesOnMiss (Worker.processGroups h queue groups) := by
  induction groups with
  | nil => exact escapesIff_pure _
  | cons tasks groups ih =>
    rw [Worker.processGroups]
    refine escapesIff_bind (raisesOnMiss_executeTaskGroup h _ _) (fun processed => ?_)
    refine escapesIff_bind (escapesIff_forM (fun task => ?_)) (fun _ => ?_)
    · exact raisesOnMiss_finishTaskProcessing h _ _
    · exact escapesIff_bind ih (fun _ => escapesIff_pure _)

theorem raisesOnMiss_processQueueTasks (queue : String) (taskIds : List String) :
    RaisesOnMiss (Worker.processQueueTasks h queue taskIds) :=
  escapesIff_bind (raisesOnMiss_redis (fun _ hb => hb))
    (fun _ => escapesIff_bind (raisesOnMiss_loadTasks h _ _)
      (fun _ => raisesOnMiss_processGroups h _ _))

/-! The routines among the other clients and workers. -/

section Survival

variable {α : Type} (env : Nat → List Command) (n : Nat) (s : Store)

/-- No TaskNotFound reaches the main loop, which would terminate the worker. -/
def Survives (p : Routine α) : Prop := (go exec env p n s).result ≠ .error .taskNotFound

/-- Each unguarded move of the routine finds its id where it expects it, and each count of
executions finds the object. -/
def FindsAll (p : Routine α) : Prop := ∀ x ∈ (go exec env p n s).trace, ¬x.2.Misses x.1

theorem survives_iff_of_raisesOnMiss {p : Routine α} (hp : RaisesOnMiss p) :
    Survives env n s p ↔ FindsAll env n s p := by
  unfold Survives FindsAll
  rw [ne_eq, hp env n s]
  push Not
  rfl

/-- The expiry and the processing of tasks let TaskNotFound escape exactly when another worker
has dealt with a task before an unguarded command of theirs. -/
theorem survives_iff_findsAll :
    (∀ queue taskIds, Survives env n s (Worker.processQueueTasks h queue taskIds) ↔
      FindsAll env n s (Worker.processQueueTasks h queue taskIds)) ∧
    (∀ task success, Survives env n s (Worker.finishTaskProcessing h task success) ↔
      FindsAll env n s (Worker.finishTaskProcessing h task success)) ∧
    (Survives env n s (Worker.workerQueueExpiredTasks h) ↔
      FindsAll env n s (Worker.workerQueueExpiredTasks h)) := by
  refine ⟨?_, ?_, ?_⟩
  · intro queue taskIds
    exact survives_iff_of_raisesOnMiss env n s (raisesOnMiss_processQueueTasks h queue taskIds)
  · intro task success
    exact survives_iff_of_raisesOnMiss env n s (raisesOnMiss_finishTaskProcessing h task success)
  · exact survives_iff_of_raisesOnMiss env n s (raisesOnMiss_workerQueueExpiredTasks h)

end Survival

/-- The default configuration, with an application of plain tasks that all succeed. -/
def plainHost : Host where
  publishQueuedTasks := true
  alwaysEager := false
  lockRetry := 1
  activeTaskUpdateTimeout := 60
  requeueExpiredTasksBatchSize := 10
  defaultRetryMethod := ⟨"tasktiger.retry:_fixed", .arr [.num 60, .num 3]⟩
  exitWorkerOnJobTimeout := false
  startTime := 100
  time := fun _ => 101
  token := fun _ => "token"
  smembers := sortedEnumeration
  genUniqueId := fun func _ _ => func
  importable := fun _ => true
  isSubclass := fun a b => a = b
  isPeriodic := fun _ => false
  nextPeriod := fun _ => .ok none
  retryDelay := fun _ _ => .delay 60
  executeEagerly := fun _ => .ok ()
  execute := fun _ => .ok ([], true)
  loadRunner := fun _ => .ok ()
  onPermanentError := fun _ _ => .ok ()

/-- A slow task: while it runs, another worker expires it. -/
def expiredWhileRunning : Nat → List Command
  | 1 => [.move ⟨.failExpired, "default", "a", false, 99, true⟩]
  | _ => []

/-- The finish of the slow task terminates its worker. -/
theorem not_survives_expired : ¬∀ (h : Host) (env : Nat → List Command) (n : Nat) (s : Store)
    (queue : String) (taskIds : List String),
      Survives env n s (Worker.processQueueTasks h queue taskIds) := by
  intro hall
  let s := runAll Store.empty [
    .delay "default" { id := "a", func := "tasks:simple_task" } none 1 true,
    .pickup "default" 1 2 3]
  have raises : (go exec expiredWhileRunning
      (Worker.processQueueTasks plainHost "default" ["a"]) 0 s).result = .error .taskNotFound := by
    decide +kernel
  exact hall plainHost expiredWhileRunning 0 s "default" ["a"] raises

end TaskTiger
