import TaskTiger.Store.CommandEffects
import TaskTiger.Worker.Worker

namespace TaskTiger

open Interleaving Interleaving.Prog

variable {h : Host} {Q : Command → Prop}

/-! The commands of the shared routines, for any property Q of commands. -/

theorem issues_call {α : Type} (r : Except String α) : Issues Q (Host.call r) := by
  cases r <;> trivial

theorem issues_move {task : Task} {kind : MoveKind} {time : Option Time} {now : Instant}
    (hm : Q (.move ⟨kind, task.queue, task.data.id, task.data.unique,
      Task.resolveWhen time now, h.publishQueuedTasks⟩)) :
    Issues Q (task.move h kind time now) := by
  refine issues_bind (issues_ask hm) (fun reply => ?_)
  cases reply with
  | ok u => trivial
  | error e => cases e <;> trivial

theorem issues_checkQueueSize {task : Task} {maxQueueSize : Option Int}
    (size : Q (.queueSizes task.queue)) : Issues Q (task.checkQueueSize maxQueueSize) := by
  unfold Task.checkQueueSize
  cases maxQueueSize <|> task.data.maxQueueSize with
  | none => trivial
  | some m =>
    exact issues_ite trivial (issues_bind (issues_ask size) (fun size => issues_ite trivial trivial))

/-- The object that is delayed for the next period: that of the task, with its id made anew. -/
def Task.nextData (h : Host) (t : Task) : TaskData :=
  { t.data with id := h.genUniqueId t.data.func (.arr t.data.args) (.obj t.data.kwargs) }

theorem issues_queueForNextPeriod (task : Task) (size : ∀ queue, Q (.queueSizes queue))
    (delay : ∀ ts now publish, Q (.delay task.queue (task.nextData h) ts now publish)) :
    Issues Q (task.queueForNextPeriod h) := by
  refine issues_bind (issues_call _) (fun next => ?_)
  cases next with
  | none => trivial
  | some ts =>
    refine issues_bind (issues_checkQueueSize (size _)) (fun _ => ?_)
    exact issues_ite (issues_call _) (issues_ask (delay _ _ _))

/-- The command asks for the names of queues. -/
def Command.listsQueues : Command → Bool
  | .smembers .. => true
  | _ => false

namespace Worker

theorem issues_prepareExecution (tasks : List Task) (size : ∀ queue, Q (.queueSizes queue))
    (delay : ∀ task ∈ tasks, ∀ ts now publish,
      Q (.delay task.queue (task.nextData h) ts now publish)) :
    Issues Q (prepareExecution h tasks) := by
  unfold prepareExecution
  cases tasks with
  | nil => trivial
  | cons task tasks =>
    exact issues_ite (issues_queueForNextPeriod task size (delay task List.mem_cons_self)) trivial

theorem issues_acquireLocks (acquire : ∀ name, Q (.acquireLock name (h.token name)))
    (miss : ∀ m : Move, m.kind = .lockMiss → Q (.move m)) (tasks : List Task)
    (locks : List String) (ready : List Task) : Issues Q (acquireLocks h tasks locks ready) := by
  induction tasks generalizing locks ready with
  | nil => trivial
  | cons task tasks ih =>
    rw [acquireLocks]
    refine issues_ite (issues_bind (issues_ask (acquire _)) (fun acquired => ?_)) (ih _ _)
    refine issues_ite (ih _ _) (issues_bind ?_ (fun _ => ih _ _))
    exact issues_move (miss _ rfl)

theorem issues_executorStep {queue : String} (tasks : List Task)
    (heartbeat : ∀ ids now, Q (.heartbeat queue ids now))
    (store : ∀ id maxStored e, Q (.storeExecution id maxStored e)) (step : ExecutorStep) :
    Issues Q (executorStep queue tasks step) := by
  cases step with
  | heartbeat now => exact issues_ask (heartbeat _ now)
  | store e => exact issues_forM (fun task => issues_ask (store _ _ e))

theorem issues_executeTaskGroup {queue : String} (tasks : List Task)
    (acquire : ∀ name, Q (.acquireLock name (h.token name)))
    (miss : ∀ m : Move, m.kind = .lockMiss → Q (.move m)) (size : ∀ queue, Q (.queueSizes queue))
    (delay : ∀ queue data ts now publish, Q (.delay queue data ts now publish))
    (heartbeat : ∀ ids now, Q (.heartbeat queue ids now))
    (store : ∀ id maxStored e, Q (.storeExecution id maxStored e))
    (release : ∀ name, Q (.releaseLock name (h.token name))) :
    Issues Q (executeTaskGroup h queue tasks) := by
  refine issues_bind (issues_acquireLocks acquire miss _ _ _)
    (fun acquired => issues_ite trivial ?_)
  refine issues_bind (issues_prepareExecution _ size (fun _ _ _ _ _ => delay _ _ _ _ _))
    (fun _ => issues_bind (issues_call _) (fun executed => ?_))
  refine issues_bind (issues_forM (fun step => issues_executorStep _ heartbeat store step))
    (fun _ => issues_bind (issues_forM (fun lock => ?_)) (fun _ => trivial))
  exact issues_bind (issues_ask (release _)) (fun _ => trivial)

/-- While a batch is loaded, only tasks without an object or with another id are removed. -/
theorem issues_loadTasks {queue : String}
    (missing : ∀ m : Move, m.kind = .missing → m.unique = false → Q (.move m))
    (mismatch : ∀ m : Move, m.kind = .mismatch → Q (.move m))
    (entries : List (String × Option TaskData)) : Issues Q (loadTasks h queue entries) := by
  induction entries with
  | nil => trivial
  | cons entry entries ih =>
    obtain ⟨id, data⟩ := entry
    cases data with
    | none =>
      rw [loadTasks]
      exact issues_bind (issues_move (missing _ rfl rfl)) (fun _ => ih)
    | some d =>
      rw [loadTasks]
      refine issues_ite (issues_bind ih (fun _ => trivial)) ?_
      exact issues_bind (issues_move (mismatch _ rfl)) (fun _ => ih)

/-- The entries of a batch are those of its ids, each with the object that is found. -/
theorem mem_entries {ids : List String} {found : String → Option TaskData}
    {e : String × Option TaskData} (h : e ∈ ids.zip (ids.map found)) :
    e.1 ∈ ids ∧ e.2 = found e.1 := by
  rw [← List.map_id ids, List.map_map, List.zip_map', List.mem_map] at h
  obtain ⟨id, hid, rfl⟩ := h
  exact ⟨by simpa using hid, rfl⟩

/-- A sweep only moves tasks. -/
theorem issues_workerQueueExpiredTasks (h : Host)
    (passive : ∀ c : Command, c.Passive → c.listsQueues = false → Q c)
    (move : ∀ m : Move, m.kind = .requeueExpired ∨ m.kind = .failExpired ∨ m.kind = .missing →
      Q (.move m)) :
    Issues Q (workerQueueExpiredTasks h) := by
  refine issues_bind (issues_ask (passive _ trivial rfl)) (fun acquired => issues_ite ?_ trivial)
  refine issues_bind (issues_ask (passive _ trivial rfl)) (fun taskData => ?_)
  refine issues_bind (issues_forM (fun entry => issues_attempt ?_ (fun e => ?_))) (fun _ => ?_)
  · refine issues_bind (issues_bind (issues_ask (passive _ trivial rfl)) (fun reply => ?_))
      (fun task => ?_)
    · obtain ⟨data, score⟩ := reply
      cases data with
      | none => trivial
      | some d =>
        cases score with
        | none => trivial
        | some ts => exact issues_ite trivial trivial
    · exact issues_ite (issues_move (move _ (by simp))) (issues_move (move _ (by simp)))
  · cases e with
    | taskNotFound =>
      refine issues_bind (issues_ask (passive _ trivial rfl)) (fun data => ?_)
      exact issues_ite (issues_move (move _ (by simp))) trivial
    | _ => trivial
  · exact issues_ite (issues_bind (issues_ask (passive _ trivial rfl)) (fun _ => trivial)) trivial

end Worker

/-! The commands of a worker. -/

/-- A worker moves tasks out of ACTIVE only, removes a missing task without the flag of a unique
task, which its object carried, and locks with its own tokens. -/
def Command.OfWorker (h : Host) : Command → Prop
  | .move m => m.kind.fromState = .active ∧ (m.kind = .missing → m.unique = false)
  | .acquireLock name token | .releaseLock name token => token = h.token name
  | .expireLock _ | .updateScheduledTime .. => False
  | _ => True

/-- Outside _finish_task_processing, a worker fails a task only for its expiry, and calls no
runner. -/
def Command.Unfinishing (h : Host) (c : Command) : Prop :=
  c.OfWorker h ∧
    match c with
    | .move m => m.kind ≠ .fail
    | .permanentError _ => False
    | _ => True

theorem Command.Unfinishing.ofWorker {c : Command} (hc : c.Unfinishing h) : c.OfWorker h := hc.1

namespace Worker

variable (h)

theorem unfinishing_expireTask (queue id : String) :
    Issues (Command.Unfinishing h) (expireTask h queue id) := by
  refine issues_bind ?_ (fun task => ?_)
  · refine issues_bind (issues_ask ⟨trivial, trivial⟩) (fun reply => ?_)
    obtain ⟨data, score⟩ := reply
    cases data with
    | none => trivial
    | some d =>
      cases score with
      | none => trivial
      | some ts => exact issues_ite trivial trivial
  · refine issues_ite (issues_move ⟨⟨rfl, ?_⟩, ?_⟩) (issues_move ⟨⟨rfl, ?_⟩, ?_⟩) <;> simp

theorem unfinishing_workerQueueExpiredTasks :
    Issues (Command.Unfinishing h) (workerQueueExpiredTasks h) := by
  refine issues_bind (issues_ask ⟨rfl, trivial⟩) (fun acquired => ?_)
  refine issues_ite ?_ trivial
  refine issues_bind (issues_ask ⟨trivial, trivial⟩) (fun taskData => ?_)
  refine issues_bind (issues_forM (fun entry => ?_)) (fun _ => ?_)
  · refine issues_attempt (unfinishing_expireTask h _ _) (fun e => ?_)
    cases e with
    | taskNotFound =>
      refine issues_bind (issues_ask ⟨trivial, trivial⟩) (fun data => ?_)
      exact issues_ite (issues_move ⟨⟨rfl, fun _ => rfl⟩, by simp⟩) trivial
    | _ => trivial
  · refine issues_ite ?_ trivial
    exact issues_bind (issues_ask ⟨rfl, trivial⟩) (fun _ => trivial)

theorem ofWorker_workerQueueExpiredTasks :
    Issues (Command.OfWorker h) (workerQueueExpiredTasks h) :=
  (unfinishing_workerQueueExpiredTasks h).mono (fun _ hc => hc.ofWorker)

theorem issues_retryTime {task : Task} {execution : Option Execution} {now : Instant}
    (count : Q (.nExecutions task.data.id)) : Issues Q (retryTime h task execution now) := by
  unfold retryTime
  cases retryMethod h task execution with
  | none => trivial
  | some m =>
    refine issues_bind (issues_bind (issues_ask count) (fun reply => issues_ite trivial trivial))
      (fun n => issues_ite ?_ trivial)
    cases h.retryDelay m (if n = 0 then 1 else n) <;> trivial

theorem issues_permanentError {task : Task} {execution : Option Execution}
    (report : Q (.permanentError task.data.id)) : Issues Q (permanentError h task execution) := by
  unfold permanentError
  cases task.data.runnerClass with
  | none => trivial
  | some path =>
    refine issues_ite trivial (issues_bind (issues_call _) (fun _ => ?_))
    exact issues_bind (issues_ask report) (fun _ => issues_call _)

/-- Every move of _finish_task_processing is of its task, and is one of three. -/
theorem issues_finishTaskProcessing {task : Task} {success : Bool}
    (move : ∀ m : Move, m.queue = task.queue ∧ m.id = task.data.id → m.kind = .done ∨
      m.kind = .retryLater ∨ m.kind = .fail → Q (.move m))
    (last : Q (.lastExecution task.data.id)) (count : Q (.nExecutions task.data.id))
    (report : Q (.permanentError task.data.id)) :
    Issues Q (finishTaskProcessing h task success) := by
  refine issues_ite (issues_move (move _ ⟨rfl, rfl⟩ (Or.inl rfl))) ?_
  refine issues_bind (issues_ask last) (fun execution => ?_)
  refine issues_bind (issues_retryTime h count) (fun retry => ?_)
  refine issues_bind ?_ (fun _ => issues_ite trivial trivial)
  cases retry with
  | some ts => exact issues_move (move _ ⟨rfl, rfl⟩ (Or.inr (Or.inl rfl)))
  | none =>
    refine issues_ite ?_ (issues_move (move _ ⟨rfl, rfl⟩ (Or.inl rfl)))
    exact issues_bind (issues_move (move _ ⟨rfl, rfl⟩ (Or.inr (Or.inr rfl))))
      (fun _ => issues_permanentError h report)

theorem ofWorker_finishTaskProcessing (task : Task) (success : Bool) :
    Issues (Command.OfWorker h) (finishTaskProcessing h task success) := by
  refine issues_finishTaskProcessing h ?_ trivial trivial trivial
  intro m _ hkind
  rcases hkind with hm | hm | hm <;> simp [Command.OfWorker, hm, MoveKind.fromState]

theorem unfinishing_executeTaskGroup (queue : String) (tasks : List Task) :
    Issues (Command.Unfinishing h) (executeTaskGroup h queue tasks) := by
  have miss : ∀ m : Move, m.kind = .lockMiss → Command.Unfinishing h (.move m) := by
    intro m hm
    simp [Command.Unfinishing, Command.OfWorker, hm, MoveKind.fromState]
  exact issues_executeTaskGroup _ (fun _ => ⟨rfl, trivial⟩) miss (fun _ => ⟨trivial, trivial⟩)
    (fun _ _ _ _ _ => ⟨trivial, trivial⟩) (fun _ _ => ⟨trivial, trivial⟩)
    (fun _ _ _ => ⟨trivial, trivial⟩) (fun _ => ⟨rfl, trivial⟩)

theorem unfinishing_loadTasks (queue : String) (entries : List (String × Option TaskData)) :
    Issues (Command.Unfinishing h) (loadTasks h queue entries) := by
  refine issues_loadTasks (fun m hm unique => ?_) (fun m hm => ?_) entries
  · exact ⟨⟨by simp [hm, MoveKind.fromState], fun _ => unique⟩, by simp [hm]⟩
  · exact ⟨⟨by simp [hm, MoveKind.fromState], by simp [hm]⟩, by simp [hm]⟩

theorem ofWorker_processGroups (queue : String) (groups : List (List Task)) :
    Issues (Command.OfWorker h) (processGroups h queue groups) := by
  induction groups with
  | nil => trivial
  | cons tasks groups ih =>
    rw [processGroups]
    refine issues_bind ((unfinishing_executeTaskGroup h _ _).mono (fun _ hc => hc.ofWorker))
      (fun processed => ?_)
    refine issues_bind (issues_forM (fun task => ofWorker_finishTaskProcessing h _ _)) (fun _ => ?_)
    exact issues_bind ih (fun _ => trivial)

theorem ofWorker_processQueueTasks (queue : String) (taskIds : List String) :
    Issues (Command.OfWorker h) (processQueueTasks h queue taskIds) :=
  issues_bind (issues_ask trivial) (fun _ =>
    issues_bind ((unfinishing_loadTasks h _ _).mono (fun _ hc => hc.ofWorker))
      (fun _ => ofWorker_processGroups h _ _))

end Worker

end TaskTiger
