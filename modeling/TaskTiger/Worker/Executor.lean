import TaskTiger.Worker.TaskLocks

namespace TaskTiger

open Interleaving

/-! What the executors load and run. -/

/-- The __module__ and __qualname__ of a class or function. -/
structure PyName where
  moduleName : String
  qualname : String
  deriving DecidableEq, Repr

inductive Raised where
  | exception (cls : PyName)      -- derived from Exception
  | jobTimeout (cls : PyName)     -- JobTimeoutException
  | retry (cls : PyName) (method : Option (PyName × Json)) (logError : Bool)  -- RetryException
  | baseException (cls : PyName)  -- derived from BaseException alone

def Raised.cls : Raised → PyName
  | .exception cls | .jobTimeout cls | .retry cls _ _ | .baseException cls => cls

def valueError : Raised := .exception ⟨"builtins", "ValueError"⟩

def taskImportError : Raised := .exception ⟨"tasktiger.exceptions", "TaskImportError"⟩

/-- Functions from the __main__ module cannot be processed by workers. -/
def serializeFuncName (name : PyName) : Except Raised String :=
  if name.moduleName = "__main__" then .error valueError
  else .ok (name.moduleName ++ ":" ++ name.qualname)

/-- A retry method is a function with its further arguments. -/
def serializeRetryMethod (method : PyName × Json) : Except Raised RetryMethod := do
  let func ← serializeFuncName method.1
  pure ⟨func, method.2⟩

/-- What looking up a dotted path comes to. -/
inductive Import (α : Type) where
  | found (a : α)
  | notFound             -- ValueError, ImportError or AttributeError
  | raised (e : Raised)  -- anything else that the module raises

def importAttribute {α : Type} : Import α → Except Raised α
  | .found a => .ok a
  | .notFound => .error taskImportError
  | .raised e => .error e

/-- A task function, with the attributes of its decorator. -/
structure PyFunc where
  taskBatch : Bool
  taskHardTimeout : Option Time

structure Runner where
  runSingleTask : Task → Time → Except Raised Unit
  runBatchTasks : List Task → Time → Except Raised Unit

/-- The modules of the application and its code: every outcome of loading and running them. A
runner class comes with the outcome of its constructor, and the context managers of the child
with what they make of the outcome of their block. -/
structure Application where
  func : String → Import PyFunc
  runnerClass : String → Import (Except Raised Runner)
  defaultRunner : Runner
  childContextManagers : Except Raised Unit → Except Raised Unit

structure ExecutorConfig where
  storeTracebacks : Bool
  defaultHardTimeout : Time
  activeTaskUpdateTimeout : Time

/-- Tasks of one function. -/
structure TaskGroup where
  first : Task
  rest : List Task
  sameFunc : ∀ task ∈ rest, task.data.func = first.data.func

def TaskGroup.tasks (g : TaskGroup) : List Task := g.first :: g.rest

/-- Task.func; a function that the Task has imported before is kept. -/
def Task.pyFunc (app : Application) (loaded : Option PyFunc) (task : Task) : Except Raised PyFunc :=
  match loaded with
  | some func => .ok func
  | none => importAttribute (app.func task.data.func)

def getRunnerClass (app : Application) (g : TaskGroup) : Except Raised (Except Raised Runner) :=
  if g.rest.any (fun task => task.data.runnerClass ≠ g.first.data.runnerClass) then
    .error valueError
  else
    match g.first.data.runnerClass with
    | none => .ok (.ok app.defaultRunner)
    | some path =>
      if path = "" then .ok (.ok app.defaultRunner) else importAttribute (app.runnerClass path)

/-- `timeout or default`. -/
def orDefault (timeout : Option Time) (default : Time) : Time :=
  match timeout with
  | none => default
  | some t => if t = 0 then default else t

def getHardTimeouts (cfg : ExecutorConfig) (func : PyFunc) (tasks : List Task) : List Time :=
  let default := orDefault func.taskHardTimeout cfg.defaultHardTimeout
  if func.taskBatch then
    [orDefault (tasks.filterMap (fun task => task.data.hardTimeout)).max? default]
  else tasks.map (fun task => orDefault task.data.hardTimeout default)

/-! Executor.execute_tasks. -/

/-- An entry with the fields that nothing in the package reads. -/
structure Entry extends Execution where
  success : Bool
  host : String
  traceback : Option String

/-- What an executor has stored for which task, and what its caller gets. -/
structure Executed where
  result : Except Raised Bool
  stored : List (Task × Entry)

/-- The process that executes the tasks. -/
structure Process where
  timeStarted : Time
  timeFailed : Time
  hostname : String
  formatException : Raised → String

/-- Worker.store_task_execution. -/
def storeTaskExecution (tasks : List Task) (e : Entry) : List (Task × Entry) :=
  tasks.map (fun task => (task, e))

section ExecuteTasks

variable (cfg : ExecutorConfig) (app : Application)

/-- The block under `try`. -/
def runTasks (loaded : Option PyFunc) (g : TaskGroup) : Except Raised Unit := do
  let func ← g.first.pyFunc app loaded
  let runnerClass ← getRunnerClass app g
  let runner ← runnerClass
  let hardTimeouts := getHardTimeouts cfg func g.tasks
  app.childContextManagers
    (if func.taskBatch then runner.runBatchTasks g.tasks (hardTimeouts.headD 0)
    else (g.tasks.zip hardTimeouts).forM (fun (task, hardTimeout) =>
      runner.runSingleTask task hardTimeout))

/-- The handlers, which may raise themselves. -/
def failedExecution (p : Process) : Raised → Except Raised Execution
  | .retry cls method logError => do
    let retryMethod ← method.mapM serializeRetryMethod
    let exceptionName ← serializeFuncName cls
    pure { exceptionName, retry := true, retryMethod, logError, timeStarted := p.timeStarted,
           timeFailed := p.timeFailed }
  | .exception cls | .jobTimeout cls => do
    let exceptionName ← serializeFuncName cls
    pure { exceptionName, timeStarted := p.timeStarted, timeFailed := p.timeFailed }
  | .baseException cls => .error (.baseException cls)

/-- Only failed executions are logged to Redis. -/
def failedEntry (p : Process) (e : Raised) (execution : Execution) : Entry :=
  { execution with
    success := false
    host := p.hostname
    traceback := if cfg.storeTracebacks then some (p.formatException e) else none }

def executeTasks (p : Process) (loaded : Option PyFunc) (g : TaskGroup) : Executed :=
  match runTasks cfg app loaded g with
  | .ok () => ⟨.ok true, []⟩
  | .error e =>
    match failedExecution p e with
    | .error escaped => ⟨.error escaped, []⟩
    | .ok execution => ⟨.ok false, storeTaskExecution g.tasks (failedEntry cfg p e execution)⟩

end ExecuteTasks

/-! ForkExecutor. -/

/-- A child process: how many entries it stored before it ended, what waitpid says of its end
(`killed` if the parent kills it), and the times of the parent's turns that found it running. -/
structure Child where
  process : Process
  stored : Nat
  status : Int
  killed : Int
  turns : List Time

/-- os._exit(int(not success)), as waitpid reports it. -/
def exitStatus (success : Bool) : Int := if success then 0 else 256

inductive Waited where
  | exited (returnCode : Int)
  | killed (returnCode : Int) (now : Time)

/-- The loop of the parent. Its two checks for the child's exit are one here, since either ends
the loop. -/
def Child.wait (child : Child) (timeoutAt : Time) : List Time → Waited
  | [] => .exited child.status
  | now :: turns => if now > timeoutAt then .killed child.killed now else child.wait timeoutAt turns

section Execute

variable (cfg : ExecutorConfig) (app : Application)

/-- Upper bound for when we expect the child process to finish. -/
def timeoutAt (parent : Process) (func : PyFunc) (g : TaskGroup) : Time :=
  parent.timeStarted + (getHardTimeouts cfg func g.tasks).sum + cfg.activeTaskUpdateTimeout

def ForkExecutor.execute (parent : Process) (child : Child) (loaded : Option PyFunc)
    (g : TaskGroup) : Executed :=
  match g.first.pyFunc app loaded with
  | .error e => ⟨.error e, []⟩
  | .ok func =>
    -- the child inherits the Task with the function that its parent has imported
    let ran := executeTasks cfg app child.process (some func) g
    let stored := ran.stored.take child.stored
    match child.wait (timeoutAt cfg parent func g) child.turns with
    | .exited returnCode => ⟨.ok (decide (returnCode = 0)), stored⟩
    | .killed returnCode now =>
      ⟨.ok (decide (returnCode = 0)), stored ++ storeTaskExecution g.tasks
        { exceptionName := "tasktiger.exceptions:JobTimeoutException"
          timeStarted := parent.timeStarted
          timeFailed := now
          success := false
          host := parent.hostname
          traceback := none }⟩

/-- The heartbeat thread, which is stopped in any case, takes no part in the result. -/
def SyncExecutor.execute (p : Process) (loaded : Option PyFunc) (g : TaskGroup) : Executed :=
  executeTasks cfg app p loaded g

end Execute

/-! The two executors. -/

/-- An entry up to host, times and the text of its traceback. -/
def Entry.core (e : Entry) : Entry :=
  { e with
    timeStarted := 0
    timeFailed := 0
    host := ""
    traceback := e.traceback.map (fun _ => "") }

def Executed.entries (x : Executed) : List (Task × Entry) := x.stored.map (Prod.map id Entry.core)

/-- The same boolean, the same entries for the same tasks, and no exception for the worker loop. -/
structure Interchangeable (fork sync : Executed) : Prop where
  result : fork.result = sync.result
  entries : fork.entries = sync.entries
  forkReturns : ∃ success, fork.result = .ok success
  syncReturns : ∃ success, sync.result = .ok success

variable {cfg : ExecutorConfig} {app : Application} {g : TaskGroup} {loaded : Option PyFunc}

/-- The child runs execute_tasks to completion, and its exit code reaches the parent within the
time limit. -/
structure Child.Completes (cfg : ExecutorConfig) (app : Application) (parent : Process)
    (child : Child) (func : PyFunc) (g : TaskGroup) : Prop where
  completes : ∃ success, (executeTasks cfg app child.process (some func) g).result = .ok success ∧
    child.status = exitStatus success
  stores : (executeTasks cfg app child.process (some func) g).stored.length ≤ child.stored
  inTime : ∀ now ∈ child.turns, now ≤ timeoutAt cfg parent func g

/-- It makes no difference who has imported the function. -/
theorem executeTasks_loaded {func : PyFunc} (p : Process)
    (hfunc : g.first.pyFunc app loaded = .ok func) :
    executeTasks cfg app p loaded g = executeTasks cfg app p (some func) g := by
  have runs : runTasks cfg app loaded g = runTasks cfg app (some func) g := by
    unfold runTasks
    rw [hfunc]
    rfl
  unfold executeTasks
  rw [runs]

/-- The entry of another process differs in its times. -/
def Execution.at (e : Execution) (p : Process) : Execution :=
  { e with timeStarted := p.timeStarted, timeFailed := p.timeFailed }

theorem failedExecution_process (p p' : Process) (e : Raised) :
    failedExecution p' e = (failedExecution p e).map (fun execution => execution.at p') := by
  cases e with
  | exception cls => cases hn : serializeFuncName cls <;> simp [failedExecution, hn] <;> rfl
  | jobTimeout cls => cases hn : serializeFuncName cls <;> simp [failedExecution, hn] <;> rfl
  | baseException cls => rfl
  | retry cls method logError =>
    cases hm : method.mapM serializeRetryMethod with
    | error x =>
      simp only [failedExecution, hm]
      rfl
    | ok retryMethod => cases hn : serializeFuncName cls <;> simp [failedExecution, hm, hn] <;> rfl

/-- Tasks that are executed elsewhere come to the same, up to host, times and tracebacks. -/
theorem executeTasks_process (p p' : Process) :
    (executeTasks cfg app p' loaded g).result = (executeTasks cfg app p loaded g).result ∧
    (executeTasks cfg app p' loaded g).entries = (executeTasks cfg app p loaded g).entries := by
  unfold executeTasks
  cases runTasks cfg app loaded g with
  | ok u => exact ⟨rfl, rfl⟩
  | error e =>
    simp only [failedExecution_process p p' e]
    cases failedExecution p e with
    | error escaped => exact ⟨rfl, rfl⟩
    | ok execution =>
      refine ⟨rfl, ?_⟩
      have core : (failedEntry cfg p' e (execution.at p')).core =
          (failedEntry cfg p e execution).core := by
        cases hs : cfg.storeTracebacks <;> simp [failedEntry, Execution.at, Entry.core, hs]
      simp only [Except.map, Executed.entries, storeTaskExecution, List.map_map]
      congr 1
      funext task
      exact congrArg (Prod.mk task) core

theorem wait_inTime {child : Child} {limit : Time} {turns : List Time}
    (h : ∀ now ∈ turns, now ≤ limit) : child.wait limit turns = .exited child.status := by
  induction turns with
  | nil => rfl
  | cons now turns ih =>
    have first : ¬now > limit := not_lt.mpr (h now (by simp))
    have rest := ih (fun t ht => h t (by simp [ht]))
    rw [Child.wait, if_neg first, rest]

theorem exitStatus_eq_zero (success : Bool) : decide (exitStatus success = 0) = success := by
  cases success <;> rfl

/-- A child that completes stands in for its parent. -/
theorem execute_fork {parent : Process} {child : Child} {func : PyFunc}
    (hfunc : g.first.pyFunc app loaded = .ok func) (hc : child.Completes cfg app parent func g) :
    ForkExecutor.execute cfg app parent child loaded g =
      executeTasks cfg app child.process (some func) g := by
  obtain ⟨success, hresult, hstatus⟩ := hc.completes
  have seen : child.wait (timeoutAt cfg parent func g) child.turns = .exited child.status :=
    wait_inTime hc.inTime
  have all := List.take_of_length_le hc.stores
  unfold ForkExecutor.execute
  simp only [hfunc, seen, all, hstatus, exitStatus_eq_zero, ← hresult]

/-- The executors are interchangeable exactly when the parent can import the function, whatever
else happens. -/
theorem interchangeable_iff {parent worker : Process} {child : Child}
    (completes : ∀ func, g.first.pyFunc app loaded = .ok func →
      child.Completes cfg app parent func g) :
    Interchangeable (ForkExecutor.execute cfg app parent child loaded g)
        (SyncExecutor.execute cfg app worker loaded g) ↔
      ∃ func, g.first.pyFunc app loaded = .ok func := by
  constructor
  · intro h
    obtain ⟨success, hfork⟩ := h.forkReturns
    cases hfunc : g.first.pyFunc app loaded with
    | ok func => exact ⟨func, rfl⟩
    | error e => simp [ForkExecutor.execute, hfunc] at hfork
  · rintro ⟨func, hfunc⟩
    have hc := completes func hfunc
    obtain ⟨success, hresult, -⟩ := hc.completes
    let ran := executeTasks cfg app child.process (some func) g
    have same : (executeTasks cfg app worker (some func) g).result = ran.result ∧
        (executeTasks cfg app worker (some func) g).entries = ran.entries :=
      executeTasks_process child.process worker
    rw [execute_fork hfunc hc, SyncExecutor.execute, executeTasks_loaded worker hfunc]
    exact ⟨same.1.symm, same.2.symm, ⟨success, hresult⟩, ⟨success, same.1.trans hresult⟩⟩

/-- Where the fork executor raises the import error, the sync executor stores it for all tasks. -/
theorem import_error {parent worker : Process} {child : Child}
    (gone : g.first.pyFunc app loaded = .error taskImportError) :
    ForkExecutor.execute cfg app parent child loaded g = ⟨.error taskImportError, []⟩ ∧
      ∃ e : Entry, e.exceptionName = "tasktiger.exceptions:TaskImportError" ∧
        SyncExecutor.execute cfg app worker loaded g = ⟨.ok false, storeTaskExecution g.tasks e⟩ := by
  constructor
  · simp only [ForkExecutor.execute, gone]
  · have fails : runTasks cfg app loaded g = .error taskImportError := by
      unfold runTasks
      rw [gone]
      rfl
    let e := failedEntry cfg worker taskImportError
      { exceptionName := "tasktiger.exceptions:TaskImportError"
        timeStarted := worker.timeStarted
        timeFailed := worker.timeFailed }
    refine ⟨e, rfl, ?_⟩
    rw [SyncExecutor.execute, executeTasks, fails]
    rfl

/-! What an executor is to its worker. -/

def Raised.name (e : Raised) : String := e.cls.moduleName ++ ":" ++ e.cls.qualname

def Executed.routine (x : Executed) : Routine Bool := do
  x.stored.forM (fun (task, e) =>
    redis (.storeExecution task.data.id task.data.maxStoredExecutions e.toExecution))
  Host.call (x.result.mapError Raised.name)

/-- The answer of the executor of a Host. -/
def Executed.answer (x : Executed) : Except String (List ExecutorStep × Bool) :=
  match x.result, x.stored with
  | .error e, _ => .error e.name
  | .ok success, [] => .ok ([], success)
  | .ok success, (_, e) :: _ => .ok ([.store e.toExecution], success)

theorem executorStep_store (queue : String) (tasks : List Task) (e : Entry) :
    Worker.executorStep queue tasks (.store e.toExecution) =
      (storeTaskExecution tasks e).forM (fun (task, e) =>
        redis (.storeExecution task.data.id task.data.maxStoredExecutions e.toExecution)) := by
  induction tasks with
  | nil => rfl
  | cons task tasks ih => exact congrArg (fun rest => redis _ >>= fun _ => rest) ih

/-- A worker whose executor answers as execute_tasks does stores what execute_tasks stores. -/
theorem executor_eq_routine {h : Host} {p : Process} (queue : String)
    (answers : h.execute g.tasks = (executeTasks cfg app p loaded g).answer) :
    Worker.executor h queue g.tasks = (executeTasks cfg app p loaded g).routine := by
  unfold Worker.executor
  rw [answers]
  unfold executeTasks
  cases runTasks cfg app loaded g with
  | ok u => rfl
  | error e =>
    simp only
    cases failedExecution p e with
    | error escaped => rfl
    | ok execution =>
      let entry := failedEntry cfg p e execution
      let store : Routine Unit := Worker.executorStep queue g.tasks (.store entry.toExecution)
      calc
        _ = (store >>= fun _ => pure ()) >>= fun _ => (pure false : Routine Bool) := rfl
        _ = store >>= fun _ => pure false := Prog.bind_assoc _ _ _
        _ = _ := by
          simp only [store, executorStep_store]
          rfl

/-! Fixed groups. -/

def plainConfig : ExecutorConfig := ⟨true, 300, 60⟩

/-- A function that is found, unless it is gone, and fails with a RetryException. -/
def retryingApplication (gone : Bool) : Application where
  func _ := if gone then .notFound else .found ⟨false, none⟩
  runnerClass _ := .notFound
  defaultRunner :=
    { runSingleTask := fun _ _ =>
        .error (.retry ⟨"tasktiger.exceptions", "RetryException"⟩ none true)
      runBatchTasks := fun _ _ => .ok () }
  childContextManagers := id

def twoTasks : TaskGroup where
  first := ⟨"default", { id := "a", func := "tasks:retry_task" }⟩
  rest := [⟨"default", { id := "b", func := "tasks:retry_task" }⟩]
  sameFunc := by simp

def processAt (now : Time) (hostname : String) : Process := ⟨now, now + 1, hostname, fun _ => hostname⟩

/-- A child that fails after two turns of its parent. -/
def failingChild : Child := ⟨processAt 11 "child", 2, 256, 9, [20, 30]⟩

theorem interchangeable_iff_retry : Interchangeable
    (ForkExecutor.execute plainConfig (retryingApplication false) (processAt 10 "parent")
      failingChild none twoTasks)
    (SyncExecutor.execute plainConfig (retryingApplication false) (processAt 50 "worker") none
      twoTasks) := by
  refine (interchangeable_iff ?_).mpr ⟨⟨false, none⟩, rfl⟩
  intro func hfunc
  obtain rfl : (⟨false, none⟩ : PyFunc) = func := by
    simpa [Task.pyFunc, retryingApplication, importAttribute] using hfunc
  exact ⟨⟨false, rfl, rfl⟩, by decide +kernel, by decide +kernel⟩

/-- The function is gone: the sync executor stores the import error, the fork executor raises it. -/
theorem not_interchangeable_gone : ¬∀ (cfg : ExecutorConfig) (app : Application)
    (parent worker : Process) (child : Child) (loaded : Option PyFunc) (g : TaskGroup),
      (∀ func, g.first.pyFunc app loaded = .ok func → child.Completes cfg app parent func g) →
      Interchangeable (ForkExecutor.execute cfg app parent child loaded g)
        (SyncExecutor.execute cfg app worker loaded g) := by
  intro hall
  have gone : twoTasks.first.pyFunc (retryingApplication true) none = .error taskImportError := rfl
  have completes : ∀ func, twoTasks.first.pyFunc (retryingApplication true) none = .ok func →
      failingChild.Completes plainConfig (retryingApplication true) (processAt 10 "parent") func
        twoTasks := by
    intro func hfunc
    rw [gone] at hfunc
    cases hfunc
  have h := hall plainConfig (retryingApplication true) (processAt 10 "parent")
    (processAt 50 "worker") failingChild none twoTasks completes
  obtain ⟨success, hfork⟩ := h.forkReturns
  have raises : (ForkExecutor.execute plainConfig (retryingApplication true)
      (processAt 10 "parent") failingChild none twoTasks).result = .error taskImportError := rfl
  rw [raises] at hfork
  cases hfork

end TaskTiger
