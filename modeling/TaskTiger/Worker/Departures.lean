import TaskTiger.Framework.Recorder
import TaskTiger.Worker.PermanentErrors

namespace TaskTiger

open Redis Interleaving Prog

/-! Which ids a worker has moved out of ACTIVE. -/

/-- The id that the command takes out of ACTIVE, and the state it goes to. -/
def Command.departure (queue : String) (s : Store) : Command → Option (String × Option TaskState)
  | .move m =>
    if m.Effective s ∧ m.kind.fromState = .active ∧ m.queue = queue then some (m.id, m.kind.toState)
    else none
  | _ => none

def departures (queue : String) (tr : List (Store × Command)) :
    List (String × Option TaskState) :=
  tr.filterMap (fun y => y.2.departure queue y.1)

/-- The ids that have left, once for each time. -/
def departed (queue : String) (tr : List (Store × Command)) : List String :=
  (departures queue tr).map Prod.fst

section

variable {queue : String} {s : Store} {tr tr' : List (Store × Command)} {x : String}

theorem departed_append : departed queue (tr ++ tr') = departed queue tr ++ departed queue tr' := by
  simp [departed, departures]

@[simp] theorem departed_nil : departed queue [] = [] := rfl

theorem departed_move {m : Move} (he : m.Effective s) (hf : m.kind.fromState = .active)
    (hq : m.queue = queue) : departed queue [(s, .move m)] = [m.id] := by
  simp [departed, departures, Command.departure, he, hf, hq]

end

section

variable {h : Host} {queue : String}

/-! What is raised before the end. -/

theorem raises_call {α : Type} (r : Except String α) :
    Raises (· ≠ Exn.systemExit) (Host.call r) := by
  cases r with
  | ok a => trivial
  | error name => simp [Host.call, Raises]

theorem raises_redis (c : Command) : Raises (· ≠ Exn.systemExit) (redis c) := fun _ => trivial

theorem raises_queueForNextPeriod (task : Task) :
    Raises (· ≠ Exn.systemExit) (task.queueForNextPeriod h) := by
  apply raises_bind (raises_call _)
  intro next
  cases next with
  | none => trivial
  | some ts =>
    apply raises_bind
    · unfold Task.checkQueueSize
      cases (none : Option Int) <|> task.data.maxQueueSize with
      | none => trivial
      | some m =>
        apply raises_ite
        · trivial
        · apply raises_bind (raises_redis _)
          intro size
          apply raises_ite
          · simp [Raises]
          · trivial
    · intro _
      exact raises_ite (raises_call _) (raises_redis _)

namespace Worker

theorem raises_prepareExecution (tasks : List Task) :
    Raises (· ≠ Exn.systemExit) (prepareExecution h tasks) := by
  unfold prepareExecution
  cases tasks with
  | nil => trivial
  | cons task tasks => exact raises_ite (raises_queueForNextPeriod task) trivial

theorem raises_executorStep (tasks : List Task) (step : ExecutorStep) :
    Raises (· ≠ Exn.systemExit) (executorStep queue tasks step) := by
  cases step with
  | heartbeat now => exact raises_redis _
  | store e => exact raises_forM (fun task => raises_redis _)

theorem raises_retryTime (task : Task) (execution : Option Execution) (now : Instant) :
    Raises (· ≠ Exn.systemExit) (retryTime h task execution now) := by
  unfold retryTime
  cases retryMethod h task execution with
  | none => trivial
  | some m =>
    apply raises_bind
    · apply raises_bind (raises_redis _)
      intro reply
      apply raises_ite
      · trivial
      · simp [Raises]
    · intro n
      apply raises_ite
      · cases h.retryDelay m (if n = 0 then 1 else n) with
        | raised name => simp [Raises]
        | _ => trivial
      · trivial

theorem raises_permanentError (task : Task) (execution : Option Execution) :
    Raises (· ≠ Exn.systemExit) (permanentError h task execution) := by
  unfold permanentError
  cases task.data.runnerClass with
  | none => trivial
  | some path =>
    apply raises_ite
    · trivial
    · apply raises_bind (raises_call _)
      intro _
      apply raises_bind (raises_redis _)
      intro _
      exact raises_call _

end Worker

end

end TaskTiger
