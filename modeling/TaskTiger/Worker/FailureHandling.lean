import TaskTiger.Invariants.History
import TaskTiger.Worker.Races

namespace TaskTiger

open Redis Interleaving Prog

/-! The execution entry that _finish_task_processing goes by. -/

/-- The command leaves the stored executions of the id alone. -/
def Command.SparesExecutions (x : String) : Command → Prop
  | .storeExecution id _ _ => id ≠ x
  | .move m => m.id ≠ x
  | _ => True

def Command.Stores (x : String) (maxStored : Option Int) : Command → Option Execution
  | .storeExecution id m e => if id = x ∧ m = maxStored then some e else none
  | _ => none

/-- A failed attempt: the commands of its executor, and those of others meanwhile. Nobody else
stores an execution of the task or moves it. -/
structure Attempt (task : Task) where
  commands : List Command
  own : ∀ c ∈ commands, c.SparesExecutions task.data.id ∨
    ∃ e, c = .storeExecution task.data.id task.data.maxStoredExecutions e

/-- The entries that the attempt has stored. -/
def Attempt.entries {task : Task} (a : Attempt task) : List Execution :=
  a.commands.filterMap (Command.Stores task.data.id task.data.maxStoredExecutions)

namespace Worker

variable (h : Host)

/-- What _finish_task_processing does with the entry it has found. -/
def finishFailed (task : Task) (execution : Option Execution) : Routine Unit := do
  let retry ← retryTime h task execution (h.time task.data.id)
  moveFailed h task execution (h.time task.data.id) retry
  if h.exitWorkerOnJobTimeout &&
      (execution.map Execution.exceptionName = some jobTimeoutException) then
    Prog.raise .systemExit
  else pure ()

theorem finishTaskProcessing_failed (task : Task) :
    finishTaskProcessing h task false =
      redis (.lastExecution task.data.id) >>= fun execution => finishFailed h task execution := rfl

end Worker

/-- The retry method, log_error and exception that the handling of a failure uses. -/
structure Handling where
  retryMethod : Option RetryMethod
  logError : Bool
  exceptionName : Option String

def handling (h : Host) (task : Task) (execution : Option Execution) : Handling :=
  ⟨Worker.retryMethod h task execution, Worker.shouldLogError execution,
    execution.map Execution.exceptionName⟩

/-- After the attempt, _finish_task_processing does what it does for an execution with the same
handling as the attempt's own last entry, or as none if the attempt stored none. -/
def GoesByOwnEntry (h : Host) (task : Task) (s : Store) (a : Attempt task) : Prop :=
  ∀ (env : Nat → List Command) (n : Nat),
    (∀ c ∈ env n, c.SparesExecutions task.data.id) →
      let t := runAll (runAll s a.commands) (env n)
      let own := a.entries.getLast?
      let o := go exec env (Worker.finishTaskProcessing h task false) n (runAll s a.commands)
      let w := go exec env (Worker.finishFailed h task own) (n + 1) t
      handling h task (exec (.lastExecution task.data.id) t).1 = handling h task own ∧
        o.result = w.result ∧ o.state = w.state ∧
        o.trace = (t, .lastExecution task.data.id) :: w.trace

section

variable {x : String} {s : Store} {task : Task} {h : Host}

theorem executions_exec {c : Command} (hc : c.SparesExecutions x) :
    (exec c s).2.executions x = s.executions x ∧
      (exec c s).2.executionsCount x = s.executionsCount x := by
  apply executions_unchanged
  · cases c with
    | storeExecution id m e => exact if_neg hc
    | _ => rfl
  · intro hclear
    cases c with
    | move m => exact hc hclear.2.1
    | _ => exact hclear

theorem executions_run {l : List Command} (hl : ∀ c ∈ l, c.SparesExecutions x) :
    (runAll s l).executions x = s.executions x ∧
      (runAll s l).executionsCount x = s.executionsCount x := by
  induction l generalizing s with
  | nil => exact ⟨rfl, rfl⟩
  | cons c l ih =>
    have rest := ih (s := (exec c s).2) (fun d hd => hl d (by simp [hd]))
    have first := executions_exec (s := s) (hl c (by simp))
    exact ⟨rest.1.trans first.1, rest.2.trans first.2⟩

/-! The last entry after an attempt. -/

/-- What LTRIM leaves ends with the entry that was pushed. -/
theorem getLast_storeExecution {maxStored : Option Int} {e : Execution}
    (h : (storeExecution x maxStored e s).executions x ≠ []) :
    ((storeExecution x maxStored e s).executions x).getLast? = some e := by
  have suffix : ∃ n, (storeExecution x maxStored e s).executions x =
      (s.executions x ++ [e]).drop n := by
    cases maxStored with
    | none => exact ⟨0, by simp [storeExecution]⟩
    | some m =>
      by_cases hm : m = 0
      · exact ⟨0, by simp [storeExecution, hm]⟩
      · simp only [storeExecution, if_true, if_neg hm, ltrim]
        split_ifs
        · exact ⟨_, rfl⟩
        · exact ⟨_, rfl⟩
  obtain ⟨n, hn⟩ := suffix
  rw [hn] at h ⊢
  have within : n < (s.executions x ++ [e]).length := by
    by_contra hc
    exact h (List.drop_eq_nil_of_le (by omega))
  rw [List.getLast?_drop, if_neg (by omega), List.getLast?_append, List.getLast?_singleton]
  rfl

theorem storeExecution_ne_nil {maxStored : Option Int} (kept : ∀ m ∈ maxStored, 0 ≤ m)
    (e : Execution) : (storeExecution x maxStored e s).executions x ≠ [] := by
  cases maxStored with
  | none => simp [storeExecution]
  | some m =>
    have nonneg : 0 ≤ m := kept m rfl
    by_cases hm : m = 0
    · simp [storeExecution, hm]
    · simp only [storeExecution, if_true, if_neg hm, ltrim, if_pos nonneg]
      intro hc
      have length := List.drop_eq_nil_iff.mp hc
      rw [List.length_append, List.length_singleton] at length
      omega

theorem executions_attempt {maxStored : Option Int} {l : List Command}
    (own : ∀ c ∈ l, c.SparesExecutions x ∨ ∃ e, c = .storeExecution x maxStored e) :
    (l.filterMap (Command.Stores x maxStored) = [] →
      (runAll s l).executions x = s.executions x) ∧
    (l.filterMap (Command.Stores x maxStored) ≠ [] → (runAll s l).executions x ≠ [] →
      ((runAll s l).executions x).getLast? =
        (l.filterMap (Command.Stores x maxStored)).getLast?) ∧
    (l.filterMap (Command.Stores x maxStored) ≠ [] → (∀ m ∈ maxStored, 0 ≤ m) →
      (runAll s l).executions x ≠ []) := by
  induction l generalizing s with
  | nil => exact ⟨fun _ => rfl, fun hc => absurd rfl hc, fun hc => absurd rfl hc⟩
  | cons c l ih =>
    obtain ⟨unchanged, last, trimmed⟩ := ih (s := (exec c s).2) (fun d hd => own d (by simp [hd]))
    have after : runAll s (c :: l) = runAll (exec c s).2 l := rfl
    rw [after]
    rcases own c (by simp) with hc | ⟨e, rfl⟩
    · have stores : Command.Stores x maxStored c = none := by
        cases c with
        | storeExecution id m e => exact if_neg (fun h => hc h.1)
        | _ => rfl
      rw [List.filterMap_cons_none stores]
      refine ⟨fun h => ?_, last, trimmed⟩
      rw [unchanged h, (executions_exec hc).1]
    · have stores : Command.Stores x maxStored (.storeExecution x maxStored e) = some e := by
        simp [Command.Stores]
      rw [List.filterMap_cons_some stores]
      refine ⟨fun h => by simp at h, fun _ h => ?_, fun _ kept => ?_⟩
      · by_cases rest : l.filterMap (Command.Stores x maxStored) = []
        · rw [unchanged rest] at h ⊢
          rw [rest]
          exact getLast_storeExecution h
        · obtain ⟨e', es, hes⟩ := List.exists_cons_of_ne_nil rest
          rw [last rest h, hes, List.getLast?_cons_cons]
      · by_cases rest : l.filterMap (Command.Stores x maxStored) = []
        · rw [unchanged rest]
          exact storeExecution_ne_nil kept e
        · exact trimmed rest kept

/-- The handling of a failure goes by the attempt's own entry exactly when nothing is stored
unless the attempt has stored it, and not all of that has been trimmed off. -/
theorem goesByOwnEntry_iff (h : Host) (task : Task) (s : Store) (a : Attempt task) :
    GoesByOwnEntry h task s a ↔
      ((runAll s a.commands).executions task.data.id = [] ↔ a.entries = []) := by
  obtain ⟨unchanged, last, -⟩ := executions_attempt (s := s) a.own
  constructor
  · intro hown
    obtain ⟨same, -⟩ := hown (fun _ => []) 0 (by simp)
    have names := congrArg Handling.exceptionName same
    have none_iff : ((runAll s a.commands).executions task.data.id).getLast? = none ↔
        a.entries.getLast? = none := by
      change ((runAll s a.commands).executions task.data.id).getLast?.map Execution.exceptionName =
        a.entries.getLast?.map Execution.exceptionName at names
      rw [← Option.map_eq_none_iff (f := Execution.exceptionName), names, Option.map_eq_none_iff]
    rwa [List.getLast?_eq_none_iff, List.getLast?_eq_none_iff] at none_iff
  · intro hempty env n spares
    have found : (exec (.lastExecution task.data.id) (runAll (runAll s a.commands) (env n))).1 =
        a.entries.getLast? := by
      change ((runAll (runAll s a.commands) (env n)).executions task.data.id).getLast? = _
      rw [(executions_run spares).1]
      by_cases none_stored : a.entries = []
      · rw [hempty.mpr none_stored, none_stored]
      · exact last none_stored (fun hc => none_stored (hempty.mp hc))
    rw [Worker.finishTaskProcessing_failed, redis, go_ask_bind]
    simp only [found]
    exact ⟨trivial, rfl, rfl, rfl⟩

/-- Where no entries are trimmed off, an attempt that stores nothing must be the first one. -/
theorem goesByOwnEntry_condition {a : Attempt task}
    (kept : ∀ m ∈ task.data.maxStoredExecutions, 0 ≤ m) :
    ((runAll s a.commands).executions task.data.id = [] ↔ a.entries = []) ↔
      (a.entries = [] → s.executions task.data.id = []) := by
  obtain ⟨unchanged, -, trimmed⟩ := executions_attempt (s := s) a.own
  constructor
  · intro h none_stored
    rw [← unchanged none_stored]
    exact h.mpr none_stored
  · intro first
    constructor
    · intro hempty
      by_contra stored
      exact trimmed stored kept hempty
    · intro none_stored
      rw [unchanged none_stored]
      exact first none_stored

end

/-- The child of the second attempt dies without a word; the first one failed with a ValueError,
on which the task retries. -/
def retriedTask : Task :=
  ⟨"default", { id := "a", func := "tasks:simple_task",
                retryMethod := some ⟨"tasktiger.retry:_fixed", .arr [.num 60, .num 3]⟩,
                retryOn := some ["builtins:ValueError"] }⟩

def diedSilently : Attempt retriedTask := ⟨[], by simp⟩

def failedBefore : Store :=
  storeExecution "a" none
    { exceptionName := "builtins:ValueError", timeStarted := 10, timeFailed := 11 }
    ((((Store.empty.setZset .active "default" (ZSet.empty.add 80 "a")).sadd .active
      "default").setTask "a" (some retriedTask.data)))

theorem not_goesByOwnEntry_diedSilently : ¬∀ (h : Host) (task : Task) (s : Store)
    (a : Attempt task), GoesByOwnEntry h task s a := by
  intro hall
  obtain ⟨same, -⟩ := hall plainHost retriedTask failedBefore diedSilently (fun _ => []) 0 (by simp)
  have name := congrArg Handling.exceptionName same
  change some "builtins:ValueError" = none at name
  exact absurd name (by decide)

end TaskTiger
