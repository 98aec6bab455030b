import TaskTiger.Worker.Executor

namespace TaskTiger

/-! The timeouts that the child applies. -/

/-- A call that execute_tasks makes of its runner. -/
inductive RunnerCall where
  | single (task : Task) (hardTimeout : Time)
  | batch (tasks : List Task) (hardTimeout : Time)

def RunnerCall.hardTimeout : RunnerCall → Time
  | .single _ hardTimeout | .batch _ hardTimeout => hardTimeout

def RunnerCall.run (runner : Runner) : RunnerCall → Except Raised Unit
  | .single task hardTimeout => runner.runSingleTask task hardTimeout
  | .batch tasks hardTimeout => runner.runBatchTasks tasks hardTimeout

/-- The calls of the block under `try`, one after the other while none of them raises. -/
def runnerCalls (cfg : ExecutorConfig) (func : PyFunc) (g : TaskGroup) : List RunnerCall :=
  let hardTimeouts := getHardTimeouts cfg func g.tasks
  if func.taskBatch then [.batch g.tasks (hardTimeouts.headD 0)]
  else (g.tasks.zip hardTimeouts).map (fun (task, hardTimeout) => .single task hardTimeout)

variable {cfg : ExecutorConfig} {app : Application} {func : PyFunc} {g : TaskGroup}

theorem forM_runnerCalls (runner : Runner) :
    (runnerCalls cfg func g).forM (RunnerCall.run runner) =
      if func.taskBatch then
        runner.runBatchTasks g.tasks ((getHardTimeouts cfg func g.tasks).headD 0)
      else (g.tasks.zip (getHardTimeouts cfg func g.tasks)).forM (fun (task, hardTimeout) =>
        runner.runSingleTask task hardTimeout) := by
  unfold runnerCalls
  split_ifs
  · exact bind_pure _
  · dsimp only
    induction g.tasks.zip (getHardTimeouts cfg func g.tasks) with
    | nil => rfl
    | cons call calls ih =>
      exact congrArg (fun rest => runner.runSingleTask call.1 call.2 >>= fun _ => rest) ih

/-- The child of a ForkExecutor makes these calls with the function of its parent. -/
theorem runTasks_eq : runTasks cfg app (some func) g = (do
    let runnerClass ← getRunnerClass app g
    let runner ← runnerClass
    app.childContextManagers ((runnerCalls cfg func g).forM (RunnerCall.run runner))) := by
  simp only [forM_runnerCalls]
  rfl

/-- What the parent adds up is what the child applies. -/
theorem hardTimeouts_runnerCalls :
    (runnerCalls cfg func g).map RunnerCall.hardTimeout = getHardTimeouts cfg func g.tasks := by
  unfold runnerCalls
  split_ifs with hbatch
  · simp [RunnerCall.hardTimeout, getHardTimeouts, hbatch]
  · have lengths : (getHardTimeouts cfg func g.tasks).length = g.tasks.length := by
      simp [getHardTimeouts, hbatch]
    rw [List.map_map]
    exact List.map_snd_zip lengths.le

/-! The timeout of a batch. -/

def fallbackTimeout (cfg : ExecutorConfig) (func : PyFunc) : Time :=
  orDefault func.taskHardTimeout cfg.defaultHardTimeout

def explicitTimeouts (tasks : List Task) : List Time :=
  tasks.filterMap (fun task => task.data.hardTimeout)

/-- The task has no hard_timeout, or 0. -/
def Task.FallsBack (task : Task) : Prop := ∀ t ∈ task.data.hardTimeout, t = 0

/-- The largest explicit timeout, unless it is 0, also covers the tasks that have none. -/
structure MaxCovers (fallback : Time) (tasks : List Task) : Prop where
  absent : ∀ m ∈ (explicitTimeouts tasks).max?, m ≠ 0 → (∃ task ∈ tasks, task.FallsBack) →
    fallback ≤ m
  negative : (explicitTimeouts tasks).max? = some 0 → ∀ t ∈ explicitTimeouts tasks, t ≠ 0 →
    t ≤ fallback

/-- The batch gets at least what each of its tasks would get from a function that is not for
batches, and the parent waits longer than for all that the child applies. -/
structure EnoughTime (cfg : ExecutorConfig) (parent : Process) (func : PyFunc) (g : TaskGroup) :
    Prop where
  batch : func.taskBatch = true → ∃ hardTimeout, getHardTimeouts cfg func g.tasks = [hardTimeout] ∧
    ∀ t ∈ getHardTimeouts cfg { func with taskBatch := false } g.tasks, t ≤ hardTimeout
  deadline : parent.timeStarted + ((runnerCalls cfg func g).map RunnerCall.hardTimeout).sum <
    timeoutAt cfg parent func g

theorem getHardTimeouts_batch (h : func.taskBatch = true) (tasks : List Task) :
    getHardTimeouts cfg func tasks =
      [orDefault (explicitTimeouts tasks).max? (fallbackTimeout cfg func)] := by
  simp [getHardTimeouts, h, explicitTimeouts, fallbackTimeout]

theorem mem_getHardTimeouts_single {tasks : List Task} {t : Time} :
    t ∈ getHardTimeouts cfg { func with taskBatch := false } tasks ↔
      (∃ task ∈ tasks, task.FallsBack) ∧ t = fallbackTimeout cfg func ∨
        t ∈ explicitTimeouts tasks ∧ t ≠ 0 := by
  have own (task : Task) : orDefault task.data.hardTimeout (fallbackTimeout cfg func) = t ↔
      task.FallsBack ∧ t = fallbackTimeout cfg func ∨ task.data.hardTimeout = some t ∧ t ≠ 0 := by
    have falls : task.FallsBack ↔ ∀ u, task.data.hardTimeout = some u → u = 0 := Iff.rfl
    rw [falls]
    cases task.data.hardTimeout with
    | none => grind [orDefault]
    | some u => grind [orDefault]
  have members : getHardTimeouts cfg { func with taskBatch := false } tasks =
      tasks.map (fun task => orDefault task.data.hardTimeout (fallbackTimeout cfg func)) := rfl
  rw [members, List.mem_map, explicitTimeouts, List.mem_filterMap]
  simp only [own]
  grind

/-- What the tasks get one by one stays below a bound. -/
theorem single_le_iff {tasks : List Task} {bound : Time} :
    (∀ t ∈ getHardTimeouts cfg { func with taskBatch := false } tasks, t ≤ bound) ↔
      ((∃ task ∈ tasks, task.FallsBack) → fallbackTimeout cfg func ≤ bound) ∧
        ∀ t ∈ explicitTimeouts tasks, t ≠ 0 → t ≤ bound := by
  simp only [mem_getHardTimeouts_single]
  constructor
  · intro h
    exact ⟨fun falls => h _ (Or.inl ⟨falls, rfl⟩), fun t ht nonzero => h t (Or.inr ⟨ht, nonzero⟩)⟩
  · intro h t ht
    obtain ⟨fallback, explicit⟩ := h
    rcases ht with ⟨falls, rfl⟩ | ⟨ht, nonzero⟩
    · exact fallback falls
    · exact explicit t ht nonzero

theorem single_le_batch_iff (tasks : List Task) :
    (∀ t ∈ getHardTimeouts cfg { func with taskBatch := false } tasks,
      t ≤ orDefault (explicitTimeouts tasks).max? (fallbackTimeout cfg func)) ↔
        MaxCovers (fallbackTimeout cfg func) tasks := by
  rw [single_le_iff]
  cases hmax : (explicitTimeouts tasks).max? with
  | none =>
    have empty : explicitTimeouts tasks = [] := List.max?_eq_none_iff.mp hmax
    constructor
    · intro _
      exact ⟨by simp [hmax], by simp [hmax]⟩
    · intro _
      exact ⟨fun _ => le_rfl, by simp [empty]⟩
  | some m =>
    by_cases hm : m = 0
    · subst hm
      constructor
      · intro h
        exact ⟨by simp [hmax], fun _ => h.2⟩
      · intro h
        exact ⟨fun _ => le_rfl, h.negative hmax⟩
    · have largest : ∀ t ∈ explicitTimeouts tasks, t ≤ m := (List.max?_eq_some_iff.mp hmax).2
      have batch : orDefault (some m) (fallbackTimeout cfg func) = m := if_neg hm
      rw [batch]
      constructor
      · intro h
        refine ⟨?_, by simp [hmax, hm]⟩
        intro m' hm' _
        obtain rfl : m = m' := by simpa [hmax] using hm'
        exact h.1
      · intro h
        exact ⟨h.absent m (by simp [hmax]) hm, fun t ht _ => largest t ht⟩

/-- A batch gets enough time, and its child too, exactly when the largest explicit timeout covers
the tasks without one, and the parent's buffer is positive. -/
theorem enoughTime_iff (cfg : ExecutorConfig) (parent : Process) (func : PyFunc) (g : TaskGroup) :
    EnoughTime cfg parent func g ↔
      (func.taskBatch = true → MaxCovers (fallbackTimeout cfg func) g.tasks) ∧
        0 < cfg.activeTaskUpdateTimeout := by
  have batch (h : func.taskBatch = true) : (∃ hardTimeout,
      getHardTimeouts cfg func g.tasks = [hardTimeout] ∧
        ∀ t ∈ getHardTimeouts cfg { func with taskBatch := false } g.tasks, t ≤ hardTimeout) ↔
          MaxCovers (fallbackTimeout cfg func) g.tasks := by
    rw [← single_le_batch_iff, getHardTimeouts_batch h]
    simp
  have deadline : parent.timeStarted + ((runnerCalls cfg func g).map RunnerCall.hardTimeout).sum <
      timeoutAt cfg parent func g ↔ 0 < cfg.activeTaskUpdateTimeout := by
    rw [hardTimeouts_runnerCalls, timeoutAt]
    exact lt_add_iff_pos_right _
  constructor
  · intro h
    exact ⟨fun hb => (batch hb).mp (h.batch hb), deadline.mp h.deadline⟩
  · intro h
    exact ⟨fun hb => (batch hb).mpr (h.1 hb), deadline.mpr h.2⟩

/-- Two tasks of a batch function, of which one brings a timeout of a second. -/
def mixedBatch : TaskGroup where
  first := ⟨"default", { id := "a", func := "tasks:batch_task", hardTimeout := some 1 }⟩
  rest := [⟨"default", { id := "b", func := "tasks:batch_task" }⟩]
  sameFunc := by simp

theorem not_enoughTime_mixed : ¬∀ (cfg : ExecutorConfig) (parent : Process) (func : PyFunc)
    (g : TaskGroup), 0 < cfg.activeTaskUpdateTimeout → EnoughTime cfg parent func g := by
  intro hall
  have enough := hall plainConfig (processAt 10 "parent") ⟨true, none⟩ mixedBatch (by decide +kernel)
  obtain ⟨hardTimeout, single, covers⟩ := enough.batch rfl
  have batch : getHardTimeouts plainConfig ⟨true, none⟩ mixedBatch.tasks = [1] := by decide +kernel
  rw [batch] at single
  obtain rfl : 1 = hardTimeout := by simpa using single
  have fallback : (300 : Time) ∈ getHardTimeouts plainConfig ⟨false, none⟩ mixedBatch.tasks := by
    decide +kernel
  exact absurd (covers 300 fallback) (by norm_num)

end TaskTiger
