import TaskTiger.Store.ScriptEffects

namespace TaskTiger

open Redis

/-! What move_task does to each kind of key. -/

/-- The assertion on from_state fails, or zadd_w_mode does not know the mode. -/
def MoveTask.Raises (a : MoveTask) (s : Store) : Prop :=
  a.id ∉ s.zset a.fromState a.queue ∨ a.toState ≠ none ∧ ∃ mode, a.mode = .other mode

/-- Whether the removal branch deletes the executions: for a unique task not while it has failed
in this queue, unless it is removed from ERROR. -/
def MoveTask.DeletesExecutions (a : MoveTask) (s : Store) : Prop :=
  a.unique = true → a.fromState = .error ∨ a.id ∉ s.zset .error a.queue

/-- A move in the store s that raises nothing leaves the store t. -/
structure MoveTask.Moved (a : MoveTask) (s t : Store) : Prop where
  left : a.id ∉ t.zset a.fromState a.queue
  entered : ∀ dest, a.toState = some dest →
    t.score dest a.queue a.id = some (a.mode.newScore (s.score dest a.queue a.id) a.when)
  scores : ∀ st q x, ¬(q = a.queue ∧ x = a.id ∧ (st = a.fromState ∨ a.toState = some st)) →
    t.score st q x = s.score st q x
  added : ∀ dest, a.toState = some dest → a.queue ∈ t.queues dest
  dropped : a.queue ∈ t.queues a.fromState ↔
    a.queue ∈ s.queues a.fromState ∧ (t.zset a.fromState a.queue).nonempty = true
  queues : ∀ st q, ¬(q = a.queue ∧ (st = a.fromState ∨ a.toState = some st)) →
    (q ∈ t.queues st ↔ q ∈ s.queues st)
  object : ∀ x, (x = a.id ∧ a.toState = none ∧ a.Deletes s → t.task x = none) ∧
    (¬(x = a.id ∧ a.toState = none ∧ a.Deletes s) → t.task x = s.task x)
  executions : ∀ x,
    (x = a.id ∧ a.toState = none ∧ a.DeletesExecutions s →
      t.executions x = [] ∧ t.executionsCount x = none) ∧
    (¬(x = a.id ∧ a.toState = none ∧ a.DeletesExecutions s) →
      t.executions x = s.executions x ∧ t.executionsCount x = s.executionsCount x)
  locks : t.locks = s.locks
  activity : t.activity =
    if a.toState = some .queued ∧ a.publishQueuedTasks = true then s.activity ++ [a.queue]
    else s.activity

section

variable {a : MoveTask} {s : Store} {st : TaskState} {q x : String}

theorem moveTask_of_raises (h : a.Raises s) :
    (∃ e, (moveTask a s).1 = .error e) ∧ (moveTask a s).2 = s := by
  by_cases hin : a.id ∈ s.zset a.fromState a.queue
  · obtain ⟨hto, mode, hm⟩ := h.resolve_left (not_not.mpr hin)
    obtain ⟨dest, hd⟩ := Option.ne_none_iff_exists'.mp hto
    have unsupported : moveTask a s = (.error (.unsupportedMode mode), s) := by
      rw [moveTask, if_neg (not_not.mpr hin)]
      simp only [hd, hm, zaddWMode]
    rw [unsupported]
    exact ⟨⟨_, rfl⟩, rfl⟩
  · rw [moveTask_of_not_mem hin]
    exact ⟨⟨_, rfl⟩, rfl⟩

/-- Every move is a removal or enters the destination with the ZSET of its mode. -/
theorem moveTask_cases (h : ¬a.Raises s) :
    a.id ∈ s.zset a.fromState a.queue ∧
      (a.toState = none ∧ moveTask a s =
          (.ok (), sremIfNotExists a.fromState a.queue (removeTask a (leave a s))) ∨
        ∃ dest z, a.toState = some dest ∧
          zaddWMode (s.zset dest a.queue) a.when a.id a.mode = .ok z ∧
          moveTask a s =
            let t := sremIfNotExists a.fromState a.queue
              (leave a ((s.setZset dest a.queue z).sadd dest a.queue))
            (.ok (), if dest = .queued ∧ a.publishQueuedTasks = true then t.publish a.queue
              else t)) := by
  have hin : a.id ∈ s.zset a.fromState a.queue := by
    by_contra hc
    exact h (Or.inl hc)
  refine ⟨hin, ?_⟩
  cases ht : a.toState with
  | none => exact Or.inl ⟨rfl, moveTask_none hin ht⟩
  | some dest =>
    have supported : ∀ mode, a.mode ≠ .other mode := by
      intro mode hm
      exact h (Or.inr ⟨by simp [ht], mode, hm⟩)
    obtain ⟨z, hz⟩ : ∃ z, zaddWMode (s.zset dest a.queue) a.when a.id a.mode = .ok z :=
      zaddWMode_ok supported
    exact Or.inr ⟨dest, z, rfl, hz, moveTask_some hin ht hz⟩

theorem mem_queues_moveTask (h : ¬a.Raises s) :
    q ∈ (moveTask a s).2.queues st ↔
      (q ∈ s.queues st ∨ a.toState = some st ∧ q = a.queue) ∧
        (((moveTask a s).2.zset a.fromState a.queue).nonempty = true ∨
          ¬(st = a.fromState ∧ q = a.queue)) := by
  obtain ⟨-, ⟨ht, hmove⟩ | ⟨dest, z, ht, hz, hmove⟩⟩ := moveTask_cases h
  · rw [hmove]
    simp only [mem_queues_sremIfNotExists, zset_sremIfNotExists, queues_removeTask]
    simp [leave, ht]
  · have hdest : a.toState = some st ↔ st = dest := by simp [ht, eq_comm]
    rw [hmove, hdest]
    simp only
    split_ifs
    · simp only [Store.queues_publish, Store.zset_publish, mem_queues_sremIfNotExists,
        zset_sremIfNotExists]
      simp [leave]
    · simp only [mem_queues_sremIfNotExists, zset_sremIfNotExists]
      simp [leave]

theorem executions_removeTask :
    (x = a.id ∧ a.DeletesExecutions s →
      (removeTask a (leave a s)).executions x = [] ∧
        (removeTask a (leave a s)).executionsCount x = none) ∧
    (¬(x = a.id ∧ a.DeletesExecutions s) →
      (removeTask a (leave a s)).executions x = s.executions x ∧
        (removeTask a (leave a s)).executionsCount x = s.executionsCount x) := by
  have error : (if a.fromState = .error then [] else [TaskState.error]).all
      (fun st => a.id ∉ (leave a s).zset st a.queue) = true ↔
        a.fromState = .error ∨ a.id ∉ s.zset .error a.queue := by
    by_cases hf : a.fromState = .error
    · simp [hf]
    · have hf' : TaskState.error ≠ a.fromState := Ne.symm hf
      simp [hf, hf', leave]
  by_cases hu : a.unique = true
  · have hd : a.DeletesExecutions s ↔ a.fromState = .error ∨ a.id ∉ s.zset .error a.queue := by
      simp [MoveTask.DeletesExecutions, hu]
    have same : ∀ t : Store, (removeObject a t).executions = t.executions ∧
        (removeObject a t).executionsCount = t.executionsCount := by
      intro t
      unfold removeObject
      split_ifs <;> exact ⟨rfl, rfl⟩
    rw [removeTask, if_pos hu, (same _).1, (same _).2, removeExecutions, notInZsets]
    by_cases hdel : a.DeletesExecutions s
    · rw [if_pos (error.mpr (hd.mp hdel))]
      by_cases hx : x = a.id <;> simp [hx, hdel, Store.delExecutions, leave, Store.setZset]
    · rw [if_neg (fun hc => hdel (hd.mpr (error.mp hc)))]
      simp [hdel, leave, Store.setZset]
  · have hdel : a.DeletesExecutions s := fun hc => absurd hc hu
    rw [removeTask, if_neg hu]
    by_cases hx : x = a.id <;>
      simp [hx, hdel, Store.delExecutions, leave, Store.setZset, Store.setTask]

theorem executions_moveTask (h : ¬a.Raises s) :
    (x = a.id ∧ a.toState = none ∧ a.DeletesExecutions s →
      (moveTask a s).2.executions x = [] ∧ (moveTask a s).2.executionsCount x = none) ∧
    (¬(x = a.id ∧ a.toState = none ∧ a.DeletesExecutions s) →
      (moveTask a s).2.executions x = s.executions x ∧
        (moveTask a s).2.executionsCount x = s.executionsCount x) := by
  obtain ⟨-, ⟨ht, hmove⟩ | ⟨dest, z, ht, hz, hmove⟩⟩ := moveTask_cases h
  · rw [hmove, executions_sremIfNotExists, executionsCount_sremIfNotExists]
    simpa [ht] using executions_removeTask (a := a) (s := s) (x := x)
  · have same : (moveTask a s).2.executions = s.executions ∧
        (moveTask a s).2.executionsCount = s.executionsCount := by
      rw [hmove]
      simp only
      split_ifs <;> simp [Store.publish, leave, Store.setZset, Store.sadd]
    rw [same.1, same.2]
    simp [ht]

theorem activity_moveTask (h : ¬a.Raises s) : (moveTask a s).2.activity =
    if a.toState = some .queued ∧ a.publishQueuedTasks = true then s.activity ++ [a.queue]
    else s.activity := by
  obtain ⟨-, ⟨ht, hmove⟩ | ⟨dest, z, ht, hz, hmove⟩⟩ := moveTask_cases h
  · rw [hmove]
    simp [ht, activity_removeTask, leave]
  · rw [hmove]
    simp only [ht, Option.some.injEq]
    split_ifs <;> simp [leave]

theorem locks_removeTask : (removeTask a s).locks = s.locks := by
  unfold removeTask removeObject removeExecutions
  split_ifs <;> rfl

theorem locks_moveTask (a : MoveTask) (s : Store) : (moveTask a s).2.locks = s.locks := by
  by_cases h : a.Raises s
  · rw [(moveTask_of_raises h).2]
  · obtain ⟨-, ⟨ht, hmove⟩ | ⟨dest, z, ht, hz, hmove⟩⟩ := moveTask_cases h
    · rw [hmove, locks_sremIfNotExists, locks_removeTask]
      rfl
    · rw [hmove]
      simp only
      split_ifs <;> simp [leave]

end

/-- move_task raises and changes nothing, or moves the id and changes nothing else. -/
theorem moveTask_spec (a : MoveTask) (s : Store) (hne : a.toState ≠ some a.fromState) :
    (a.Raises s → (∃ e, (moveTask a s).1 = .error e) ∧ (moveTask a s).2 = s) ∧
      (¬a.Raises s → (moveTask a s).1 = .ok () ∧ a.Moved s (moveTask a s).2) := by
  refine ⟨moveTask_of_raises, fun h => ?_⟩
  obtain ⟨hin, ways⟩ := moveTask_cases h
  have reply : (moveTask a s).1 = .ok () := by
    rcases ways with ⟨-, hmove⟩ | ⟨dest, z, -, -, hmove⟩ <;> rw [hmove]
  have supported : a.toState ≠ none → ∀ mode, a.mode ≠ .other mode :=
    fun hto mode hm => h (Or.inr ⟨hto, mode, hm⟩)
  refine ⟨reply, ?_⟩
  exact
    { left := by
        rw [Store.not_mem_iff_score, score_moveTask hin hne supported]
        simp
      entered := by
        intro dest hd
        have hdest : dest ≠ a.fromState := by
          rintro rfl
          exact hne hd
        rw [score_moveTask hin hne supported]
        simp [hdest, hd]
      scores := by
        intro st q x hk
        rw [score_moveTask hin hne supported]
        by_cases hx : q = a.queue ∧ x = a.id
        · have hst : ¬(st = a.fromState ∨ a.toState = some st) := fun hc => hk ⟨hx.1, hx.2, hc⟩
          obtain ⟨hfrom, hto⟩ := not_or.mp hst
          rw [if_pos hx, if_neg hfrom, if_neg hto]
        · rw [if_neg hx]
      added := by
        intro dest hd
        have hdest : dest ≠ a.fromState := by
          rintro rfl
          exact hne hd
        rw [mem_queues_moveTask h]
        exact ⟨Or.inr ⟨hd, rfl⟩, Or.inr (fun hc => hdest hc.1)⟩
      dropped := by
        rw [mem_queues_moveTask h]
        simp [hne]
      queues := by
        intro st q hk
        rw [mem_queues_moveTask h]
        constructor
        · rintro ⟨hq | ⟨hst, hq⟩, -⟩
          · exact hq
          · exact absurd ⟨hq, Or.inr hst⟩ hk
        · intro hq
          exact ⟨Or.inl hq, Or.inr (fun hc => hk ⟨hc.2, Or.inl hc.1⟩)⟩
      object := by
        intro x
        rw [task_moveTask]
        constructor
        · rintro ⟨rfl, hto, hdel⟩
          rw [if_pos ⟨hin, hto, hdel, rfl⟩]
        · intro hk
          rw [if_neg (fun hc => hk ⟨hc.2.2.2, hc.2.1, hc.2.2.1⟩)]
      executions := fun x => executions_moveTask h
      locks := locks_moveTask a s
      activity := activity_moveTask h }

/-- A lock miss of a task that is in ACTIVE, and in SCHEDULED already. -/
def missedLock : MoveTask := ⟨"u", "default", .active, some .scheduled, true, 9, .min, true⟩

def activeAndScheduled : Store :=
  ((Store.empty.setZset .active "default" (ZSet.empty.add 3 "u")).setZset .scheduled "default"
    (ZSet.empty.add 5 "u")).sadd .active "default"

theorem moveTask_spec_lockMiss : (moveTask missedLock activeAndScheduled).1 = .ok () ∧
    missedLock.Moved activeAndScheduled (moveTask missedLock activeAndScheduled).2 := by
  refine (moveTask_spec missedLock activeAndScheduled (by decide)).2 ?_
  rintro (hout | ⟨-, mode, hm⟩)
  · exact hout (by decide +kernel)
  · cases hm

end TaskTiger
