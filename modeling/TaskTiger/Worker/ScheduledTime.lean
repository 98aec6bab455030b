import TaskTiger.Store.CommandEffects
import TaskTiger.Worker.Task

namespace TaskTiger

open Redis Rounding

/-! What the stored object looks like after update_scheduled_time. -/

/-- A number in the normal range of doubles comes back from cjson exactly when it has at most 14
significant digits. -/
theorem cjsonNumber_eq_iff {q : ℚ} (normal : 2 ^ (-1022 : ℤ) ≤ |q|) :
    cjsonNumber q = q ↔ decimal14.HasDigits q := by
  refine Format.round_round (m := -1074) rfl rfl ?_ ?_
  · norm_num [decimal14, binary64]
  · simpa [binary64] using normal

/-- No list inside the object is empty, and its numbers and the new time come back from cjson. -/
structure TaskData.Survives (d : TaskData) (ts : Time) : Prop where
  args : itemsSurvive cjsonNumber d.args
  kwargs : fieldsSurvive cjsonNumber d.kwargs
  hardTimeout : ∀ t ∈ d.hardTimeout, cjsonNumber t = t
  retryMethod : ∀ m ∈ d.retryMethod, m.args.Survives cjsonNumber
  maxQueueSize : ∀ n ∈ d.maxQueueSize, cjsonInt cjsonNumber n = n
  maxStoredExecutions : ∀ n ∈ d.maxStoredExecutions, cjsonInt cjsonNumber n = n
  timeLastQueued : ∀ t ∈ d.timeLastQueued, cjsonNumber t = t
  scheduledAt : cjsonNumber ts = ts

theorem map_eq_self_iff {α : Type} {f : α → α} {o : Option α} :
    o.map f = o ↔ ∀ a ∈ o, f a = a := by
  cases o <;> simp

theorem retryMethod_cjson_eq_iff {number : ℚ → ℚ} {m : RetryMethod} :
    m.cjson number = m ↔ m.args.Survives number := by
  rw [← Json.cjson_eq_iff]
  cases m
  simp [RetryMethod.cjson]

theorem survives_iff {d : TaskData} {ts : Time} :
    { d.cjson cjsonNumber with scheduledAt := some (cjsonNumber ts) } =
      { d with scheduledAt := some ts } ↔ d.Survives ts := by
  constructor
  · intro h
    simp only [TaskData.cjson, TaskData.mk.injEq, true_and, Option.some.injEq, map_eq_self_iff,
      cjsonItems_eq_iff, cjsonFields_eq_iff, retryMethod_cjson_eq_iff] at h
    obtain ⟨args, kwargs, hardTimeout, retryMethod, maxQueueSize, maxStored, queued, scheduled⟩ := h
    exact ⟨args, kwargs, hardTimeout, retryMethod, maxQueueSize, maxStored, queued, scheduled⟩
  · intro h
    simp only [TaskData.cjson, TaskData.mk.injEq, true_and, Option.some.injEq, map_eq_self_iff,
      cjsonItems_eq_iff, cjsonFields_eq_iff, retryMethod_cjson_eq_iff]
    exact ⟨h.args, h.kwargs, h.hardTimeout, h.retryMethod, h.maxQueueSize, h.maxStoredExecutions,
      h.timeLastQueued, h.scheduledAt⟩

/-- The stored object is the same as before but for its time, and that and the score are ts. -/
def ChangesOnlyTime (d : TaskData) (queue id : String) (ts : Time) (t : Store) : Prop :=
  t.task id = some { d with scheduledAt := some ts } ∧ t.score .scheduled queue id = some ts

theorem updated_of_success {s : Store} {queue id : String} {ts : Time} {d : TaskData}
    (stored : s.task id = some d)
    (success : (updateScheduledTime cjsonNumber queue id ts s).1 = .ok true) :
    (updateScheduledTime cjsonNumber queue id ts s).2 = (rescored queue id ts s).setTask id
      (some { d.cjson cjsonNumber with scheduledAt := some (cjsonNumber ts) }) := by
  cases update_effect cjsonNumber queue id ts s with
  | absent out result =>
    rw [result] at success
    cases success
  | failed e within bad result =>
    rw [result] at success
    cases success
  | updated d' within stored' good result =>
    obtain rfl : d = d' := by simpa [stored] using stored'
    rw [result]

/-- A successful update_scheduled_time changes only the time exactly when the object comes back
from cjson. -/
theorem changesOnlyTime_iff_survives {s : Store} {queue id : String} {ts : Time} {d : TaskData}
    (stored : s.task id = some d)
    (success : (updateScheduledTime cjsonNumber queue id ts s).1 = .ok true) :
    ChangesOnlyTime d queue id ts (updateScheduledTime cjsonNumber queue id ts s).2 ↔
      d.Survives ts := by
  have score : (updateScheduledTime cjsonNumber queue id ts s).2.score .scheduled queue id =
      some ts := by
    rw [updated_of_success stored success]
    simp [rescored, Store.score]
  rw [ChangesOnlyTime, score, updated_of_success stored success, ← survives_iff]
  simp

/-- A task with nested arguments: a list, and dicts, one of them empty. -/
def nestedTask : TaskData where
  id := "u"
  func := "tasks:simple_task"
  args := [.arr [.num 1, .str "x"], .obj [("rates", .arr [.num (5 / 2), .null])], .obj []]
  kwargs := [("options", .obj [("flags", .arr [.bool true, .arr [.num 20200101000000]])])]
  hardTimeout := some 30
  retryMethod := some ⟨"tasktiger.retry:_fixed", .arr [.num 60, .num 3]⟩
  maxQueueSize := some 1000

theorem changesOnlyTime_iff_survives_nested :
    ChangesOnlyTime (delayedData nestedTask (some 20) 1) "default" "u" 30
      (updateScheduledTime cjsonNumber "default" "u" 30 (runAll Store.empty
        [.delay "default" nestedTask (some 20) 1 true])).2 := by
  refine (changesOnlyTime_iff_survives rfl (by decide +kernel)).mpr ?_
  have one : cjsonNumber 1 = 1 := by decide +kernel
  have rate : cjsonNumber (5 / 2) = 5 / 2 := by decide +kernel
  have date : cjsonNumber 20200101000000 = 20200101000000 := by decide +kernel
  have sixty : cjsonNumber 60 = 60 := by decide +kernel
  have three : cjsonNumber 3 = 3 := by decide +kernel
  have thirty : cjsonNumber 30 = 30 := by decide +kernel
  exact
    { args := by simp [delayedData, nestedTask, itemsSurvive, fieldsSurvive, Json.Survives, one, rate]
      kwargs := by simp [delayedData, nestedTask, itemsSurvive, fieldsSurvive, Json.Survives, date]
      hardTimeout := by simpa [delayedData, nestedTask] using thirty
      retryMethod := by simp [delayedData, nestedTask, itemsSurvive, Json.Survives, sixty, three]
      maxQueueSize := by
        intro n hn
        obtain rfl : (1000 : Int) = n := by simpa [delayedData, nestedTask] using hn
        decide +kernel
      maxStoredExecutions := by simp [delayedData, nestedTask]
      timeLastQueued := by
        intro t ht
        obtain rfl : (1 : Instant).time = t := by simpa [delayedData] using ht
        decide +kernel
      scheduledAt := thirty }

/-- A task whose argument is an empty list: cjson turns it into a dict. -/
def emptyListTask : TaskData := { id := "u", func := "tasks:simple_task", args := [.arr []] }

theorem not_changesOnlyTime_emptyList : ¬∀ (s : Store) (queue id : String) (ts : Time)
    (d : TaskData), s.task id = some d →
      (updateScheduledTime cjsonNumber queue id ts s).1 = .ok true →
        ChangesOnlyTime d queue id ts (updateScheduledTime cjsonNumber queue id ts s).2 := by
  intro hall
  let s := runAll Store.empty [.delay "default" emptyListTask (some 20) 1 true]
  have success : (updateScheduledTime cjsonNumber "default" "u" 30 s).1 = .ok true := by
    decide +kernel
  obtain ⟨same, -⟩ := hall s "default" "u" 30 _ rfl success
  rw [updated_of_success rfl success] at same
  simp [delayedData, emptyListTask, TaskData.cjson, cjsonItems, Json.cjson] at same

/-! Task.update_scheduled_time. -/

/-- A Task object of a client, with its ts. -/
structure ClientTask where
  task : Task
  ts : Option Time

namespace ClientTask

/-- What the method raises, the Task object and the store after it. `ts` is what get_timestamp
makes of its argument. -/
def updateScheduledTime (t : ClientTask) (ts : Option Time) (s : Store) :
    Except Exn Unit × ClientTask × Store :=
  match ts with
  | none => (.error (.raised "AssertionError"), t, s)
  | some ts =>
    if ts = 0 then (.error (.raised "AssertionError"), t, s)
    else match TaskTiger.updateScheduledTime cjsonNumber t.task.queue t.task.data.id ts s with
      | (.error e, s) => (.error (.responseError e), t, s)
      | (.ok false, s) => (.error .taskNotFound, t, s)
      | (.ok true, s) =>
        (.ok (), ⟨⟨t.task.queue, { t.task.data with scheduledAt := some ts }⟩, some ts⟩, s)

/-- When the method raises, everything is as before. -/
def AtomicOnFailure (t : ClientTask) (ts : Option Time) (s : Store) : Prop :=
  ∀ e t' s', t.updateScheduledTime ts s = (.error e, t', s') →
    s'.zset .scheduled t.task.queue = s.zset .scheduled t.task.queue ∧
      s'.task t.task.data.id = s.task t.task.data.id ∧
      t'.task.data.scheduledAt = t.task.data.scheduledAt ∧ t'.ts = t.ts

/-- The stored object of a scheduled task is there, and cjson can decode and encode it; or the
time is the one it has already. -/
def Rewritable (t : ClientTask) (ts : Time) (s : Store) : Prop :=
  (∃ d, s.task t.task.data.id = some d ∧ d.recodable ts = true) ∨
    s.score .scheduled t.task.queue t.task.data.id = some ts

theorem atomicOnFailure_of_ok {t : ClientTask} {ts : Option Time} {s : Store}
    (h : (t.updateScheduledTime ts s).1 = .ok ()) : t.AtomicOnFailure ts s := by
  intro e t' s' hr
  rw [hr] at h
  cases h

theorem atomicOnFailure_of_unchanged {t : ClientTask} {ts : Option Time} {s : Store}
    (h : (t.updateScheduledTime ts s).2 = (t, s)) : t.AtomicOnFailure ts s := by
  intro e t' s' hr
  rw [hr] at h
  obtain ⟨rfl, rfl⟩ : t' = t ∧ s' = s := by simpa using h
  exact ⟨rfl, rfl, rfl, rfl⟩

/-- A script that fails has written the score before, and nothing else. -/
theorem atomicOnFailure_of_failed {t : ClientTask} {ts : Time} {s : Store} {e : Exn}
    (h : t.updateScheduledTime (some ts) s =
      (.error e, t, rescored t.task.queue t.task.data.id ts s)) :
    t.AtomicOnFailure (some ts) s ↔
      s.score .scheduled t.task.queue t.task.data.id = some ts := by
  constructor
  · intro hatomic
    have same := (hatomic e t _ h).1
    have after : (rescored t.task.queue t.task.data.id ts s).score .scheduled t.task.queue
        t.task.data.id = some ts := by simp [rescored, Store.score]
    rwa [Store.score, same] at after
  · intro hscore e' t' s' hr
    rw [h] at hr
    obtain ⟨rfl, rfl⟩ : t = t' ∧ rescored t.task.queue t.task.data.id ts s = s' := by
      simpa using (Prod.mk.inj hr).2
    have same : (s.zset .scheduled t.task.queue).add ts t.task.data.id =
        s.zset .scheduled t.task.queue := ZSet.add_of_score hscore
    exact ⟨by simp [rescored, same], rfl, rfl, rfl⟩

/-- update_scheduled_time leaves everything as before when it raises, exactly when the object of a
scheduled task can be rewritten. -/
theorem atomicOnFailure_iff (t : ClientTask) (ts : Option Time) (s : Store) :
    t.AtomicOnFailure ts s ↔ ∀ ts' ∈ ts, ts' ≠ 0 →
      t.task.data.id ∈ s.zset .scheduled t.task.queue → t.Rewritable ts' s := by
  cases ts with
  | none =>
    have unchanged : (t.updateScheduledTime none s).2 = (t, s) := rfl
    simpa using atomicOnFailure_of_unchanged unchanged
  | some ts =>
    by_cases hzero : ts = 0
    · subst hzero
      have unchanged : (t.updateScheduledTime (some 0) s).2 = (t, s) := rfl
      simpa using atomicOnFailure_of_unchanged unchanged
    · have condition : (∀ ts' ∈ some ts, ts' ≠ 0 →
          t.task.data.id ∈ s.zset .scheduled t.task.queue → t.Rewritable ts' s) ↔
          (t.task.data.id ∈ s.zset .scheduled t.task.queue → t.Rewritable ts s) := by
        simp [hzero]
      rw [condition]
      cases update_effect cjsonNumber t.task.queue t.task.data.id ts s with
      | absent out result =>
        have unchanged : (t.updateScheduledTime (some ts) s).2 = (t, s) := by
          simp only [updateScheduledTime, if_neg hzero, result]
        exact ⟨fun _ hin => absurd hin out, fun _ => atomicOnFailure_of_unchanged unchanged⟩
      | failed e within bad result =>
        have failure : t.updateScheduledTime (some ts) s =
            (.error (.responseError e), t, rescored t.task.queue t.task.data.id ts s) := by
          simp only [updateScheduledTime, if_neg hzero, result]
        rw [atomicOnFailure_of_failed failure]
        constructor
        · intro hscore _
          exact Or.inr hscore
        · intro h
          rcases h within with ⟨d, stored, good⟩ | hscore
          · rw [bad d stored] at good
            cases good
          · exact hscore
      | updated d within stored good result =>
        have success : (t.updateScheduledTime (some ts) s).1 = .ok () := by
          simp only [updateScheduledTime, if_neg hzero, result]
        exact ⟨fun _ _ => Or.inl ⟨d, stored, good⟩, fun _ => atomicOnFailure_of_ok success⟩

/-- The object of the task has disappeared. -/
def disappeared : Store :=
  (Store.empty.setZset .scheduled "default" (ZSet.empty.add 20 "u")).sadd .scheduled "default"

theorem not_atomicOnFailure_disappeared : ¬∀ (t : ClientTask) (ts : Option Time) (s : Store),
    t.AtomicOnFailure ts s := by
  intro hall
  let t : ClientTask := ⟨Task.bare "default" "u", some 20⟩
  have failure : t.updateScheduledTime (some 30) disappeared =
      (.error (.responseError .noObject), t, rescored "default" "u" 30 disappeared) := by
    have script : TaskTiger.updateScheduledTime cjsonNumber "default" "u" 30 disappeared =
        (.error .noObject, rescored "default" "u" 30 disappeared) := by
      rw [TaskTiger.updateScheduledTime, if_neg (by decide +kernel)]
      rfl
    have ne : (30 : Time) ≠ 0 := by norm_num
    simp only [updateScheduledTime, if_neg ne]
    rw [show TaskTiger.updateScheduledTime cjsonNumber t.task.queue t.task.data.id 30 disappeared =
      _ from script]
  have kept := (atomicOnFailure_of_failed failure).mp (hall t (some 30) disappeared)
  exact absurd kept (by decide +kernel)

end ClientTask

end TaskTiger
