import TaskTiger.Store.Database

namespace TaskTiger

open Redis Simulation

/-! The scripts as they run on keys. -/

/-- A script may raise, and what it did before stays. -/
abbrev Script := ExceptT ScriptError Raw

/-- redis.call, and the calls of local functions that cannot raise. -/
abbrev call {α : Type} (p : Raw α) : Script α := ExceptT.lift p

namespace Raw

/-- ZADD_NOUPDATE. -/
def zaddNoupdate (k : String) (score : Time) (member : String) : Raw Unit := do
  let old ← zscore k member
  if old.isNone then zadd k score member else pure ()

/-- ZADD_UPDATE_MIN. -/
def zaddUpdateMin (k : String) (score : Time) (member : String) : Raw Unit := do
  let old ← zscore k member
  match old with
  | some old => zadd k (min old score) member
  | none => zadd k score member

def zaddWMode (k : String) (score : Time) (member : String) : Mode → Script Unit
  | .always => call (zadd k score member)
  | .nx => call (zaddNoupdate k score member)
  | .min => call (zaddUpdateMin k score member)
  | .other mode => throw (.unsupportedMode mode)

/-- The loop of DELETE_IF_NOT_IN_ZSETS, which ends with the first ZSET that has the value. -/
def found (value : String) : List String → Raw Bool
  | [] => pure false
  | k :: ks => do
    let score ← zscore k value
    if score.isSome then pure true else found value ks

def deleteIfNotInZsets (toDelete : List String) (value : String) (zsets : List String) :
    Raw Unit := do
  let found ← found value zsets
  if found then pure () else toDelete.forM del

def sremIfNotExists (k member otherKey : String) : Raw Unit := do
  let existing ← exists_ otherKey
  if existing then pure () else srem k member

/-- KEYS of move_task.lua. -/
structure MoveTaskKeys where
  taskId : String
  taskIdExecutions : String
  taskIdExecutionsCount : String
  fromState : String
  toState : String
  activeQueue : String
  queuedQueue : String
  errorQueue : String
  scheduledQueue : String
  activity : String

/-- state_queues_keys_by_state. -/
def MoveTaskKeys.stateQueue (k : MoveTaskKeys) : TaskState → String
  | .active => k.activeQueue
  | .queued => k.queuedQueue
  | .error => k.errorQueue
  | .scheduled => k.scheduledQueue

def removeTask (k : MoveTaskKeys) (a : MoveTask) : Raw Unit := do
  if a.unique then do
    deleteIfNotInZsets [k.taskIdExecutions, k.taskIdExecutionsCount] a.id
      (if a.fromState = .error then [] else [k.errorQueue])
    deleteIfNotInZsets [k.taskId] a.id
      (([TaskState.active, .queued, .error, .scheduled].filter (· ≠ a.fromState)).map k.stateQueue)
  else [k.taskId, k.taskIdExecutions, k.taskIdExecutionsCount].forM del

/-- The new state, if there is one. -/
def addTask (k : MoveTaskKeys) (a : MoveTask) : Script Unit :=
  match a.toState with
  | none => pure ()
  | some dest => do
    zaddWMode (k.stateQueue dest) a.when a.id a.mode
    call (sadd k.toState a.queue)

/-- move_task.lua. -/
def moveTask (k : MoveTaskKeys) (a : MoveTask) : Script Unit := do
  let fromQueue := k.stateQueue a.fromState
  let score ← call (zscore fromQueue a.id)
  if score.isNone then throw .failIfNotInZset
  else do
    addTask k a
    call (zrem fromQueue a.id)
    call (if a.toState.isNone then removeTask k a else pure ())
    call (sremIfNotExists k.fromState a.queue fromQueue)
    call (if a.toState = some .queued ∧ a.publishQueuedTasks = true then
      publish k.activity a.queue
    else pure ())

/-- KEYS of the zpoppush scripts with if_exists; the last three, with if_exists_score, are nil in
ZPOPPUSH_EXISTS_IGNORE_UPDATE_SETS. -/
structure ZpoppushKeys where
  source : String
  destination : String
  removeFromSet : String
  addToSet : String
  ifExists : Option (String × String × Time)

/-- moved_members and existing_members. -/
def partitionMembers (destination : String) : List String → Raw (List String × List String)
  | [] => pure ([], [])
  | member :: members => do
    let score ← zscore destination member
    let (moved, existing) ← partitionMembers destination members
    pure (if score.isSome then (moved, member :: existing) else (member :: moved, existing))

/-- The "if exists" action. -/
def divert (k : ZpoppushKeys) (existing : List String) : Raw Unit :=
  match k.ifExists with
  | none => pure ()
  | some (_, ifExistsKey, score) => existing.forM (zaddUpdateMin ifExistsKey score)

/-- The set of if_exists_key. -/
def listIfExists (k : ZpoppushKeys) (queue : String) : Raw Unit :=
  match k.ifExists with
  | none => pure ()
  | some (addToSetIfExists, ifExistsKey, _) => do
    let existing ← exists_ ifExistsKey
    if existing then sadd addToSetIfExists queue else pure ()

/-- _ZPOPPUSH_EXISTS_TEMPLATE. ZADD of no members at all is left out; more than can be unpacked
raise. -/
def zpoppushExists (k : ZpoppushKeys) (a : Zpoppush) : Script (List String) := do
  let members ← call (zrangebyscore k.source none a.score a.count)
  let (moved, existing) ← call (partitionMembers k.destination members)
  if members = [] then pure moved
  else do
    call (zremFirst k.source members.length)
    if unpackFits (2 * moved.length) then do
      call (if moved = [] then pure () else zaddAll k.destination a.newScore moved)
      call (divert k existing)
      call (sremIfNotExists k.removeFromSet a.queue k.source)
      call (sadd k.addToSet a.queue)
      call (listIfExists k a.queue)
      pure moved
    else throw .tooManyResults

/-- UPDATE_SCHEDULED_TIME. -/
def updateScheduledTime (number : ℚ → ℚ) (zsetKey taskKey : String) (score : Time)
    (member : String) : Script Bool := do
  let old ← call (zscore zsetKey member)
  if old.isSome then do
    call (zadd zsetKey score member)
    let data ← call (getObject taskKey)
    match data with
    | none => throw .noObject
    | some d =>
      if d.recodable score then do
        call (setObject taskKey { d.cjson number with scheduledAt := some (number score) })
        pure true
      else throw .notRecodable
  else pure false

/-- The loop of GET_EXPIRED_TASKS, with pairs in place of the flat list. -/
def expiredIn (keyPrefix : String) (time : Time) : List String → Int → Raw (List (String × String))
  | [], _ => pure []
  | queue :: queues, batchSize => do
    let members ← zrangebyscore (keyPrefix ++ ":" ++ "active" ++ ":" ++ queue) (some 0) (some time)
      batchSize
    let left := batchSize - members.length
    let rest ← if left ≤ 0 then pure [] else expiredIn keyPrefix time queues left
    pure (members.map (fun id => (queue, id)) ++ rest)

/-- GET_EXPIRED_TASKS. -/
def getExpiredTasks (e : Enumeration) (keyPrefix : String) (time : Time) (batchSize : Int) :
    Raw (List (String × String)) := do
  let queues ← smembers e (keyPrefix ++ ":" ++ "active")
  expiredIn keyPrefix time queues batchSize

/-! The other commands of the package. -/

/-- The pipeline of Task.delay. -/
def delay (p queue : String) (data : TaskData) (ts : Option Time) (now : Instant) (announce : Bool) :
    Raw Unit := do
  let state := (delayTarget ts now).1
  sadd (key p [state.name]) queue
  setObject (key p ["task", data.id]) (delayedData data ts now)
  zaddNoupdate (key p [state.name, queue]) (delayTarget ts now).2 data.id
  if state = .queued ∧ announce = true then publish (key p ["activity"]) queue else pure ()

/-- The pipeline of Worker.store_task_execution for one task. -/
def storeExecution (p id : String) (maxStored : Option Int) (e : Execution) : Raw Unit := do
  incr (key p ["task", id, "executions_count"])
  rpush (key p ["task", id, "executions"]) e
  match maxStored with
  | none => pure ()
  | some m => if m = 0 then pure () else ltrimLast (key p ["task", id, "executions"]) m

/-- SET NX. -/
def acquireLock (k token : String) : Raw Bool := do
  let held ← getToken k
  if held.isSome then pure false
  else do
    putKey k (some (.string (.token token)))
    pure true

/-- Lock.release deletes the key if it still has the token of the lock. -/
def releaseLock (k token : String) : Raw Bool := do
  let held ← getToken k
  if held = some token then do
    del k
    pure true
  else pure false

/-- ZADD of Worker.heartbeat, and its task_ids are members. -/
def heartbeat (p queue : String) (ids : List String) (now : Instant) : Raw Unit :=
  zaddAll (key p [TaskState.active.name, queue]) now.time ids

def fromId (p : String) (state : TaskState) (queue id : String) :
    Raw (Option TaskData × Option Time) := do
  let data ← getObject (key p ["task", id])
  let score ← zscore (key p [state.name, queue]) id
  pure (data, score)

def mget (p : String) : List String → Raw (List (Option TaskData))
  | [] => pure []
  | id :: ids => do
    let data ← getObject (key p ["task", id])
    let rest ← mget p ids
    pure (data :: rest)

/-- LRANGE -n -1. -/
def lastExecutions (p : String) (n : Nat) : List String → Raw (List (List Execution))
  | [] => pure []
  | id :: ids => do
    let executions ← lget (key p ["task", id, "executions"])
    let rest ← lastExecutions p n ids
    pure (executions.rtake n :: rest)

end Raw

/-- The keys that the workers pass to RedisScripts.zpoppush. -/
def zpoppushKeys (p : String) (a : Zpoppush) : Raw.ZpoppushKeys where
  source := key p [a.source.name, a.queue]
  destination := key p [a.destination.name, a.queue]
  removeFromSet := key p [a.source.name]
  addToSet := key p [a.destination.name]
  ifExists := a.ifExists.map (fun (st, score) => (key p [st.name], key p [st.name, a.queue], score))

/-- RedisScripts.move_task. -/
def moveTaskKeys (p : String) (a : MoveTask) : Raw.MoveTaskKeys where
  taskId := key p ["task", a.id]
  taskIdExecutions := key p ["task", a.id, "executions"]
  taskIdExecutionsCount := key p ["task", a.id, "executions_count"]
  fromState := key p [a.fromState.name]
  toState := (a.toState.map (fun st => key p [st.name])).getD ""
  activeQueue := key p [TaskState.active.name, a.queue]
  queuedQueue := key p [TaskState.queued.name, a.queue]
  errorQueue := key p [TaskState.error.name, a.queue]
  scheduledQueue := key p [TaskState.scheduled.name, a.queue]
  activity := key p ["activity"]

section

variable {p : String} {s : Store} {st : TaskState} {q x : String}

/-! Single commands on a ZSET. -/

theorem runs_zscore (m : String) : Runs (Represents p) (Raw.zscore ((Slot.zset st q).key p) m) s
    (fun r u => r = s.score st q m ∧ u = s) :=
  runs_zget.andThen (runs_pure ⟨rfl, rfl⟩)

theorem runs_zadd (score : Time) (m : String) :
    Runs (Represents p) (Raw.zadd ((Slot.zset st q).key p) score m) s
      (fun _ u => u = s.setZset st q ((s.zset st q).add score m)) :=
  runs_zget.andThen (runs_zput _)

theorem runs_zrem (m : String) : Runs (Represents p) (Raw.zrem ((Slot.zset st q).key p) m) s
    (fun _ u => u = s.setZset st q ((s.zset st q).rem m)) :=
  runs_zget.andThen (runs_zput _)

/-! move_task.lua. -/

/-- Nothing is written where the ZSET stays as it is. -/
theorem setZset_self (s : Store) (st : TaskState) (q : String) : s.setZset st q (s.zset st q) = s := by
  have same : (fun st' q' => if st' = st ∧ q' = q then s.zset st q else s.zset st' q') = s.zset := by
    funext st' q'
    split_ifs with h
    · rw [h.1, h.2]
    · rfl
  exact congrArg (fun z => { s with zset := z }) same

theorem runs_zaddNoupdate (score : Time) (m : String) :
    Runs (Represents p) (Raw.zaddNoupdate ((Slot.zset st q).key p) score m) s
      (fun _ u => u = s.setZset st q (zaddNoupdate (s.zset st q) score m)) := by
  refine (runs_zscore m).andThen (runs_ite (fun new => ?_) (fun old => ?_))
  · have out : m ∉ s.zset st q := Store.not_mem_iff_score.mpr (by simpa using new)
    rw [zaddNoupdate, if_neg out]
    exact runs_zadd score m
  · have inside : m ∈ s.zset st q := by
      rw [Store.mem_iff_score]
      simpa using old
    rw [zaddNoupdate, if_pos inside, setZset_self]
    exact runs_pure rfl

theorem runs_zaddUpdateMin (score : Time) (m : String) :
    Runs (Represents p) (Raw.zaddUpdateMin ((Slot.zset st q).key p) score m) s
      (fun _ u => u = s.setZset st q (zaddUpdateMin (s.zset st q) score m)) := by
  refine (runs_zscore m).andThen ?_
  unfold zaddUpdateMin
  cases old : s.score st q m with
  | none =>
    rw [show (s.zset st q).score m = none from old]
    exact runs_zadd score m
  | some t =>
    rw [show (s.zset st q).score m = some t from old]
    exact runs_zadd (min t score) m

theorem runs_zaddWMode (score : Time) (m : String) (mode : Mode) :
    Runs (Represents p) (Raw.zaddWMode ((Slot.zset st q).key p) score m mode) s
      (fun r u => match zaddWMode (s.zset st q) score m mode with
        | .ok z => r = .ok () ∧ u = s.setZset st q z
        | .error e => r = .error e ∧ u = s) := by
  cases mode with
  | always => exact runs_lift ((runs_zadd score m).imp (fun _ _ h => ⟨rfl, h⟩))
  | nx => exact runs_lift ((runs_zaddNoupdate score m).imp (fun _ _ h => ⟨rfl, h⟩))
  | min => exact runs_lift ((runs_zaddUpdateMin score m).imp (fun _ _ h => ⟨rfl, h⟩))
  | other mode => exact runs_throw ⟨rfl, rfl⟩

theorem runs_found (sts : List TaskState) :
    Runs (Represents p) (Raw.found x (sts.map (fun st => (Slot.zset st q).key p))) s
      (fun r u => r = !notInZsets s q x sts ∧ u = s) := by
  induction sts with
  | nil => exact runs_pure ⟨rfl, rfl⟩
  | cons st sts ih =>
    refine (runs_zscore x).andThen (runs_ite (fun here => ?_) (fun elsewhere => ?_))
    · have inside : x ∈ s.zset st q := here
      exact runs_pure ⟨by simp [notInZsets, inside], rfl⟩
    · have out : x ∉ s.zset st q := elsewhere
      have rest : notInZsets s q x (st :: sts) = notInZsets s q x sts := by
        simp [notInZsets, out]
      rw [rest]
      exact ih

theorem runs_existsZset : Runs (Represents p) (Raw.exists_ ((Slot.zset st q).key p)) s
    (fun r u => r = (s.zset st q).nonempty ∧ u = s) := by
  have existing : (s.value (.zset st q)).isSome = (s.zset st q).nonempty := by
    change (zsetValue (s.zset st q)).isSome = _
    unfold zsetValue
    cases h : (s.zset st q).nonempty <;> simp
  rw [← existing]
  exact runs_exists (.zset st q) trivial

theorem runs_sremIfNotExists (queue : String) :
    Runs (Represents p)
      (Raw.sremIfNotExists ((Slot.states st).key p) queue ((Slot.zset st queue).key p)) s
      (fun _ u => u = sremIfNotExists st queue s) := by
  refine runs_existsZset.andThen (runs_ite (fun left => ?_) (fun gone => ?_))
  · exact runs_pure (if_pos left).symm
  · rw [sremIfNotExists, if_neg gone]
    exact runs_srem queue

theorem runs_delTask (proper : NoColon x) : Runs (Represents p) (Raw.del ((Slot.task x).key p)) s
    (fun _ u => u = s.setTask x none) := runs_putTask proper none

theorem runs_delExecutions (proper : NoColon x) :
    Runs (Represents p)
      ([(Slot.executions x).key p, (Slot.executionsCount x).key p].forM Raw.del) s
      (fun _ u => u = s.delExecutions x) := by
  have list : Runs (Represents p) (Raw.del ((Slot.executions x).key p)) s
      (fun _ u => u = s.setExecutions x []) := runs_putExecutions proper []
  refine list.bind (fun _ u hu => ?_)
  rw [hu]
  have count : Runs (Represents p) (Raw.del ((Slot.executionsCount x).key p)) (s.setExecutions x [])
      (fun _ u => u = s.delExecutions x) := runs_putCount proper none
  exact count.bind (fun _ u hu => runs_pure hu)

/-- A deletion that depends on whether the id is in other ZSETs. -/
theorem runs_deleteIfNotInZsets {toDelete : List String} (sts : List TaskState) {t : Store}
    (deletes : Runs (Represents p) (toDelete.forM Raw.del) s (fun _ u => u = t)) :
    Runs (Represents p)
      (Raw.deleteIfNotInZsets toDelete x (sts.map (fun st => (Slot.zset st q).key p))) s
      (fun _ u => u = if notInZsets s q x sts then t else s) := by
  refine (runs_found sts).andThen (runs_ite (fun found => ?_) (fun lost => ?_))
  · rw [if_neg (by simpa using found)]
    exact runs_pure rfl
  · rw [if_pos (by simpa using lost)]
    exact deletes

theorem stateQueue_moveTaskKeys (a : MoveTask) :
    (moveTaskKeys p a).stateQueue = fun st => (Slot.zset st a.queue).key p := by
  funext st
  cases st <;> rfl

theorem runs_removeTask {a : MoveTask} (proper : NoColon a.id) :
    Runs (Represents p) (Raw.removeTask (moveTaskKeys p a) a) s
      (fun _ u => u = removeTask a s) := by
  unfold Raw.removeTask removeTask
  rw [stateQueue_moveTaskKeys]
  refine runs_ite (fun unique => ?_) (fun plain => ?_)
  · have errors : (if a.fromState = .error then [] else [(moveTaskKeys p a).errorQueue]) =
        (if a.fromState = .error then [] else [TaskState.error]).map
          (fun st => (Slot.zset st a.queue).key p) := by
      split_ifs <;> rfl
    rw [if_pos unique, errors]
    refine (runs_deleteIfNotInZsets _ (runs_delExecutions proper)).bind (fun _ u hu => ?_)
    have rest : u = removeExecutions a s := hu
    rw [rest]
    have object : Runs (Represents p) ([(Slot.task a.id).key p].forM Raw.del) (removeExecutions a s)
        (fun _ u => u = (removeExecutions a s).setTask a.id none) :=
      (runs_delTask proper).bind (fun _ u hu => runs_pure hu)
    exact runs_deleteIfNotInZsets _ object
  · rw [if_neg plain]
    refine (runs_delTask proper).bind (fun _ u hu => ?_)
    rw [hu]
    exact runs_delExecutions proper

theorem toState_moveTaskKeys {a : MoveTask} (dest : a.toState = some st) :
    (moveTaskKeys p a).toState = (Slot.states st).key p := by
  simp only [moveTaskKeys, dest]
  rfl

theorem runs_addTask_ok {a : MoveTask} {z : ZSet Time String} (dest : a.toState = some st)
    (mode : zaddWMode (s.zset st a.queue) a.when a.id a.mode = .ok z) :
    Runs (Represents p) (Raw.addTask (moveTaskKeys p a) a) s
      (fun r u => r = .ok () ∧ u = (s.setZset st a.queue z).sadd st a.queue) := by
  have added := @runs_zaddWMode p s st a.queue a.when a.id a.mode
  rw [mode] at added
  unfold Raw.addTask
  rw [stateQueue_moveTaskKeys, toState_moveTaskKeys dest]
  simp only [dest]
  refine runs_ok_bind added ?_
  exact runs_lift ((runs_sadd a.queue).imp (fun _ _ h => ⟨rfl, h⟩))

theorem runs_addTask_error {a : MoveTask} {e : ScriptError} (dest : a.toState = some st)
    (mode : zaddWMode (s.zset st a.queue) a.when a.id a.mode = .error e) :
    Runs (Represents p) (Raw.addTask (moveTaskKeys p a) a) s
      (fun r u => r = .error e ∧ u = s) := by
  have failed := @runs_zaddWMode p s st a.queue a.when a.id a.mode
  rw [mode] at failed
  unfold Raw.addTask
  rw [stateQueue_moveTaskKeys]
  simp only [dest]
  exact runs_error_bind failed ⟨rfl, rfl⟩

/-- RedisScripts.move_task does on the keys what is said of the store. -/
theorem runs_moveTask {a : MoveTask} (proper : NoColon a.id) :
    Runs (Represents p) (Raw.moveTask (moveTaskKeys p a) a) s (fun r u => (r, u) = moveTask a s) := by
  unfold Raw.moveTask
  rw [stateQueue_moveTaskKeys]
  refine runs_lift_bind (runs_zscore a.id) (fun score u found => ?_)
  obtain ⟨scored, same⟩ := found
  rw [scored, same]
  refine runs_ite (fun missing => ?_) (fun here => ?_)
  · have out : a.id ∉ s.zset a.fromState a.queue :=
      Store.not_mem_iff_score.mpr (by simpa using missing)
    rw [moveTask, if_pos out]
    exact runs_throw rfl
  · have inside : a.id ∈ s.zset a.fromState a.queue := by
      rw [Store.mem_iff_score]
      simpa using here
    rw [moveTask, if_neg (not_not.mpr inside)]
    cases dest : a.toState with
    | none =>
      have nothing : Raw.addTask (moveTaskKeys p a) a = pure () := by
        simp only [Raw.addTask, dest]
      rw [nothing]
      refine runs_ok_bind (runs_pure ⟨rfl, rfl⟩) (runs_call_bind (runs_zrem a.id) ?_)
      refine runs_call_bind (runs_removeTask proper) ?_
      refine runs_call_bind (runs_sremIfNotExists a.queue) ?_
      exact runs_lift (runs_pure rfl)
    | some st =>
      cases mode : zaddWMode (s.zset st a.queue) a.when a.id a.mode with
      | error e =>
        refine runs_error_bind (runs_addTask_error dest mode) ?_
        simp only [mode]
      | ok z =>
        refine runs_ok_bind (runs_addTask_ok dest mode) (runs_call_bind (runs_zrem a.id) ?_)
        refine runs_call_bind (runs_pure rfl) (runs_call_bind (runs_sremIfNotExists a.queue) ?_)
        refine runs_lift ?_
        simp only [mode, Option.some.injEq]
        refine runs_ite (fun announced => ?_) (fun quiet => ?_)
        · rw [if_pos announced]
          exact (runs_publish a.queue).imp (fun _ _ published => Prod.ext rfl published)
        · rw [if_neg quiet]
          exact runs_pure rfl

/-! zpoppush with if_exists. -/

/-- A loop of updates of one ZSET is one update. -/
theorem foldl_setZset {α : Type} (f : ZSet Time String → α → ZSet Time String) (l : List α)
    (s : Store) (st : TaskState) (q : String) :
    l.foldl (fun t a => t.setZset st q (f (t.zset st q) a)) s =
      s.setZset st q (l.foldl f (s.zset st q)) := by
  induction l generalizing s with
  | nil => exact (setZset_self s st q).symm
  | cons a l ih =>
    have twice : ∀ y z, (s.setZset st q y).setZset st q z = s.setZset st q z := by
      intro y z
      have same : (fun st' q' => if st' = st ∧ q' = q then z
          else if st' = st ∧ q' = q then y else s.zset st' q') =
          fun st' q' => if st' = st ∧ q' = q then z else s.zset st' q' := by
        funext st' q'
        split_ifs <;> rfl
      exact congrArg (fun z => { s with zset := z }) same
    rw [List.foldl_cons, ih, twice, Store.zset_setZset, if_pos ⟨rfl, rfl⟩, List.foldl_cons]

theorem runs_partitionMembers (members : List String) :
    Runs (Represents p) (Raw.partitionMembers ((Slot.zset st q).key p) members) s
      (fun r u => r = (members.filter (fun m => m ∉ s.zset st q),
        members.filter (fun m => m ∈ s.zset st q)) ∧ u = s) := by
  induction members with
  | nil => exact runs_pure ⟨rfl, rfl⟩
  | cons m members ih =>
    refine (runs_zscore m).andThen (ih.andThen (runs_pure ⟨?_, rfl⟩))
    by_cases inside : m ∈ s.zset st q
    · have scored : (s.score st q m).isSome = true := inside
      simp [scored, inside]
    · have unscored : (s.score st q m).isSome = false := by
        rw [Store.not_mem_iff_score.mp inside]
        rfl
      simp [unscored, inside]

theorem runs_divert (a : Zpoppush) (existing : List String) :
    Runs (Represents p) (Raw.divert (zpoppushKeys p a) existing) s
      (fun _ u => u = match a.ifExists with
        | none => s
        | some (st, score) => s.setZset st a.queue
            (existing.foldl (fun z m => zaddUpdateMin z score m) (s.zset st a.queue))) := by
  unfold Raw.divert zpoppushKeys
  cases a.ifExists with
  | none => exact runs_pure rfl
  | some e =>
    obtain ⟨st, score⟩ := e
    have loop : Runs (Represents p)
        (existing.forM (Raw.zaddUpdateMin ((Slot.zset st a.queue).key p) score)) s
        (fun _ u => u = existing.foldl
          (fun t m => t.setZset st a.queue (zaddUpdateMin (t.zset st a.queue) score m)) s) :=
      runs_forM (fun m t => runs_zaddUpdateMin score m)
    refine loop.imp (fun _ u ran => ?_)
    rw [ran]
    exact foldl_setZset (fun z m => zaddUpdateMin z score m) existing s st a.queue

theorem runs_listIfExists (a : Zpoppush) :
    Runs (Represents p) (Raw.listIfExists (zpoppushKeys p a) a.queue) s
      (fun _ u => u = match a.ifExists with
        | none => s
        | some (st, _) => if (s.zset st a.queue).nonempty then s.sadd st a.queue else s) := by
  unfold Raw.listIfExists zpoppushKeys
  cases a.ifExists with
  | none => exact runs_pure rfl
  | some e =>
    obtain ⟨st, score⟩ := e
    refine runs_existsZset.andThen (runs_ite (fun existing => ?_) (fun gone => ?_))
    · simp only [existing, if_true]
      exact runs_sadd a.queue
    · simp only [gone]
      exact runs_pure rfl

/-- RedisScripts.zpoppush with if_exists does on the keys what is said of the store. -/
theorem runs_zpoppushExists (a : Zpoppush) :
    Runs (Represents p) (Raw.zpoppushExists (zpoppushKeys p a) a) s
      (fun r u => (r, u) = zpoppushExists a s) := by
  have fetched : Runs (Represents p)
      (Raw.zrangebyscore (zpoppushKeys p a).source none a.score a.count) s
      (fun r u => r = a.members s ∧ u = s) := runs_zget.andThen (runs_pure ⟨rfl, rfl⟩)
  have split : Runs (Represents p)
      (Raw.partitionMembers (zpoppushKeys p a).destination (a.members s)) s
      (fun r u => r = (a.moved s, a.existing s) ∧ u = s) := runs_partitionMembers _
  unfold Raw.zpoppushExists
  refine runs_lift_bind fetched (fun members u h => ?_)
  rw [h.1, h.2]
  refine runs_lift_bind split (fun parts u h => ?_)
  rw [h.1, h.2]
  refine runs_ite (fun none_due => ?_) (fun some_due => ?_)
  · have none_moved : a.moved s = [] := by simp [Zpoppush.moved, none_due]
    rw [zpoppushExists, if_pos none_due, none_moved]
    exact runs_pure rfl
  · have popped : Runs (Represents p)
        (Raw.zremFirst (zpoppushKeys p a).source (a.members s).length) s
        (fun _ u => u = a.popped s) := runs_zget.andThen (runs_zput _)
    rw [zpoppushExists, if_neg some_due]
    refine runs_call_bind popped (runs_ite (fun fits => ?_) (fun large => ?_))
    · have added : Runs (Represents p)
          (if a.moved s = [] then pure ()
            else Raw.zaddAll (zpoppushKeys p a).destination a.newScore (a.moved s)) (a.popped s)
          (fun _ u => u = a.added s) := by
        refine runs_ite (fun none_moved => ?_) (fun _ => runs_zget.andThen (runs_zput _))
        rw [Zpoppush.added, none_moved]
        exact runs_pure (setZset_self _ _ _).symm
      have diverted : Runs (Represents p) (Raw.divert (zpoppushKeys p a) (a.existing s)) (a.added s)
          (fun _ u => u = a.diverted s) := runs_divert a (a.existing s)
      rw [if_pos (show a.Fits s from fits)]
      refine runs_call_bind added (runs_call_bind diverted ?_)
      refine runs_call_bind (runs_sremIfNotExists a.queue) (runs_call_bind (runs_sadd a.queue) ?_)
      refine runs_lift_bind (runs_listIfExists a) (fun _ u listed => ?_)
      rw [listed]
      exact runs_pure rfl
    · rw [if_neg (show ¬a.Fits s from large)]
      exact runs_throw rfl

/-! The other commands. -/

theorem runs_setObject (proper : NoColon x) (d : TaskData) :
    Runs (Represents p) (Raw.setObject ((Slot.task x).key p) d) s
      (fun _ u => u = s.setTask x (some d)) := runs_putTask proper (some d)

theorem runs_updateScheduledTime (number : ℚ → ℚ) (queue : String) (proper : NoColon x) (ts : Time) :
    Runs (Represents p)
      (Raw.updateScheduledTime number (key p [TaskState.scheduled.name, queue]) (key p ["task", x])
        ts x) s
      (fun r u => (r, u) = updateScheduledTime number queue x ts s) := by
  have old := @runs_zscore p s .scheduled queue x
  refine runs_lift_bind old (fun score u h => ?_)
  rw [h.1, h.2]
  refine runs_ite (fun here => ?_) (fun missing => ?_)
  · have inside : x ∈ s.zset .scheduled queue := here
    rw [updateScheduledTime, if_neg (not_not.mpr inside)]
    refine runs_call_bind (runs_zadd ts x) ?_
    refine runs_lift_bind (runs_getObject proper) (fun data u h => ?_)
    rw [h.1, h.2]
    simp only [Store.task_setZset]
    cases s.task x with
    | none => exact runs_throw rfl
    | some d =>
      simp only
      refine runs_ite (fun recodable => ?_) (fun refused => ?_)
      · rw [if_pos recodable]
        exact runs_call_bind (runs_setObject proper _) (runs_pure rfl)
      · rw [if_neg refused]
        exact runs_throw rfl
  · have out : x ∉ s.zset .scheduled queue := by
      rw [Store.not_mem_iff_score]
      simpa using missing
    rw [updateScheduledTime, if_pos out]
    exact runs_pure rfl

theorem runs_expiredIn (time : Time) (queues : List String) (batchSize : Int) :
    Runs (Represents p) (Raw.expiredIn p time queues batchSize) s
      (fun r u => r = expiredIn s time queues batchSize ∧ u = s) := by
  induction queues generalizing batchSize with
  | nil => exact runs_pure ⟨rfl, rfl⟩
  | cons queue queues ih =>
    have members : Runs (Represents p)
        (Raw.zrangebyscore ((Slot.zset .active queue).key p) (some 0) (some time) batchSize) s
        (fun r u => r = ((s.zset .active queue).rangeByScore (some 0) (some time) batchSize).map
          Prod.snd ∧ u = s) := runs_zget.andThen (runs_pure ⟨rfl, rfl⟩)
    refine members.andThen ?_
    unfold expiredIn
    refine runs_ite (fun full => ?_) (fun more => ?_)
    · dsimp only
      rw [if_pos full]
      exact (runs_pure ⟨rfl, rfl⟩).andThen (runs_pure ⟨rfl, rfl⟩)
    · dsimp only
      rw [if_neg more]
      exact (ih _).andThen (runs_pure ⟨rfl, rfl⟩)

theorem runs_getExpiredTasks (e : Enumeration) (time : Time) (batchSize : Int) :
    Runs (Represents p) (Raw.getExpiredTasks e p time batchSize) s
      (fun r u => r = getExpiredTasks e time batchSize s ∧ u = s) := by
  have queues : Runs (Represents p) (Raw.smembers e ((Slot.states .active).key p)) s
      (fun r u => r = e.order (s.queues .active) ∧ u = s) := runs_smembers e
  exact queues.andThen (runs_expiredIn _ _ _)

theorem runs_delay (queue : String) {data : TaskData} (proper : NoColon data.id) (ts : Option Time)
    (now : Instant) (announce : Bool) :
    Runs (Represents p) (Raw.delay p queue data ts now announce) s
      (fun _ u => u = delayPipeline queue data ts now announce s) := by
  let state := (delayTarget ts now).1
  refine (runs_sadd queue).bind (fun _ u h => ?_)
  rw [h]
  refine (runs_setObject proper _).bind (fun _ u h => ?_)
  rw [h]
  refine (runs_zaddNoupdate _ data.id).bind (fun _ u h => ?_)
  rw [h]
  unfold delayPipeline
  refine runs_ite (fun announced => ?_) (fun quiet => ?_)
  · dsimp only
    rw [if_pos announced]
    exact runs_publish queue
  · dsimp only
    rw [if_neg quiet]
    exact runs_pure rfl

theorem runs_storeExecution (proper : NoColon x) (maxStored : Option Int) (e : Execution) :
    Runs (Represents p) (Raw.storeExecution p x maxStored e) s
      (fun _ u => u = storeExecution x maxStored e s) := by
  have counted : Runs (Represents p) (Raw.incr ((Slot.executionsCount x).key p)) s
      (fun _ u => u = s.setExecutionsCount x (some ((s.executionsCount x).getD 0 + 1))) :=
    (runs_getNumber proper).andThen (runs_putCount proper (some _))
  refine counted.bind (fun _ u h => ?_)
  rw [h]
  let t := s.setExecutionsCount x (some ((s.executionsCount x).getD 0 + 1))
  have pushed : Runs (Represents p) (Raw.rpush ((Slot.executions x).key p) e) t
      (fun _ u => u = t.setExecutions x (s.executions x ++ [e])) :=
    (runs_lget proper).andThen (runs_putExecutions proper _)
  refine pushed.bind (fun _ u h => ?_)
  rw [h]
  cases maxStored with
  | none => exact runs_pure rfl
  | some m =>
    by_cases unlimited : m = 0
    · simp only [unlimited, if_true]
      exact runs_pure rfl
    · simp only [unlimited, if_false]
      let v := t.setExecutions x (s.executions x ++ [e])
      have stored : v.executions x = s.executions x ++ [e] := if_pos rfl
      have trimmed : Runs (Represents p) (Raw.ltrimLast ((Slot.executions x).key p) m) v
          (fun _ u => u = v.setExecutions x (ltrim m (v.executions x))) :=
        (runs_lget proper).andThen (runs_putExecutions proper _)
      refine trimmed.imp (fun _ u h => ?_)
      rw [h, stored]
      simp only [storeExecution, unlimited, if_false, v, t, Store.setExecutions,
        Store.setExecutionsCount]
      congr 1
      funext y
      split_ifs <;> rfl

theorem runs_acquireLock (name token : String) :
    Runs (Represents p) (Raw.acquireLock (key p ["lockv2", name]) token) s
      (fun r u => (r, u) = exec (.acquireLock name token) s) := by
  refine runs_getToken.andThen ?_
  cases held : s.locks name with
  | some other =>
    simp only [exec, held]
    exact runs_pure rfl
  | none =>
    simp only [exec, held]
    refine (runs_putLock (some token)).bind (fun _ u h => ?_)
    rw [h]
    exact runs_pure rfl

theorem runs_releaseLock (name token : String) :
    Runs (Represents p) (Raw.releaseLock (key p ["lockv2", name]) token) s
      (fun r u => (r, u) = exec (.releaseLock name token) s) := by
  refine runs_getToken.andThen (runs_ite (fun held => ?_) (fun lost => ?_))
  · simp only [exec, held, if_true]
    refine (runs_putLock none).bind (fun _ u h => ?_)
    rw [h]
    exact runs_pure rfl
  · simp only [exec, lost, if_false]
    exact runs_pure rfl

theorem runs_mget (ids : List String) (proper : ∀ id ∈ ids, NoColon id) :
    Runs (Represents p) (Raw.mget p ids) s (fun r u => r = ids.map s.task ∧ u = s) := by
  induction ids with
  | nil => exact runs_pure ⟨rfl, rfl⟩
  | cons id ids ih =>
    have first : NoColon id := proper id List.mem_cons_self
    have rest := ih (fun x hx => proper x (List.mem_cons_of_mem id hx))
    exact (runs_getObject first).andThen (rest.andThen (runs_pure ⟨rfl, rfl⟩))

theorem runs_lastExecutions (n : Nat) (ids : List String) (proper : ∀ id ∈ ids, NoColon id) :
    Runs (Represents p) (Raw.lastExecutions p n ids) s
      (fun r u => r = ids.map (fun id => (s.executions id).rtake n) ∧ u = s) := by
  induction ids with
  | nil => exact runs_pure ⟨rfl, rfl⟩
  | cons id ids ih =>
    have first : NoColon id := proper id List.mem_cons_self
    have rest := ih (fun x hx => proper x (List.mem_cons_of_mem id hx))
    exact (runs_lget first).andThen (rest.andThen (runs_pure ⟨rfl, rfl⟩))

end

/-! All commands, and runs of them. -/

/-- The ids that a command names keys with have no colon. -/
def Command.PlainIds : Command → Prop
  | .delay _ data _ _ _ => NoColon data.id
  | .move m => NoColon m.id
  | .updateScheduledTime _ _ id _ | .storeExecution id _ _ | .fromId _ _ id | .get id
  | .lastExecution id | .nExecutions id => NoColon id
  | .mget ids | .mgetExecutions ids _ => ∀ id ∈ ids, NoColon id
  | _ => True

instance instDecidablePlainIds (c : Command) : Decidable c.PlainIds :=
  Command.casesOn c (motive := fun c => Decidable c.PlainIds)
    (fun _ _ _ _ _ => inferInstanceAs (Decidable (NoColon _)))
    (fun _ _ _ _ => isTrue trivial) (fun _ _ _ => isTrue trivial)
    (fun _ => inferInstanceAs (Decidable (NoColon _)))
    (fun _ _ _ _ => inferInstanceAs (Decidable (NoColon _)))
    (fun _ _ _ => isTrue trivial) (fun _ => isTrue trivial)
    (fun _ _ _ => inferInstanceAs (Decidable (NoColon _)))
    (fun _ _ => isTrue trivial) (fun _ _ => isTrue trivial) (fun _ => isTrue trivial)
    (fun _ _ _ => inferInstanceAs (Decidable (NoColon _)))
    (fun _ => inferInstanceAs (Decidable (∀ id ∈ _, NoColon id)))
    (fun _ => inferInstanceAs (Decidable (NoColon _)))
    (fun _ => inferInstanceAs (Decidable (NoColon _)))
    (fun _ => inferInstanceAs (Decidable (NoColon _)))
    (fun _ => isTrue trivial) (fun _ _ _ => isTrue trivial) (fun _ => isTrue trivial)
    (fun _ _ => isTrue trivial) (fun _ _ _ _ => isTrue trivial)
    (fun _ _ => inferInstanceAs (Decidable (∀ id ∈ _, NoColon id)))
    (fun _ _ => isTrue trivial)

/-- A command as it is sent to Redis. -/
def Raw.exec (p : String) : (c : Command) → Raw (Reply c)
  | .delay queue data ts now announce => delay p queue data ts now announce
  | .pickup queue count now later =>
      let a := pickupArgs queue count now later
      zpoppushExists (zpoppushKeys p a) a
  | .promote queue count now =>
      let a := promoteArgs queue count now
      zpoppushExists (zpoppushKeys p a) a
  | .move m => moveTask (moveTaskKeys p m.args) m.args
  | .updateScheduledTime number queue id ts => updateScheduledTime number
      (key p [TaskState.scheduled.name, queue]) (key p ["task", id]) ts id
  | .heartbeat queue ids now => heartbeat p queue ids now
  | .publish queue => publish (key p ["activity"]) queue
  | .storeExecution id maxStored e => storeExecution p id maxStored e
  | .acquireLock name token => acquireLock (key p ["lockv2", name]) token
  | .releaseLock name token => releaseLock (key p ["lockv2", name]) token
  | .expireLock name => del (key p ["lockv2", name])
  | .fromId state queue id => fromId p state queue id
  | .mget ids => mget p ids
  | .get id => getObject (key p ["task", id])
  | .lastExecution id => do
      let executions ← lget (key p ["task", id, "executions"])
      pure executions.getLast?
  | .nExecutions id => do
      let found ← exists_ (key p ["task", id])
      let count ← getNumber (key p ["task", id, "executions_count"])
      pure (found, count)
  | .queueSizes queue => do
      let queued ← zcard (key p [TaskState.queued.name, queue])
      let scheduled ← zcard (key p [TaskState.scheduled.name, queue])
      let active ← zcard (key p [TaskState.active.name, queue])
      pure (queued + scheduled + active)
  | .getExpiredTasks e time batchSize => getExpiredTasks e p time batchSize
  | .permanentError _ => pure ()
  | .zscores queue id => do
      let queued ← zscore (key p [TaskState.queued.name, queue]) id
      let active ← zscore (key p [TaskState.active.name, queue]) id
      let scheduled ← zscore (key p [TaskState.scheduled.name, queue]) id
      pure [queued, active, scheduled]
  | .zrange state queue start stop => do
      let n ← zcard (key p [state.name, queue])
      let items ← zrange (key p [state.name, queue]) start stop
      pure (n, items)
  | .mgetExecutions ids n => do
      let data ← mget p ids
      let executions ← lastExecutions p n ids
      pure (data, executions)
  | .smembers e state => smembers e (key p [state.name])

section

variable {p : String} {s : Store}

theorem runs_zcard {st : TaskState} {q : String} :
    Runs (Represents p) (Raw.zcard ((Slot.zset st q).key p)) s
      (fun r u => r = (s.zset st q).card ∧ u = s) := runs_zget.andThen (runs_pure ⟨rfl, rfl⟩)

theorem runs_zrange {st : TaskState} {q : String} (start stop : Int) :
    Runs (Represents p) (Raw.zrange ((Slot.zset st q).key p) start stop) s
      (fun r u => r = (s.zset st q).range start stop ∧ u = s) :=
  runs_zget.andThen (runs_pure ⟨rfl, rfl⟩)

/-- What only reads answers what the store has. -/
theorem answers {α : Type} {q : Raw α} {a : α}
    (h : Runs (Represents p) q s (fun r u => r = a ∧ u = s)) :
    Runs (Represents p) q s (fun r u => (r, u) = (a, s)) :=
  h.imp (fun _ _ h => Prod.ext h.1 h.2)

theorem writes {q : Raw Unit} {t : Store} (h : Runs (Represents p) q s (fun _ u => u = t)) :
    Runs (Represents p) q s (fun r u => (r, u) = ((), t)) :=
  h.imp (fun _ _ h => Prod.ext rfl h)

/-- Each command does on the keys, and replies, what is said of the store. -/
theorem runs_exec {c : Command} (proper : c.PlainIds) (s : Store) :
    Runs (Represents p) (Raw.exec p c) s (fun r u => (r, u) = exec c s) := by
  cases c with
  | delay queue data ts now announce => exact writes (runs_delay queue proper ts now announce)
  | pickup queue count now later => exact runs_zpoppushExists _
  | promote queue count now => exact runs_zpoppushExists _
  | move m => exact runs_moveTask (a := m.args) proper
  | updateScheduledTime number queue id ts => exact runs_updateScheduledTime number queue proper ts
  | heartbeat queue ids now => exact writes (runs_zget.andThen (runs_zput _))
  | publish queue => exact writes (runs_publish queue)
  | storeExecution id maxStored e => exact writes (runs_storeExecution proper maxStored e)
  | acquireLock name token => exact runs_acquireLock name token
  | releaseLock name token => exact runs_releaseLock name token
  | expireLock name => exact writes (runs_putLock none)
  | fromId state queue id =>
    exact answers ((runs_getObject proper).andThen ((runs_zscore id).andThen (runs_pure ⟨rfl, rfl⟩)))
  | mget ids => exact answers (runs_mget ids proper)
  | get id => exact answers (runs_getObject proper)
  | lastExecution id => exact answers ((runs_lget proper).andThen (runs_pure ⟨rfl, rfl⟩))
  | nExecutions id =>
    have existing : (s.value (.task id)).isSome = (s.task id).isSome := Option.isSome_map
    have found : Runs (Represents p) (Raw.exists_ ((Slot.task id).key p)) s
        (fun r u => r = (s.task id).isSome ∧ u = s) := by
      rw [← existing]
      exact runs_exists (.task id) proper
    exact answers (found.andThen ((runs_getNumber proper).andThen (runs_pure ⟨rfl, rfl⟩)))
  | queueSizes queue =>
    exact answers (runs_zcard.andThen (runs_zcard.andThen (runs_zcard.andThen
      (runs_pure ⟨rfl, rfl⟩))))
  | getExpiredTasks e time batchSize => exact answers (runs_getExpiredTasks e time batchSize)
  | permanentError id => exact runs_pure rfl
  | zscores queue id =>
    exact answers ((runs_zscore id).andThen ((runs_zscore id).andThen ((runs_zscore id).andThen
      (runs_pure ⟨rfl, rfl⟩))))
  | zrange state queue start stop =>
    exact answers (runs_zcard.andThen ((runs_zrange start stop).andThen (runs_pure ⟨rfl, rfl⟩)))
  | mgetExecutions ids n =>
    exact answers ((runs_mget ids proper).andThen ((runs_lastExecutions n ids proper).andThen
      (runs_pure ⟨rfl, rfl⟩)))
  | smembers e state => exact answers (runs_smembers e)

end

/-- The commands one after the other, each with its reply. -/
def Raw.runAll (p : String) : List Command → Raw (List ((c : Command) × Reply c))
  | [] => pure []
  | c :: l => do
    let reply ← Raw.exec p c
    let rest ← runAll p l
    pure (⟨c, reply⟩ :: rest)

def replies (s : Store) : List Command → List ((c : Command) × Reply c)
  | [] => []
  | c :: l => ⟨c, (exec c s).1⟩ :: replies (exec c s).2 l

theorem runs_runAll {p : String} {l : List Command} (proper : ∀ c ∈ l, c.PlainIds) (s : Store) :
    Runs (Represents p) (Raw.runAll p l) s (fun r u => r = replies s l ∧ u = runAll s l) := by
  induction l generalizing s with
  | nil => exact runs_pure ⟨rfl, rfl⟩
  | cons c l ih =>
    refine (runs_exec (proper c List.mem_cons_self) s).bind (fun reply u h => ?_)
    obtain ⟨replied, left⟩ := Prod.mk.inj h
    rw [replied, left]
    have rest := ih (fun d hd => proper d (List.mem_cons_of_mem c hd)) (exec c s).2
    exact rest.andThen (runs_pure ⟨rfl, rfl⟩)

/-- With any prefix, and any names of queues and locks, the commands of the package never meet a
key of another type, and what they do and reply is what is said of the store. -/
theorem database_run (p : String) (l : List Command) (proper : ∀ c ∈ l, c.PlainIds) :
    ∃ ks, Raw.runAll p l Database.empty = some (replies Store.empty l, ks) ∧
      Represents p ks (runAll Store.empty l) := by
  obtain ⟨r, ks, s, ran, represents, replied, left⟩ :=
    runs_runAll proper Store.empty Database.empty (represents_empty p)
  rw [replied] at ran
  rw [left] at represents
  exact ⟨ks, ran, represents⟩

/-- A queue whose name looks like keys of the package. -/
def colonQueue : List Command :=
  [.delay "task:a:executions" { id := "a", func := "tasks:simple_task" } none 1 true,
    .pickup "task:a:executions" 1 2 3,
    .storeExecution "a" none { exceptionName := "builtins:Exception", timeStarted := 2,
                               timeFailed := 3 },
    .move ⟨.fail, "task:a:executions", "a", false, 4, true⟩]

theorem database_run_colon : ∃ ks,
    Raw.runAll "t" colonQueue Database.empty = some (replies Store.empty colonQueue, ks) ∧
      Represents "t" ks (runAll Store.empty colonQueue) :=
  database_run "t" colonQueue (by decide)

end TaskTiger
