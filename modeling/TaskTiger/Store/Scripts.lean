import TaskTiger.Store.Cjson
import TaskTiger.Store.Store

namespace TaskTiger

open Redis

/-- Why a script raised. What it wrote before raising stays written. -/
inductive ScriptError where
  | failIfNotInZset
  | unsupportedMode (mode : String)
  | tooManyResults
  | noObject
  | notRecodable
  deriving DecidableEq, Repr

/-- ZADD_NOUPDATE. -/
def zaddNoupdate (z : ZSet Time String) (score : Time) (member : String) : ZSet Time String :=
  if member ∈ z then z else z.add score member

/-- ZADD_UPDATE_MIN. -/
def zaddUpdateMin (z : ZSet Time String) (score : Time) (member : String) : ZSet Time String :=
  match z.score member with
  | some old => z.add (min old score) member
  | none => z.add score member

/-- SREM_IF_NOT_EXISTS. -/
def sremIfNotExists (st : TaskState) (queue : String) (s : Store) : Store :=
  if (s.zset st queue).nonempty then s else s.srem st queue

theorem score_zaddNoupdate (z : ZSet Time String) (score : Time) (member x : String) :
    (zaddNoupdate z score member).score x =
      if x = member then some ((z.score member).getD score) else z.score x := by
  unfold zaddNoupdate
  by_cases hm : member ∈ z
  · obtain ⟨old, ho⟩ := ZSet.mem_iff.mp hm
    by_cases hx : x = member
    · simp [hm, hx, ho]
    · simp [hm, hx]
  · have hn := ZSet.not_mem_iff.mp hm
    simp [hm, hn, ZSet.score_add]

theorem score_zaddUpdateMin (z : ZSet Time String) (score : Time) (member x : String) :
    (zaddUpdateMin z score member).score x =
      if x = member then some (((z.score member).map (min · score)).getD score)
      else z.score x := by
  unfold zaddUpdateMin
  cases ho : z.score member <;> simp [ZSet.score_add]

@[simp] theorem zset_sremIfNotExists (st : TaskState) (queue : String) (s : Store) :
    (sremIfNotExists st queue s).zset = s.zset := by
  unfold sremIfNotExists
  split_ifs <;> rfl

@[simp] theorem task_sremIfNotExists (st : TaskState) (queue : String) (s : Store) :
    (sremIfNotExists st queue s).task = s.task := by
  unfold sremIfNotExists
  split_ifs <;> rfl

@[simp] theorem activity_sremIfNotExists (st : TaskState) (queue : String) (s : Store) :
    (sremIfNotExists st queue s).activity = s.activity := by
  unfold sremIfNotExists
  split_ifs <;> rfl

@[simp] theorem locks_sremIfNotExists (st : TaskState) (queue : String) (s : Store) :
    (sremIfNotExists st queue s).locks = s.locks := by
  unfold sremIfNotExists
  split_ifs <;> rfl

@[simp] theorem executions_sremIfNotExists (st : TaskState) (queue : String) (s : Store) :
    (sremIfNotExists st queue s).executions = s.executions := by
  unfold sremIfNotExists
  split_ifs <;> rfl

@[simp] theorem executionsCount_sremIfNotExists (st : TaskState) (queue : String) (s : Store) :
    (sremIfNotExists st queue s).executionsCount = s.executionsCount := by
  unfold sremIfNotExists
  split_ifs <;> rfl

@[simp] theorem mem_queues_sremIfNotExists (st st' : TaskState) (queue q : String) (s : Store) :
    q ∈ (sremIfNotExists st queue s).queues st' ↔
      q ∈ s.queues st' ∧ ((s.zset st queue).nonempty = true ∨ ¬(st' = st ∧ q = queue)) := by
  unfold sremIfNotExists
  by_cases h : (s.zset st queue).nonempty = true
  · simp [h]
  · simp [h]

/-! zpoppush with if_exists, _ZPOPPUSH_EXISTS_TEMPLATE with the sets updated. -/

/-- Lua 5.1's unpack: its results and its own argument must fit a C stack of 8000 slots. -/
def unpackFits (n : Nat) : Prop := n + 1 ≤ 8000

instance (n : Nat) : Decidable (unpackFits n) := inferInstanceAs (Decidable (n + 1 ≤ 8000))

/-- KEYS and ARGV of the script: `score` is none for '+inf', `ifExists` holds the state of
if_exists_key with if_exists_score, and is none in ZPOPPUSH_EXISTS_IGNORE_UPDATE_SETS. -/
structure Zpoppush where
  source : TaskState
  destination : TaskState
  queue : String
  score : Option Time
  count : Int
  newScore : Time
  ifExists : Option (TaskState × Time)

namespace Zpoppush

variable (a : Zpoppush) (s : Store)

/-- The affected members of the source. -/
def members : List String :=
  ((s.zset a.source a.queue).rangeByScore none a.score a.count).map Prod.snd

/-- Members that already exist at the destination. -/
def existing : List String := (a.members s).filter (fun m => m ∈ s.zset a.destination a.queue)

/-- Members that move to the destination. -/
def moved : List String := (a.members s).filter (fun m => m ∉ s.zset a.destination a.queue)

/-- The score/member table of the moved members can be unpacked. -/
def Fits : Prop := unpackFits (2 * (a.moved s).length)

instance : Decidable (a.Fits s) := inferInstanceAs (Decidable (unpackFits _))

/-- The source after ZREMRANGEBYRANK. -/
def popped : Store :=
  s.setZset a.source a.queue ((s.zset a.source a.queue).popFirst (a.members s).length)

/-- ZADD of the moved members, all with the new score. -/
def added : Store :=
  (a.popped s).setZset a.destination a.queue
    ((a.moved s).foldl (fun z m => z.add a.newScore m) ((a.popped s).zset a.destination a.queue))

/-- The "if exists" action. -/
def diverted : Store :=
  match a.ifExists with
  | none => a.added s
  | some (st, score) =>
      (a.added s).setZset st a.queue
        ((a.existing s).foldl (fun z m => zaddUpdateMin z score m) ((a.added s).zset st a.queue))

/-- The "on success" action, and the set of if_exists_key. -/
def listed : Store :=
  let t := (sremIfNotExists a.source a.queue (a.diverted s)).sadd a.destination a.queue
  match a.ifExists with
  | none => t
  | some (st, _) => if (t.zset st a.queue).nonempty then t.sadd st a.queue else t

end Zpoppush

def zpoppushExists (a : Zpoppush) (s : Store) : Except ScriptError (List String) × Store :=
  if a.members s = [] then (.ok [], s)
  else if a.Fits s then (.ok (a.moved s), a.listed s)
  else (.error .tooManyResults, a.popped s)

/-! The scripts that move members whether or not they are at the destination, _ZPOPPUSH_TEMPLATE
and ZPOPPUSH_WITHSCORES. -/

namespace Zpoppush

variable (a : Zpoppush) (s : Store)

/-- The affected members of the source, with their scores. -/
def membersScores : List (Time × String) :=
  (s.zset a.source a.queue).rangeByScore none a.score a.count

/-- ZADD of all affected members to the destination, after they have left the source. -/
def pushed : Store :=
  (a.popped s).setZset a.destination a.queue
    ((a.members s).foldl (fun z m => z.add a.newScore m) ((a.popped s).zset a.destination a.queue))

/-- _ON_SUCCESS_UPDATE_SETS_TEMPLATE. -/
def updateSets (t : Store) : Store :=
  (sremIfNotExists a.source a.queue t).sadd a.destination a.queue

end Zpoppush

/-- ZPOPPUSH. -/
def zpoppush (a : Zpoppush) (s : Store) : Except ScriptError (List String) × Store :=
  if a.members s = [] then (.ok [], s)
  else if unpackFits (2 * (a.members s).length) then (.ok (a.members s), a.pushed s)
  else (.error .tooManyResults, a.popped s)

/-- ZPOPPUSH_UPDATE_SETS. -/
def zpoppushUpdateSets (a : Zpoppush) (s : Store) : Except ScriptError (List String) × Store :=
  if a.members s = [] then (.ok [], s)
  else if unpackFits (2 * (a.members s).length) then
    (.ok (a.members s), a.updateSets (a.pushed s))
  else (.error .tooManyResults, a.popped s)

/-- ZPOPPUSH_WITHSCORES. -/
def zpoppushWithscores (a : Zpoppush) (s : Store) :
    Except ScriptError (List (Time × String)) × Store :=
  if a.members s = [] then (.ok [], s)
  else if unpackFits (2 * (a.members s).length) then (.ok (a.membersScores s), a.pushed s)
  else (.error .tooManyResults, a.popped s)

/-- The scripts of RedisScripts.zpoppush. `ifExists` is ZPOPPUSH_EXISTS_MIN_UPDATE_SETS where the
call has if_exists, and ZPOPPUSH_EXISTS_IGNORE_UPDATE_SETS where it has none. -/
inductive ZpoppushScript where
  | plain
  | updateSets
  | withscores
  | ifExists
  deriving DecidableEq, Repr

namespace ZpoppushScript

/-- Whether the script raises, and the store it leaves. -/
def run : ZpoppushScript → Zpoppush → Store → Except ScriptError Unit × Store
  | .plain, a, s => ((zpoppush a s).1.map (fun _ => ()), (zpoppush a s).2)
  | .updateSets, a, s => ((zpoppushUpdateSets a s).1.map (fun _ => ()), (zpoppushUpdateSets a s).2)
  | .withscores, a, s => ((zpoppushWithscores a s).1.map (fun _ => ()), (zpoppushWithscores a s).2)
  | .ifExists, a, s => ((zpoppushExists a s).1.map (fun _ => ()), (zpoppushExists a s).2)

/-- The members that the script unpacks. -/
def unpacked : ZpoppushScript → Zpoppush → Store → List String
  | .ifExists, a, s => a.moved s
  | _, a, s => a.members s

/-- The members with their new scores can be unpacked. -/
def Fits (k : ZpoppushScript) (a : Zpoppush) (s : Store) : Prop :=
  unpackFits (2 * (k.unpacked a s).length)

instance (k : ZpoppushScript) (a : Zpoppush) (s : Store) : Decidable (k.Fits a s) :=
  inferInstanceAs (Decidable (unpackFits _))

end ZpoppushScript

/-! move_task.lua. -/

inductive Mode where
  | always
  | nx
  | min
  | other (mode : String)

/-- zadd_w_mode; none where it raises. -/
def zaddWMode (z : ZSet Time String) (score : Time) (member : String) :
    Mode → Except ScriptError (ZSet Time String)
  | .always => .ok (z.add score member)
  | .nx => .ok (zaddNoupdate z score member)
  | .min => .ok (zaddUpdateMin z score member)
  | .other mode => .error (.unsupportedMode mode)

structure MoveTask where
  id : String
  queue : String
  fromState : TaskState
  toState : Option TaskState
  unique : Bool
  when : Time
  mode : Mode
  publishQueuedTasks : Bool

/-- Whether DELETE_IF_NOT_IN_ZSETS finds the value in none of the ZSETs. -/
def notInZsets (s : Store) (queue id : String) (zsets : List TaskState) : Bool :=
  zsets.all (fun st => id ∉ s.zset st queue)

/-- Delete executions if there were no errors. -/
def removeExecutions (a : MoveTask) (s : Store) : Store :=
  if notInZsets s a.queue a.id (if a.fromState = .error then [] else [.error])
    then s.delExecutions a.id else s

/-- Only delete task if it's not in any other queue. -/
def removeObject (a : MoveTask) (s : Store) : Store :=
  if notInZsets s a.queue a.id
      ([TaskState.active, .queued, .error, .scheduled].filter (· ≠ a.fromState))
    then s.setTask a.id none else s

/-- The removal branch: the id has left from_state's ZSET and goes nowhere. -/
def removeTask (a : MoveTask) (s : Store) : Store :=
  if a.unique then removeObject a (removeExecutions a s)
  else (s.setTask a.id none).delExecutions a.id  -- Safe to remove

/-- ZREM <from_state>:<queue> id. -/
def leave (a : MoveTask) (s : Store) : Store :=
  s.setZset a.fromState a.queue ((s.zset a.fromState a.queue).rem a.id)

def moveTask (a : MoveTask) (s : Store) : Except ScriptError Unit × Store :=
  if a.id ∉ s.zset a.fromState a.queue then (.error .failIfNotInZset, s)
  else match a.toState with
    | none => (.ok (), sremIfNotExists a.fromState a.queue (removeTask a (leave a s)))
    | some dest =>
      match zaddWMode (s.zset dest a.queue) a.when a.id a.mode with
      | .error e => (.error e, s)
      | .ok z =>
        let s := leave a ((s.setZset dest a.queue z).sadd dest a.queue)
        let s := sremIfNotExists a.fromState a.queue s
        (.ok (), if dest = .queued ∧ a.publishQueuedTasks then s.publish a.queue else s)

/-! UPDATE_SCHEDULED_TIME and GET_EXPIRED_TASKS. -/

/-- The ZADD comes first: when there is no object to decode, or cjson cannot decode or encode it,
the script raises and the new score stays. -/
def updateScheduledTime (number : ℚ → ℚ) (queue id : String) (ts : Time) (s : Store) :
    Except ScriptError Bool × Store :=
  if id ∉ s.zset .scheduled queue then (.ok false, s)
  else
    let t := s.setZset .scheduled queue ((s.zset .scheduled queue).add ts id)
    match t.task id with
    | none => (.error .noObject, t)
    | some d =>
      if d.recodable ts then
        (.ok true, t.setTask id (some { d.cjson number with scheduledAt := some (number ts) }))
      else (.error .notRecodable, t)

/-- An order in which SMEMBERS may list a set. -/
structure Enumeration where
  order : Finset String → List String
  nodup : ∀ F, (order F).Nodup
  mem : ∀ F q, q ∈ order F ↔ q ∈ F

/-- The order of the queue names. -/
def sortedEnumeration : Enumeration where
  order := fun F => F.sort (· ≤ ·)
  nodup := fun F => F.sort_nodup _
  mem := fun F _ => F.mem_sort _

/-- The loop over the active queues, with the batch size that is left. -/
def expiredIn (s : Store) (time : Time) : List String → Int → List (String × String)
  | [], _ => []
  | queue :: queues, batchSize =>
      let members :=
        ((s.zset .active queue).rangeByScore (some 0) (some time) batchSize).map Prod.snd
      let left := batchSize - members.length
      members.map (fun id => (queue, id)) ++
        if left ≤ 0 then [] else expiredIn s time queues left

def getExpiredTasks (e : Enumeration) (time : Time) (batchSize : Int) (s : Store) :
    List (String × String) :=
  expiredIn s time (e.order (s.queues .active)) batchSize

end TaskTiger
