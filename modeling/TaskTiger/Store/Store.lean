import TaskTiger.Framework.SortedSet
import TaskTiger.Store.Data

namespace TaskTiger

open Redis

/-- The Redis keys of the package, below the prefix:
SET <state>, ZSET <state>:<queue>, STRING task:<id>, LIST task:<id>:executions,
STRING task:<id>:executions_count, STRING lockv2:<name> and the channel activity, here as the
list of all messages published so far. -/
structure Store where
  queues : TaskState → Finset String
  zset : TaskState → String → ZSet Time String
  task : String → Option TaskData
  executions : String → List Execution
  executionsCount : String → Option Nat
  locks : String → Option String
  activity : List String

namespace Store

def empty : Store where
  queues := fun _ => ∅
  zset := fun _ _ => ZSet.empty
  task := fun _ => none
  executions := fun _ => []
  executionsCount := fun _ => none
  locks := fun _ => none
  activity := []

/-- ZSCORE <state>:<queue> id. -/
def score (s : Store) (st : TaskState) (queue id : String) : Option Time :=
  (s.zset st queue).score id

def setZset (s : Store) (st : TaskState) (queue : String) (z : ZSet Time String) : Store :=
  { s with zset := fun st' q => if st' = st ∧ q = queue then z else s.zset st' q }

/-- SADD <state> queue. -/
def sadd (s : Store) (st : TaskState) (queue : String) : Store :=
  { s with queues := fun st' => if st' = st then insert queue (s.queues st) else s.queues st' }

/-- SREM <state> queue. -/
def srem (s : Store) (st : TaskState) (queue : String) : Store :=
  { s with queues := fun st' => if st' = st then (s.queues st).erase queue else s.queues st' }

/-- SET task:<id>, and DEL when there is no object. -/
def setTask (s : Store) (id : String) (d : Option TaskData) : Store :=
  { s with task := fun x => if x = id then d else s.task x }

/-- DEL task:<id>:executions task:<id>:executions_count. -/
def delExecutions (s : Store) (id : String) : Store :=
  { s with
    executions := fun x => if x = id then [] else s.executions x
    executionsCount := fun x => if x = id then none else s.executionsCount x }

/-- PUBLISH activity queue. -/
def publish (s : Store) (queue : String) : Store :=
  { s with activity := s.activity ++ [queue] }

theorem mem_iff_score {s : Store} {st : TaskState} {q x : String} :
    x ∈ s.zset st q ↔ s.score st q x ≠ none := by
  rw [ZSet.mem_def, Option.isSome_iff_ne_none]
  rfl

theorem not_mem_iff_score {s : Store} {st : TaskState} {q x : String} :
    x ∉ s.zset st q ↔ s.score st q x = none := by
  rw [mem_iff_score, not_not]

/-- Only which ids have scores matters for whether a ZSET exists. -/
theorem nonempty_congr {s t : Store} {st : TaskState} {q : String}
    (h : ∀ x, x ∈ s.zset st q ↔ x ∈ t.zset st q) :
    (s.zset st q).nonempty = (t.zset st q).nonempty := by
  rw [Bool.eq_iff_iff, ZSet.nonempty_iff, ZSet.nonempty_iff]
  exact exists_congr h

section Lookup

variable (s : Store) (st st' : TaskState) (queue q id x : String) (z : ZSet Time String)
  (d : Option TaskData)

@[simp] theorem queues_empty : empty.queues st = ∅ := rfl
@[simp] theorem zset_empty : empty.zset st q = ZSet.empty := rfl
@[simp] theorem score_empty : empty.score st q x = none := rfl
@[simp] theorem task_empty : empty.task x = none := rfl
@[simp] theorem activity_empty : empty.activity = [] := rfl

@[simp] theorem zset_setZset : (s.setZset st queue z).zset st' q =
    if st' = st ∧ q = queue then z else s.zset st' q := rfl
@[simp] theorem queues_setZset : (s.setZset st queue z).queues = s.queues := rfl
@[simp] theorem task_setZset : (s.setZset st queue z).task = s.task := rfl
@[simp] theorem locks_setZset : (s.setZset st queue z).locks = s.locks := rfl
@[simp] theorem activity_setZset : (s.setZset st queue z).activity = s.activity := rfl

@[simp] theorem zset_sadd : (s.sadd st queue).zset = s.zset := rfl
@[simp] theorem task_sadd : (s.sadd st queue).task = s.task := rfl
@[simp] theorem locks_sadd : (s.sadd st queue).locks = s.locks := rfl
@[simp] theorem activity_sadd : (s.sadd st queue).activity = s.activity := rfl

@[simp] theorem mem_queues_sadd : q ∈ (s.sadd st queue).queues st' ↔
    q ∈ s.queues st' ∨ st' = st ∧ q = queue := by
  by_cases h : st' = st
  · subst h
    simp [sadd, or_comm]
  · simp [sadd, h]

@[simp] theorem zset_srem : (s.srem st queue).zset = s.zset := rfl
@[simp] theorem task_srem : (s.srem st queue).task = s.task := rfl
@[simp] theorem locks_srem : (s.srem st queue).locks = s.locks := rfl
@[simp] theorem activity_srem : (s.srem st queue).activity = s.activity := rfl

@[simp] theorem mem_queues_srem : q ∈ (s.srem st queue).queues st' ↔
    q ∈ s.queues st' ∧ ¬(st' = st ∧ q = queue) := by
  by_cases h : st' = st
  · subst h
    simp [srem, and_comm]
  · simp [srem, h]

@[simp] theorem zset_setTask : (s.setTask id d).zset = s.zset := rfl
@[simp] theorem queues_setTask : (s.setTask id d).queues = s.queues := rfl
@[simp] theorem locks_setTask : (s.setTask id d).locks = s.locks := rfl
@[simp] theorem activity_setTask : (s.setTask id d).activity = s.activity := rfl
@[simp] theorem task_setTask : (s.setTask id d).task x = if x = id then d else s.task x := rfl

@[simp] theorem zset_delExecutions : (s.delExecutions id).zset = s.zset := rfl
@[simp] theorem queues_delExecutions : (s.delExecutions id).queues = s.queues := rfl
@[simp] theorem task_delExecutions : (s.delExecutions id).task = s.task := rfl
@[simp] theorem locks_delExecutions : (s.delExecutions id).locks = s.locks := rfl
@[simp] theorem activity_delExecutions : (s.delExecutions id).activity = s.activity := rfl

@[simp] theorem zset_publish : (s.publish queue).zset = s.zset := rfl
@[simp] theorem queues_publish : (s.publish queue).queues = s.queues := rfl
@[simp] theorem task_publish : (s.publish queue).task = s.task := rfl
@[simp] theorem locks_publish : (s.publish queue).locks = s.locks := rfl
@[simp] theorem activity_publish : (s.publish queue).activity = s.activity ++ [queue] := rfl

end Lookup

end Store

end TaskTiger
