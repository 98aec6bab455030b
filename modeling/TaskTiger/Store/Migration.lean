import TaskTiger.Framework.Glob
import TaskTiger.Store.Commands

namespace TaskTiger

open Redis Interleaving

/-! The keys themselves, as migrate_executions_count goes through them. -/

/-- What a key holds: a list with at least one item, a string with an integer, another string with
the number that tonumber reads in it, or a value of another type. -/
inductive RedisValue where
  | list (first : Execution) (rest : List Execution)
  | integer (n : Int)
  | text (number : Option ℚ)
  | other

abbrev Keyspace := String → Option RedisValue

inductive RedisError where
  | wrongType
  | notInteger
  | nilComparison

/-- The id of a task. Individual parts of a key shouldn't contain colons. -/
structure TaskId where
  text : String
  no_colon : ':' ∉ text.toList

/-! TaskTiger._key. -/

def taskKey (redisPrefix id : String) : String := redisPrefix ++ ":task:" ++ id

def executionsKey (redisPrefix id : String) : String := taskKey redisPrefix id ++ ":executions"

def executionsCountKey (redisPrefix id : String) : String :=
  taskKey redisPrefix id ++ ":executions_count"

namespace Keyspace

variable (K : Keyspace)

def del (key : String) : Keyspace := Function.update K key none

def set (key : String) (value : RedisValue) : Keyspace := Function.update K key (some value)

/-- A list goes with its last item. -/
def putList (key : String) : List Execution → Keyspace
  | [] => K.del key
  | e :: es => K.set key (.list e es)

def items (key : String) : List Execution :=
  match K key with
  | some (.list e es) => e :: es
  | _ => []

def llen (key : String) : Except RedisError Nat :=
  match K key with
  | none => .ok 0
  | some (.list _ es) => .ok (es.length + 1)
  | some _ => .error .wrongType

/-- `tonumber(redis.call('get', key) or 0)`, as an operand of a comparison. -/
def getNumber (key : String) : Except RedisError ℚ :=
  match K key with
  | none => .ok 0
  | some (.integer n) => .ok n
  | some (.text (some q)) => .ok q
  | some (.text none) => .error .nilComparison
  | some _ => .error .wrongType

/-- The script of migrate_executions_count. -/
def migrateTask (key countKey : String) : Except RedisError Unit × Keyspace :=
  match K.llen key with
  | .error e => (.error e, K)
  | .ok count =>
    match K.getNumber countKey with
    | .error e => (.error e, K)
    | .ok number =>
      if number < count then (.ok (), K.set countKey (.integer count))
      else (.ok (), K)

/-! The pipeline of Worker.store_task_execution. -/

def incr (key : String) : Except RedisError Unit × Keyspace :=
  match K key with
  | none => (.ok (), K.set key (.integer 1))
  | some (.integer n) => (.ok (), K.set key (.integer (n + 1)))
  | some (.text _) => (.error .notInteger, K)
  | some _ => (.error .wrongType, K)

def rpush (key : String) (e : Execution) : Except RedisError Unit × Keyspace :=
  match K key with
  | none | some (.list _ _) => (.ok (), K.putList key (K.items key ++ [e]))
  | some _ => (.error .wrongType, K)

/-- LTRIM key -m -1. -/
def ltrimList (key : String) (m : Int) : Except RedisError Unit × Keyspace :=
  match K key with
  | none | some (.list _ _) => (.ok (), K.putList key (ltrim m (K.items key)))
  | some _ => (.error .wrongType, K)

/-- MULTI: every command runs, and the first error is raised. -/
def multi : List (Keyspace → Except RedisError Unit × Keyspace) → Keyspace →
    Except RedisError Unit × Keyspace
  | [], K => (.ok (), K)
  | command :: commands, K =>
    let rest := multi commands (command K).2
    (match (command K).1 with | .error e => .error e | .ok () => rest.1, rest.2)

def storeTaskExecution (redisPrefix id : String) (maxStored : Option Int) (e : Execution) :
    Except RedisError Unit × Keyspace :=
  multi ([fun K => K.incr (executionsCountKey redisPrefix id),
      fun K => K.rpush (executionsKey redisPrefix id) e] ++
    match maxStored with
    | none => []
    | some m => if m = 0 then [] else [fun K => K.ltrimList (executionsKey redisPrefix id) m]) K

/-- The DELs of a removal: the object, or the executions with their count, or both. -/
def removeTask (redisPrefix id : String) (object executions : Bool) : Keyspace :=
  let K := if object then K.del (taskKey redisPrefix id) else K
  if executions then
    (K.del (executionsKey redisPrefix id)).del (executionsCountKey redisPrefix id)
  else K

end Keyspace

inductive KeyCommand where
  | migrateTask (key countKey : String)
  | storeExecution (id : TaskId) (maxStored : Option Int) (e : Execution)
  | remove (id : TaskId) (object executions : Bool)

namespace KeyCommand

def exec (redisPrefix : String) : KeyCommand → Keyspace → Except RedisError Unit × Keyspace
  | .migrateTask key countKey, K => K.migrateTask key countKey
  | .storeExecution id maxStored e, K => K.storeTaskExecution redisPrefix id.text maxStored e
  | .remove id object executions, K => (.ok (), K.removeTask redisPrefix id.text object executions)

def isMigration : KeyCommand → Bool
  | .migrateTask _ _ => true
  | _ => false

end KeyCommand

/-- The keys of the KEYS array for a key that SCAN has returned. -/
def migration (key : String) : KeyCommand := .migrateTask key (key ++ "_count")

/-- The pattern of migrate_executions_count. -/
def executionsPattern (redisPrefix : String) : List Char :=
  globEscape redisPrefix.toList ++ ":task:*:executions".toList

/-! The keys of different tasks. -/

section Keys

variable {redisPrefix a b key : String}

theorem executionsCountKey_eq (redisPrefix a : String) :
    executionsCountKey redisPrefix a = executionsKey redisPrefix a ++ "_count" := by
  apply String.toList_inj.mp
  simp [executionsCountKey, executionsKey]

/-- The pattern selects the keys of the form <prefix>:task:...:executions. -/
theorem matches_executionsPattern :
    globMatch (executionsPattern redisPrefix) key.toList = true ↔
      ∃ name, key = executionsKey redisPrefix name := by
  have pattern : executionsPattern redisPrefix =
      globEscape (redisPrefix ++ ":task:").toList ++ '*' :: globEscape ":executions".toList := by
    have escape (s t : List Char) : globEscape (s ++ t) = globEscape s ++ globEscape t := by
      induction s with
      | nil => rfl
      | cons c s ih =>
        rw [List.cons_append, globEscape, globEscape, ih]
        split_ifs <;> rfl
    rw [executionsPattern, String.toList_append, escape, List.append_assoc]
    rfl
  rw [pattern, globMatch_star_between]
  constructor
  · intro h
    obtain ⟨x, hx⟩ := h
    refine ⟨String.ofList x, String.toList_inj.mp ?_⟩
    rw [hx]
    simp [executionsKey, taskKey]
  · intro h
    obtain ⟨name, hname⟩ := h
    refine ⟨name.toList, ?_⟩
    rw [hname]
    simp [executionsKey, taskKey]

@[simp] theorem executionsKey_inj :
    executionsKey redisPrefix a = executionsKey redisPrefix b ↔ a = b := by
  constructor
  · intro h
    have hlist := congrArg String.toList h
    apply String.toList_inj.mp
    simpa [executionsKey, taskKey] using hlist
  · intro h
    rw [h]

@[simp] theorem executionsCountKey_inj :
    executionsCountKey redisPrefix a = executionsCountKey redisPrefix b ↔ a = b := by
  constructor
  · intro h
    have hlist := congrArg String.toList h
    apply String.toList_inj.mp
    simpa [executionsCountKey, taskKey] using hlist
  · intro h
    rw [h]

@[simp] theorem executionsKey_ne_countKey :
    executionsKey redisPrefix a ≠ executionsCountKey redisPrefix b := by
  intro h
  have hlast := congrArg (fun s => s.toList.getLast?) h
  simp [executionsKey, executionsCountKey] at hlast

theorem taskKey_ne_executionsKey (redisPrefix a : String) (id : TaskId) :
    executionsKey redisPrefix a ≠ taskKey redisPrefix id.text := by
  intro h
  have hlist := congrArg String.toList h
  have hid : a.toList ++ ":executions".toList = id.text.toList := by
    simpa [executionsKey, taskKey] using hlist
  apply id.no_colon
  rw [← hid]
  simp

theorem taskKey_ne_countKey (redisPrefix a : String) (id : TaskId) :
    executionsCountKey redisPrefix a ≠ taskKey redisPrefix id.text := by
  intro h
  have hlist := congrArg String.toList h
  have hid : a.toList ++ ":executions_count".toList = id.text.toList := by
    simpa [executionsCountKey, taskKey] using hlist
  apply id.no_colon
  rw [← hid]
  simp

end Keys

/-! A keyspace in which the executions are lists and the counts are integers. -/

def Keyspace.Lists (redisPrefix : String) (K : Keyspace) : Prop :=
  ∀ name, K (executionsKey redisPrefix name) = none ∨
    ∃ e es, K (executionsKey redisPrefix name) = some (.list e es)

def Keyspace.Counters (redisPrefix : String) (K : Keyspace) : Prop :=
  ∀ name, K (executionsCountKey redisPrefix name) = none ∨
    ∃ n, K (executionsCountKey redisPrefix name) = some (.integer n)

/-- What LTRIM leaves of the list that RPUSH has made. -/
def trimmed (maxStored : Option Int) (pushed : List Execution) : List Execution :=
  match maxStored with
  | none => pushed
  | some m => if m = 0 then pushed else ltrim m pushed

namespace Keyspace

variable {K : Keyspace} {redisPrefix key k name : String} {l : List Execution}

@[simp] theorem set_self {v : RedisValue} : (K.set key v) key = some v := by
  simp [set]

theorem set_of_ne {v : RedisValue} (h : k ≠ key) : (K.set key v) k = K k := by
  simp [set, h]

theorem putList_of_ne (h : k ≠ key) : (K.putList key l) k = K k := by
  cases l <;> simp [putList, del, set, h]

theorem putList_self : (K.putList key l) key = none ∨
    ∃ e es, (K.putList key l) key = some (.list e es) := by
  cases l <;> simp [putList, del, set]

theorem items_putList : (K.putList key l).items k = if k = key then l else K.items k := by
  split_ifs with h
  · subst h
    cases l <;> simp [putList, del, set, items]
  · rw [items, items, putList_of_ne h]

theorem putList_putList {l' : List Execution} :
    (K.putList key l).putList key l' = K.putList key l' := by
  cases l <;> cases l' <;> simp [putList, del, set]

theorem items_eq_nil (h : K key = none ∨ ∃ e es, K key = some (.list e es)) :
    K.items key = [] ↔ K key = none := by
  rcases h with h | ⟨e, es, h⟩
  · simp [items, h]
  · simp [items, h]

theorem llen_eq (h : K key = none ∨ ∃ e es, K key = some (.list e es)) :
    K.llen key = .ok (K.items key).length := by
  rcases h with h | ⟨e, es, h⟩
  · simp [llen, items, h]
  · simp [llen, items, h]

theorem rpush_eq (h : K key = none ∨ ∃ e es, K key = some (.list e es)) (e : Execution) :
    K.rpush key e = (.ok (), K.putList key (K.items key ++ [e])) := by
  rcases h with h | ⟨e', es, h⟩
  · simp [rpush, h]
  · simp [rpush, h]

theorem ltrimList_eq (h : K key = none ∨ ∃ e es, K key = some (.list e es)) (m : Int) :
    K.ltrimList key m = (.ok (), K.putList key (ltrim m (K.items key))) := by
  rcases h with h | ⟨e', es, h⟩
  · simp [ltrimList, h]
  · simp [ltrimList, h]

/-- The integer that a key holds. -/
def count (K : Keyspace) (key : String) : Option Int :=
  match K key with
  | some (.integer n) => some n
  | _ => none

theorem getNumber_eq (h : K key = none ∨ ∃ n, K key = some (.integer n)) :
    K.getNumber key = .ok ((K.count key).getD 0 : Int) := by
  rcases h with h | ⟨n, h⟩
  · simp [getNumber, count, h]
  · simp [getNumber, count, h]

theorem incr_eq (h : K key = none ∨ ∃ n, K key = some (.integer n)) : K.incr key =
    (.ok (), K.set key (.integer ((K.count key).getD 0 + 1))) := by
  rcases h with h | ⟨n, h⟩
  · simp [incr, count, h]
  · simp [incr, count, h]

theorem migrateTask_eq (lists : K.Lists redisPrefix) (counters : K.Counters redisPrefix)
    (name : String) :
    K.migrateTask (executionsKey redisPrefix name) (executionsCountKey redisPrefix name) = (.ok (),
      if (K.count (executionsCountKey redisPrefix name)).getD 0 <
        (K.items (executionsKey redisPrefix name)).length
      then K.set (executionsCountKey redisPrefix name)
        (.integer (K.items (executionsKey redisPrefix name)).length)
      else K) := by
  simp only [migrateTask, llen_eq (lists name), getNumber_eq (counters name)]
  norm_cast
  split_ifs <;> rfl

theorem storeTaskExecution_eq (lists : K.Lists redisPrefix) (counters : K.Counters redisPrefix)
    (name : String) (maxStored : Option Int) (e : Execution) :
    K.storeTaskExecution redisPrefix name maxStored e = (.ok (),
      (K.set (executionsCountKey redisPrefix name) (.integer
        ((K.count (executionsCountKey redisPrefix name)).getD 0 + 1))).putList
          (executionsKey redisPrefix name)
          (trimmed maxStored (K.items (executionsKey redisPrefix name) ++ [e]))) := by
  have incremented := incr_eq (counters name)
  generalize hL : K.set (executionsCountKey redisPrefix name) (.integer
    ((K.count (executionsCountKey redisPrefix name)).getD 0 + 1)) = L at incremented ⊢
  have same : L (executionsKey redisPrefix name) = K (executionsKey redisPrefix name) := by
    rw [← hL, set_of_ne executionsKey_ne_countKey]
  have sameItems : L.items (executionsKey redisPrefix name) =
      K.items (executionsKey redisPrefix name) := by
    rw [items, items, same]
  have pushed := rpush_eq (K := L) (by rw [same]; exact lists name) e
  rw [sameItems] at pushed
  have untrimmed : multi ([fun K => K.incr (executionsCountKey redisPrefix name),
      fun K => K.rpush (executionsKey redisPrefix name) e] ++ []) K =
        (.ok (), L.putList (executionsKey redisPrefix name)
          (K.items (executionsKey redisPrefix name) ++ [e])) := by
    simp only [List.append_nil, multi, incremented, pushed]
  cases maxStored with
  | none => exact untrimmed
  | some m =>
    by_cases hm : m = 0
    · simp only [storeTaskExecution, trimmed, if_pos hm]
      exact untrimmed
    · have cut := ltrimList_eq (K := L.putList (executionsKey redisPrefix name)
        (K.items (executionsKey redisPrefix name) ++ [e])) putList_self m
      rw [items_putList, if_pos rfl, putList_putList] at cut
      simp only [storeTaskExecution, trimmed, if_neg hm, List.cons_append, List.nil_append, multi,
        incremented, pushed, cut]

theorem del_of_ne (h : k ≠ key) : (K.del key) k = K k := by
  simp [del, h]

@[simp] theorem del_self : (K.del key) key = none := by
  simp [del]

end Keyspace

/-! What the commands do to one name: its executions and its count. -/

structure Tally where
  items : List Execution
  count : Option Int

def Keyspace.tally (redisPrefix : String) (K : Keyspace) (name : String) : Tally :=
  ⟨K.items (executionsKey redisPrefix name), K.count (executionsCountKey redisPrefix name)⟩

namespace KeyCommand

def onTally (redisPrefix name : String) (t : Tally) : KeyCommand → Tally
  | .migrateTask key _ =>
      if key = executionsKey redisPrefix name ∧ t.count.getD 0 < t.items.length then
        ⟨t.items, some t.items.length⟩
      else t
  | .storeExecution id maxStored e =>
      if id.text = name then ⟨trimmed maxStored (t.items ++ [e]), some (t.count.getD 0 + 1)⟩ else t
  | .remove id _ executions => if executions = true ∧ id.text = name then ⟨[], none⟩ else t

/-- A script runs on a key of the form <prefix>:task:...:executions and on its count. -/
def Addresses (redisPrefix : String) : KeyCommand → Prop
  | .migrateTask key countKey => ∃ name, key = executionsKey redisPrefix name ∧
      countKey = executionsCountKey redisPrefix name
  | _ => True

end KeyCommand

structure Keyspace.Typed (redisPrefix : String) (K : Keyspace) : Prop where
  lists : K.Lists redisPrefix
  counters : K.Counters redisPrefix

section Simulation

variable {K : Keyspace} {redisPrefix : String} {c : KeyCommand}

theorem tally_congr {K' : Keyspace} {name : String}
    (items : K' (executionsKey redisPrefix name) = K (executionsKey redisPrefix name))
    (count : K' (executionsCountKey redisPrefix name) = K (executionsCountKey redisPrefix name)) :
    K'.tally redisPrefix name = K.tally redisPrefix name := by
  simp only [Keyspace.tally, Keyspace.items, Keyspace.count, items, count]

theorem Keyspace.Typed.withCount (typed : K.Typed redisPrefix) {K' : Keyspace} (name : String)
    (n : Option Int) (same : ∀ k, k ≠ executionsCountKey redisPrefix name → K' k = K k)
    (count : K' (executionsCountKey redisPrefix name) = n.map RedisValue.integer) :
    K'.Typed redisPrefix ∧ ∀ other, K'.tally redisPrefix other =
      if other = name then ⟨K.items (executionsKey redisPrefix name), n⟩
      else K.tally redisPrefix other := by
  have lists (other : String) := same _ (executionsKey_ne_countKey (a := other))
  refine ⟨⟨?_, ?_⟩, ?_⟩
  · intro other
    rw [lists]
    exact typed.lists other
  · intro other
    by_cases h : other = name
    · rw [h, count]
      cases n <;> simp
    · rw [same _ (by simpa using h)]
      exact typed.counters other
  · intro other
    split_ifs with h
    · subst h
      simp only [Keyspace.tally, Keyspace.items, Keyspace.count, lists, count]
      cases n <;> rfl
    · exact tally_congr (lists other) (same _ (by simpa using h))

theorem Keyspace.Typed.putItems (typed : K.Typed redisPrefix) (name : String)
    (l : List Execution) :
    (K.putList (executionsKey redisPrefix name) l).Typed redisPrefix ∧
      ∀ other, (K.putList (executionsKey redisPrefix name) l).tally redisPrefix other =
        if other = name then ⟨l, K.count (executionsCountKey redisPrefix name)⟩
        else K.tally redisPrefix other := by
  have count (other : String) : (K.putList (executionsKey redisPrefix name) l)
      (executionsCountKey redisPrefix other) = K (executionsCountKey redisPrefix other) :=
    Keyspace.putList_of_ne (Ne.symm executionsKey_ne_countKey)
  refine ⟨⟨?_, ?_⟩, ?_⟩
  · intro other
    by_cases h : other = name
    · rw [h]
      exact Keyspace.putList_self
    · rw [Keyspace.putList_of_ne (by simpa using h)]
      exact typed.lists other
  · intro other
    rw [count]
    exact typed.counters other
  · intro other
    split_ifs with h
    · subst h
      simp only [Keyspace.tally, Keyspace.items_putList, if_true, Keyspace.count, count]
    · exact tally_congr (Keyspace.putList_of_ne (by simpa using h)) (count other)

theorem Keyspace.Typed.delObject (typed : K.Typed redisPrefix) (id : TaskId) :
    (K.del (taskKey redisPrefix id.text)).Typed redisPrefix ∧
      ∀ other, (K.del (taskKey redisPrefix id.text)).tally redisPrefix other =
        K.tally redisPrefix other := by
  have items (other : String) := Keyspace.del_of_ne (K := K)
    (taskKey_ne_executionsKey redisPrefix other id)
  have count (other : String) := Keyspace.del_of_ne (K := K)
    (taskKey_ne_countKey redisPrefix other id)
  refine ⟨⟨?_, ?_⟩, fun other => tally_congr (items other) (count other)⟩
  · intro other
    rw [items]
    exact typed.lists other
  · intro other
    rw [count]
    exact typed.counters other

/-- In a typed keyspace no command raises, and each does to every name what onTally says. -/
theorem exec_typed (typed : K.Typed redisPrefix) (addresses : c.Addresses redisPrefix) :
    (c.exec redisPrefix K).1 = .ok () ∧ (c.exec redisPrefix K).2.Typed redisPrefix ∧
      ∀ name, (c.exec redisPrefix K).2.tally redisPrefix name =
        c.onTally redisPrefix name (K.tally redisPrefix name) := by
  cases c with
  | migrateTask key countKey =>
    obtain ⟨name, rfl, rfl⟩ := addresses
    simp only [KeyCommand.exec, Keyspace.migrateTask_eq typed.lists typed.counters]
    split_ifs with hlt
    · obtain ⟨kept, tally⟩ := typed.withCount name
        (some (K.items (executionsKey redisPrefix name)).length) (fun _ => Keyspace.set_of_ne)
        Keyspace.set_self
      refine ⟨trivial, kept, ?_⟩
      intro other
      rw [tally]
      by_cases h : other = name
      · subst h
        simp only [if_true, KeyCommand.onTally, Keyspace.tally, hlt, and_self]
      · simp only [if_neg h, KeyCommand.onTally, executionsKey_inj, Ne.symm h, false_and, if_false]
    · refine ⟨trivial, typed, ?_⟩
      intro other
      by_cases h : other = name
      · subst h
        simp only [KeyCommand.onTally, Keyspace.tally, hlt, and_false, if_false]
      · simp only [KeyCommand.onTally, executionsKey_inj, Ne.symm h, false_and, if_false]
  | storeExecution id maxStored e =>
    simp only [KeyCommand.exec, Keyspace.storeTaskExecution_eq typed.lists typed.counters]
    obtain ⟨counted, tally⟩ := typed.withCount id.text
      (some ((K.count (executionsCountKey redisPrefix id.text)).getD 0 + 1))
      (fun _ => Keyspace.set_of_ne) Keyspace.set_self
    obtain ⟨stored, tally'⟩ := counted.putItems id.text
      (trimmed maxStored (K.items (executionsKey redisPrefix id.text) ++ [e]))
    refine ⟨trivial, stored, ?_⟩
    intro other
    rw [tally', tally]
    by_cases h : other = id.text
    · subst h
      simp [KeyCommand.onTally, Keyspace.tally, Keyspace.count]
    · simp only [if_neg h, KeyCommand.onTally, Ne.symm h, if_false]
  | remove id object executions =>
    have removed : ∀ K : Keyspace, K.Typed redisPrefix →
        ((K.del (executionsKey redisPrefix id.text)).del
          (executionsCountKey redisPrefix id.text)).Typed redisPrefix ∧
        ∀ other, ((K.del (executionsKey redisPrefix id.text)).del
          (executionsCountKey redisPrefix id.text)).tally redisPrefix other =
            if other = id.text then ⟨[], none⟩ else K.tally redisPrefix other := by
      intro K typed
      obtain ⟨emptied, tally⟩ := typed.putItems id.text []
      obtain ⟨uncounted, tally'⟩ := emptied.withCount id.text none
        (fun _ => Keyspace.del_of_ne) Keyspace.del_self
      refine ⟨uncounted, ?_⟩
      intro other
      have emptied : (K.putList (executionsKey redisPrefix id.text) []).items
          (executionsKey redisPrefix id.text) = [] := by
        rw [Keyspace.items_putList, if_pos rfl]
      have last := tally' other
      rw [tally, emptied] at last
      split_ifs at last ⊢ with h
      · exact last
      · exact last
    obtain ⟨kept, same⟩ := typed.delObject id
    cases object <;> cases executions
    · exact ⟨rfl, typed, fun other => by simp [KeyCommand.onTally, KeyCommand.exec,
        Keyspace.removeTask]⟩
    · obtain ⟨done, tally⟩ := removed K typed
      exact ⟨rfl, done, fun other => by simp [KeyCommand.onTally, KeyCommand.exec,
        Keyspace.removeTask, tally, eq_comm]⟩
    · exact ⟨rfl, kept, fun other => by simp [KeyCommand.onTally, KeyCommand.exec,
        Keyspace.removeTask, same]⟩
    · obtain ⟨done, tally⟩ := removed _ kept
      exact ⟨rfl, done, fun other => by simp [KeyCommand.onTally, KeyCommand.exec,
        Keyspace.removeTask, tally, same, eq_comm]⟩

/-- The keyspace holds the executions and the counts that the store has. -/
def Keyspace.Holds (redisPrefix : String) (K : Keyspace) (s : Store) : Prop :=
  ∀ id : TaskId, K.tally redisPrefix id.text =
    ⟨s.executions id.text, (s.executionsCount id.text).map Int.ofNat⟩

theorem Keyspace.Holds.storeExecution {s : Store} (holds : K.Holds redisPrefix s)
    (typed : K.Typed redisPrefix) (id : TaskId) (maxStored : Option Int) (e : Execution) :
    Keyspace.Holds redisPrefix
      ((KeyCommand.storeExecution id maxStored e).exec redisPrefix K).2
      (TaskTiger.storeExecution id.text maxStored e s) := by
  intro other
  obtain ⟨-, -, tally⟩ :=
    exec_typed typed (c := .storeExecution id maxStored e) trivial
  rw [tally, holds]
  by_cases h : other.text = id.text
  · cases hcount : s.executionsCount id.text <;> cases maxStored <;>
      simp [KeyCommand.onTally, TaskTiger.storeExecution, trimmed, h, hcount]
  · simp [KeyCommand.onTally, TaskTiger.storeExecution, h, Ne.symm h]

theorem Keyspace.Holds.delExecutions {s : Store} (holds : K.Holds redisPrefix s)
    (typed : K.Typed redisPrefix) (id : TaskId) (object : Bool) :
    Keyspace.Holds redisPrefix ((KeyCommand.remove id object true).exec redisPrefix K).2
      (s.delExecutions id.text) := by
  intro other
  obtain ⟨-, -, tally⟩ := exec_typed typed (c := .remove id object true) trivial
  rw [tally, holds]
  by_cases h : other.text = id.text
  · simp [KeyCommand.onTally, Store.delExecutions, h]
  · simp [KeyCommand.onTally, Store.delExecutions, h, Ne.symm h]

end Simulation

/-! A count and the length of its list, from command to command. -/

/-- The command cuts entries off. -/
def KeyCommand.Truncates (name : String) (t : Tally) : KeyCommand → Prop
  | .storeExecution id maxStored e =>
      id.text = name ∧ trimmed maxStored (t.items ++ [e]) ≠ t.items ++ [e]
  | _ => False

namespace Tally

variable {t : Tally} {c : KeyCommand} {redisPrefix name : String}

/-- As after entries that were stored before the count was introduced. -/
def Behind (t : Tally) : Prop := t.count.getD 0 ≤ t.items.length

def Ahead (t : Tally) : Prop := ∃ n, t.count = some n ∧ (t.items.length : Int) ≤ n

def Exact (t : Tally) : Prop := t.count = some (t.items.length : Int)

theorem length_trimmed_le (maxStored : Option Int) (l : List Execution) :
    (trimmed maxStored l).length ≤ l.length := by
  unfold trimmed ltrim
  split
  · exact le_rfl
  · split_ifs
    · exact le_rfl
    · rw [List.length_drop]
      omega
    · rw [List.length_drop]
      omega

theorem Ahead.step (h : t.Ahead) (present : (c.onTally redisPrefix name t).items ≠ []) :
    (c.onTally redisPrefix name t).Ahead := by
  obtain ⟨n, hn, hle⟩ := h
  cases c with
  | migrateTask key countKey =>
    simp only [KeyCommand.onTally]
    split_ifs
    · exact ⟨_, rfl, le_rfl⟩
    · exact ⟨n, hn, hle⟩
  | storeExecution id maxStored e =>
    simp only [KeyCommand.onTally]
    split_ifs
    · refine ⟨_, rfl, ?_⟩
      have hlength := length_trimmed_le maxStored (t.items ++ [e])
      rw [List.length_append, List.length_singleton] at hlength
      rw [hn, Option.getD_some]
      change ((trimmed maxStored (t.items ++ [e])).length : Int) ≤ n + 1
      omega
    · exact ⟨n, hn, hle⟩
  | remove id object executions =>
    simp only [KeyCommand.onTally] at present ⊢
    split_ifs at present ⊢
    · exact absurd rfl present
    · exact ⟨n, hn, hle⟩

theorem Behind.step (h : t.Behind) (whole : ¬c.Truncates name t) :
    (c.onTally redisPrefix name t).Behind := by
  unfold Behind at h
  cases c with
  | migrateTask key countKey =>
    simp only [KeyCommand.onTally]
    split_ifs
    · exact le_rfl
    · exact h
  | storeExecution id maxStored e =>
    simp only [KeyCommand.onTally]
    split_ifs with hid
    · have untrimmed : trimmed maxStored (t.items ++ [e]) = t.items ++ [e] := by
        by_contra hcut
        exact whole ⟨hid, hcut⟩
      simp only [Behind, untrimmed, List.length_append, List.length_singleton, Option.getD_some]
      omega
    · exact h
  | remove id object executions =>
    simp only [KeyCommand.onTally]
    split_ifs
    · exact le_rfl
    · exact h

theorem Exact.step (h : t.Exact) (whole : ¬c.Truncates name t)
    (present : (c.onTally redisPrefix name t).items ≠ []) :
    (c.onTally redisPrefix name t).Exact := by
  have behind : t.Behind := by
    rw [Behind, h, Option.getD_some]
  obtain ⟨n, hn, hle⟩ := Ahead.step ⟨_, h, le_rfl⟩ present
  have hbehind : (c.onTally redisPrefix name t).Behind := behind.step whole
  rw [Behind, hn, Option.getD_some] at hbehind
  rw [Exact, hn, le_antisymm hbehind hle]

/-- The script brings the count of a list up to its length. -/
theorem ahead_migration (present : t.items ≠ []) :
    ((migration (executionsKey redisPrefix name)).onTally redisPrefix name t).Ahead := by
  simp only [migration, KeyCommand.onTally, true_and]
  have hpos : 0 < t.items.length := List.length_pos_iff.mpr present
  split_ifs with hlt
  · exact ⟨_, rfl, le_rfl⟩
  · cases hcount : t.count with
    | none =>
      rw [hcount, Option.getD_none] at hlt
      omega
    | some n =>
      rw [hcount, Option.getD_some] at hlt
      exact ⟨n, hcount, not_lt.mp hlt⟩

theorem exact_migration (h : t.Behind) (present : t.items ≠ []) :
    ((migration (executionsKey redisPrefix name)).onTally redisPrefix name t).Exact := by
  have whole : ¬(migration (executionsKey redisPrefix name)).Truncates name t := id
  have hbehind : ((migration (executionsKey redisPrefix name)).onTally redisPrefix name t).Behind :=
    h.step whole
  have hahead : ((migration (executionsKey redisPrefix name)).onTally redisPrefix name t).Ahead :=
    ahead_migration present
  obtain ⟨n, hn, hle⟩ := hahead
  rw [Behind, hn, Option.getD_some] at hbehind
  rw [Exact, hn, le_antisymm hbehind hle]

end Tally

/-! Runs of scripts, stored executions and removals. -/

abbrev runKeys (redisPrefix : String) (K : Keyspace) (l : List KeyCommand) : Keyspace :=
  run (R := fun _ => Except RedisError Unit) (KeyCommand.exec redisPrefix) K l

/-- The script changes at most the count of its key, which it creates only for a list and never
lowers. -/
structure ScriptSafe (key : String) (K K' : Keyspace) : Prop where
  never_lowers : ∀ k n, K.getNumber k = .ok n → ∃ n', K'.getNumber k = .ok n' ∧ n ≤ n'
  creates : ∀ k, K k = none → K' k ≠ none → ∃ e es, K key = some (.list e es)
  frame : ∀ k, k ≠ key ++ "_count" → K' k = K k

/-- The scripts run on the keys that SCAN has returned, with other commands in between. -/
structure LiveMigration (redisPrefix : String) (K : Keyspace) (keys : List String)
    (l : List KeyCommand) : Prop where
  scripts : l.filter KeyCommand.isMigration = keys.map migration
  sound : ∀ key ∈ keys, globMatch (executionsPattern redisPrefix) key.toList = true
  complete : ∀ key, globMatch (executionsPattern redisPrefix) key.toList = true →
    (∀ pre, pre <+: l → runKeys redisPrefix K pre key ≠ none) → key ∈ keys

/-- What SCAN returns while nothing changes. -/
structure ScanOf (redisPrefix : String) (K : Keyspace) (keys : List String) : Prop where
  sound : ∀ key ∈ keys, globMatch (executionsPattern redisPrefix) key.toList = true ∧ K key ≠ none
  complete : ∀ key, globMatch (executionsPattern redisPrefix) key.toList = true → K key ≠ none →
    key ∈ keys

/-- What the migration guarantees in the run l, after some earlier commands. -/
structure MigratesSafely (redisPrefix : String) (K : Keyspace) (earlier l : List KeyCommand) :
    Prop where
  returns : ∀ pre c post, l = pre ++ c :: post → c.isMigration = true →
    (c.exec redisPrefix (runKeys redisPrefix K (earlier ++ pre))).1 = .ok ()
  script : ∀ pre key post, l = pre ++ migration key :: post →
    ScriptSafe key (runKeys redisPrefix K (earlier ++ pre))
      (runKeys redisPrefix K (earlier ++ pre ++ [migration key]))
  idempotent : ∀ keys again, ScanOf redisPrefix K keys →
    ScanOf redisPrefix (runKeys redisPrefix K (keys.map migration)) again →
      runKeys redisPrefix K (keys.map migration ++ again.map migration) =
        runKeys redisPrefix K (keys.map migration)
  at_least : ∀ name, (∀ pre, pre <+: l →
      runKeys redisPrefix K (earlier ++ pre) (executionsKey redisPrefix name) ≠ none) →
    let K' := runKeys redisPrefix K (earlier ++ l)
    ∃ number, K'.getNumber (executionsCountKey redisPrefix name) = .ok number ∧
      ((K'.items (executionsKey redisPrefix name)).length : ℚ) ≤ number
  equal : ∀ name, (∀ pre, pre <+: l →
      runKeys redisPrefix K (earlier ++ pre) (executionsKey redisPrefix name) ≠ none) →
    K (executionsCountKey redisPrefix name) = none →
    (∀ pre c post, earlier ++ l = pre ++ c :: post →
      ¬c.Truncates name ((runKeys redisPrefix K pre).tally redisPrefix name)) →
    let K' := runKeys redisPrefix K (earlier ++ l)
    K'.getNumber (executionsCountKey redisPrefix name) =
      .ok (K'.items (executionsKey redisPrefix name)).length

section Runs

variable {K : Keyspace} {redisPrefix name : String} {l : List KeyCommand}

theorem typed_run (typed : K.Typed redisPrefix) (addresses : ∀ c ∈ l, c.Addresses redisPrefix) :
    (runKeys redisPrefix K l).Typed redisPrefix := by
  induction l generalizing K with
  | nil => exact typed
  | cons c l ih =>
    have next := (exec_typed typed (addresses c (by simp))).2.1
    exact ih next (fun d hd => addresses d (by simp [hd]))

/-- An invariant of the tally of a list that is there throughout. -/
theorem tally_run {P : Tally → Prop} (typed : K.Typed redisPrefix)
    (addresses : ∀ c ∈ l, c.Addresses redisPrefix)
    (keep : ∀ pre c post, l = pre ++ c :: post →
      P ((runKeys redisPrefix K pre).tally redisPrefix name) →
      P (c.onTally redisPrefix name ((runKeys redisPrefix K pre).tally redisPrefix name)))
    (start : P (K.tally redisPrefix name)) :
    P ((runKeys redisPrefix K l).tally redisPrefix name) := by
  induction l generalizing K with
  | nil => exact start
  | cons c l ih =>
    obtain ⟨-, next, tally⟩ := exec_typed typed (addresses c (by simp))
    apply ih next (fun d hd => addresses d (by simp [hd]))
    · intro pre d post hl hP
      exact keep (c :: pre) d post (by rw [hl]; rfl) hP
    · rw [tally]
      exact keep [] c l rfl start

theorem tally_items_ne_nil (typed : K.Typed redisPrefix)
    (present : K (executionsKey redisPrefix name) ≠ none) :
    (K.tally redisPrefix name).items ≠ [] :=
  fun h => present ((Keyspace.items_eq_nil (typed.lists name)).mp h)

theorem runKeys_append (k : List KeyCommand) : runKeys redisPrefix K (l ++ k) =
    runKeys redisPrefix (runKeys redisPrefix K l) k :=
  run_append K l k

theorem mem_migrations {keys : List String} {c : KeyCommand}
    (scripts : l.filter KeyCommand.isMigration = keys.map migration) (hc : c ∈ l)
    (hm : c.isMigration = true) : ∃ key ∈ keys, c = migration key := by
  have hin : c ∈ keys.map migration := by
    rw [← scripts]
    exact List.mem_filter.mpr ⟨hc, hm⟩
  obtain ⟨key, hkey, rfl⟩ := List.mem_map.mp hin
  exact ⟨key, hkey, rfl⟩

theorem addresses_migration (redisPrefix name : String) :
    (migration (executionsKey redisPrefix name)).Addresses redisPrefix :=
  ⟨name, rfl, (executionsCountKey_eq redisPrefix name).symm⟩

theorem LiveMigration.addresses {keys : List String} (live : LiveMigration redisPrefix K keys l) :
    ∀ c ∈ l, c.Addresses redisPrefix := by
  intro c hc
  by_cases hm : c.isMigration = true
  · obtain ⟨key, hkey, rfl⟩ := mem_migrations live.scripts hc hm
    obtain ⟨name, rfl⟩ := matches_executionsPattern.mp (live.sound key hkey)
    exact addresses_migration redisPrefix name
  · cases c with
    | migrateTask => exact absurd rfl hm
    | _ => trivial

/-- One more command, on a list that is there after it. -/
theorem items_onTally_ne_nil {c : KeyCommand} (typed : K.Typed redisPrefix)
    (addresses : c.Addresses redisPrefix)
    (present : runKeys redisPrefix K [c] (executionsKey redisPrefix name) ≠ none) :
    (c.onTally redisPrefix name (K.tally redisPrefix name)).items ≠ [] := by
  obtain ⟨-, next, tally⟩ := exec_typed typed addresses
  rw [← tally]
  exact tally_items_ne_nil next present

/-- From the script on, the invariant holds that it establishes and the later commands keep. -/
theorem tally_after_migration {P : Tally → Prop} {l₁ l₂ : List KeyCommand}
    (typed : K.Typed redisPrefix)
    (addresses : ∀ c ∈ l₁ ++ migration (executionsKey redisPrefix name) :: l₂,
      c.Addresses redisPrefix)
    (present : ∀ pre, pre <+: l₁ ++ migration (executionsKey redisPrefix name) :: l₂ →
      runKeys redisPrefix K pre (executionsKey redisPrefix name) ≠ none)
    (establish : ((runKeys redisPrefix K l₁).tally redisPrefix name).items ≠ [] →
      P ((migration (executionsKey redisPrefix name)).onTally redisPrefix name
        ((runKeys redisPrefix K l₁).tally redisPrefix name)))
    (keep : ∀ pre c post, l₂ = pre ++ c :: post →
      let t := (runKeys redisPrefix K
        (l₁ ++ migration (executionsKey redisPrefix name) :: pre)).tally redisPrefix name
      P t → (c.onTally redisPrefix name t).items ≠ [] → P (c.onTally redisPrefix name t)) :
    P ((runKeys redisPrefix K (l₁ ++ migration (executionsKey redisPrefix name) :: l₂)).tally
      redisPrefix name) := by
  have before : (runKeys redisPrefix K l₁).Typed redisPrefix :=
    typed_run typed (fun c hc => addresses c (by simp [hc]))
  obtain ⟨-, after, tally⟩ := exec_typed before (addresses_migration redisPrefix name)
  have later : ∀ c ∈ l₂, c.Addresses redisPrefix := fun c hc => addresses c (by simp [hc])
  have split (k : List KeyCommand) : runKeys redisPrefix K
      (l₁ ++ migration (executionsKey redisPrefix name) :: k) = runKeys redisPrefix
        ((migration (executionsKey redisPrefix name)).exec redisPrefix
          (runKeys redisPrefix K l₁)).2 k := by
    rw [runKeys_append]
    rfl
  rw [split]
  apply tally_run after later
  · intro pre c post hl hP
    rw [← split] at hP ⊢
    apply keep pre c post hl hP
    have reached : (runKeys redisPrefix K
        (l₁ ++ migration (executionsKey redisPrefix name) :: pre)).Typed redisPrefix := by
      apply typed_run typed
      intro d hd
      apply addresses d
      rw [hl]
      simp only [List.mem_append, List.mem_cons] at hd ⊢
      tauto
    apply items_onTally_ne_nil reached (later c (by rw [hl]; simp))
    rw [← runKeys_append]
    apply present
    rw [hl]
    exact ⟨post, by simp⟩
  · rw [tally]
    exact establish (tally_items_ne_nil before (present l₁ (List.prefix_append _ _)))

theorem exists_split_migration {keys : List String}
    (live : LiveMigration redisPrefix K keys l)
    (present : ∀ pre, pre <+: l →
      runKeys redisPrefix K pre (executionsKey redisPrefix name) ≠ none) :
    ∃ l₁ l₂, l = l₁ ++ migration (executionsKey redisPrefix name) :: l₂ := by
  have scanned := live.complete _ (matches_executionsPattern.mpr ⟨name, rfl⟩) present
  have hin : migration (executionsKey redisPrefix name) ∈ l := by
    have hfilter := List.mem_map_of_mem (f := migration) scanned
    rw [← live.scripts] at hfilter
    exact (List.mem_filter.mp hfilter).1
  exact List.append_of_mem hin

theorem ahead_of_live {keys : List String} (name : String) (typed : K.Typed redisPrefix)
    (live : LiveMigration redisPrefix K keys l)
    (present : ∀ pre, pre <+: l →
      runKeys redisPrefix K pre (executionsKey redisPrefix name) ≠ none) :
    ((runKeys redisPrefix K l).tally redisPrefix name).Ahead := by
  have addresses := live.addresses
  obtain ⟨l₁, l₂, rfl⟩ := exists_split_migration live present
  apply tally_after_migration typed addresses present
  · exact Tally.ahead_migration
  · intro pre c post _ t hahead hpresent
    exact hahead.step hpresent

/-- Without a count before the run, and while no execution is dropped, the count stays behind. -/
theorem behind_run (typed : K.Typed redisPrefix) (addresses : ∀ c ∈ l, c.Addresses redisPrefix)
    (fresh : K (executionsCountKey redisPrefix name) = none)
    (whole : ∀ pre c post, l = pre ++ c :: post →
      ¬c.Truncates name ((runKeys redisPrefix K pre).tally redisPrefix name)) :
    ((runKeys redisPrefix K l).tally redisPrefix name).Behind := by
  apply tally_run typed addresses
  · intro pre c post hl hbehind
    exact hbehind.step (whole pre c post hl)
  · have none_counted : (K.tally redisPrefix name).count = none := by
      simp [Keyspace.tally, Keyspace.count, fresh]
    rw [Tally.Behind, none_counted]
    simp

theorem exact_of_live {earlier : List KeyCommand} {keys : List String}
    (typed : K.Typed redisPrefix) (before : ∀ c ∈ earlier, c.Addresses redisPrefix)
    (live : LiveMigration redisPrefix (runKeys redisPrefix K earlier) keys l)
    (present : ∀ pre, pre <+: l →
      runKeys redisPrefix (runKeys redisPrefix K earlier) pre (executionsKey redisPrefix name) ≠
        none)
    (fresh : K (executionsCountKey redisPrefix name) = none)
    (whole : ∀ pre c post, earlier ++ l = pre ++ c :: post →
      ¬c.Truncates name ((runKeys redisPrefix K pre).tally redisPrefix name)) :
    ((runKeys redisPrefix (runKeys redisPrefix K earlier) l).tally redisPrefix name).Exact := by
  have addresses := live.addresses
  obtain ⟨l₁, l₂, rfl⟩ := exists_split_migration live present
  apply tally_after_migration (typed_run typed before) addresses present
  · apply Tally.exact_migration
    rw [← runKeys_append]
    apply behind_run typed _ fresh
    · intro pre c post hl
      apply whole pre c (post ++ migration (executionsKey redisPrefix name) :: l₂)
      rw [← List.append_assoc, hl]
      simp
    · intro c hc
      rcases List.mem_append.mp hc with hc | hc
      · exact before c hc
      · exact addresses c (by simp [hc])
  · intro pre c post hl t hexact hpresent
    apply Tally.Exact.step hexact _ hpresent
    have hwhole := whole (earlier ++ (l₁ ++ migration (executionsKey redisPrefix name) :: pre)) c
      post (by rw [hl]; simp)
    rw [runKeys_append] at hwhole
    exact hwhole

theorem number_of_ahead (typed : K.Typed redisPrefix) (ahead : (K.tally redisPrefix name).Ahead) :
    ∃ number, K.getNumber (executionsCountKey redisPrefix name) = .ok number ∧
      ((K.items (executionsKey redisPrefix name)).length : ℚ) ≤ number := by
  obtain ⟨n, hn, hle⟩ := ahead
  have count : K.count (executionsCountKey redisPrefix name) = some n := hn
  refine ⟨n, by rw [Keyspace.getNumber_eq (typed.counters name), count, Option.getD_some], ?_⟩
  exact_mod_cast hle

theorem number_of_exact (typed : K.Typed redisPrefix) (exact : (K.tally redisPrefix name).Exact) :
    K.getNumber (executionsCountKey redisPrefix name) =
      .ok (K.items (executionsKey redisPrefix name)).length := by
  have count : K.count (executionsCountKey redisPrefix name) =
      some ((K.items (executionsKey redisPrefix name)).length : Int) := exact
  rw [Keyspace.getNumber_eq (typed.counters name), count, Option.getD_some]
  norm_cast

theorem scriptSafe (typed : K.Typed redisPrefix) (name : String) :
    ScriptSafe (executionsKey redisPrefix name) K
      (runKeys redisPrefix K [migration (executionsKey redisPrefix name)]) := by
  have ran : runKeys redisPrefix K [migration (executionsKey redisPrefix name)] =
      (K.migrateTask (executionsKey redisPrefix name)
        (executionsCountKey redisPrefix name)).2 := by
    rw [executionsCountKey_eq]
    rfl
  rw [ran, Keyspace.migrateTask_eq typed.lists typed.counters]
  dsimp only
  constructor
  · intro k n hn
    split_ifs with hlt
    · by_cases hk : k = executionsCountKey redisPrefix name
      · subst hk
        rw [Keyspace.getNumber_eq (typed.counters name)] at hn
        obtain rfl := Except.ok.inj hn
        refine ⟨_, by rw [Keyspace.getNumber, Keyspace.set_self], ?_⟩
        exact_mod_cast hlt.le
      · exact ⟨n, by rw [Keyspace.getNumber, Keyspace.set_of_ne hk]; exact hn, le_rfl⟩
    · exact ⟨n, hn, le_rfl⟩
  · intro k hnone hsome
    split_ifs at hsome with hlt
    · rcases typed.lists name with habsent | hlist
      · have hk : k = executionsCountKey redisPrefix name := by
          by_contra hne
          exact hsome (by rw [Keyspace.set_of_ne hne, hnone])
        subst hk
        simp [Keyspace.count, Keyspace.items, hnone, habsent] at hlt
      · exact hlist
    · exact absurd hnone hsome
  · intro k hk
    rw [← executionsCountKey_eq] at hk
    split_ifs
    · exact Keyspace.set_of_ne hk
    · rfl

/-- Scripts alone leave every list as it is. -/
theorem lists_of_scripts {keys : List String}
    (sound : ∀ key ∈ keys, globMatch (executionsPattern redisPrefix) key.toList = true)
    (typed : K.Typed redisPrefix) : runKeys redisPrefix K (keys.map migration)
      (executionsKey redisPrefix name) = K (executionsKey redisPrefix name) := by
  induction keys generalizing K with
  | nil => rfl
  | cons key keys ih =>
    obtain ⟨other, rfl⟩ := matches_executionsPattern.mp (sound key (by simp))
    have next := (exec_typed typed (addresses_migration redisPrefix other)).2.1
    have rest := ih (fun k hk => sound k (by simp [hk])) next
    have first := (scriptSafe typed other).frame (executionsKey redisPrefix name)
      (by rw [← executionsCountKey_eq]; exact executionsKey_ne_countKey)
    exact rest.trans first

theorem ScanOf.live {keys : List String} (scan : ScanOf redisPrefix K keys) :
    LiveMigration redisPrefix K keys (keys.map migration) where
  scripts := by
    apply List.filter_eq_self.mpr
    intro c hc
    obtain ⟨key, -, rfl⟩ := List.mem_map.mp hc
    rfl
  sound := fun key hkey => (scan.sound key hkey).1
  complete := fun key hmatch present => scan.complete key hmatch (present [] List.nil_prefix)

theorem migrate_again {keys again : List String} (typed : K.Typed redisPrefix)
    (scan : ScanOf redisPrefix K keys)
    (rescan : ScanOf redisPrefix (runKeys redisPrefix K (keys.map migration)) again) :
    runKeys redisPrefix K (keys.map migration ++ again.map migration) =
      runKeys redisPrefix K (keys.map migration) := by
  have live := scan.live
  have done : (runKeys redisPrefix K (keys.map migration)).Typed redisPrefix :=
    typed_run typed live.addresses
  have still : ∀ key ∈ again, runKeys redisPrefix (runKeys redisPrefix K (keys.map migration))
      [migration key] = runKeys redisPrefix K (keys.map migration) := by
    intro key hkey
    obtain ⟨hmatch, present⟩ := rescan.sound key hkey
    obtain ⟨name, rfl⟩ := matches_executionsPattern.mp hmatch
    have ahead := ahead_of_live name typed live (by
      intro pre hpre
      obtain ⟨first, hfirst⟩ : ∃ first : List String,
          pre = first.map migration ∧ ∀ k ∈ first, k ∈ keys := by
        obtain ⟨n, rfl⟩ : ∃ n, pre = (keys.map migration).take n :=
          ⟨pre.length, List.prefix_iff_eq_take.mp hpre⟩
        exact ⟨keys.take n, List.map_take.symm, fun k hk => List.mem_of_mem_take hk⟩
      rw [hfirst.1, lists_of_scripts (fun k hk => (scan.sound k (hfirst.2 k hk)).1) typed,
        ← lists_of_scripts live.sound typed]
      exact present)
    obtain ⟨n, hn, hle⟩ := ahead
    have enough : ¬((runKeys redisPrefix K (keys.map migration)).count
        (executionsCountKey redisPrefix name)).getD 0 <
          ((runKeys redisPrefix K (keys.map migration)).items
            (executionsKey redisPrefix name)).length := by
      have count : (runKeys redisPrefix K (keys.map migration)).count
          (executionsCountKey redisPrefix name) = some n := hn
      rw [count, Option.getD_some]
      exact not_lt.mpr hle
    change (Keyspace.migrateTask _ _ (executionsKey redisPrefix name ++ "_count")).2 = _
    rw [← executionsCountKey_eq, Keyspace.migrateTask_eq done.lists done.counters, if_neg enough]
  rw [runKeys_append]
  generalize runKeys redisPrefix K (keys.map migration) = K' at still
  clear rescan
  induction again with
  | nil => rfl
  | cons key again ih =>
    rw [List.map_cons, ← List.singleton_append, runKeys_append, still key (by simp)]
    exact ih (fun k hk => still k (by simp [hk]))

end Runs

/-- The migration is safe on a live system whose executions are lists and whose counts are
integers. -/
theorem migration_safe {redisPrefix : String} {K : Keyspace} {earlier l : List KeyCommand}
    {keys : List String} (lists : K.Lists redisPrefix) (counters : K.Counters redisPrefix)
    (before : ∀ c ∈ earlier, c.isMigration = false)
    (live : LiveMigration redisPrefix (runKeys redisPrefix K earlier) keys l) :
    MigratesSafely redisPrefix K earlier l := by
  have typed : K.Typed redisPrefix := ⟨lists, counters⟩
  have addresses := live.addresses
  have addresses₀ : ∀ c ∈ earlier, c.Addresses redisPrefix := by
    intro c hc
    cases c with
    | migrateTask => exact absurd (before _ hc) (by simp [KeyCommand.isMigration])
    | _ => trivial
  have start := typed_run typed addresses₀
  have within : ∀ pre c post, l = pre ++ c :: post →
      (runKeys redisPrefix K (earlier ++ pre)).Typed redisPrefix ∧ c.Addresses redisPrefix := by
    intro pre c post hl
    rw [runKeys_append]
    refine ⟨typed_run start (fun d hd => addresses d ?_), addresses c ?_⟩
    · rw [hl]
      simp [hd]
    · rw [hl]
      simp
  have finished : (runKeys redisPrefix K (earlier ++ l)).Typed redisPrefix := by
    rw [runKeys_append]
    exact typed_run start addresses
  constructor
  · intro pre c post hl _
    obtain ⟨reached, hc⟩ := within pre c post hl
    exact (exec_typed reached hc).1
  · intro pre key post hl
    obtain ⟨reached, name, hkey, -⟩ := within pre (migration key) post hl
    have safe := scriptSafe reached name
    rw [← runKeys_append] at safe
    rw [hkey]
    exact safe
  · intro keys again
    exact migrate_again typed
  · intro name present
    apply number_of_ahead finished
    rw [runKeys_append]
    apply ahead_of_live name start live
    intro pre hpre
    rw [← runKeys_append]
    exact present pre hpre
  · intro name present fresh whole
    apply number_of_exact finished
    have present' : ∀ pre, pre <+: l → runKeys redisPrefix (runKeys redisPrefix K earlier) pre
        (executionsKey redisPrefix name) ≠ none := by
      intro pre hpre
      rw [← runKeys_append]
      exact present pre hpre
    rw [runKeys_append]
    exact exact_of_live typed addresses₀ live present' fresh whole

/-! A list of two executions, and a third one that is stored right after the script. -/

def storedAt (time : Time) : Execution :=
  { exceptionName := "builtins:Exception", timeStarted := time, timeFailed := time }

def taskA : TaskId := ⟨"a", by decide⟩

/-- The keyspace of the task a, with this value under its count. -/
def keyspaceA (count : Option RedisValue) : Keyspace := fun key =>
  if key = executionsKey "t" "a" then some (.list (storedAt 1) [storedAt 2])
  else if key = executionsCountKey "t" "a" then count
  else none

def scriptThenStore : List KeyCommand :=
  [migration (executionsKey "t" "a"), .storeExecution taskA none (storedAt 3)]

theorem lists_keyspaceA (count : Option RedisValue) : (keyspaceA count).Lists "t" := by
  intro name
  by_cases h : name = "a"
  · exact Or.inr ⟨storedAt 1, [storedAt 2], by simp [keyspaceA, h]⟩
  · exact Or.inl (by simp [keyspaceA, h])

theorem live_keyspaceA {count : Option RedisValue} :
    LiveMigration "t" (keyspaceA count) [executionsKey "t" "a"] scriptThenStore where
  scripts := rfl
  sound := by
    intro key hkey
    exact matches_executionsPattern.mpr ⟨"a", List.mem_singleton.mp hkey⟩
  complete := by
    intro key hmatch present
    obtain ⟨name, rfl⟩ := matches_executionsPattern.mp hmatch
    have hpresent := present [] List.nil_prefix
    by_cases h : name = "a"
    · rw [h]
      exact List.mem_cons_self
    · exact absurd (by simp [keyspaceA, h]) hpresent

theorem migration_safe_uncounted : MigratesSafely "t" (keyspaceA none) [] scriptThenStore := by
  have counters : (keyspaceA none).Counters "t" := by
    intro name
    exact Or.inl (by simp [keyspaceA, Ne.symm executionsKey_ne_countKey])
  have live : LiveMigration "t" (runKeys "t" (keyspaceA none) []) [executionsKey "t" "a"]
      scriptThenStore := live_keyspaceA
  exact migration_safe (lists_keyspaceA none) counters (by simp) live

/-- Under the count is a string that is no integer: the script takes it for a count of 2.5, and INCR
fails. -/
theorem not_migration_safe_text : ¬∀ (redisPrefix : String) (K : Keyspace)
    (earlier l : List KeyCommand) (keys : List String), K.Lists redisPrefix →
      (∀ c ∈ earlier, c.isMigration = false) →
        LiveMigration redisPrefix (runKeys redisPrefix K earlier) keys l →
          MigratesSafely redisPrefix K earlier l := by
  intro hall
  have safe := hall "t" (keyspaceA (some (.text (some (5 / 2))))) [] scriptThenStore
    [executionsKey "t" "a"] (lists_keyspaceA _) (by simp) live_keyspaceA
  have present : ∀ pre ∈ scriptThenStore.inits, ((runKeys "t"
      (keyspaceA (some (.text (some (5 / 2))))) pre) (executionsKey "t" "a")).isSome = true := by
    decide +kernel
  have length : ((runKeys "t" (keyspaceA (some (.text (some (5 / 2))))) scriptThenStore).items
      (executionsKey "t" "a")).length = 3 := by
    decide +kernel
  have text : ((runKeys "t" (keyspaceA (some (.text (some (5 / 2))))) scriptThenStore).getNumber
      (executionsCountKey "t" "a")).toOption = some (5 / 2) := by
    decide +kernel
  obtain ⟨number, hnumber, hle⟩ := safe.at_least "a" (fun pre hpre => by
    have := present pre (List.mem_inits _ _ |>.mpr hpre)
    exact Option.isSome_iff_ne_none.mp this)
  rw [List.nil_append] at hnumber hle
  rw [hnumber] at text
  obtain rfl := Option.some.inj text
  rw [length] at hle
  norm_num at hle

end TaskTiger
