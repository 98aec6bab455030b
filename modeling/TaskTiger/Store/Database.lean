import TaskTiger.Framework.Simulation
import TaskTiger.Store.Commands

namespace TaskTiger

open Redis Simulation

/-! The keys of the package, TaskTiger._key. -/

/-- Parts are delimited with a colon. -/
def key (redisPrefix : String) (parts : List String) : String :=
  parts.foldl (fun k part => k ++ ":" ++ part) redisPrefix

def TaskState.name : TaskState → String
  | .queued => "queued"
  | .active => "active"
  | .scheduled => "scheduled"
  | .error => "error"

/-- What the package keeps under a key of its own. -/
inductive Slot where
  | states (st : TaskState)
  | zset (st : TaskState) (queue : String)
  | task (id : String)
  | executions (id : String)
  | executionsCount (id : String)
  | lock (name : String)
  deriving DecidableEq

def Slot.parts : Slot → List String
  | .states st => [st.name]
  | .zset st queue => [st.name, queue]
  | .task id => ["task", id]
  | .executions id => ["task", id, "executions"]
  | .executionsCount id => ["task", id, "executions_count"]
  | .lock name => ["lockv2", name]

def NoColon (part : String) : Prop := ':' ∉ part.toList

instance (part : String) : Decidable (NoColon part) := inferInstanceAs (Decidable (_ ∉ _))

/-- The id of a task has no colon; any text is the name of a queue or of a lock. -/
def Slot.Proper : Slot → Prop
  | .task id | .executions id | .executionsCount id => NoColon id
  | _ => True

/-- What follows the prefix. -/
def joined (parts : List String) : List Char := parts.flatMap (fun part => ':' :: part.toList)

theorem toList_key (p : String) (parts : List String) :
    (key p parts).toList = p.toList ++ joined parts := by
  induction parts generalizing p with
  | nil => simp [key, joined]
  | cons part parts ih =>
    have rest := ih (p ++ ":" ++ part)
    simp only [key, joined, List.foldl_cons, List.flatMap_cons] at rest ⊢
    rw [rest]
    simp

theorem key_inj_iff {p : String} {a b : List String} : key p a = key p b ↔ joined a = joined b := by
  constructor
  · intro h
    have texts := congrArg String.toList h
    rw [toList_key, toList_key] at texts
    exact List.append_cancel_left texts
  · intro h
    apply String.toList_injective
    rw [toList_key, toList_key, h]

/-- The first part ends at the next colon, if it has none itself. -/
theorem joined_cons_inj {a b : String} {as bs : List String} (ha : NoColon a) (hb : NoColon b) :
    joined (a :: as) = joined (b :: bs) ↔ a = b ∧ joined as = joined bs := by
  have first : ∀ (c : String) (cs : List String), NoColon c →
      (c.toList ++ joined cs).takeWhile (· ≠ ':') = c.toList := by
    intro c cs hc
    have stop : (joined cs).takeWhile (· ≠ ':') = [] := by
      cases cs <;> simp [joined]
    rw [List.takeWhile_append_of_pos, stop, List.append_nil]
    intro x hx
    simp only [decide_eq_true_eq]
    rintro rfl
    exact hc hx
  constructor
  · intro h
    have tails : a.toList ++ joined as = b.toList ++ joined bs := by
      simpa [joined] using h
    have same : a.toList = b.toList := by
      rw [← first a as ha, ← first b bs hb, tails]
    rw [same] at tails
    exact ⟨String.toList_injective same, List.append_cancel_left tails⟩
  · rintro ⟨rfl, h⟩
    simpa [joined] using h

theorem joined_singleton_inj {a b : String} : joined [a] = joined [b] ↔ a = b := by
  simp [joined, String.toList_inj]

theorem noColon_name (st : TaskState) : NoColon st.name := by
  cases st <;> decide

theorem name_injective : Function.Injective TaskState.name := by
  intro a b
  cases a <;> cases b <;> decide

theorem name_ne (st : TaskState) : st.name ≠ "task" ∧ st.name ≠ "lockv2" := by
  cases st <;> decide

/-- An id is found again in what follows it, nothing or one more part. -/
theorem joined_id_inj {a b : String} {as bs : List String} (ha : NoColon a) (hb : NoColon b)
    (h : joined ("task" :: a :: as) = joined ("task" :: b :: bs)) :
    a = b ∧ joined as = joined bs := by
  have task : NoColon "task" := by decide
  exact (joined_cons_inj ha hb).mp ((joined_cons_inj task task).mp h).2

/-- No two things are kept under one key, whatever the names of the queues and the locks are. -/
theorem slot_key_injective {p : String} {a b : Slot} (ha : a.Proper) (hb : b.Proper)
    (h : key p a.parts = key p b.parts) : a = b := by
  rw [key_inj_iff] at h
  have task : NoColon "task" := by decide
  have lock : NoColon "lockv2" := by decide
  have some_ne : ∀ c cs, joined [] ≠ joined (c :: cs) := by simp [joined]
  cases a with
  | states st =>
    cases b with
    | states st' =>
      obtain ⟨same, -⟩ := (joined_cons_inj (noColon_name st) (noColon_name st')).mp h
      rw [name_injective same]
    | zset st' q => exact absurd ((joined_cons_inj (noColon_name st) (noColon_name st')).mp h).2 (some_ne _ _)
    | task id | executions id | executionsCount id =>
      exact absurd ((joined_cons_inj (noColon_name st) task).mp h).1 (name_ne st).1
    | lock name => exact absurd ((joined_cons_inj (noColon_name st) lock).mp h).1 (name_ne st).2
  | zset st q =>
    cases b with
    | states st' =>
      exact absurd ((joined_cons_inj (noColon_name st) (noColon_name st')).mp h).2.symm (some_ne _ _)
    | zset st' q' =>
      obtain ⟨same, rest⟩ := (joined_cons_inj (noColon_name st) (noColon_name st')).mp h
      rw [name_injective same, joined_singleton_inj.mp rest]
    | task id | executions id | executionsCount id =>
      exact absurd ((joined_cons_inj (noColon_name st) task).mp h).1 (name_ne st).1
    | lock name => exact absurd ((joined_cons_inj (noColon_name st) lock).mp h).1 (name_ne st).2
  | task id =>
    cases b with
    | states st | zset st q =>
      exact absurd ((joined_cons_inj task (noColon_name st)).mp h).1 (name_ne st).1.symm
    | task id' => rw [(joined_id_inj ha hb h).1]
    | executions id' | executionsCount id' => exact absurd (joined_id_inj ha hb h).2 (some_ne _ _)
    | lock name => exact absurd ((joined_cons_inj task lock).mp h).1 (by decide)
  | executions id =>
    cases b with
    | states st | zset st q =>
      exact absurd ((joined_cons_inj task (noColon_name st)).mp h).1 (name_ne st).1.symm
    | task id' => exact absurd (joined_id_inj ha hb h).2.symm (some_ne _ _)
    | executions id' => rw [(joined_id_inj ha hb h).1]
    | executionsCount id' =>
      exact absurd (joined_singleton_inj.mp (joined_id_inj ha hb h).2) (by decide)
    | lock name => exact absurd ((joined_cons_inj task lock).mp h).1 (by decide)
  | executionsCount id =>
    cases b with
    | states st | zset st q =>
      exact absurd ((joined_cons_inj task (noColon_name st)).mp h).1 (name_ne st).1.symm
    | task id' => exact absurd (joined_id_inj ha hb h).2.symm (some_ne _ _)
    | executions id' => exact absurd (joined_singleton_inj.mp (joined_id_inj ha hb h).2) (by decide)
    | executionsCount id' => rw [(joined_id_inj ha hb h).1]
    | lock name => exact absurd ((joined_cons_inj task lock).mp h).1 (by decide)
  | lock name =>
    cases b with
    | states st | zset st q =>
      exact absurd ((joined_cons_inj lock (noColon_name st)).mp h).1 (name_ne st).2.symm
    | task id | executions id | executionsCount id =>
      exact absurd ((joined_cons_inj lock task).mp h).1 (by decide)
    | lock name' => rw [joined_singleton_inj.mp ((joined_cons_inj lock lock).mp h).2]

/-! Redis below the package: keys with typed values. -/

/-- The content of a STRING, by what it is read as. -/
inductive Text where
  | object (d : TaskData)
  | number (n : Nat)
  | token (t : String)

/-- The value of a key that exists; Redis deletes a set, a ZSET or a list with its last element. -/
inductive Value where
  | set (members : Finset String)
  | zset (z : ZSet Time String)
  | list (l : List Execution)
  | string (t : Text)

/-- The keys, and the messages published on each channel. -/
structure Database where
  keys : String → Option Value
  published : List (String × String)

def Database.empty : Database := ⟨fun _ => none, []⟩

/-- Commands to Redis; they are stuck where a key holds a value of another type. -/
abbrev Raw := StateT Database Option

def getKey (k : String) : Raw (Option Value) := fun ks => some (ks.keys k, ks)

def putKey (k : String) (v : Option Value) : Raw Unit :=
  fun ks => some ((), { ks with keys := Function.update ks.keys k v })

def setValue (members : Finset String) : Option Value :=
  if members = ∅ then none else some (.set members)

def zsetValue (z : ZSet Time String) : Option Value :=
  if z.nonempty = true then some (.zset z) else none

def listValue (l : List Execution) : Option Value := if l = [] then none else some (.list l)

/-- The set under a key, empty if there is no key. -/
def asSet : Option Value → Raw (Finset String)
  | none => pure ∅
  | some (.set members) => pure members
  | _ => fun _ => none

def asZset : Option Value → Raw (ZSet Time String)
  | none => pure ZSet.empty
  | some (.zset z) => pure z
  | _ => fun _ => none

def asList : Option Value → Raw (List Execution)
  | none => pure []
  | some (.list l) => pure l
  | _ => fun _ => none

def asObject : Option Value → Raw (Option TaskData)
  | none => pure none
  | some (.string (.object d)) => pure (some d)
  | _ => fun _ => none

def asNumber : Option Value → Raw (Option Nat)
  | none => pure none
  | some (.string (.number n)) => pure (some n)
  | _ => fun _ => none

def asToken : Option Value → Raw (Option String)
  | none => pure none
  | some (.string (.token t)) => pure (some t)
  | _ => fun _ => none

namespace Raw

def exists_ (k : String) : Raw Bool := do
  let v ← getKey k
  pure v.isSome

def del (k : String) : Raw Unit := putKey k none

def smembers (e : Enumeration) (k : String) : Raw (List String) := do
  let members ← asSet (← getKey k)
  pure (e.order members)

def sadd (k member : String) : Raw Unit := do
  let members ← asSet (← getKey k)
  putKey k (setValue (insert member members))

def srem (k member : String) : Raw Unit := do
  let members ← asSet (← getKey k)
  putKey k (setValue (members.erase member))

def zget (k : String) : Raw (ZSet Time String) := do asZset (← getKey k)

def zput (k : String) (z : ZSet Time String) : Raw Unit := putKey k (zsetValue z)

def zscore (k member : String) : Raw (Option Time) := do
  let z ← zget k
  pure (z.score member)

def zcard (k : String) : Raw Nat := do
  let z ← zget k
  pure z.card

def zrange (k : String) (start stop : Int) : Raw (List (Time × String)) := do
  let z ← zget k
  pure (z.range start stop)

/-- The members, without the scores. -/
def zrangebyscore (k : String) (lo hi : Option Time) (count : Int) : Raw (List String) := do
  let z ← zget k
  pure ((z.rangeByScore lo hi count).map Prod.snd)

def zadd (k : String) (score : Time) (member : String) : Raw Unit := do
  let z ← zget k
  zput k (z.add score member)

/-- ZADD of several members with one score. -/
def zaddAll (k : String) (score : Time) (members : List String) : Raw Unit := do
  let z ← zget k
  zput k (members.foldl (fun z m => z.add score m) z)

def zrem (k member : String) : Raw Unit := do
  let z ← zget k
  zput k (z.rem member)

/-- ZREMRANGEBYRANK k 0 (n-1). -/
def zremFirst (k : String) (n : Nat) : Raw Unit := do
  let z ← zget k
  zput k (z.popFirst n)

def getObject (k : String) : Raw (Option TaskData) := do asObject (← getKey k)

def setObject (k : String) (d : TaskData) : Raw Unit := putKey k (some (.string (.object d)))

def getNumber (k : String) : Raw (Option Nat) := do asNumber (← getKey k)

def incr (k : String) : Raw Unit := do
  let n ← getNumber k
  putKey k (some (.string (.number (n.getD 0 + 1))))

def getToken (k : String) : Raw (Option String) := do asToken (← getKey k)

def lget (k : String) : Raw (List Execution) := do asList (← getKey k)

def rpush (k : String) (e : Execution) : Raw Unit := do
  let l ← lget k
  putKey k (listValue (l ++ [e]))

def ltrimLast (k : String) (m : Int) : Raw Unit := do
  let l ← lget k
  putKey k (listValue (ltrim m l))

def publish (channel message : String) : Raw Unit :=
  fun ks => some ((), { ks with published := ks.published ++ [(channel, message)] })

end Raw

/-! The database of a store. -/

def Store.value (s : Store) : Slot → Option Value
  | .states st => setValue (s.queues st)
  | .zset st queue => zsetValue (s.zset st queue)
  | .task id => (s.task id).map (fun d => .string (.object d))
  | .executions id => listValue (s.executions id)
  | .executionsCount id => (s.executionsCount id).map (fun n => .string (.number n))
  | .lock name => (s.locks name).map (fun t => .string (.token t))

def Slot.key (p : String) (slot : Slot) : String := TaskTiger.key p slot.parts

/-- The database holds what the store says, under the keys of the package, and nothing else. -/
structure Represents (p : String) (ks : Database) (s : Store) : Prop where
  keys : ∀ slot, slot.Proper → ks.keys (slot.key p) = s.value slot
  only : ∀ k, (∀ slot : Slot, slot.Proper → k ≠ slot.key p) → ks.keys k = none
  published : ks.published = s.activity.map (fun queue => (key p ["activity"], queue))

theorem represents_empty (p : String) : Represents p Database.empty Store.empty where
  keys := by
    intro slot _
    cases slot <;> rfl
  only _ _ := rfl
  published := rfl

section

variable {p : String} {s t : Store}

/-- What is written under one key is that part of the store. -/
theorem runs_putKey (slot : Slot) (proper : slot.Proper) {v : Option Value} (here : t.value slot = v)
    (others : ∀ other, other ≠ slot → t.value other = s.value other)
    (activity : t.activity = s.activity) :
    Runs (Represents p) (putKey (slot.key p) v) s (fun _ u => u = t) := by
  intro ks represents
  refine ⟨(), _, t, rfl, ⟨?_, fun k foreign => ?_, ?_⟩, rfl⟩
  · intro other properOther
    by_cases same : other = slot
    · rw [same, here]
      exact Function.update_self ..
    · have apart : other.key p ≠ slot.key p :=
        fun h => same (slot_key_injective properOther proper h)
      rw [others other same, ← represents.keys other properOther]
      exact Function.update_of_ne apart _ _
  · rw [← represents.only k foreign]
    exact Function.update_of_ne (foreign slot proper) _ _
  · rw [activity]
    exact represents.published

theorem runs_getKey (slot : Slot) (proper : slot.Proper) :
    Runs (Represents p) (getKey (slot.key p)) s (fun v u => v = s.value slot ∧ u = s) := by
  intro ks represents
  exact ⟨_, ks, s, rfl, represents, represents.keys slot proper, rfl⟩

/-! Reads. -/

theorem runs_exists (slot : Slot) (proper : slot.Proper) :
    Runs (Represents p) (Raw.exists_ (slot.key p)) s
      (fun r u => r = (s.value slot).isSome ∧ u = s) :=
  (runs_getKey slot proper).andThen (runs_pure ⟨rfl, rfl⟩)

variable {st : TaskState} {q id name x : String} {z : ZSet Time String}

theorem runs_zget : Runs (Represents p) (Raw.zget ((Slot.zset st q).key p)) s
    (fun r u => r = s.zset st q ∧ u = s) := by
  refine (runs_getKey (.zset st q) trivial).andThen ?_
  change Runs _ (asZset (zsetValue (s.zset st q))) s _
  unfold zsetValue
  split_ifs with existing
  · exact runs_pure ⟨rfl, rfl⟩
  · have none_left : s.zset st q = ZSet.empty := by
      apply ZSet.ext_score
      intro m
      rw [ZSet.score_empty, ← ZSet.not_mem_iff]
      exact ZSet.nonempty_eq_false.mp (by simpa using existing) m
    exact runs_pure ⟨none_left.symm, rfl⟩

theorem runs_asSet {members : Finset String} : Runs (Represents p) (asSet (setValue members)) s
    (fun r u => r = members ∧ u = s) := by
  unfold setValue
  split_ifs with none_left
  · exact runs_pure ⟨none_left.symm, rfl⟩
  · exact runs_pure ⟨rfl, rfl⟩

theorem runs_smembers (e : Enumeration) :
    Runs (Represents p) (Raw.smembers e ((Slot.states st).key p)) s
      (fun r u => r = e.order (s.queues st) ∧ u = s) := by
  refine (runs_getKey (.states st) trivial).andThen (runs_asSet.andThen ?_)
  exact runs_pure ⟨rfl, rfl⟩

theorem runs_getObject (proper : NoColon id) :
    Runs (Represents p) (Raw.getObject ((Slot.task id).key p)) s
      (fun r u => r = s.task id ∧ u = s) := by
  refine (runs_getKey (.task id) proper).andThen ?_
  cases object : s.task id with
  | none => simpa [Store.value, object, asObject] using runs_pure ⟨rfl, rfl⟩
  | some d => simpa [Store.value, object, asObject] using runs_pure ⟨rfl, rfl⟩

theorem runs_getNumber (proper : NoColon id) :
    Runs (Represents p) (Raw.getNumber ((Slot.executionsCount id).key p)) s
      (fun r u => r = s.executionsCount id ∧ u = s) := by
  refine (runs_getKey (.executionsCount id) proper).andThen ?_
  cases count : s.executionsCount id with
  | none => simpa [Store.value, count, asNumber] using runs_pure ⟨rfl, rfl⟩
  | some n => simpa [Store.value, count, asNumber] using runs_pure ⟨rfl, rfl⟩

theorem runs_getToken : Runs (Represents p) (Raw.getToken ((Slot.lock name).key p)) s
    (fun r u => r = s.locks name ∧ u = s) := by
  refine (runs_getKey (.lock name) trivial).andThen ?_
  cases lock : s.locks name with
  | none => simpa [Store.value, lock, asToken] using runs_pure ⟨rfl, rfl⟩
  | some t => simpa [Store.value, lock, asToken] using runs_pure ⟨rfl, rfl⟩

theorem runs_lget (proper : NoColon id) :
    Runs (Represents p) (Raw.lget ((Slot.executions id).key p)) s
      (fun r u => r = s.executions id ∧ u = s) := by
  refine (runs_getKey (.executions id) proper).andThen ?_
  change Runs _ (asList (listValue (s.executions id))) s _
  unfold listValue
  split_ifs with none_left
  · exact runs_pure ⟨none_left.symm, rfl⟩
  · exact runs_pure ⟨rfl, rfl⟩

/-! Writes. -/

/-- LIST, counter and lock of a store, each replaced on its own. -/
def Store.setExecutions (s : Store) (id : String) (l : List Execution) : Store :=
  { s with executions := fun x => if x = id then l else s.executions x }

def Store.setExecutionsCount (s : Store) (id : String) (n : Option Nat) : Store :=
  { s with executionsCount := fun x => if x = id then n else s.executionsCount x }

def Store.setLock (s : Store) (name : String) (token : Option String) : Store :=
  { s with locks := fun x => if x = name then token else s.locks x }

theorem runs_zput (z : ZSet Time String) :
    Runs (Represents p) (Raw.zput ((Slot.zset st q).key p) z) s (fun _ u => u = s.setZset st q z) := by
  refine runs_putKey (.zset st q) trivial (by simp [Store.value]) ?_ rfl
  intro other apart
  cases other with
  | zset st' q' =>
    have ne : ¬(st' = st ∧ q' = q) := by
      rintro ⟨rfl, rfl⟩
      exact apart rfl
    simp [Store.value, ne]
  | _ => rfl

theorem runs_sadd (queue : String) :
    Runs (Represents p) (Raw.sadd ((Slot.states st).key p) queue) s (fun _ u => u = s.sadd st queue) := by
  refine (runs_getKey (.states st) trivial).andThen (runs_asSet.andThen ?_)
  refine runs_putKey (.states st) trivial (by simp [Store.value, Store.sadd]) ?_ rfl
  intro other apart
  cases other with
  | states st' =>
    have ne : st' ≠ st := fun h => apart (h ▸ rfl)
    simp [Store.value, Store.sadd, ne]
  | _ => rfl

theorem runs_srem (queue : String) :
    Runs (Represents p) (Raw.srem ((Slot.states st).key p) queue) s (fun _ u => u = s.srem st queue) := by
  refine (runs_getKey (.states st) trivial).andThen (runs_asSet.andThen ?_)
  refine runs_putKey (.states st) trivial (by simp [Store.value, Store.srem]) ?_ rfl
  intro other apart
  cases other with
  | states st' =>
    have ne : st' ≠ st := fun h => apart (h ▸ rfl)
    simp [Store.value, Store.srem, ne]
  | _ => rfl

theorem runs_putTask (proper : NoColon id) (d : Option TaskData) :
    Runs (Represents p) (putKey ((Slot.task id).key p) (d.map (fun d => .string (.object d)))) s
      (fun _ u => u = s.setTask id d) := by
  refine runs_putKey (.task id) proper (by simp [Store.value]) ?_ rfl
  intro other apart
  cases other with
  | task x =>
    have ne : x ≠ id := fun h => apart (h ▸ rfl)
    simp [Store.value, ne]
  | _ => rfl

theorem runs_putExecutions (proper : NoColon id) (l : List Execution) :
    Runs (Represents p) (putKey ((Slot.executions id).key p) (listValue l)) s
      (fun _ u => u = s.setExecutions id l) := by
  refine runs_putKey (.executions id) proper (by simp [Store.value, Store.setExecutions]) ?_ rfl
  intro other apart
  cases other with
  | executions x =>
    have ne : x ≠ id := fun h => apart (h ▸ rfl)
    simp [Store.value, Store.setExecutions, ne]
  | _ => rfl

theorem runs_putCount (proper : NoColon id) (n : Option Nat) :
    Runs (Represents p)
      (putKey ((Slot.executionsCount id).key p) (n.map (fun n => .string (.number n)))) s
      (fun _ u => u = s.setExecutionsCount id n) := by
  refine runs_putKey (.executionsCount id) proper
    (by simp [Store.value, Store.setExecutionsCount]) ?_ rfl
  intro other apart
  cases other with
  | executionsCount x =>
    have ne : x ≠ id := fun h => apart (h ▸ rfl)
    simp [Store.value, Store.setExecutionsCount, ne]
  | _ => rfl

theorem runs_putLock (token : Option String) :
    Runs (Represents p)
      (putKey ((Slot.lock name).key p) (token.map (fun t => .string (.token t)))) s
      (fun _ u => u = s.setLock name token) := by
  refine runs_putKey (.lock name) trivial (by simp [Store.value, Store.setLock]) ?_ rfl
  intro other apart
  cases other with
  | lock x =>
    have ne : x ≠ name := fun h => apart (h ▸ rfl)
    simp [Store.value, Store.setLock, ne]
  | _ => rfl

theorem runs_publish (queue : String) :
    Runs (Represents p) (Raw.publish (key p ["activity"]) queue) s
      (fun _ u => u = s.publish queue) := by
  intro ks represents
  refine ⟨(), _, s.publish queue, rfl, ⟨?_, represents.only, ?_⟩, rfl⟩
  · intro slot proper
    rw [represents.keys slot proper]
    cases slot <;> rfl
  · simp [represents.published]

end

end TaskTiger
