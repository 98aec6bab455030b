import TaskTiger.Store.Scripts

namespace TaskTiger

open Redis

/-! GET_EXPIRED_TASKS as it replies, and what RedisScripts.get_expired_tasks makes of it. -/

/-- The loop of the script, whose result is one flat list. -/
def expiredReply (s : Store) (time : Time) : List String → Int → List String
  | [], _ => []
  | queue :: queues, batchSize =>
      let members :=
        ((s.zset .active queue).rangeByScore (some 0) (some time) batchSize).map Prod.snd
      let left := batchSize - members.length
      members.flatMap (fun id => [queue, id]) ++
        if left ≤ 0 then [] else expiredReply s time queues left

/-- l[::2]. -/
def everySecond {α : Type} : List α → List α
  | [] => []
  | [a] => [a]
  | a :: _ :: l => a :: everySecond l

/-- [queue1, task1, queue2, task2] -> [(queue1, task1), (queue2, task2)]. -/
def zipPairs {α : Type} (result : List α) : List (α × α) :=
  (everySecond result).zip (everySecond (result.drop 1))

theorem zipPairs_cons_cons {α : Type} (a b : α) (l : List α) :
    zipPairs (a :: b :: l) = (a, b) :: zipPairs l := by
  cases l with
  | nil => rfl
  | cons c l => rfl

theorem zipPairs_flatMap_append {α : Type} (a : α) (bs : List α) (l : List α) :
    zipPairs (bs.flatMap (fun b => [a, b]) ++ l) = bs.map (fun b => (a, b)) ++ zipPairs l := by
  induction bs with
  | nil => rfl
  | cons b bs ih =>
    simp only [List.flatMap_cons, List.cons_append, List.nil_append, zipPairs_cons_cons, ih,
      List.map_cons]

theorem zipPairs_expiredReply (s : Store) (time : Time) (queues : List String) (batchSize : Int) :
    zipPairs (expiredReply s time queues batchSize) = expiredIn s time queues batchSize := by
  induction queues generalizing batchSize with
  | nil => rfl
  | cons queue queues ih =>
    simp only [expiredReply, expiredIn, zipPairs_flatMap_append]
    split_ifs
    · rfl
    · rw [ih]

/-! The expired entries, of which the loop takes a batch. -/

/-- The ids of a queue's ACTIVE ZSET between 0 and the cutoff, oldest first. -/
def Store.expired (s : Store) (time : Time) (queue : String) : List String :=
  ((s.zset .active queue).entries.filter
    (fun e => ZSet.inRange (some 0) (some time) e.1)).map Prod.snd

variable {s : Store} {time : Time} {queues : List String} {batchSize : Int} {q x : String}

theorem mem_expired : x ∈ s.expired time q ↔
    ∃ t, s.score .active q x = some t ∧ 0 ≤ t ∧ t ≤ time := by
  simp [Store.expired, Store.score, ZSet.score_eq_some, ZSet.inRange]

theorem nodup_expired (s : Store) (time : Time) (q : String) : (s.expired time q).Nodup :=
  (s.zset .active q).unique.sublist (List.filter_sublist.map _)

/-- The expired entries of the queues, one queue after the other. -/
def Store.expiredOf (s : Store) (time : Time) (queues : List String) : List (String × String) :=
  queues.flatMap (fun queue => (s.expired time queue).map (fun id => (queue, id)))

theorem mem_expiredOf :
    (q, x) ∈ s.expiredOf time queues ↔ q ∈ queues ∧ x ∈ s.expired time q := by
  simp [Store.expiredOf]

theorem nodup_expiredOf (hqueues : queues.Nodup) : (s.expiredOf time queues).Nodup := by
  refine List.nodup_flatMap.mpr ⟨?_, ?_⟩
  · intro queue _
    exact (nodup_expired s time queue).map (fun _ _ h => (Prod.mk.inj h).2)
  · refine hqueues.imp ?_
    intro a b hab p ha hb
    obtain ⟨_, _, rfl⟩ := List.mem_map.mp ha
    obtain ⟨_, _, h⟩ := List.mem_map.mp hb
    exact hab (Prod.mk.inj h).1.symm

/-- The entries of one queue among those of all. -/
theorem filter_expiredOf (hqueues : queues.Nodup) (hq : q ∈ queues) :
    ((s.expiredOf time queues).filter (fun p => p.1 = q)).map Prod.snd = s.expired time q := by
  induction queues with
  | nil => simp at hq
  | cons queue queues ih =>
    obtain ⟨hnotin, hqueues⟩ := List.nodup_cons.mp hqueues
    have same : ((s.expired time queue).map (fun id => (queue, id))).filter
        (fun p => decide (p.1 = q)) =
          if queue = q then (s.expired time queue).map (fun id => (queue, id)) else [] := by
      split_ifs with h
      · simp [List.filter_map, Function.comp_def, h]
      · simp [List.filter_map, Function.comp_def, h]
    rw [Store.expiredOf, List.flatMap_cons, List.filter_append, same, List.map_append]
    rcases List.mem_cons.mp hq with rfl | hin
    · have others : (s.expiredOf time queues).filter (fun p => decide (p.1 = q)) = [] := by
        apply List.filter_eq_nil_iff.mpr
        intro p hp hpq
        obtain rfl : p.1 = q := by simpa using hpq
        exact hnotin (mem_expiredOf.mp hp).1
      rw [if_pos rfl, ← Store.expiredOf, others]
      simp
    · have hne : queue ≠ q := fun h => hnotin (h ▸ hin)
      rw [if_neg hne, ← Store.expiredOf, ih hqueues hin]
      rfl

/-- The shrinking batch size cuts off a prefix of all the expired entries. -/
theorem expiredIn_eq_take (hb : 1 ≤ batchSize) :
    expiredIn s time queues batchSize = (s.expiredOf time queues).take batchSize.toNat := by
  induction queues generalizing batchSize with
  | nil => simp [expiredIn, Store.expiredOf]
  | cons queue queues ih =>
    have members : ((s.zset .active queue).rangeByScore (some 0) (some time) batchSize).map
        Prod.snd = (s.expired time queue).take batchSize.toNat := by
      rw [ZSet.rangeByScore, ZSet.limit, if_neg (by omega), List.map_take]
      rfl
    rw [Store.expiredOf, List.flatMap_cons, ← Store.expiredOf, List.take_append, List.length_map,
      ← List.map_take]
    simp only [expiredIn, members, List.length_take]
    congr 1
    split_ifs with hleft
    · have full : batchSize.toNat - (s.expired time queue).length = 0 := by omega
      rw [full, List.take_zero]
    · have left : batchSize - ((min batchSize.toNat (s.expired time queue).length : ℕ) : Int) =
          batchSize - (s.expired time queue).length := by omega
      rw [left] at hleft ⊢
      rw [ih (by omega)]
      congr 1
      omega

/-! The batch. -/

/-- An entry that has expired, in a queue that is listed. -/
def Store.Expired (s : Store) (time : Time) (p : String × String) : Prop :=
  p.1 ∈ s.queues .active ∧ ∃ t, s.score .active p.1 p.2 = some t ∧ 0 ≤ t ∧ t ≤ time

/-- A full batch of distinct expired entries, of each queue the oldest ones. -/
structure FullBatch (s : Store) (time : Time) (batchSize : Int) (batch : List (String × String)) :
    Prop where
  expired : ∀ p ∈ batch, s.Expired time p
  distinct : batch.Nodup
  full : (batch.length : ℕ∞) = min (batchSize.toNat : ℕ∞) (Set.encard {p | s.Expired time p})
  oldest : ∀ queue, (batch.filter (fun p => p.1 = queue)).map Prod.snd <+: s.expired time queue

theorem mem_expiredOf_order (e : Enumeration) (p : String × String) :
    p ∈ s.expiredOf time (e.order (s.queues .active)) ↔ s.Expired time p := by
  obtain ⟨q, x⟩ := p
  rw [mem_expiredOf, e.mem, mem_expired]
  rfl

theorem fullBatch_getExpiredTasks (e : Enumeration) (hb : 1 ≤ batchSize) :
    FullBatch s time batchSize (getExpiredTasks e time batchSize s) := by
  have nodup := e.nodup (s.queues .active)
  have taken : getExpiredTasks e time batchSize s <+:
      s.expiredOf time (e.order (s.queues .active)) := by
    rw [getExpiredTasks, expiredIn_eq_take hb]
    exact List.take_prefix _ _
  constructor
  · intro p hp
    exact (mem_expiredOf_order e p).mp (taken.subset hp)
  · exact (nodup_expiredOf nodup).sublist taken.sublist
  · have all : {p | s.Expired time p} =
        ((s.expiredOf time (e.order (s.queues .active))).toFinset : Set (String × String)) := by
      ext p
      simp [mem_expiredOf_order]
    rw [all, Set.encard_coe_eq_coe_finsetCard, List.toFinset_card_of_nodup (nodup_expiredOf nodup),
      getExpiredTasks, expiredIn_eq_take hb, List.length_take]
    norm_cast
  · intro queue
    by_cases hq : queue ∈ e.order (s.queues .active)
    · rw [← filter_expiredOf nodup hq]
      exact (taken.filter _).map _
    · have none : (getExpiredTasks e time batchSize s).filter (fun p => p.1 = queue) = [] := by
        apply List.filter_eq_nil_iff.mpr
        intro p hp hpq
        obtain rfl : p.1 = queue := by simpa using hpq
        exact hq (mem_expiredOf.mp (taken.subset hp)).1
      rw [none]
      exact List.nil_prefix

/-- RedisScripts.get_expired_tasks returns a full batch. -/
theorem expired_tasks_full (s : Store) (e : Enumeration) (time : Time) (batchSize : Int)
    (hb : 1 ≤ batchSize) :
    FullBatch s time batchSize
      (zipPairs (expiredReply s time (e.order (s.queues .active)) batchSize)) := by
  rw [zipPairs_expiredReply]
  exact fullBatch_getExpiredTasks e hb

/-- Three active tasks in two queues, two of them expired. -/
def activeTasks : Store :=
  (((Store.empty.sadd .active "q1").setZset .active "q1"
    ((ZSet.empty.add 500 "t1").add 1500 "t3")).sadd .active "q4").setZset .active "q4"
      (ZSet.empty.add 200 "t6")

theorem expired_tasks_full_one :
    FullBatch activeTasks 1000 1
      (zipPairs (expiredReply activeTasks 1000
        (sortedEnumeration.order (activeTasks.queues .active)) 1)) :=
  expired_tasks_full activeTasks sortedEnumeration 1000 1 (by decide)

end TaskTiger
