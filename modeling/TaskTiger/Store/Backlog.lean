import TaskTiger.Store.CommandEffects

namespace TaskTiger

open Redis Interleaving

variable {s : Store} {st : TaskState} {q x : String}

/-! One client queues many tasks. -/

/-- Immediate delays of tasks of one function, with these ids. -/
def enqueueAll (queue func : String) (unique : Bool) (now : Instant) (ids : List String) :
    List Command :=
  ids.map (fun id => .delay queue { id := id, func := func, unique := unique } none now true)

section Enqueue

variable {queue func : String} {unique : Bool} {now : Instant}

theorem zset_enqueueAll (ids : List String) (hst : ¬(st = .queued ∧ q = queue)) :
    (runAll s (enqueueAll queue func unique now ids)).zset st q = s.zset st q := by
  induction ids generalizing s with
  | nil => rfl
  | cons id ids ih =>
    have hstep : (exec (.delay queue { id := id, func := func, unique := unique } none now true)
        s).2.zset st q = s.zset st q := zset_delay.trans (if_neg hst)
    exact ih.trans hstep

theorem task_enqueueAll {ids : List String} (h : x ∈ ids ∨ s.task x ≠ none) :
    (runAll s (enqueueAll queue func unique now ids)).task x ≠ none := by
  induction ids generalizing s with
  | nil => exact h.resolve_left (by simp)
  | cons id ids ih =>
    refine ih ?_
    change x ∈ ids ∨ (exec (.delay queue { id := id, func := func, unique := unique } none now true)
      s).2.task x ≠ none
    rw [task_delay]
    split_ifs with hx
    · exact Or.inr (by simp)
    · rcases h with h | h
      · exact Or.inl ((List.mem_cons.mp h).resolve_left hx)
      · exact Or.inr h

/-- Each new id adds one member to QUEUED. -/
theorem card_enqueueAll (ids : List String) (hnd : ids.Nodup)
    (hnew : ∀ id ∈ ids, id ∉ s.zset .queued queue) :
    ((runAll s (enqueueAll queue func unique now ids)).zset .queued queue).card =
      (s.zset .queued queue).card + ids.length := by
  induction ids generalizing s with
  | nil => rfl
  | cons id ids ih =>
    obtain ⟨hid, hrest⟩ := List.nodup_cons.mp hnd
    let t := (exec (.delay queue { id := id, func := func, unique := unique } none now true) s).2
    have hz : t.zset .queued queue = (s.zset .queued queue).add now.time id := by
      rw [zset_delay, if_pos ⟨rfl, rfl⟩, zaddNoupdate, if_neg (hnew id (by simp))]
      rfl
    have hfresh : ∀ y ∈ ids, y ∉ t.zset .queued queue := by
      intro y hy
      rw [hz, ZSet.mem_add]
      have hne : y ≠ id := by
        intro hc
        exact hid (hc ▸ hy)
      have hy' := hnew y (by simp [hy])
      tauto
    have hcard : (t.zset .queued queue).card = (s.zset .queued queue).card + 1 := by
      rw [hz]
      exact ZSet.card_add_of_not_mem (hnew id (by simp))
    have htail := ih hrest hfresh
    change ((runAll t (enqueueAll queue func unique now ids)).zset .queued queue).card = _
    rw [htail, hcard, List.length_cons]
    omega

end Enqueue

/-! A batch that moves more members than unpack can return. -/

section Overflow

variable {queue : String} {count : Int} (now : Instant) (later : Time)

theorem members_all (h : ((s.zset .queued queue).card : Int) ≤ count) :
    (pickupArgs queue count now later).members s = (s.zset .queued queue).entries.map Prod.snd := by
  have hall := ZSet.rangeByScore_of_card_le none none h
  simp only [ZSet.inRange, Bool.and_self, List.filter_true] at hall
  exact congrArg (List.map Prod.snd) hall

/-- Nothing of the queue is active, and all of it is one batch: all of it moves. -/
theorem moved_all (idle : (s.zset .active queue).nonempty = false)
    (h : ((s.zset .queued queue).card : Int) ≤ count) :
    ((pickupArgs queue count now later).moved s).length = (s.zset .queued queue).card := by
  have hmoved : (pickupArgs queue count now later).moved s =
      (pickupArgs queue count now later).members s := by
    refine List.filter_eq_self.mpr (fun m _ => ?_)
    have hm : m ∉ s.zset .active queue := ZSet.nonempty_eq_false.mp idle m
    simp [pickupArgs, hm]
  rw [hmoved, members_all now later h, List.length_map]
  rfl

theorem not_fits_overflow (idle : (s.zset .active queue).nonempty = false)
    (large : 8000 ≤ 2 * (s.zset .queued queue).card)
    (h : ((s.zset .queued queue).card : Int) ≤ count) :
    ¬(pickupArgs queue count now later).Fits s := by
  unfold Zpoppush.Fits unpackFits
  rw [moved_all now later idle h]
  omega

/-- A batch of all ids that unpack cannot return: the script has emptied QUEUED when it aborts. -/
theorem pickup_overflow (idle : (s.zset .active queue).nonempty = false)
    (large : 8000 ≤ 2 * (s.zset .queued queue).card)
    (h : ((s.zset .queued queue).card : Int) ≤ count) :
    (exec (.pickup queue count now later) s).1 = .error .tooManyResults ∧
      (exec (.pickup queue count now later) s).2.queues = s.queues ∧
      (exec (.pickup queue count now later) s).2.task = s.task ∧
      ∀ st x, (exec (.pickup queue count now later) s).2.score st queue x =
        if st = .queued then none else s.score st queue x := by
  have hall := members_all now later h
  have hf := not_fits_overflow now later idle large h
  have hlen : ((pickupArgs queue count now later).members s).length =
      (s.zset .queued queue).card := by
    rw [hall, List.length_map]
    rfl
  have hne : (pickupArgs queue count now later).members s ≠ [] := by
    intro hc
    rw [hc, List.length_nil] at hlen
    omega
  have hrun : exec (.pickup queue count now later) s =
      (.error .tooManyResults, (pickupArgs queue count now later).popped s) := by
    change zpoppushExists _ s = _
    rw [zpoppushExists, if_neg hne, if_neg hf]
  rw [hrun]
  refine ⟨rfl, rfl, rfl, ?_⟩
  intro st x
  rw [Zpoppush.score_popped, hall]
  by_cases hst : st = .queued
  · subst hst
    by_cases hx : x ∈ s.zset .queued queue
    · have hin : x ∈ (s.zset .queued queue).entries.map Prod.snd := ZSet.mem_iff_map.mp hx
      rw [if_pos ⟨rfl, rfl, hin⟩, if_pos rfl]
    · rw [if_pos rfl]
      split_ifs
      · rfl
      · exact ZSet.not_mem_iff.mp hx
  · rw [if_neg (fun hc => hst hc.1), if_neg hst]

end Overflow

/-! Ids of 64 digits, as gen_id makes them. -/

def digitsId (i : Nat) : String :=
  String.ofList (List.ofFn (fun k : Fin 64 => if i.testBit k then '1' else '0'))

theorem digitsId_injOn {i j : Nat} (hi : i < 2^64) (hj : j < 2^64)
    (h : digitsId i = digitsId j) : i = j := by
  have hl := String.ofList_injective h
  have hf := List.ofFn_injective hl
  apply Nat.eq_of_testBit_eq
  intro k
  by_cases hk : k < 64
  · have hbit : (if i.testBit k then '1' else '0') = (if j.testBit k then '1' else '0') :=
      congrFun hf ⟨k, hk⟩
    have hne : '1' ≠ '0' := by decide
    cases hi : i.testBit k <;> cases hj : j.testBit k
    · rfl
    · rw [hi, hj] at hbit
      exact absurd hbit.symm hne
    · rw [hi, hj] at hbit
      exact absurd hbit hne
    · rfl
  · have hpow : 2^64 ≤ 2^k := Nat.pow_le_pow_right (by omega) (by omega)
    rw [Nat.testBit_lt_two_pow (by omega), Nat.testBit_lt_two_pow (by omega)]

theorem digitsIds_nodup {n : Nat} (h : n ≤ 2^64) : ((List.range n).map digitsId).Nodup := by
  refine (List.nodup_map_iff_inj_on List.nodup_range).mpr ?_
  intro i hi j hj hij
  rw [List.mem_range] at hi hj
  exact digitsId_injOn (by omega) (by omega) hij

/-- One client queues n tasks. -/
def backlog (unique : Bool) (n : Nat) : List Command :=
  enqueueAll "batch" "tasks:batch_task" unique 1 ((List.range n).map digitsId)

theorem card_backlog {unique : Bool} {n : Nat} (h : n ≤ 2^64) :
    ((runAll Store.empty (backlog unique n)).zset .queued "batch").card = n := by
  rw [backlog, card_enqueueAll _ (digitsIds_nodup h) (by simp)]
  simp [ZSet.card, ZSet.empty]

theorem task_backlog {unique : Bool} {n i : Nat} (h : i < n) :
    (runAll Store.empty (backlog unique n)).task (digitsId i) ≠ none :=
  task_enqueueAll (Or.inl (List.mem_map_of_mem (List.mem_range.mpr h)))

theorem zset_backlog {unique : Bool} {n : Nat} (hst : ¬(st = .queued ∧ q = "batch")) :
    (runAll Store.empty (backlog unique n)).zset st q = ZSet.empty := by
  rw [backlog, zset_enqueueAll _ hst]
  rfl

theorem idle_backlog (unique : Bool) (n : Nat) :
    ((runAll Store.empty (backlog unique n)).zset .active "batch").nonempty = false := by
  rw [zset_backlog (by simp)]
  rfl

end TaskTiger
