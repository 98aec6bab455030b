import TaskTiger.Invariants.Index
import TaskTiger.Store.ExpiredTasks

namespace TaskTiger

open Redis Interleaving

variable {s : Store} {st : TaskState} {q x : String}

/-! What get_expired_tasks returns. -/

theorem queue_of_mem_expiredIn {time : Time} {queues : List String} {batchSize : Int}
    (h : (q, x) ∈ expiredIn s time queues batchSize) : q ∈ queues := by
  induction queues generalizing batchSize with
  | nil => simp [expiredIn] at h
  | cons queue queues ih =>
    simp only [expiredIn, List.mem_append] at h
    rcases h with h | h
    · obtain ⟨y, _, he⟩ := List.mem_map.mp h
      have hq : queue = q := congrArg Prod.fst he
      simp [hq]
    · split_ifs at h
      · simp at h
      · exact List.mem_cons_of_mem _ (ih h)

/-- A batch larger than all the queues together returns every expired entry of every queue. -/
theorem mem_expiredIn {time : Time} {queues : List String} {batchSize : Int}
    (hb : (queues.map (fun queue => ((s.zset .active queue).card : Int))).sum < batchSize) :
    (q, x) ∈ expiredIn s time queues batchSize ↔
      q ∈ queues ∧ ∃ t, s.score .active q x = some t ∧ 0 ≤ t ∧ t ≤ time := by
  have hcards : ((s.expiredOf time queues).length : Int) ≤
      (queues.map (fun queue => ((s.zset .active queue).card : Int))).sum := by
    induction queues with
    | nil => simp [Store.expiredOf]
    | cons queue queues ih =>
      have hlen : (s.expired time queue).length ≤ (s.zset .active queue).card := by
        rw [Store.expired, List.length_map]
        exact List.length_filter_le _ _
      simp only [List.map_cons, List.sum_cons] at hb ⊢
      have hrest := ih (by omega)
      simp only [Store.expiredOf, List.flatMap_cons, List.length_append, List.length_map]
        at hrest ⊢
      omega
  rw [expiredIn_eq_take (by omega), List.take_of_length_le (by omega), mem_expiredOf, mem_expired]

/-- Every active task whose score has reached the cutoff is found by a large enough batch. -/
def Recoverable (s : Store) : Prop :=
  ∀ (e : Enumeration) (cutoff : Time) (q id : String) (t : Time),
    s.score .active q id = some t → t ≤ cutoff →
      ∃ batch : Int, ∀ n, batch ≤ n → (q, id) ∈ getExpiredTasks e cutoff n s

def ActivePositive (s : Store) : Prop := ∀ q id t, s.score .active q id = some t → 0 < t

theorem recoverable_iff (hpos : ActivePositive s) : Recoverable s ↔ Listed .active s := by
  constructor
  · intro h q hn
    obtain ⟨id, hid⟩ := ZSet.nonempty_iff.mp hn
    obtain ⟨t, ht⟩ := ZSet.mem_iff.mp hid
    obtain ⟨batch, hbatch⟩ := h sortedEnumeration t q id t ht le_rfl
    have hq := queue_of_mem_expiredIn (hbatch batch le_rfl)
    exact (sortedEnumeration.mem _ _).mp hq
  · intro h e cutoff q id t ht hle
    have hin : id ∈ s.zset .active q := ZSet.mem_iff.mpr ⟨t, ht⟩
    have hq : q ∈ e.order (s.queues .active) :=
      (e.mem _ _).mpr (h q (ZSet.nonempty_iff.mpr ⟨id, hin⟩))
    refine ⟨((e.order (s.queues .active)).map
      (fun queue => ((s.zset .active queue).card : Int))).sum + 1, ?_⟩
    intro n hn
    exact (mem_expiredIn (by omega)).mpr ⟨hq, t, ht, (hpos q id t ht).le, hle⟩

/-! Scores in ACTIVE are readings of the clock. -/

theorem activePositive_step {c : Command} (h : ActivePositive s) :
    ActivePositive (exec c s).2 := by
  intro q x t ht
  by_cases hp : c.Passive
  · have hz : (exec c s).2.score .active q x = s.score .active q x := by
      rw [Store.score, (exec_passive hp s).1, Store.score]
    exact h q x t (hz ▸ ht)
  · cases c with
    | delay queue data ts now publish =>
      have hst : TaskState.active ≠ (delayTarget ts now).1 := by
        rcases delayTarget_state ts now with h | h <;> simp [h]
      rw [score_delay, if_neg (fun hc => hst hc.1)] at ht
      exact h q x t ht
    | pickup queue count now later =>
      cases pickup_effect queue count now later s q x with
      | untouched scores => exact h q x t (scores _ ▸ ht)
      | picked here pending idle scores =>
        obtain rfl : now.time = t := by simpa [scores] using ht
        exact now.pos
      | diverted here pending busy scores => exact h q x t (by simpa [scores] using ht)
      | lost here pending popped failed scores => exact h q x t (by simpa [scores] using ht)
    | promote queue count now =>
      cases promote_effect queue count now s q x with
      | untouched scores => exact h q x t (scores _ ▸ ht)
      | promoted here due scores => exact h q x t (by simpa [scores] using ht)
      | lost here due popped failed scores => exact h q x t (by simpa [scores] using ht)
    | move m =>
      by_cases he : m.Effective s
      · have hto : m.kind.toState ≠ some .active := by cases m.kind <;> simp [MoveKind.toState]
        rw [score_move he] at ht
        split_ifs at ht
        · exact h q x t ht
        · exact h q x t ht
      · rw [exec_move_of_not_effective he] at ht
        exact h q x t ht
    | updateScheduledTime number queue id ts =>
      rw [score_updateScheduledTime, if_neg (fun hc => by simp at hc)] at ht
      exact h q x t ht
    | heartbeat queue ids now =>
      rw [score_heartbeat] at ht
      split_ifs at ht
      · obtain rfl : now.time = t := by simpa using ht
        exact now.pos
      · exact h q x t ht
    | _ => exact absurd trivial hp

theorem activePositive_run (l : List Command) : ActivePositive (runAll Store.empty l) := by
  have start : ActivePositive Store.empty := by
    intro q id t ht
    simp at ht
  have keep : ∀ s c, ActivePositive s → True → ActivePositive (step exec s c) :=
    fun _ _ h _ => activePositive_step h
  exact run_invariant keep start (along_of_forall (fun _ _ => trivial))

/-! The set of active queues. -/

/-- A heartbeat that names any id finds its queue in the set of active queues. -/
def Command.BeatsListed : Store → Command → Prop
  | s, .heartbeat queue ids _ => ids = [] ∨ queue ∈ s.queues .active
  | _, _ => True

theorem activeListed_heartbeat {queue : String} {ids : List String} {now : Instant}
    (h : Listed .active s) :
    Listed .active (exec (.heartbeat queue ids now) s).2 ↔ ids = [] ∨ queue ∈ s.queues .active := by
  have hqueues : (exec (.heartbeat queue ids now) s).2.queues = s.queues := rfl
  constructor
  · intro ha
    by_cases he : ids = []
    · exact Or.inl he
    · obtain ⟨id, hid⟩ := List.exists_mem_of_ne_nil _ he
      have hin : id ∈ (exec (.heartbeat queue ids now) s).2.zset .active queue := by
        rw [Store.mem_iff_score, score_heartbeat, if_pos ⟨rfl, rfl, hid⟩]
        simp
      exact Or.inr (hqueues ▸ ha queue (ZSet.nonempty_iff.mpr ⟨id, hin⟩))
  · intro hc q hn
    rw [hqueues]
    obtain ⟨x, hx⟩ := ZSet.nonempty_iff.mp hn
    rw [Store.mem_iff_score, score_heartbeat] at hx
    by_cases hk : q = queue ∧ x ∈ ids
    · obtain ⟨rfl, hid⟩ := hk
      exact hc.resolve_left (List.ne_nil_of_mem hid)
    · rw [if_neg (fun hc => hk hc.2), ← Store.mem_iff_score] at hx
      exact h q (ZSet.nonempty_iff.mpr ⟨x, hx⟩)

theorem activeListed_step {c : Command} (h : Listed .active s) :
    Listed .active (exec c s).2 ↔ c.BeatsListed s := by
  by_cases hb : c.isHeartbeat = true
  · cases c with
    | heartbeat => exact activeListed_heartbeat h
    | _ => simp [Command.isHeartbeat] at hb
  · have beats : c.BeatsListed s := by
      cases c with
      | heartbeat => exact absurd rfl hb
      | _ => trivial
    exact ⟨fun _ => beats, fun _ => h.step (fun _ => by simpa using hb)⟩

/-- Every active task stays recoverable throughout a run exactly when no heartbeat of the run
comes after its queue has left the set of active queues. -/
theorem recoverable_run (l : List Command) :
    (∀ pre, pre <+: l → Recoverable (runAll Store.empty pre)) ↔
      Throughout (fun s c => c.BeatsListed s) Store.empty l := by
  have hempty : Listed .active Store.empty := by
    intro q hn
    simp at hn
  have exact_rule : (∀ pre, pre <+: l → Listed .active (runAll Store.empty pre)) ↔
      Throughout (fun s c => c.BeatsListed s) Store.empty l :=
    run_invariant_iff (fun _ _ _ h => activeListed_step h) hempty
  rw [← exact_rule]
  constructor
  · intro h pre hpre
    exact (recoverable_iff (activePositive_run pre)).mp (h pre hpre)
  · intro h pre hpre
    exact (recoverable_iff (activePositive_run pre)).mpr (h pre hpre)

/-- A task is picked up and expired; then the heartbeat of its slow worker arrives. -/
def lateHeartbeat : List Command :=
  [.delay "default" { id := "a", func := "tasks:simple_task" } none 1 true,
    .pickup "default" 1 2 3,
    .move ⟨.failExpired, "default", "a", false, 400, true⟩,
    .heartbeat "default" ["a"] 401]

theorem not_recoverable_lateHeartbeat : ¬∀ l : List Command, ∀ pre, pre <+: l →
    Recoverable (runAll Store.empty pre) := by
  intro h
  have hl := (recoverable_iff (activePositive_run lateHeartbeat)).mp
    (h lateHeartbeat lateHeartbeat List.prefix_rfl)
  have active : ((runAll Store.empty lateHeartbeat).zset .active "default").nonempty = true := by
    decide +kernel
  have unlisted : "default" ∉ (runAll Store.empty lateHeartbeat).queues .active := by
    decide +kernel
  exact unlisted (hl "default" active)

end TaskTiger
