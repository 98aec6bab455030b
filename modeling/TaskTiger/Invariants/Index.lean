import TaskTiger.Store.Backlog
import TaskTiger.Store.Zpoppush

namespace TaskTiger

open Redis Interleaving

/-- The set of a state lists exactly the queues with a ZSET in that state. -/
def Indexed (s : Store) : Prop := ∀ st q, q ∈ s.queues st ↔ (s.zset st q).nonempty = true

theorem indexed_empty : Indexed Store.empty := by
  intro st q
  simp

variable {s : Store} {st : TaskState} {q : String}

/-! Task.delay. -/

theorem Indexed.delay {queue : String} {data : TaskData} {ts : Option Time} {now : Instant}
    {publish : Bool} (h : Indexed s) :
    Indexed (exec (.delay queue data ts now publish) s).2 := by
  intro st q
  rw [mem_queues_delay, zset_delay, h st q]
  by_cases hk : st = (delayTarget ts now).1 ∧ q = queue
  · have hin : data.id ∈ zaddNoupdate (s.zset st q) (delayTarget ts now).2 data.id := by
      rw [ZSet.mem_def, score_zaddNoupdate]
      simp
    rw [if_pos hk, ZSet.nonempty_iff.mpr ⟨_, hin⟩]
    simp [hk]
  · rw [if_neg hk]
    simp [hk]

/-! zpoppush. -/

namespace Zpoppush

variable {a : Zpoppush}

/-- The script succeeds, or what it popped before failing did not empty the source. -/
def Keeps (a : Zpoppush) (s : Store) : Prop :=
  a.Fits s ∨ ((a.popped s).zset a.source a.queue).nonempty = true

/-- ZSETs other than the source only gain members. -/
theorem mem_listed_of_mem {x : String} (hst : ¬(st = a.source ∧ q = a.queue))
    (h : x ∈ s.zset st q) : x ∈ (a.listed s).zset st q := by
  rw [Store.mem_iff_score] at h ⊢
  have ha : (a.added s).score st q x ≠ none := by
    rw [score_added, score_popped]
    split_ifs with h1 h2
    · simp
    · exact absurd ⟨h2.1, h2.2.1⟩ hst
    · exact h
  change ((a.listed s).zset st q).score x ≠ none
  rw [zset_listed]
  change (a.diverted s).score st q x ≠ none
  cases hi : a.ifExists with
  | none => rwa [score_diverted_none hi]
  | some p =>
    rw [score_diverted_some hi]
    split_ifs
    · simp
    · exact ha

/-- A popped id ends up at the destination, if it was not there before. -/
theorem mem_listed_destination {x : String} (hd : a.Distinct) (h : x ∈ a.members s) :
    x ∈ (a.listed s).zset a.destination a.queue := by
  by_cases hx : x ∈ s.zset a.destination a.queue
  · exact mem_listed_of_mem (fun hc => hd.source hc.1.symm) hx
  · have ha : (a.added s).score a.destination a.queue x = some a.newScore := by
      rw [score_added, if_pos ⟨rfl, rfl, mem_moved.mpr ⟨h, hx⟩⟩]
    rw [Store.mem_iff_score]
    change ((a.listed s).zset a.destination a.queue).score x ≠ none
    rw [zset_listed]
    change (a.diverted s).score a.destination a.queue x ≠ none
    cases hi : a.ifExists with
    | none => simp [score_diverted_none hi, ha]
    | some p =>
      rw [score_diverted_some hi, ha]
      split_ifs <;> simp

end Zpoppush

/-- A zpoppush keeps the index exactly when it does not abort on an emptied source. -/
theorem indexed_zpoppushExists {a : Zpoppush} (hd : a.Distinct) (h : Indexed s) :
    Indexed (zpoppushExists a s).2 ↔ a.Keeps s := by
  unfold zpoppushExists
  by_cases hm : a.members s = []
  · have hf : a.Fits s := by
      have hn : a.moved s = [] := by simp [Zpoppush.moved, hm]
      simp [Zpoppush.Fits, hn, unpackFits]
    rw [if_pos hm]
    exact ⟨fun _ => Or.inl hf, fun _ => h⟩
  · obtain ⟨m, hm'⟩ := List.exists_mem_of_ne_nil _ hm
    have hsrc : (s.zset a.source a.queue).nonempty = true :=
      ZSet.nonempty_iff.mpr ⟨m, Zpoppush.mem_source_of_mem_members hm'⟩
    rw [if_neg hm]
    split_ifs with hf
    · refine ⟨fun _ => Or.inl hf, fun _ => ?_⟩
      intro st q
      rw [Zpoppush.mem_queues_listed, h st q]
      by_cases h1 : st = a.source ∧ q = a.queue
      · obtain ⟨rfl, rfl⟩ := h1
        have hnd : a.source ≠ a.destination := hd.source
        simp only [hsrc]
        grind
      · by_cases h2 : st = a.destination ∧ q = a.queue
        · obtain ⟨rfl, rfl⟩ := h2
          have hin := Zpoppush.mem_listed_destination hd hm'
          simp [ZSet.nonempty_iff.mpr ⟨m, hin⟩]
        · by_cases h3 : (∃ score, a.ifExists = some (st, score)) ∧ q = a.queue
          · have grow : (s.zset st q).nonempty = true →
                ((a.listed s).zset st q).nonempty = true := by
              intro hn
              obtain ⟨x, hx⟩ := ZSet.nonempty_iff.mp hn
              exact ZSet.nonempty_iff.mpr ⟨x, Zpoppush.mem_listed_of_mem h1 hx⟩
            constructor
            · intro hc
              rcases hc with ⟨hn, -⟩ | hc | ⟨-, -, hn⟩
              · exact grow hn
              · exact absurd hc h2
              · exact hn
            · intro hn
              exact Or.inr (Or.inr ⟨h3.1, h3.2, hn⟩)
          · rw [Zpoppush.zset_listed_of_ne h1 h2 h3]
            constructor
            · intro hc
              rcases hc with ⟨hn, -⟩ | hc | ⟨hif, hq, -⟩
              · exact hn
              · exact absurd hc h2
              · exact absurd ⟨hif, hq⟩ h3
            · intro hn
              exact Or.inl ⟨hn, Or.inr h1⟩
    · have hpop : (a.popped s).queues = s.queues := rfl
      constructor
      · intro hi
        refine Or.inr ((hi a.source a.queue).mp ?_)
        rw [hpop]
        exact (h a.source a.queue).mpr hsrc
      · intro hk st q
        have hne := hk.resolve_left hf
        rw [hpop, h st q]
        by_cases h1 : st = a.source ∧ q = a.queue
        · obtain ⟨rfl, rfl⟩ := h1
          simp [hsrc, hne]
        · have same : (a.popped s).zset st q = s.zset st q := by simp [Zpoppush.popped, h1]
          rw [same]

/-! Task._move and update_scheduled_time. -/

theorem mem_queues_move {m : Move} (h : m.Effective s) :
    q ∈ (exec (.move m) s).2.queues st ↔
      (q ∈ s.queues st ∨ m.kind.toState = some st ∧ q = m.queue) ∧
        (((exec (.move m) s).2.zset m.kind.fromState m.queue).nonempty = true ∨
          ¬(st = m.kind.fromState ∧ q = m.queue)) :=
  mem_queues_moveTask h.not_raises

theorem Indexed.move {m : Move} (h : Indexed s) : Indexed (exec (.move m) s).2 := by
  by_cases he : m.Effective s
  · intro st q
    rw [mem_queues_move he, h st q]
    by_cases hf : st = m.kind.fromState ∧ q = m.queue
    · obtain ⟨rfl, rfl⟩ := hf
      have hsrc : (s.zset m.kind.fromState m.queue).nonempty = true :=
        ZSet.nonempty_iff.mpr ⟨m.id, he⟩
      simp [hsrc]
    · by_cases ht : m.kind.toState = some st ∧ q = m.queue
      · obtain ⟨ht, rfl⟩ := ht
        have hst : st ≠ m.kind.fromState := fun hc => hf ⟨hc, rfl⟩
        have hin : m.id ∈ (exec (.move m) s).2.zset st m.queue := by
          rw [Store.mem_iff_score, score_move he]
          simp [hst, ht]
        simp [ZSet.nonempty_iff.mpr ⟨_, hin⟩, ht, hst]
      · have same : ((exec (.move m) s).2.zset st q).nonempty = (s.zset st q).nonempty := by
          refine Store.nonempty_congr (fun x => ?_)
          rw [Store.mem_iff_score, Store.mem_iff_score, score_move he]
          by_cases hk : q = m.queue ∧ x = m.id
          · have hst : st ≠ m.kind.fromState := fun hc => hf ⟨hc, hk.1⟩
            have hto : m.kind.toState ≠ some st := fun hc => ht ⟨hc, hk.1⟩
            simp [hst, hto]
          · rw [if_neg hk]
        rw [same]
        constructor
        · intro hc
          exact hc.1.resolve_right ht
        · intro hn
          exact ⟨Or.inl hn, Or.inr hf⟩
  · rw [exec_move_of_not_effective he]
    exact h

theorem queues_updateScheduledTime {number : ℚ → ℚ} {queue id : String} {ts : Time} :
    (exec (.updateScheduledTime number queue id ts) s).2.queues = s.queues := by
  change (updateScheduledTime number queue id ts s).2.queues = s.queues
  cases update_effect number queue id ts s <;> rename_i result <;> rw [result] <;> rfl

theorem Indexed.updateScheduledTime {number : ℚ → ℚ} {queue id : String} {ts : Time}
    (h : Indexed s) : Indexed (exec (.updateScheduledTime number queue id ts) s).2 := by
  intro st q
  have same : ((exec (.updateScheduledTime number queue id ts) s).2.zset st q).nonempty =
      (s.zset st q).nonempty := by
    refine Store.nonempty_congr (fun x => ?_)
    rw [Store.mem_iff_score, score_updateScheduledTime]
    split_ifs with hk
    · simp [hk.2.2.2]
    · exact Store.mem_iff_score.symm
  rw [queues_updateScheduledTime, same]
  exact h st q

def Command.isHeartbeat : Command → Bool
  | .heartbeat .. => true
  | _ => false

/-! One half of the index, for one state: it holds along every run. -/

/-- Every queue with a ZSET in this state is in its set. -/
def Listed (st : TaskState) (s : Store) : Prop :=
  ∀ q, (s.zset st q).nonempty = true → q ∈ s.queues st

theorem Listed.of_mem {x : String} (h : Listed st s) (hx : x ∈ s.zset st q) : q ∈ s.queues st :=
  h q (ZSet.nonempty_iff.mpr ⟨x, hx⟩)

theorem Listed.zpoppushExists {a : Zpoppush} (hd : a.Distinct) (h : Listed st s) :
    Listed st (zpoppushExists a s).2 := by
  intro q hn
  obtain ⟨x, hx⟩ := ZSet.nonempty_iff.mp hn
  by_cases h1 : st = a.source ∧ q = a.queue
  · obtain ⟨rfl, rfl⟩ := h1
    have hbefore : x ∈ s.zset a.source a.queue := by
      rw [Store.mem_iff_score] at hx ⊢
      by_cases hm : x ∈ a.members s
      · exact absurd (score_zpoppushExists_source hd hm) hx
      · rwa [score_zpoppushExists_of_not_mem (fun hc => hm hc.2)] at hx
    have hq := h.of_mem hbefore
    unfold TaskTiger.zpoppushExists at hn ⊢
    split_ifs at hn ⊢
    · exact hq
    · exact Zpoppush.mem_queues_listed.mpr (Or.inl ⟨hq, Or.inl hn⟩)
    · exact hq
  · unfold TaskTiger.zpoppushExists at hn ⊢
    split_ifs at hn ⊢
    · exact h q hn
    · rw [Zpoppush.mem_queues_listed]
      by_cases h2 : st = a.destination ∧ q = a.queue
      · exact Or.inr (Or.inl h2)
      · by_cases h3 : (∃ score, a.ifExists = some (st, score)) ∧ q = a.queue
        · exact Or.inr (Or.inr ⟨h3.1, h3.2, hn⟩)
        · change ((a.listed s).zset st q).nonempty = true at hn
          rw [Zpoppush.zset_listed_of_ne h1 h2 h3] at hn
          exact Or.inl ⟨h q hn, Or.inr h1⟩
    · have same : (a.popped s).zset st q = s.zset st q := by simp [Zpoppush.popped, h1]
      exact h q (same ▸ hn)

theorem Listed.move {m : Move} (h : Listed st s) : Listed st (exec (.move m) s).2 := by
  by_cases he : m.Effective s
  · intro q hn
    rw [mem_queues_move he]
    constructor
    · by_cases hto : m.kind.toState = some st ∧ q = m.queue
      · exact Or.inr hto
      · obtain ⟨x, hx⟩ := ZSet.nonempty_iff.mp hn
        refine Or.inl (h.of_mem (x := x) ?_)
        rw [Store.mem_iff_score] at hx ⊢
        rw [score_move he] at hx
        split_ifs at hx with hk hf ht
        · exact absurd rfl hx
        · exact absurd ⟨ht, hk.1⟩ hto
        · exact hx
        · exact hx
    · by_cases hf : st = m.kind.fromState ∧ q = m.queue
      · rw [← hf.1, ← hf.2]
        exact Or.inl hn
      · exact Or.inr hf
  · rw [exec_move_of_not_effective he]
    exact h

/-- Every command but a heartbeat keeps it, and a heartbeat can only break it for ACTIVE. -/
theorem Listed.step {c : Command} (h : Listed st s) (hb : st = .active → c.isHeartbeat = false) :
    Listed st (exec c s).2 := by
  by_cases hp : c.Passive
  · intro q hn
    rw [(exec_passive hp s).1] at hn
    rw [(exec_passive hp s).2.1]
    exact h q hn
  · cases c with
    | delay queue data ts now publish =>
      intro q hn
      rw [mem_queues_delay]
      by_cases hk : st = (delayTarget ts now).1 ∧ q = queue
      · exact Or.inr hk
      · rw [zset_delay, if_neg hk] at hn
        exact Or.inl (h q hn)
    | pickup => exact h.zpoppushExists pickupArgs_distinct
    | promote => exact h.zpoppushExists promoteArgs_distinct
    | move => exact h.move
    | updateScheduledTime number queue id ts =>
      intro q hn
      rw [queues_updateScheduledTime]
      obtain ⟨x, hx⟩ := ZSet.nonempty_iff.mp hn
      refine h.of_mem (x := x) ?_
      rw [Store.mem_iff_score, score_updateScheduledTime] at hx
      split_ifs at hx with hk
      · exact hk.2.2.2
      · exact Store.mem_iff_score.mpr hx
    | heartbeat queue ids now =>
      intro q hn
      have hst : st ≠ .active := by
        intro hc
        simpa [Command.isHeartbeat] using hb hc
      change q ∈ s.queues st
      obtain ⟨x, hx⟩ := ZSet.nonempty_iff.mp hn
      refine h.of_mem (x := x) ?_
      rw [Store.mem_iff_score, score_heartbeat, if_neg (fun hc => hst hc.1)] at hx
      exact Store.mem_iff_score.mpr hx
    | _ => exact absurd trivial hp

/-! Runs. -/

/-- A zpoppush of the command does not abort on an emptied source. -/
def Command.Keeps : Store → Command → Prop
  | s, .pickup queue count now later => (pickupArgs queue count now later).Keeps s
  | s, .promote queue count now => (promoteArgs queue count now).Keeps s
  | _, _ => True

theorem Command.Passive.keeps {c : Command} (h : c.Passive) : c.Keeps s := by
  cases c with
  | pickup => exact h.elim
  | promote => exact h.elim
  | _ => trivial

theorem indexed_step {c : Command} (hb : c.isHeartbeat = false) (h : Indexed s) :
    Indexed (exec c s).2 ↔ c.Keeps s := by
  by_cases hp : c.Passive
  · refine ⟨fun _ => hp.keeps, fun _ => ?_⟩
    intro st q
    rw [(exec_passive hp s).1, (exec_passive hp s).2.1]
    exact h st q
  · cases c with
    | delay => exact ⟨fun _ => trivial, fun _ => h.delay⟩
    | pickup => exact indexed_zpoppushExists pickupArgs_distinct h
    | promote => exact indexed_zpoppushExists promoteArgs_distinct h
    | move => exact ⟨fun _ => trivial, fun _ => h.move⟩
    | updateScheduledTime => exact ⟨fun _ => trivial, fun _ => h.updateScheduledTime⟩
    | heartbeat => simp [Command.isHeartbeat] at hb
    | _ => exact absurd trivial hp

/-- Without heartbeats the index is exact at every point of a run, exactly when no zpoppush of
the run aborts on a source it has emptied. -/
theorem indexed_run (l : List Command) (hb : ∀ c ∈ l, c.isHeartbeat = false) :
    (∀ pre, pre <+: l → Indexed (runAll Store.empty pre)) ↔
      Throughout (fun s c => c.Keeps s) Store.empty l :=
  run_invariant_iff (fun _ c hc h => indexed_step (hb c hc) h) indexed_empty

/-- A task delayed and picked up. -/
def delayedAndPickedUp : List Command :=
  [.delay "default" { id := "a", func := "tasks:simple_task" } none 1 true,
    .pickup "default" 1 2 3]

theorem indexed_run_delay_pickup : Indexed (runAll Store.empty delayedAndPickedUp) := by
  have fits : (pickupArgs "default" 1 2 3).Fits
      (runAll Store.empty (delayedAndPickedUp.take 1)) := by decide +kernel
  exact (indexed_run delayedAndPickedUp (by decide)).mpr ⟨trivial, Or.inl fits, trivial⟩ _
    List.prefix_rfl

/-- A batch of 4000 tasks: the pickup empties QUEUED, aborts, and leaves the queue listed. -/
theorem not_indexed_overflow : ¬∀ l : List Command, (∀ c ∈ l, c.isHeartbeat = false) →
    ∀ pre, pre <+: l → Indexed (runAll Store.empty pre) := by
  intro h
  obtain ⟨n, hn⟩ : ∃ n, n = 4000 := ⟨_, rfl⟩
  let now : Instant := 2
  have hquiet : ∀ c ∈ backlog false n ++ [.pickup "batch" 5000 now 3], c.isHeartbeat = false := by
    intro c hc
    rcases List.mem_append.mp hc with hc | hc
    · obtain ⟨id, _, rfl⟩ := List.mem_map.mp hc
      rfl
    · obtain rfl := List.mem_singleton.mp hc
      rfl
  have before := h _ hquiet (backlog false n) (List.prefix_append _ _)
  have after := h _ hquiet _ List.prefix_rfl
  have hcard : ((runAll Store.empty (backlog false n)).zset .queued "batch").card = n :=
    card_backlog (by omega)
  obtain ⟨_, hqueues, _, hscore⟩ := pickup_overflow now 3 (idle_backlog false n)
    (by omega) (show _ ≤ (5000 : Int) by omega)
  have listed : "batch" ∈ (runAll Store.empty (backlog false n)).queues .queued := by
    refine (before .queued "batch").mpr ?_
    rw [← Bool.not_eq_false, ← ZSet.card_eq_zero]
    omega
  rw [runAll, run_append, run_cons, run_nil] at after
  obtain ⟨x, hx⟩ := ZSet.nonempty_iff.mp ((after .queued "batch").mp (hqueues ▸ listed))
  rw [Store.mem_iff_score] at hx
  exact hx (hscore .queued x)

end TaskTiger
