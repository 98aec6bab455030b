import TaskTiger.Invariants.Conservation
import TaskTiger.Invariants.Index

namespace TaskTiger

open Redis Interleaving

variable {s : Store} {x : String}

/-- Every stored object has its id in some state of some queue. -/
def NoLeak (s : Store) : Prop := ∀ x, s.task x ≠ none → ∃ st q, x ∈ s.zset st q

/-- The script succeeds, or every object of the batch that it drops is held by another ZSET. -/
def Zpoppush.Retains (a : Zpoppush) (s : Store) : Prop :=
  a.Fits s ∨ ∀ x ∈ a.members s, s.task x ≠ none →
    ∃ st q, ¬(st = a.source ∧ q = a.queue) ∧ x ∈ s.zset st q

/-- A zpoppush of the command drops no object. -/
def Command.Retains : Store → Command → Prop
  | s, .pickup queue count now later => (pickupArgs queue count now later).Retains s
  | s, .promote queue count now => (promoteArgs queue count now).Retains s
  | _, _ => True

/-! zpoppush. -/

section Zpoppush

variable {a : Zpoppush} {st : TaskState} {q : String}

/-- A script that aborts touches the batch in the source only. -/
theorem score_of_not_fits (hf : ¬a.Fits s) (hk : ¬(st = a.source ∧ q = a.queue)) :
    (zpoppushExists a s).2.score st q x = s.score st q x := by
  by_cases hst : st = a.source
  · have hq : ¬(q = a.queue ∧ x ∈ a.members s) := fun hc => hk ⟨hst, hc.1⟩
    exact score_zpoppushExists_of_not_mem hq
  · exact score_zpoppushExists_of_not_fits hf hst

theorem mem_destination_of_fits (hd : a.Distinct) (hf : a.Fits s) (hx : x ∈ a.members s) :
    x ∈ (zpoppushExists a s).2.zset a.destination a.queue := by
  have hin := Zpoppush.mem_listed_destination hd hx
  rwa [zpoppushExists, if_neg (members_ne_nil hx), if_pos hf]

theorem noLeak_zpoppushExists (hd : a.Distinct) (h : NoLeak s) :
    NoLeak (zpoppushExists a s).2 ↔ a.Retains s := by
  constructor
  · intro hafter
    by_cases hf : a.Fits s
    · exact Or.inl hf
    · refine Or.inr ?_
      intro x hx htask
      rw [← task_zpoppushExists (a := a)] at htask
      obtain ⟨st, q, hin⟩ := hafter x htask
      have hk : ¬(st = a.source ∧ q = a.queue) := by
        rintro ⟨rfl, rfl⟩
        exact Store.mem_iff_score.mp hin (score_zpoppushExists_source hd hx)
      rw [Store.mem_iff_score, score_of_not_fits hf hk] at hin
      exact ⟨st, q, hk, Store.mem_iff_score.mpr hin⟩
  · intro hr x htask
    rw [task_zpoppushExists] at htask
    by_cases hx : x ∈ a.members s
    · rcases hr with hf | hheld
      · exact ⟨_, _, mem_destination_of_fits hd hf hx⟩
      · by_cases hf : a.Fits s
        · exact ⟨_, _, mem_destination_of_fits hd hf hx⟩
        · obtain ⟨st, q, hk, hin⟩ := hheld x hx htask
          refine ⟨st, q, ?_⟩
          rw [Store.mem_iff_score, score_of_not_fits hf hk]
          exact Store.mem_iff_score.mp hin
    · obtain ⟨st, q, hin⟩ := h x htask
      refine ⟨st, q, ?_⟩
      rw [Store.mem_iff_score, score_zpoppushExists_of_not_mem (fun hc => hx hc.2)]
      exact Store.mem_iff_score.mp hin

end Zpoppush

/-! The other commands. -/

/-- A move that takes the last place of an id deletes its object. -/
theorem NoLeak.move {m : Move} (h : NoLeak s) : NoLeak (exec (.move m) s).2 := by
  by_cases he : m.Effective s
  · intro x htask
    rw [task_move] at htask
    split_ifs at htask with hdel
    · exact absurd rfl htask
    · obtain ⟨st, q, hin⟩ := h x htask
      by_cases hx : x = m.id
      · subst hx
        cases hto : m.kind.toState with
        | some dest =>
          have hne : dest ≠ m.kind.fromState := by
            intro hc
            exact m.kind.toState_ne_fromState (by rw [hto, hc])
          refine ⟨dest, m.queue, ?_⟩
          rw [Store.mem_iff_score, score_move he]
          simp [hne, hto]
        | none =>
          -- the object stays for another state of the queue
          have hkeep : ¬(m.unique = true →
              ∀ st, st ≠ m.kind.fromState → m.id ∉ s.zset st m.queue) :=
            fun hc => hdel ⟨⟨he, hto, hc⟩, rfl⟩
          push Not at hkeep
          obtain ⟨-, st', hst', hin'⟩ := hkeep
          refine ⟨st', m.queue, ?_⟩
          rw [Store.mem_iff_score, score_move he]
          simpa [hst', hto] using Store.mem_iff_score.mp hin'
      · refine ⟨st, q, ?_⟩
        rw [Store.mem_iff_score, score_move he, if_neg (fun hc => hx hc.2)]
        exact Store.mem_iff_score.mp hin
  · rw [exec_move_of_not_effective he]
    exact h

theorem NoLeak.delay {queue : String} {data : TaskData} {ts : Option Time} {now : Instant}
    {publish : Bool} (h : NoLeak s) : NoLeak (exec (.delay queue data ts now publish) s).2 := by
  intro x htask
  by_cases hx : x = data.id
  · refine ⟨(delayTarget ts now).1, queue, ?_⟩
    rw [Store.mem_iff_score, score_delay, if_pos ⟨rfl, rfl, hx⟩]
    simp
  · rw [task_delay, if_neg hx] at htask
    obtain ⟨st, q, hin⟩ := h x htask
    refine ⟨st, q, ?_⟩
    rw [Store.mem_iff_score, score_delay, if_neg (fun hc => hx hc.2.2)]
    exact Store.mem_iff_score.mp hin

/-- What adds to the ZSETs and makes no object keeps it. -/
theorem NoLeak.grow {t : Store} (h : NoLeak s) (objects : ∀ x, t.task x ≠ none → s.task x ≠ none)
    (grows : ∀ st q x, x ∈ s.zset st q → x ∈ t.zset st q) : NoLeak t := by
  intro x htask
  obtain ⟨st, q, hin⟩ := h x (objects x htask)
  exact ⟨st, q, grows st q x hin⟩

theorem noLeak_step {c : Command} (h : NoLeak s) : NoLeak (exec c s).2 ↔ c.Retains s := by
  by_cases hp : c.Passive
  · obtain ⟨hz, -, ht⟩ := exec_passive hp s
    have hstay : NoLeak (exec c s).2 :=
      h.grow (fun x hx => by rwa [ht] at hx) (fun st q x hx => by rwa [hz])
    have hr : c.Retains s := by
      cases c with
      | pickup => exact hp.elim
      | promote => exact hp.elim
      | _ => trivial
    exact ⟨fun _ => hr, fun _ => hstay⟩
  · cases c with
    | delay => exact ⟨fun _ => trivial, fun _ => h.delay⟩
    | pickup => exact noLeak_zpoppushExists pickupArgs_distinct h
    | promote => exact noLeak_zpoppushExists promoteArgs_distinct h
    | move => exact ⟨fun _ => trivial, fun _ => h.move⟩
    | updateScheduledTime number queue id ts =>
      refine ⟨fun _ => trivial, fun _ => h.grow ?_ (fun _ _ _ => mem_zset_exec (fun hc => hc))⟩
      intro x hx hnone
      exact hx (task_updateScheduledTime.mpr hnone)
    | heartbeat queue ids now =>
      have grows : ∀ st q x, x ∈ s.zset st q →
          x ∈ (exec (.heartbeat queue ids now) s).2.zset st q :=
        fun _ _ _ => mem_zset_exec (fun hc => hc)
      exact ⟨fun _ => trivial, fun _ => h.grow (fun x hx => hx) grows⟩
    | _ => exact absurd trivial hp

/-! Runs. -/

/-- No object leaks at any point of a run, exactly when no zpoppush of the run aborts on a batch
with an object that only its source holds. -/
theorem noLeak_run (l : List Command) :
    (∀ pre, pre <+: l → NoLeak (runAll Store.empty pre)) ↔
      Throughout (fun s c => c.Retains s) Store.empty l := by
  have start : NoLeak Store.empty := by
    intro x hx
    simp at hx
  exact run_invariant_iff (fun _ _ _ h => noLeak_step h) start

/-- A pickup of 4000 tasks drops them all, and their objects stay. -/
theorem not_noLeak_overflow : ¬∀ l : List Command, NoLeak (runAll Store.empty l) := by
  intro hall
  obtain ⟨n, hn⟩ : ∃ n, n = 4000 := ⟨_, rfl⟩
  let now : Instant := 2
  let s := runAll Store.empty (backlog false n)
  have hcard : (s.zset .queued "batch").card = n := card_backlog (by omega)
  have overflow := pickup_overflow now 3 (idle_backlog false n)
    (show 8000 ≤ 2 * (s.zset .queued "batch").card by omega)
    (show ((s.zset .queued "batch").card : Int) ≤ 5000 by omega)
  have after : NoLeak (exec (.pickup "batch" 5000 now 3) s).2 := by
    have h := hall (backlog false n ++ [.pickup "batch" 5000 now 3])
    rwa [runAll, run_append] at h
  have object : (exec (.pickup "batch" 5000 now 3) s).2.task (digitsId 0) ≠ none := by
    rw [overflow.2.2.1]
    exact task_backlog (by omega)
  obtain ⟨st, q, hin⟩ := after _ object
  rw [Store.mem_iff_score] at hin
  apply hin
  by_cases hq : q = "batch"
  · subst hq
    rw [overflow.2.2.2]
    split_ifs with hst
    · rfl
    · rw [Store.score, zset_backlog (fun hc => hst hc.1)]
      rfl
  · have same : (exec (.pickup "batch" 5000 now 3) s).2.score st q (digitsId 0) =
        s.score st q (digitsId 0) := score_zpoppushExists_of_not_mem (fun hc => hq hc.1)
    rw [same, Store.score, zset_backlog (fun hc => hq hc.2)]
    rfl

end TaskTiger
