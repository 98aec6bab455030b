import TaskTiger.Invariants.Conservation

namespace TaskTiger

open Redis Interleaving

variable {s : Store} {x : String} {c : Command}

/-- Every id of a ZSET has its serialized task. -/
def Stored (s : Store) : Prop := ∀ st q x, x ∈ s.zset st q → s.task x ≠ none

/-- The commands carry the flag of the stored tasks: whether an id is that of a unique task does
not change, in any queue. Heartbeats are not included. -/
def Command.Faithful (uniq : String → Bool) : Command → Prop
  | .delay _ data .. => data.unique = uniq data.id
  | .move m => m.unique = uniq m.id
  | .heartbeat .. => False
  | _ => True

instance (uniq : String → Bool) (c : Command) : Decidable (c.Faithful uniq) := by
  induction c using Command.casesOn with
  | delay queue data ts now publish => exact inferInstanceAs (Decidable (data.unique = uniq data.id))
  | move m => exact inferInstanceAs (Decidable (m.unique = uniq m.id))
  | heartbeat queue ids now => exact inferInstanceAs (Decidable False)
  | _ => exact inferInstanceAs (Decidable True)

theorem Command.Faithful.not_beats {uniq : String → Bool} (h : c.Faithful uniq) (x : String) :
    ¬c.Beats x := by
  cases c with
  | heartbeat => exact h.elim
  | _ => exact id

/-- When the command deletes the object of a task, no ZSET but the one it leaves holds the id. -/
def Command.DeletesLast (s : Store) (c : Command) : Prop :=
  ∀ m, c = .move m → m.Deletes s →
    ∀ st q, m.id ∈ s.zset st q → st = m.kind.fromState ∧ q = m.queue

/-- When the command deletes the object of a unique task, no other queue holds the id. -/
def Command.DeletesInOneQueue (s : Store) (c : Command) : Prop :=
  ∀ m, c = .move m → m.unique = true → m.Deletes s →
    ∀ st q, q ≠ m.queue → m.id ∉ s.zset st q

/-! One step. -/

/-- An id held after a command that does not delay it was held before. -/
theorem absent_of_absent_step (hb : ¬c.Beats x) (hd : ¬c.Delays x)
    (h : ¬Absent (exec c s).2 x) : ¬Absent s x :=
  fun ha => h (ha.step hd (fun late => hb late.beats))

/-- A deleting move leaves the id behind exactly when another ZSET holds it. -/
theorem absent_move_iff {m : Move} (hdel : m.Deletes s) : Absent (exec (.move m) s).2 m.id ↔
    ∀ st q, m.id ∈ s.zset st q → st = m.kind.fromState ∧ q = m.queue := by
  have after : ∀ st q, (exec (.move m) s).2.score st q m.id =
      if st = m.kind.fromState ∧ q = m.queue then none else s.score st q m.id := by
    intro st q
    rw [score_move hdel.1, hdel.2.1]
    by_cases hq : q = m.queue <;> by_cases hst : st = m.kind.fromState <;> simp [hq, hst]
  constructor
  · intro ha st q hin
    by_contra hk
    have hnone := Store.not_mem_iff_score.mp (ha st q)
    rw [after, if_neg hk] at hnone
    exact Store.mem_iff_score.mp hin hnone
  · intro h st q
    rw [Store.not_mem_iff_score, after]
    split_ifs with hk
    · rfl
    · exact Store.not_mem_iff_score.mp (fun hin => hk (h st q hin))

theorem stored_step (h : Stored s) (hb : ∀ x, ¬c.Beats x) :
    Stored (exec c s).2 ↔ c.DeletesLast s := by
  have held : ∀ x, ¬Absent s x → s.task x ≠ none := by
    intro x ha
    obtain ⟨st, q, hin⟩ : ∃ st q, x ∈ s.zset st q := by simpa [Absent] using ha
    exact h st q x hin
  have stored_iff : Stored (exec c s).2 ↔ ∀ x, ¬Absent (exec c s).2 x → (exec c s).2.task x ≠ none := by
    constructor
    · intro hs x ha
      obtain ⟨st, q, hin⟩ : ∃ st q, x ∈ (exec c s).2.zset st q := by simpa [Absent] using ha
      exact hs st q x hin
    · intro hs st q x hin
      exact hs x (fun ha => ha st q hin)
  rw [stored_iff]
  constructor
  · intro hs m hm hdel
    subst hm
    rw [← absent_move_iff hdel]
    by_contra ha
    have hgone : (exec (.move m) s).2.task m.id = none := by
      rw [task_move, if_pos ⟨hdel, rfl⟩]
    exact hs m.id ha hgone
  · intro hlast x ha hnone
    by_cases hd : c.Delays x
    · cases c with
      | delay queue data ts now publish =>
        obtain rfl : data.id = x := hd
        rw [task_delay, if_pos rfl] at hnone
        simp at hnone
      | _ => exact hd.elim
    · rcases (task_step hd).mp hnone with hbefore | ⟨m, rfl, hdel, rfl⟩
      · exact held x (absent_of_absent_step (hb x) hd ha) hbefore
      · exact ha ((absent_move_iff hdel).mpr (hlast m rfl hdel))

/-! Runs. -/

/-- A non-unique task that is delayed at most once is in at most one place. -/
theorem placed_run {l : List Command} (hb : ∀ c ∈ l, ¬c.Beats x)
    (once : l.countP (fun c => decide (c.Delays x)) ≤ 1) :
    Absent (runAll Store.empty l) x ∨ ∃ st q, SoleAt (runAll Store.empty l) x st q := by
  let Placed (s : Store) : Prop := Absent s x ∨ ∃ st q, SoleAt s x st q
  have keep : ∀ s c, Placed s → ¬c.Beats x ∧ ¬c.Delays x → Placed (step exec s c) := by
    intro s c hp hc
    rcases hp with ha | ⟨st, q, hsole⟩
    · exact Or.inl (ha.step hc.2 (fun late => hc.1 late.beats))
    · rcases hsole.step hc.2 (fun late => hc.1 late.beats) with ⟨⟨st', hs⟩, _⟩ | ⟨ha, _⟩
      · exact Or.inr ⟨st', q, hs⟩
      · exact Or.inl ha
  have start : Absent Store.empty x := absent_empty x
  rcases delayed_once_cases once with hnone | ⟨pre, c, post, rfl, hc, hpre, hpost⟩
  · exact run_invariant keep (Or.inl start)
      ((along_of_forall hb).and (along_of_forall hnone))
  · have away : ∀ s c, Absent s x → ¬c.Beats x ∧ ¬c.Delays x → Absent (step exec s c) x :=
      fun _ _ ha hc => ha.step hc.2 (fun late => hc.1 late.beats)
    have before : Absent (run exec Store.empty pre) x :=
      run_invariant away start ((along_of_forall (fun d hd => hb d (by simp [hd]))).and
        (along_of_forall hpre))
    have born : Placed (step exec (run exec Store.empty pre) c) := by
      cases c with
      | delay queue data ts now publish =>
        obtain rfl : data.id = x := hc
        exact Or.inr ⟨_, _, before.delay⟩
      | _ => exact hc.elim
    rw [runAll, run_append, run_cons]
    exact run_invariant keep born
      ((along_of_forall (fun d hd => hb d (by simp [hd]))).and (along_of_forall hpost))

/-- Every id of a ZSET has its object at every point of a run, exactly when no removal of a
unique task deletes the object while another queue holds the id. -/
theorem stored_run (uniq : String → Bool) (l : List Command) (hf : ∀ c ∈ l, c.Faithful uniq)
    (once : ∀ x, uniq x = false → l.countP (fun c => decide (c.Delays x)) ≤ 1) :
    (∀ pre, pre <+: l → Stored (runAll Store.empty pre)) ↔
      Throughout (fun s c => c.DeletesInOneQueue s) Store.empty l := by
  have start : Stored Store.empty := by
    intro st q x hx
    simp at hx
  have exact_rule : (∀ pre, pre <+: l → Stored (runAll Store.empty pre)) ↔
      Throughout (fun s c => c.DeletesLast s) Store.empty l :=
    run_invariant_iff (fun _ c hc h => stored_step h (hf c hc).not_beats) start
  rw [exact_rule, Throughout, along_iff, Throughout, along_iff]
  constructor
  · intro h pre c post hl m hm _ hdel st q hq hin
    exact hq (h pre c post hl m hm hdel st q hin).2
  · intro h pre c post hl m hm hdel st q hin
    by_cases hu : m.unique = true
    · have hq : q = m.queue := by
        by_contra hq
        exact h pre c post hl m hm hu hdel st q hq hin
      refine ⟨?_, hq⟩
      by_contra hst
      exact hdel.2.2 hu st hst (hq ▸ hin)
    · have hflag : uniq m.id = false := by
        have hfm : (Command.move m).Faithful uniq := hf _ (by rw [hl, hm]; simp)
        rw [← hfm]
        simpa using hu
      have hb : ∀ d ∈ pre, ¬d.Beats m.id := fun d hd =>
        (hf d (by rw [hl]; simp [hd])).not_beats m.id
      have honce : pre.countP (fun c => decide (c.Delays m.id)) ≤ 1 := by
        have hall := once m.id hflag
        rw [hl, List.countP_append] at hall
        omega
      -- a non-unique id is in one place only, the one it leaves
      rcases placed_run hb honce with ha | ⟨st', q', hsole⟩
      · exact absurd hin (ha st q)
      · have h1 := (hsole st q).mp hin
        have h2 := (hsole _ _).mp hdel.1
        exact ⟨h1.1.trans h2.1.symm, h1.2.trans h2.2.symm⟩

/-- The same unique function and arguments in two queues, with the same id. -/
def sameIdInTwoQueues : List Command :=
  [.delay "a" { id := "u", func := "tasks:unique_task", unique := true } none 1 true,
    .delay "b" { id := "u", func := "tasks:unique_task", unique := true } none 2 true,
    .pickup "a" 1 3 4]

/-- One queue only: a unique task is delayed, picked up, delayed again and finished. -/
def sameIdInOneQueue : List Command :=
  [.delay "a" { id := "u", func := "tasks:unique_task", unique := true } none 1 true,
    .pickup "a" 1 2 3,
    .delay "a" { id := "u", func := "tasks:unique_task", unique := true } none 3 true,
    .move ⟨.done, "a", "u", true, 4, true⟩]

/-- The finish leaves the object, for the id is queued again. -/
theorem stored_run_one_queue : Stored (runAll Store.empty sameIdInOneQueue) := by
  have again : "u" ∈ (runAll Store.empty (sameIdInOneQueue.take 3)).zset .queued "a" := by
    decide +kernel
  refine (stored_run (fun x => x = "u") sameIdInOneQueue (by decide) ?_).mpr ⟨?_, ?_, ?_, ?_, trivial⟩
    _ List.prefix_rfl
  · intro x hx
    have hne : ¬"u" = x := by
      intro hc
      simp [← hc] at hx
    refine once_of_not_delayed ?_
    intro c hc hd
    simp only [sameIdInOneQueue, List.mem_cons, List.not_mem_nil, or_false] at hc
    rcases hc with rfl | rfl | rfl | rfl
    exacts [hne hd, hd, hne hd, hd]
  · intro m hm
    simp at hm
  · intro m hm
    simp at hm
  · intro m hm
    simp at hm
  · intro m hm _ hdel
    obtain rfl : _ = m := by simpa using hm
    exact absurd again (hdel.2.2 rfl .queued (by simp [MoveKind.fromState]))

/-- Finishing the task in queue a deletes the object that queue b still needs. -/
theorem not_stored_two_queues : ¬∀ (uniq : String → Bool) (l : List Command),
    (∀ c ∈ l, c.Faithful uniq) →
    (∀ x, uniq x = false → l.countP (fun c => decide (c.Delays x)) ≤ 1) →
      ∀ pre, pre <+: l → Stored (runAll Store.empty pre) := by
  intro h
  let l := sameIdInTwoQueues ++ [.move ⟨.done, "a", "u", true, 5, true⟩]
  have hs := h (fun x => x = "u") l (by decide)
    (by
      intro x hx
      have hne : ¬"u" = x := by
        intro hc
        simp [← hc] at hx
      refine once_of_not_delayed ?_
      intro c hc hd
      simp only [l, sameIdInTwoQueues, List.cons_append, List.nil_append, List.mem_cons,
        List.not_mem_nil, or_false] at hc
      rcases hc with rfl | rfl | rfl | rfl
      exacts [hne hd, hne hd, hd, hd])
    l List.prefix_rfl
  have pending : "u" ∈ (runAll Store.empty l).zset .queued "b" := by decide +kernel
  have deleted : ((runAll Store.empty l).task "u").isNone = true := by decide +kernel
  exact hs .queued "b" "u" pending (Option.isNone_iff_eq_none.mp deleted)

end TaskTiger
