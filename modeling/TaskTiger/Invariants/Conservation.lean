import TaskTiger.Invariants.Placement
import TaskTiger.Store.Backlog

namespace TaskTiger

open Redis Interleaving

variable {s : Store} {st : TaskState} {q x : String} {c : Command}

/-! Which commands of a run concern one non-unique task. -/

/-- The commands on x are those of a non-unique task of queue q: it is only delayed there, its
Task objects carry the flag, and nothing sends a heartbeat for it. -/
def Command.Ordinary (x q : String) : Command → Prop
  | .delay queue data .. => data.id = x → queue = q ∧ data.unique = false
  | .move m => m.id = x → m.unique = false
  | .heartbeat _ ids _ => x ∉ ids
  | _ => True

instance (x q : String) (c : Command) : Decidable (c.Ordinary x q) := by
  induction c using Command.casesOn with
  | delay queue data ts now publish =>
    exact inferInstanceAs (Decidable (data.id = x → queue = q ∧ data.unique = false))
  | move m => exact inferInstanceAs (Decidable (m.id = x → m.unique = false))
  | heartbeat queue ids now => exact inferInstanceAs (Decidable (x ∉ ids))
  | _ => exact inferInstanceAs (Decidable True)

theorem Command.Ordinary.not_beats (h : c.Ordinary x q) : ¬c.Beats x := by
  cases c with
  | heartbeat => exact h
  | _ => exact id

theorem Command.Ordinary.not_strays (h : c.Ordinary x q) : ¬c.Strays s x :=
  fun late => h.not_beats late.beats

/-- The same without the heartbeats. -/
def Command.NonUnique (x q : String) : Command → Prop
  | .delay queue data .. => data.id = x → queue = q ∧ data.unique = false
  | .move m => m.id = x → m.unique = false
  | _ => True

instance (x q : String) (c : Command) : Decidable (c.NonUnique x q) := by
  induction c using Command.casesOn with
  | delay queue data ts now publish =>
    exact inferInstanceAs (Decidable (data.id = x → queue = q ∧ data.unique = false))
  | move m => exact inferInstanceAs (Decidable (m.id = x → m.unique = false))
  | _ => exact inferInstanceAs (Decidable True)

theorem Command.Ordinary.nonUnique (h : c.Ordinary x q) : c.NonUnique x q := by
  cases c with
  | delay => exact h
  | move => exact h
  | _ => trivial

/-- Whether the task has been delayed and not been removed since. -/
def alive (x : String) (a : Bool) (s : Store) (c : Command) : Bool :=
  if c.Delays x then true else if c.Removes s x then false else a

/-- The task is in one place of its queue and has its object, or it is nowhere and has none. -/
def Conserved (x q : String) (s : Store) (a : Bool) : Prop :=
  if a = true then (∃ st, SoleAt s x st q) ∧ s.task x ≠ none
  else Absent s x ∧ s.task x = none

/-! The object of one id. -/

theorem task_updateScheduledTime {number : ℚ → ℚ} {queue id : String} {ts : Time} :
    (exec (.updateScheduledTime number queue id ts) s).2.task x = none ↔ s.task x = none := by
  by_cases hx : x = id
  · subst hx
    change (updateScheduledTime number queue x ts s).2.task x = none ↔ _
    cases update_effect number queue x ts s with
    | absent out result => rw [result]
    | failed e within bad result =>
      rw [result]
      rfl
    | updated d within stored good result => simp [result, stored]
  · rw [task_updateScheduledTime_of_ne hx]

/-- Delays apart, an object comes from nowhere and goes only with a move that deletes it. -/
theorem task_step (hd : ¬c.Delays x) : (exec c s).2.task x = none ↔
    s.task x = none ∨ ∃ m, c = .move m ∧ m.Deletes s ∧ m.id = x := by
  by_cases hp : c.Passive
  · have hm : ¬∃ m, c = .move m ∧ m.Deletes s ∧ m.id = x := by
      rintro ⟨m, rfl, _⟩
      exact hp
    rw [(exec_passive hp s).2.2]
    simp [hm]
  · cases c with
    | delay queue data ts now publish =>
      have hx : x ≠ data.id := Ne.symm hd
      rw [task_delay, if_neg hx]
      simp
    | pickup => simp [task_pickup]
    | promote => simp [task_promote]
    | move m =>
      rw [task_move]
      split_ifs with hk
      · simp [hk.1, hk.2]
      · have hk' : ¬(m.Deletes s ∧ m.id = x) := fun hc => hk ⟨hc.1, hc.2.symm⟩
        simp [hk']
    | updateScheduledTime => simp [task_updateScheduledTime]
    | heartbeat queue ids now =>
      have same : (exec (.heartbeat queue ids now) s).2.task = s.task := rfl
      simp [same]
    | _ => exact absurd trivial hp

theorem Command.NonUnique.removes_iff (h : c.NonUnique x q) :
    (∃ m, c = .move m ∧ m.Deletes s ∧ m.id = x) ↔ c.Removes s x := by
  cases c with
  | move m =>
    constructor
    · rintro ⟨m', hm, hdel, hx⟩
      obtain rfl : m = m' := by simpa using hm
      exact ⟨hx, hdel.2.1, hdel.1⟩
    · intro hr
      obtain ⟨hx, hto, he⟩ := hr
      refine ⟨m, rfl, ⟨he, hto, fun hu => ?_⟩, hx⟩
      rw [h hx] at hu
      simp at hu
  | _ => simp [Command.Removes]

/-! One step, and runs. -/

theorem Conserved.step {a : Bool} (h : Conserved x q s a) (hd : ¬c.Delays x)
    (ho : c.Ordinary x q) (hsafe : c.PopsSafely s x) :
    Conserved x q (exec c s).2 (alive x a s c) := by
  unfold alive
  rw [if_neg hd]
  cases a with
  | true =>
    obtain ⟨⟨st, hsole⟩, htask⟩ : (∃ st, SoleAt s x st q) ∧ s.task x ≠ none := h
    rcases hsole.step hd ho.not_strays with ⟨hkeep, hr⟩ | ⟨hgone, hr⟩
    · rw [if_neg hr]
      refine ⟨hkeep, ?_⟩
      rw [ne_eq, task_step hd, ho.nonUnique.removes_iff]
      tauto
    · have hr' : c.Removes s x := hr.resolve_right (not_not.mpr hsafe)
      rw [if_pos hr']
      refine ⟨hgone, ?_⟩
      rw [task_step hd, ho.nonUnique.removes_iff]
      exact Or.inr hr'
  | false =>
    obtain ⟨habs, htask⟩ : Absent s x ∧ s.task x = none := h
    have hstay : Conserved x q (exec c s).2 false := by
      refine ⟨habs.step hd ho.not_strays, ?_⟩
      rw [task_step hd]
      exact Or.inl htask
    split_ifs <;> exact hstay

theorem Conserved.delay {a : Bool} (h : Conserved x q s false) (hd : c.Delays x)
    (ho : c.Ordinary x q) : Conserved x q (exec c s).2 (alive x a s c) := by
  unfold alive
  rw [if_pos hd]
  cases c with
  | delay queue data ts now publish =>
    obtain rfl : data.id = x := hd
    obtain ⟨habs, _⟩ : Absent s data.id ∧ s.task data.id = none := h
    obtain ⟨rfl, _⟩ := ho rfl
    refine ⟨⟨_, habs.delay⟩, ?_⟩
    rw [task_delay, if_pos rfl]
    simp
  | _ => exact hd.elim

/-- Before its delay a task is not alive. -/
theorem alive_of_not_delayed (l : List Command) (h : ∀ c ∈ l, ¬c.Delays x) (s : Store) :
    watch exec (alive x) s false l = false := by
  induction l generalizing s with
  | nil => rfl
  | cons c l ih =>
    have hstep : alive x false s c = false := by
      unfold alive
      rw [if_neg (h c (by simp))]
      split_ifs <;> rfl
    rw [watch, hstep]
    exact ih (fun d hd => h d (by simp [hd])) _

theorem conserved_of_not_delayed {a : Bool} (l : List Command) (hd : ∀ c ∈ l, ¬c.Delays x)
    (ho : ∀ c ∈ l, c.Ordinary x q) (hsafe : Throughout (fun s c => c.PopsSafely s x) s l)
    (h : Conserved x q s a) : Conserved x q (runAll s l) (watch exec (alive x) s a l) := by
  have hl : Throughout (fun s c => (¬c.Delays x ∧ c.Ordinary x q) ∧ c.PopsSafely s x) s l :=
    ((along_of_forall hd).and (along_of_forall ho)).and hsafe
  exact watch_invariant (fun s a c h hc => h.step hc.1.1 hc.1.2 hc.2) h hl

theorem once_of_not_delayed {l : List Command} (h : ∀ c ∈ l, ¬c.Delays x) :
    l.countP (fun c => decide (c.Delays x)) ≤ 1 := by
  have hzero : l.countP (fun c => decide (c.Delays x)) = 0 := by
    refine List.countP_eq_zero.mpr ?_
    intro c hc hd
    exact h c hc (of_decide_eq_true hd)
  omega

/-- A run that delays a task at most once has a part before the delay and a part after it. -/
theorem delayed_once_cases {l : List Command} (h : l.countP (fun c => decide (c.Delays x)) ≤ 1) :
    (∀ c ∈ l, ¬c.Delays x) ∨ ∃ pre c post, l = pre ++ c :: post ∧ c.Delays x ∧
      (∀ d ∈ pre, ¬d.Delays x) ∧ ∀ d ∈ post, ¬d.Delays x := by
  induction l with
  | nil => exact Or.inl (by simp)
  | cons c l ih =>
    rw [List.countP_cons] at h
    by_cases hc : c.Delays x
    · have hrest : ∀ d ∈ l, ¬d.Delays x := by
        simp only [hc, decide_true, if_true] at h
        have hzero : l.countP (fun c => decide (c.Delays x)) = 0 := by omega
        simpa using List.countP_eq_zero.mp hzero
      exact Or.inr ⟨[], c, l, rfl, hc, by simp, hrest⟩
    · rcases ih (by omega) with hnone | ⟨pre, d, post, rfl, hd, hpre, hpost⟩
      · refine Or.inl ?_
        intro d hd
        rcases List.mem_cons.mp hd with rfl | hd
        · exact hc
        · exact hnone d hd
      · refine Or.inr ⟨c :: pre, d, post, rfl, hd, ?_, hpost⟩
        intro e he
        rcases List.mem_cons.mp he with rfl | he
        · exact hc
        · exact hpre e he

/-- From its delay to its removal a non-unique task is in exactly one state of its queue and has
its object, and before and after that it is nowhere and has none, as long as no zpoppush aborts
on a batch that holds it. -/
theorem conserved_run (x q : String) (l : List Command) (ho : ∀ c ∈ l, c.Ordinary x q)
    (once : l.countP (fun c => decide (c.Delays x)) ≤ 1)
    (hsafe : Throughout (fun s c => c.PopsSafely s x) Store.empty l) :
    Conserved x q (runAll Store.empty l) (watch exec (alive x) Store.empty false l) := by
  have start : Conserved x q Store.empty false := ⟨absent_empty x, rfl⟩
  rcases delayed_once_cases once with hnone | ⟨pre, c, post, rfl, hc, hpre, hpost⟩
  · exact conserved_of_not_delayed l hnone ho hsafe start
  · obtain ⟨hsafe1, _, hsafe2⟩ := along_append.mp hsafe
    have before := conserved_of_not_delayed pre hpre (fun d hd => ho d (by simp [hd])) hsafe1 start
    rw [alive_of_not_delayed pre hpre] at before
    have born := before.delay (a := false) hc (ho c (by simp))
    rw [runAll, run_append, watch_append, alive_of_not_delayed pre hpre]
    exact conserved_of_not_delayed post hpost (fun d hd => ho d (by simp [hd])) hsafe2 born

/-- A task delayed, picked up, failed and retried by hand. -/
theorem conserved_run_retry :
    Conserved "a" "default" (runAll Store.empty
        [.delay "default" { id := "a", func := "tasks:simple_task" } (some 10) 1 true,
          .promote "default" 1000 11, .pickup "default" 1 12 13,
          .move ⟨.fail, "default", "a", false, 14, true⟩,
          .move ⟨.retry, "default", "a", false, 15, true⟩])
      (watch exec (alive "a") Store.empty false
        [.delay "default" { id := "a", func := "tasks:simple_task" } (some 10) 1 true,
          .promote "default" 1000 11, .pickup "default" 1 12 13,
          .move ⟨.fail, "default", "a", false, 14, true⟩,
          .move ⟨.retry, "default", "a", false, 15, true⟩]) := by
  refine conserved_run "a" "default" _ (by decide) (by decide)
    ⟨trivial, Or.inl ?_, Or.inl ?_, trivial, trivial, trivial⟩
  · decide +kernel
  · decide +kernel

/-- A batch of 4000 tasks: the pickup drops them all, though none has been removed. -/
theorem not_conserved_overflow : ¬∀ (x q : String) (l : List Command),
    (∀ c ∈ l, c.Ordinary x q) → l.countP (fun c => decide (c.Delays x)) ≤ 1 →
      Conserved x q (runAll Store.empty l) (watch exec (alive x) Store.empty false l) := by
  intro h
  obtain ⟨n, hn⟩ : ∃ n, n = 4000 := ⟨_, rfl⟩
  let now : Instant := 2
  let l := backlog false n
  have hcard : ((runAll Store.empty l).zset .queued "batch").card = n := card_backlog (by omega)
  obtain ⟨x, hx⟩ : ∃ x, x ∈ (runAll Store.empty l).zset .queued "batch" := by
    rw [← ZSet.nonempty_iff, ← Bool.not_eq_false, ← ZSet.card_eq_zero]
    omega
  have ho : ∀ c ∈ l, c.Ordinary x "batch" := by
    intro c hc
    obtain ⟨id, _, rfl⟩ := List.mem_map.mp hc
    exact fun _ => ⟨rfl, rfl⟩
  have once : l.countP (fun c => decide (c.Delays x)) ≤ 1 := by
    have hnd := digitsIds_nodup (n := n) (by omega)
    have hcount := List.nodup_iff_count_le_one.mp hnd x
    rw [show l = enqueueAll _ _ _ _ _ from rfl, enqueueAll, List.countP_map]
    exact hcount
  let p : Command := .pickup "batch" 5000 now 3
  have before := h x "batch" l ho once
  have after := h x "batch" (l ++ [p])
    (by
      intro c hc
      rcases List.mem_append.mp hc with hc | hc
      · exact ho c hc
      · obtain rfl := List.mem_singleton.mp hc
        trivial)
    (by
      have hp : [p].countP (fun c => decide (c.Delays x)) = 0 := rfl
      rw [List.countP_append]
      omega)
  have alive_before : watch exec (alive x) Store.empty false l = true := by
    by_contra hf
    rw [Bool.not_eq_true] at hf
    rw [hf] at before
    exact before.1 .queued "batch" hx
  rw [alive_before] at before
  rw [watch_append, alive_before, runAll, run_append, run_cons, run_nil] at after
  obtain ⟨⟨st, hsole⟩, _⟩ := before
  obtain ⟨⟨st', hsole'⟩, _⟩ := after
  have idle : ((runAll Store.empty l).zset .active "batch").nonempty = false := idle_backlog false n
  obtain ⟨_, _, _, hscore⟩ := pickup_overflow now 3 idle (by omega) (show _ ≤ (5000 : Int) by omega)
  have hin := Store.mem_iff_score.mp hsole'.mem
  rw [show (step exec (run exec Store.empty l) p).score st' "batch" x = _ from hscore st' x] at hin
  by_cases hst : st' = .queued
  · simp [hst] at hin
  · rw [if_neg hst] at hin
    have h1 := (hsole st' "batch").mp (Store.mem_iff_score.mpr hin)
    have h2 := (hsole .queued "batch").mp hx
    exact hst (h1.1.trans h2.1.symm)

end TaskTiger
