import TaskTiger.Framework.Refinement
import TaskTiger.Invariants.Conservation

namespace TaskTiger

open Redis Interleaving

/-! What a task queue is for, without queues: the life of one task. -/

inductive TaskEvent where
  | delayed (st : TaskState)
  | due
  | started
  | postponed
  | expired
  | failed
  | finished
  | retried
  | cancelled
  | deleted
  deriving DecidableEq, Repr

/-- Where a task is after an event; none is a task that does not exist. -/
def lifecycle : Option TaskState → TaskEvent → Option (Option TaskState)
  | none, .delayed .queued => some (some .queued)
  | none, .delayed .scheduled => some (some .scheduled)
  | some .scheduled, .due => some (some .queued)
  | some .scheduled, .cancelled => some none
  | some .queued, .started => some (some .active)
  | some .active, .postponed => some (some .scheduled)
  | some .active, .expired => some (some .queued)
  | some .active, .failed => some (some .error)
  | some .active, .finished => some none
  | some .error, .retried => some (some .queued)
  | some .error, .deleted => some none
  | _, _ => none

/-- An attempt is running. -/
def attempts : Option TaskState → Nat
  | some .active => 1
  | _ => 0

def TaskEvent.startsAttempt : TaskEvent → Nat
  | .started => 1
  | _ => 0

def TaskEvent.endsAttempt : TaskEvent → Nat
  | .postponed | .expired | .failed | .finished => 1
  | _ => 0

/-- A request to run the task, or to run it again. -/
def TaskEvent.requests : TaskEvent → Nat
  | .delayed _ | .postponed | .expired | .retried => 1
  | _ => 0

/-- A request is waiting. -/
def waiting : Option TaskState → Nat
  | some .queued | some .scheduled => 1
  | _ => 0

def TaskEvent.withdraws : TaskEvent → Nat
  | .started | .cancelled => 1
  | _ => 0

theorem TaskEvent.startsAttempt_le_withdraws (e : TaskEvent) : e.startsAttempt ≤ e.withdraws := by
  cases e <;> simp [startsAttempt, withdraws]

/-- Attempts do not overlap: each that has started has ended, or is the one that is running. -/
theorem lifecycle_attempts {es : List TaskEvent} {stage : Option TaskState}
    (h : follow lifecycle none es = some stage) :
    attempts stage + (es.map TaskEvent.endsAttempt).sum =
      (es.map TaskEvent.startsAttempt).sum := by
  have balanced : ∀ a e b, lifecycle a e = some b →
      attempts b + e.endsAttempt = attempts a + e.startsAttempt := by
    intro a e b hb
    unfold lifecycle at hb
    split at hb <;> simp at hb <;> subst hb <;> rfl
  have total := follow_balance balanced h
  simpa [attempts] using total

/-- Every attempt has a request of its own. -/
theorem lifecycle_requests {es : List TaskEvent} {stage : Option TaskState}
    (h : follow lifecycle none es = some stage) :
    waiting stage + (es.map TaskEvent.withdraws).sum = (es.map TaskEvent.requests).sum := by
  have balanced : ∀ a e b, lifecycle a e = some b →
      waiting b + e.withdraws = waiting a + e.requests := by
    intro a e b hb
    unfold lifecycle at hb
    split at hb <;> simp at hb <;> subst hb <;> rfl
  have total := follow_balance balanced h
  simpa [waiting] using total

/-! The commands, as events of one task. -/

def MoveKind.event : MoveKind → TaskEvent
  | .done | .mismatch | .missing => .finished
  | .retryLater | .lockMiss => .postponed
  | .fail | .failExpired => .failed
  | .requeueExpired => .expired
  | .retry => .retried
  | .cancel => .cancelled
  | .delete => .deleted

/-- What the command means for the task x. -/
def Command.event (x : String) (s : Store) : Command → Option TaskEvent
  | .delay _ data ts now _ => if data.id = x then some (.delayed (delayTarget ts now).1) else none
  | .pickup queue count now later =>
      if Returned queue count now later s queue x then some .started else none
  | .promote queue count now =>
      if x ∈ (promoteArgs queue count now).members s then some .due else none
  | .move m => if m.id = x ∧ m.Effective s then some m.kind.event else none
  | _ => none

/-- The store shows a task of the queue q in this state: in one ZSET, with its object. -/
def Shows (x q : String) (s : Store) : Option TaskState → Prop
  | some st => SoleAt s x st q ∧ s.task x ≠ none
  | none => Absent s x ∧ s.task x = none

/-- The command treats x as a non-unique task of the queue q, which is delayed while it does not
exist and beats only while it is in ACTIVE, and no zpoppush aborts on a batch that holds it. -/
@[mk_iff]
structure Command.Proper (x q : String) (s : Store) (c : Command) : Prop where
  nonUnique : c.NonUnique x q
  beats : ¬c.Strays s x
  safe : c.PopsSafely s x
  fresh : c.Delays x → s.task x = none

instance (s : Store) (x : String) (c : Command) : Decidable (c.PopsSafely s x) := by
  induction c using Command.casesOn with
  | pickup queue count now later =>
    exact inferInstanceAs (Decidable ((pickupArgs queue count now later).Fits s ∨
      x ∉ (pickupArgs queue count now later).members s))
  | promote queue count now =>
    exact inferInstanceAs (Decidable ((promoteArgs queue count now).Fits s ∨
      x ∉ (promoteArgs queue count now).members s))
  | _ => exact inferInstanceAs (Decidable True)

instance (x q : String) (s : Store) (c : Command) : Decidable (c.Proper x q s) :=
  decidable_of_iff _ (Command.proper_iff x q s c).symm

section

variable {s : Store} {c : Command} {x q : String} {st : TaskState} {e : TaskEvent}

theorem lifecycle_move (k : MoveKind) :
    lifecycle (some k.fromState) k.event = some k.toState := by
  cases k <;> rfl

/-- A command that is no event for a task leaves it where it is. -/
theorem mem_of_silent (proper : c.Proper x q s) (here : SoleAt s x st q)
    (silent : c.event x s = none) : x ∈ (exec c s).2.zset st q := by
  by_cases ht : c.Takes
  · cases c with
    | pickup queue count now later =>
      have kept : ¬Returned queue count now later s queue x := by
        intro hr
        simp [Command.event, hr] at silent
      cases pickup_effect queue count now later s q x with
      | untouched scores =>
        rw [Store.mem_iff_score, scores]
        exact Store.mem_iff_score.mp here.mem
      | picked same pending idle scores returned => exact absurd (same ▸ returned) kept
      | diverted same pending busy =>
        have both := ((here _ _).mp pending).1.trans ((here _ _).mp busy).1.symm
        cases both
      | lost same pending popped failed =>
        exact absurd proper.safe (by simp [Command.PopsSafely, popped, failed])
    | promote queue count now =>
      have left_out : x ∉ (promoteArgs queue count now).members s := by
        intro hm
        simp [Command.event, hm] at silent
      have same : (zpoppushExists (promoteArgs queue count now) s).2.score st q x = s.score st q x :=
        score_zpoppushExists_of_not_mem (fun h => left_out h.2)
      exact Store.mem_iff_score.mpr (same.trans_ne (Store.mem_iff_score.mp here.mem))
    | move m =>
      by_cases he : m.Effective s
      · have other : ¬(q = m.queue ∧ x = m.id) := by
          intro h
          simp [Command.event, he, h.2] at silent
        rw [Store.mem_iff_score, score_move he, if_neg other]
        exact Store.mem_iff_score.mp here.mem
      · rw [exec_move_of_not_effective he]
        exact here.mem
    | _ => exact ht.elim
  · exact mem_zset_exec ht here.mem

/-- A task that is not removed is where one of its ZSETs has it. -/
theorem Shows.arrives {dest : TaskState} (h : Shows x q s (some st)) (proper : c.Proper x q s)
    (arrived : x ∈ (exec c s).2.zset dest q) : Shows x q (exec c s).2 (some dest) := by
  obtain ⟨here, object⟩ := h
  have old : ¬c.Delays x := fun hd => object (proper.fresh hd)
  rcases here.step old proper.beats with ⟨⟨st', there⟩, kept⟩ | ⟨gone, -⟩
  · obtain ⟨rfl, -⟩ := (there dest q).mp arrived
    refine ⟨there, ?_⟩
    rw [ne_eq, task_step old, proper.nonUnique.removes_iff]
    tauto
  · exact absurd arrived (gone dest q)

theorem Shows.removed (h : Shows x q s (some st)) (proper : c.Proper x q s)
    (removes : c.Removes s x) : Shows x q (exec c s).2 none := by
  obtain ⟨here, object⟩ := h
  have old : ¬c.Delays x := fun hd => object (proper.fresh hd)
  rcases here.step old proper.beats with ⟨-, kept⟩ | ⟨gone, -⟩
  · exact absurd removes kept
  · refine ⟨gone, ?_⟩
    rw [task_step old, proper.nonUnique.removes_iff]
    exact Or.inr removes

/-- Where an event takes a task that exists. -/
theorem Shows.event (h : Shows x q s (some st)) (proper : c.Proper x q s)
    (visible : c.event x s = some e) :
    ∃ stage, lifecycle (some st) e = some stage ∧ Shows x q (exec c s).2 stage := by
  obtain ⟨here, object⟩ := h
  cases c with
  | delay queue data ts now publish =>
    simp only [Command.event, Option.ite_none_right_eq_some] at visible
    exact absurd (proper.fresh visible.1) object
  | pickup queue count now later =>
    simp only [Command.event, Option.ite_none_right_eq_some, Option.some.injEq] at visible
    obtain ⟨returned, rfl⟩ := visible
    have taken : x ∈ s.zset .queued queue :=
      Zpoppush.mem_source_of_mem_members (Zpoppush.mem_moved.mp (returned_iff.mp returned).2.1).1
    obtain ⟨rfl, rfl⟩ := (here _ _).mp taken
    refine ⟨some .active, rfl, Shows.arrives ⟨here, object⟩ proper ?_⟩
    cases pickup_effect queue count now later s queue x with
    | picked same pending idle scores => simp [Store.mem_iff_score, scores]
    | untouched scores kept => exact absurd returned kept
    | diverted same pending busy scores kept => exact absurd returned kept
    | lost same pending popped failed scores kept => exact absurd returned kept
  | promote queue count now =>
    simp only [Command.event, Option.ite_none_right_eq_some, Option.some.injEq] at visible
    obtain ⟨due, rfl⟩ := visible
    have scheduled : x ∈ s.zset .scheduled queue := Zpoppush.mem_source_of_mem_members due
    obtain ⟨rfl, rfl⟩ := (here _ _).mp scheduled
    refine ⟨some .queued, rfl, Shows.arrives ⟨here, object⟩ proper ?_⟩
    cases promote_effect queue count now s queue x with
    | promoted same due scores => simp [Store.mem_iff_score, scores]
    | untouched scores =>
      have apart : (promoteArgs queue count now).Distinct := promoteArgs_distinct
      have gone := score_zpoppushExists_source apart due
      exact absurd ((scores .scheduled).symm.trans gone) (Store.mem_iff_score.mp scheduled)
    | lost same due popped failed =>
      exact absurd proper.safe (by simp [Command.PopsSafely, popped, failed])
  | move m =>
    simp only [Command.event, Option.ite_none_right_eq_some, Option.some.injEq] at visible
    obtain ⟨⟨rfl, effective⟩, rfl⟩ := visible
    obtain ⟨rfl, rfl⟩ := (here _ _).mp effective
    refine ⟨m.kind.toState, lifecycle_move m.kind, ?_⟩
    cases target : m.kind.toState with
    | none => exact Shows.removed ⟨here, object⟩ proper ⟨rfl, target, effective⟩
    | some dest =>
      refine Shows.arrives ⟨here, object⟩ proper ?_
      have hne : dest ≠ m.kind.fromState := by
        intro hc
        exact m.kind.toState_ne_fromState (by rw [target, hc])
      rw [Store.mem_iff_score, score_move effective, if_pos ⟨rfl, rfl⟩, if_neg hne, if_pos target]
      simp
  | _ => cases visible

/-- A task that does not exist has no event but its delay. -/
theorem Shows.born (h : Shows x q s none) (proper : c.Proper x q s) :
    (c.event x s = none ∧ Shows x q (exec c s).2 none) ∨
      ∃ e stage, c.event x s = some e ∧ lifecycle none e = some stage ∧
        Shows x q (exec c s).2 stage := by
  obtain ⟨absent, object⟩ := h
  by_cases hd : c.Delays x
  · right
    cases c with
    | delay queue data ts now publish =>
      obtain rfl : data.id = x := hd
      obtain ⟨rfl, -⟩ := proper.nonUnique rfl
      refine ⟨.delayed (delayTarget ts now).1, some (delayTarget ts now).1, if_pos rfl, ?_,
        absent.delay, by simp [task_delay]⟩
      rcases delayTarget_state ts now with hst | hst <;> rw [hst] <;> rfl
    | _ => exact hd.elim
  · left
    refine ⟨?_, absent.step hd proper.beats, ?_⟩
    · cases c with
      | delay queue data ts now publish => exact if_neg hd
      | pickup queue count now later =>
        refine if_neg (fun returned => absent .queued queue ?_)
        exact Zpoppush.mem_source_of_mem_members
          (Zpoppush.mem_moved.mp (returned_iff.mp returned).2.1).1
      | promote queue count now =>
        exact if_neg (fun due => absent .scheduled queue (Zpoppush.mem_source_of_mem_members due))
      | move m =>
        refine if_neg ?_
        rintro ⟨rfl, effective⟩
        exact absent _ _ effective
      | _ => rfl
    · rw [task_step hd]
      exact Or.inl object

end

/-- The store is one way of living the life of a task. -/
theorem simulates_lifecycle (x q : String) :
    Simulates exec (fun s c => c.Proper x q s) (fun s c => c.event x s) lifecycle (Shows x q) where
  silent := by
    intro s c stage shows proper silent
    cases stage with
    | none =>
      rcases shows.born proper with ⟨-, after⟩ | ⟨e, stage, visible, -⟩
      · exact after
      · rw [silent] at visible
        cases visible
    | some st => exact shows.arrives proper (mem_of_silent proper shows.1 silent)
  visible := by
    intro s c stage e shows proper visible
    cases stage with
    | none =>
      rcases shows.born proper with ⟨silent, -⟩ | ⟨e', stage, visible', allowed, after⟩
      · rw [visible] at silent
        cases silent
      · obtain rfl : e = e' := by simpa [visible] using visible'
        exact ⟨stage, allowed, after⟩
    | some st => exact shows.event proper visible

/-- What happens to x in a run from the empty store. -/
abbrev eventsOf (x : String) (l : List Command) : List TaskEvent :=
  labels exec (fun s c => c.event x s) Store.empty l

/-- Every run on a non-unique task is a life of the task, and the store shows where it is. -/
theorem lifecycle_run (x q : String) (l : List Command)
    (proper : Throughout (fun s c => c.Proper x q s) Store.empty l) :
    ∃ stage, follow lifecycle none (eventsOf x l) = some stage ∧
      Shows x q (runAll Store.empty l) stage :=
  (simulates_lifecycle x q).run proper ⟨absent_empty x, rfl⟩

/-- A task is delayed for 10, fails at its first attempt and is retried by hand. -/
def failedAndRetried : List Command :=
  [.delay "default" { id := "a", func := "tasks:simple_task" } (some 10) 1 true,
    .promote "default" 1000 11, .pickup "default" 1 12 13, .heartbeat "default" ["a"] 13,
    .move ⟨.fail, "default", "a", false, 14, true⟩,
    .move ⟨.retry, "default", "a", false, 15, true⟩, .pickup "default" 1 16 17]

theorem lifecycle_run_retried :
    eventsOf "a" failedAndRetried =
        [.delayed .scheduled, .due, .started, .failed, .retried, .started] ∧
      ∃ stage, follow lifecycle none (eventsOf "a" failedAndRetried) = some stage ∧
        Shows "a" "default" (runAll Store.empty failedAndRetried) stage :=
  ⟨by decide +kernel, lifecycle_run "a" "default" failedAndRetried (by decide +kernel)⟩

theorem Shows.attempts_eq {s : Store} {x q : String} {stage : Option TaskState}
    (h : Shows x q s stage) : attempts stage = if x ∈ s.zset .active q then 1 else 0 := by
  cases stage with
  | none => rw [if_neg (h.1 .active q)]; rfl
  | some st =>
    rw [if_congr (h.1 .active q) rfl rfl]
    cases st <;> simp [attempts]

theorem Shows.waiting_eq {s : Store} {x q : String} {stage : Option TaskState}
    (h : Shows x q s stage) :
    waiting stage = if x ∈ s.zset .queued q ∨ x ∈ s.zset .scheduled q then 1 else 0 := by
  cases stage with
  | none =>
    rw [if_neg (by rintro (hx | hx); exacts [h.1 .queued q hx, h.1 .scheduled q hx])]
    rfl
  | some st =>
    rw [if_congr (or_congr (h.1 .queued q) (h.1 .scheduled q)) rfl rfl]
    cases st <;> simp [waiting]

/-- The attempts of a run are one after the other, each on a request of its own. -/
theorem attempts_run (x q : String) (l : List Command)
    (proper : Throughout (fun s c => c.Proper x q s) Store.empty l) :
    ((eventsOf x l).map TaskEvent.startsAttempt).sum =
        ((eventsOf x l).map TaskEvent.endsAttempt).sum +
          (if x ∈ (runAll Store.empty l).zset .active q then 1 else 0) ∧
      ((eventsOf x l).map TaskEvent.requests).sum =
        ((eventsOf x l).map TaskEvent.withdraws).sum +
          (if x ∈ (runAll Store.empty l).zset .queued q ∨
            x ∈ (runAll Store.empty l).zset .scheduled q then 1 else 0) ∧
      ((eventsOf x l).map TaskEvent.startsAttempt).sum ≤
        ((eventsOf x l).map TaskEvent.requests).sum := by
  obtain ⟨stage, follows, shows⟩ : ∃ stage, follow lifecycle none (eventsOf x l) = some stage ∧
      Shows x q (runAll Store.empty l) stage :=
    (simulates_lifecycle x q).run proper ⟨absent_empty x, rfl⟩
  have started := lifecycle_attempts follows
  have requested := lifecycle_requests follows
  have own : ((eventsOf x l).map TaskEvent.startsAttempt).sum ≤
      ((eventsOf x l).map TaskEvent.withdraws).sum :=
    List.sum_le_sum (fun e _ => e.startsAttempt_le_withdraws)
  rw [shows.attempts_eq] at started
  rw [shows.waiting_eq] at requested
  exact ⟨by omega, by omega, by omega⟩

theorem attempts_run_retried :
    "a" ∈ (runAll Store.empty failedAndRetried).zset .active "default" ∧
      ((eventsOf "a" failedAndRetried).map TaskEvent.startsAttempt).sum =
        ((eventsOf "a" failedAndRetried).map TaskEvent.endsAttempt).sum + 1 := by
  have running : "a" ∈ (runAll Store.empty failedAndRetried).zset .active "default" := by
    decide +kernel
  obtain ⟨started, -, -⟩ := attempts_run "a" "default" failedAndRetried (by decide +kernel)
  exact ⟨running, by rwa [if_pos running] at started⟩

end TaskTiger
