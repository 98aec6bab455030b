import TaskTiger.Worker.QueueSize
import TaskTiger.Worker.ScheduledTime

namespace TaskTiger

open Redis Interleaving Prog

/-! The time of a scheduled task, in its ZSET and in its stored object. -/

/-- Task.update_scheduled_time, where cjson prints the numbers exactly. -/
def Task.updateScheduledTime (t : Task) (ts : Option Time) : Routine Unit :=
  match ts with
  | none => Prog.raise (.raised "AssertionError")
  | some ts =>
    if ts = 0 then Prog.raise (.raised "AssertionError")
    else do
      let found ← redis (.updateScheduledTime id t.queue t.data.id ts)
      match found with
      | .ok true => pure ()
      | .ok false => Prog.raise .taskNotFound
      | .error e => Prog.raise (.responseError e)

/-- A call of delay or update_scheduled_time on a Task object. -/
inductive ScheduleCall where
  | delay (d : DelayCall)
  | updateScheduledTime (task : Task) (ts : Option Time)

namespace ScheduleCall

def task : ScheduleCall → Task
  | .delay d => d.task
  | .updateScheduledTime task _ => task

def routine : ScheduleCall → Routine Unit
  | .delay d => d.routine
  | .updateScheduledTime task ts => task.updateScheduledTime ts

/-- What the call raises, and the store it leaves. -/
def perform (c : ScheduleCall) (s : Store) : Except Exn Unit × Store :=
  let o := go exec (fun _ => []) c.routine 0 s
  (o.result, o.state)

end ScheduleCall

/-- The store after a sequence of calls. -/
abbrev performAll (s : Store) (l : List ScheduleCall) : Store :=
  run (R := fun _ => Except Exn Unit) ScheduleCall.perform s l

/-- If the id is scheduled, the stored object has the time of the entry. -/
def SchedulesAgree (q x : String) (s : Store) : Prop :=
  ∀ t, s.score .scheduled q x = some t → ∃ d, s.task x = some d ∧ d.scheduledAt = some t

/-- They agree at every point of a sequence of calls. -/
def AgreeThroughout (q x : String) (s : Store) (l : List ScheduleCall) : Prop :=
  ∀ pre, pre <+: l → SchedulesAgree q x (performAll s pre)

/-- There is room in the queue for the call. -/
def DelayCall.Room (d : DelayCall) (s : Store) : Prop :=
  ∀ m, d.limit = some m → m ≠ 0 → (s.size d.task.queue : Int) < m

/-- The call finds room in the queue, and does not execute the task at once. -/
def DelayCall.Inserts (d : DelayCall) (s : Store) : Prop :=
  d.Room s ∧ ¬(d.host.alwaysEager = true ∧ (delayTarget d.ts d.now).1 = .queued)

/-- A delay that inserts does not find the task scheduled for another time, and an update that
finds it scheduled can rewrite its object. -/
def ScheduleCall.KeepsSchedule (s : Store) : ScheduleCall → Prop
  | .delay d => ∀ t, s.score .scheduled d.task.queue d.task.data.id = some t → d.Inserts s →
      (delayTarget d.ts d.now).2 = t
  | .updateScheduledTime task ts => ∀ ts' ∈ ts, ts' ≠ 0 →
      task.data.id ∈ s.zset .scheduled task.queue →
        (⟨task, none⟩ : ClientTask).Rewritable ts' s

/-! What one call does to the store. -/

section

variable {s : Store} {q x : String}

theorem checkQueueSize_eq (d : DelayCall) : d.task.checkQueueSize d.maxQueueSize =
    match d.limit with
    | none => pure ()
    | some m =>
      if m = 0 then pure ()
      else redis (.queueSizes d.task.queue) >>= fun size =>
        if m ≤ (size : Int) then Prog.raise .queueFull else pure () := rfl

theorem returns_checkQueueSize {d : DelayCall} (room : d.Room s) :
    Returns exec (d.task.checkQueueSize d.maxQueueSize) s () s := by
  rw [checkQueueSize_eq]
  cases limit : d.limit with
  | none => exact returns_pure () s
  | some m =>
    by_cases zero : m = 0
    · simp only [if_pos zero]
      exact returns_pure () s
    · have fits : ¬m ≤ (s.size d.task.queue : Int) := by
        have := room m limit zero
        omega
      have asked : Returns exec (redis (.queueSizes d.task.queue)) s (s.size d.task.queue) s :=
        returns_ask _ s
      simp only [if_neg zero]
      apply asked.bind
      rw [if_neg fits]
      exact returns_pure () s

theorem go_checkQueueSize_full {d : DelayCall} (full : ¬d.Room s) (n : Nat) :
    (go exec (fun _ => []) (d.task.checkQueueSize d.maxQueueSize) n s).result =
        .error .queueFull ∧
      (go exec (fun _ => []) (d.task.checkQueueSize d.maxQueueSize) n s).state = s := by
  obtain ⟨m, limit, nonzero, reached⟩ :
      ∃ m, d.limit = some m ∧ m ≠ 0 ∧ m ≤ (s.size d.task.queue : Int) := by
    simpa [DelayCall.Room] using full
  rw [checkQueueSize_eq, limit]
  simp only [if_neg nonzero, redis, go_ask_bind]
  have size : (exec (.queueSizes d.task.queue) (run exec s [])).1 = s.size d.task.queue := rfl
  simp only [size, if_pos reached]
  exact ⟨rfl, rfl⟩

theorem state_delay_of_inserts {d : DelayCall} (h : d.Inserts s) :
    (ScheduleCall.perform (.delay d) s).2 = (exec d.insertion s).2 := by
  obtain ⟨room, direct⟩ := h
  have inserted : Returns exec d.routine s () (exec d.insertion s).2 := by
    apply (returns_checkQueueSize room).bind
    rw [if_neg direct]
    exact returns_ask d.insertion s
  exact (inserted 0).2

theorem state_delay_of_not_inserts {d : DelayCall} (h : ¬d.Inserts s) :
    (ScheduleCall.perform (.delay d) s).2 = s := by
  change (go exec (fun _ => []) (d.task.delay d.host d.ts d.now d.maxQueueSize) 0 s).state = s
  unfold Task.delay
  by_cases room : d.Room s
  · have eager : d.host.alwaysEager = true ∧ (delayTarget d.ts d.now).1 = .queued := by
      by_contra direct
      exact h ⟨room, direct⟩
    obtain ⟨ok, unchanged⟩ := returns_checkQueueSize room 0
    rw [go_bind_ok _ ok]
    simp only [if_pos eager, unchanged]
    cases d.host.executeEagerly d.task with
    | ok u => rfl
    | error name => rfl
  · obtain ⟨full, unchanged⟩ := go_checkQueueSize_full room 0
    rw [go_bind_error _ full]
    exact unchanged

theorem state_update {task : Task} {ts : Time} (h : ts ≠ 0) :
    (ScheduleCall.perform (.updateScheduledTime task (some ts)) s).2 =
      (exec (.updateScheduledTime id task.queue task.data.id ts) s).2 := by
  change (go exec (fun _ => []) (task.updateScheduledTime (some ts)) 0 s).state = _
  unfold Task.updateScheduledTime
  simp only [if_neg h, redis, go_ask_bind, run_nil]
  cases (exec (.updateScheduledTime id task.queue task.data.id ts) s).1 with
  | ok found => cases found <;> rfl
  | error e => rfl

/-! The entry and the object after a call. -/

theorem agree_delay {d : DelayCall} (hq : d.task.queue = q) (hx : d.task.data.id = x)
    (h : SchedulesAgree q x s) :
    SchedulesAgree q x (ScheduleCall.perform (.delay d) s).2 ↔
      (ScheduleCall.delay d).KeepsSchedule s := by
  obtain rfl := hq
  obtain rfl := hx
  by_cases inserts : d.Inserts s
  · have score : (exec d.insertion s).2.score .scheduled d.task.queue d.task.data.id =
        if .scheduled = (delayTarget d.ts d.now).1 then
          some ((s.score .scheduled d.task.queue d.task.data.id).getD (delayTarget d.ts d.now).2)
        else s.score .scheduled d.task.queue d.task.data.id := by
      rw [DelayCall.insertion, score_delay]
      simp
    have object : (exec d.insertion s).2.task d.task.data.id =
        some (delayedData d.task.data d.ts d.now) := by
      rw [DelayCall.insertion, task_delay, if_pos rfl]
    rw [state_delay_of_inserts inserts]
    unfold SchedulesAgree ScheduleCall.KeepsSchedule
    rw [score, object]
    cases entry : s.score .scheduled d.task.queue d.task.data.id with
    | none => split_ifs <;> simp [delayedData, entry]
    | some t => split_ifs <;> simp [delayedData, entry, inserts]
  · rw [state_delay_of_not_inserts inserts]
    exact iff_of_true h (fun _ _ hi => absurd hi inserts)

theorem agree_update {task : Task} {ts : Option Time} (hq : task.queue = q) (hx : task.data.id = x)
    (h : SchedulesAgree q x s) :
    SchedulesAgree q x (ScheduleCall.perform (.updateScheduledTime task ts) s).2 ↔
      (ScheduleCall.updateScheduledTime task ts).KeepsSchedule s := by
  obtain rfl := hq
  obtain rfl := hx
  cases ts with
  | none => exact iff_of_true h (by simp [ScheduleCall.KeepsSchedule])
  | some ts =>
    by_cases zero : ts = 0
    · subst zero
      exact iff_of_true h (by simp [ScheduleCall.KeepsSchedule])
    · have condition : (ScheduleCall.updateScheduledTime task (some ts)).KeepsSchedule s ↔
          (task.data.id ∈ s.zset .scheduled task.queue →
            (⟨task, none⟩ : ClientTask).Rewritable ts s) := by
        simp [ScheduleCall.KeepsSchedule, zero]
      rw [state_update zero, condition]
      change SchedulesAgree _ _ (updateScheduledTime id task.queue task.data.id ts s).2 ↔ _
      have moved : (rescored task.queue task.data.id ts s).score .scheduled task.queue
          task.data.id = some ts := by
        simp [rescored, Store.score]
      cases update_effect id task.queue task.data.id ts s with
      | absent out result =>
        rw [result]
        exact iff_of_true h (fun within => absurd within out)
      | updated d within stored good result =>
        rw [result]
        apply iff_of_true
        · intro t ht
          change (rescored task.queue task.data.id ts s).score _ _ _ = some t at ht
          rw [moved] at ht
          exact ⟨_, if_pos rfl, ht⟩
        · intro _
          exact Or.inl ⟨d, stored, good⟩
      | failed e within bad result =>
        -- the script fails after its ZADD, with the object unchanged
        rw [result]
        constructor
        · intro agree _
          obtain ⟨d, stored, time⟩ := agree ts moved
          obtain ⟨t, entry⟩ := Option.ne_none_iff_exists'.mp (Store.mem_iff_score.mp within)
          obtain ⟨d', stored', time'⟩ := h t entry
          obtain rfl : d' = d := Option.some.inj (stored'.symm.trans stored)
          exact Or.inr (entry.trans (time'.symm.trans time))
        · intro rewritable t ht
          obtain rfl : ts = t := Option.some.inj (moved.symm.trans ht)
          rcases rewritable within with ⟨d, stored, good⟩ | entry
          · exact absurd good (by simp [bad d stored])
          · exact h ts entry

end

/-- The entry and the object agree at every point of a sequence of calls exactly when each call
keeps the schedule. -/
theorem schedulesAgree_iff {q x : String} {s : Store} {l : List ScheduleCall}
    (same : ∀ c ∈ l, c.task.queue = q ∧ c.task.data.id = x) (start : SchedulesAgree q x s) :
    AgreeThroughout q x s l ↔
      Along (R := fun _ => Except Exn Unit) ScheduleCall.perform ScheduleCall.KeepsSchedule s l := by
  apply run_invariant_iff _ start
  intro t c hc agree
  obtain ⟨hq, hx⟩ := same c hc
  cases c with
  | delay d => exact agree_delay hq hx agree
  | updateScheduledTime task ts => exact agree_update hq hx agree

/-- A unique task. -/
def uniqueReport : Task := ⟨"default", { id := "u", func := "tasks:simple_task", unique := true }⟩

def delayReport (ts : Option Time) (now : Instant) : ScheduleCall :=
  .delay ⟨plainHost, uniqueReport, ts, now, none⟩

/-- The task is postponed, and requested once more for the new time. -/
theorem schedulesAgree_iff_postponed : AgreeThroughout "default" "u" Store.empty
    [delayReport (some 20) 1, .updateScheduledTime uniqueReport (some 30),
      delayReport (some 30) 2] := by
  have same : ∀ c ∈ [delayReport (some 20) 1,
      .updateScheduledTime uniqueReport (some 30), delayReport (some 30) 2],
      c.task.queue = "default" ∧ c.task.data.id = "u" := by
    intro c hc
    simp only [List.mem_cons, List.not_mem_nil, or_false] at hc
    rcases hc with rfl | rfl | rfl <;> exact ⟨rfl, rfl⟩
  refine (schedulesAgree_iff same (by intro t ht; cases ht)).mpr ⟨?_, ?_, ?_, trivial⟩
  · intro t ht
    cases ht
  · intro ts hts _ _
    obtain rfl : 30 = ts := by simpa using hts
    exact Or.inl ⟨_, rfl, by decide +kernel⟩
  · intro t ht _
    have entry : (performAll Store.empty [delayReport (some 20) 1,
        .updateScheduledTime uniqueReport (some 30)]).score .scheduled "default" "u" = some 30 := by
      decide +kernel
    exact Option.some.inj (entry.symm.trans ht)

/-- A repeated request for a later time: the entry keeps its score, the object is overwritten. -/
theorem not_schedulesAgree_repeated : ¬∀ (q x : String) (s : Store) (l : List ScheduleCall),
    (∀ c ∈ l, c.task.queue = q ∧ c.task.data.id = x) → SchedulesAgree q x s →
      AgreeThroughout q x s l := by
  intro hall
  let l := [delayReport (some 20) 1, delayReport (some 30) 2]
  have same : ∀ c ∈ l, c.task.queue = "default" ∧ c.task.data.id = "u" := by
    intro c hc
    simp only [l, List.mem_cons, List.not_mem_nil, or_false] at hc
    rcases hc with rfl | rfl <;> exact ⟨rfl, rfl⟩
  have entry : (performAll Store.empty l).score .scheduled "default" "u" = some 20 := by
    decide +kernel
  have object : ((performAll Store.empty l).task "u").bind TaskData.scheduledAt = some 30 := by
    decide +kernel
  have agree := hall "default" "u" Store.empty l same (by intro t ht; cases ht)
  obtain ⟨d, stored, time⟩ := agree l List.prefix_rfl 20 entry
  rw [stored, Option.bind_some, time] at object
  exact absurd object (by decide +kernel)

end TaskTiger
