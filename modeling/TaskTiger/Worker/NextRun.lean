import TaskTiger.Worker.PermanentErrors
import TaskTiger.Worker.TaskLocks

namespace TaskTiger

open Redis Interleaving Prog

/-!
A periodic task that is alone in its queue and takes no arguments. A worker queues it for the next
period once it has picked it up (_prepare_execution), so that its finish finds the next run pending;
what others do to the task in between may not.
-/

/-- The object calls the function of the task without arguments. -/
def Calls (task : Task) (d : TaskData) : Prop :=
  d.func = task.data.func ∧ d.args = [] ∧ d.kwargs = []

instance (task : Task) (d : TaskData) : Decidable (Calls task d) :=
  decidable_of_iff (d.func = task.data.func ∧ d.args.isEmpty = true ∧ d.kwargs.isEmpty = true)
    (by simp only [Calls, List.isEmpty_iff])

structure Alone (task : Task) (s : Store) : Prop where
  only : ∀ st y, y ∈ s.zset st task.queue → y = task.data.id
  object : ∀ d ∈ s.task task.data.id, Calls task d

/-- The command brings no other id into the queue of the task, and no other object to its id. -/
def Command.Respects (task : Task) : Command → Prop
  | .delay queue data .. =>
      (queue = task.queue → data.id = task.data.id) ∧ (data.id = task.data.id → Calls task data)
  | .heartbeat queue ids _ => queue = task.queue → ∀ y ∈ ids, y = task.data.id
  | .updateScheduledTime _ _ id _ => id ≠ task.data.id
  | _ => True

instance (task : Task) (c : Command) : Decidable (c.Respects task) := by
  induction c using Command.casesOn with
  | delay => exact inferInstanceAs (Decidable ((_ → _) ∧ (_ → _)))
  | heartbeat => exact inferInstanceAs (Decidable (_ → ∀ _ ∈ _, _))
  | updateScheduledTime => exact inferInstanceAs (Decidable (_ ≠ _))
  | _ => exact inferInstanceAs (Decidable True)

/-- The move by which a worker ends an execution of the task for good. -/
def Command.Finishes (task : Task) : Command → Prop
  | .move m => m.queue = task.queue ∧ m.id = task.data.id ∧ (m.kind = .done ∨ m.kind = .fail)
  | _ => False

instance (task : Task) (c : Command) : Decidable (c.Finishes task) := by
  induction c using Command.casesOn with
  | move m => exact inferInstanceAs (Decidable (_ ∧ _ ∧ _))
  | _ => exact inferInstanceAs (Decidable False)

instance (s : Store) (q x : String) (c : Command) : Decidable (c.Returns s q x) := by
  induction c using Command.casesOn with
  | pickup queue count now later =>
    exact inferInstanceAs (Decidable (Returned queue count now later s q x))
  | _ => exact inferInstanceAs (Decidable False)

section

variable {task : Task} {s : Store} {c : Command}

theorem respects_passive (hc : c.Passive) : c.Respects task := by
  cases c with
  | delay => exact hc.elim
  | heartbeat => exact hc.elim
  | updateScheduledTime => exact hc.elim
  | _ => trivial

theorem Alone.step (h : Alone task s) (hc : c.Respects task) : Alone task (exec c s).2 where
  only := by
    intro st y hy
    by_contra hne
    have absent : ∀ st, y ∉ s.zset st task.queue := fun st hin => hne (h.only st y hin)
    refine absent_from_step absent ?_ ?_ st hy
    · intro hd
      cases c with
      | delay queue data ts now publish => exact hne (hd.2.symm.trans (hc.1 hd.1))
      | _ => exact hd.elim
    · intro late
      cases c with
      | heartbeat queue ids now => exact hne (hc late.1 y late.2.1)
      | _ => exact late.elim
  object := by
    by_cases hp : c.Passive
    · rw [(exec_passive hp s).2.2]
      exact h.object
    · cases c with
      | delay queue data ts now publish =>
        rw [task_delay]
        split_ifs with hx
        · intro d hd
          obtain rfl := Option.some.inj hd
          exact hc.2 hx.symm
        · exact h.object
      | pickup => rw [task_pickup]; exact h.object
      | promote => rw [task_promote]; exact h.object
      | move m =>
        rw [task_move]
        split_ifs
        · intro d hd
          cases hd
        · exact h.object
      | updateScheduledTime number queue id ts =>
        rw [task_updateScheduledTime_of_ne (Ne.symm hc)]
        exact h.object
      | heartbeat queue ids now => exact h.object
      | _ => exact absurd trivial hp

end

/-! What a worker does for the next period before it ends an execution. -/

/-- A worker has prepared an execution of the task when it has delayed it since its last pickup of
it. It ends an execution only then. -/
def preparing (task : Task) : Monitor Store Command Prop where
  Expected _ := Alone task
  Allowed prepared _ c := c.Respects task ∧ (c.Finishes task → prepared)
  update prepared s c := ¬c.Returns s task.queue task.data.id ∧
    (prepared ∨ c.DelaysIn task.data.id task.queue)

/-- A host on which the function is periodic: no other call has the id of its task, and its schedule
always returns a date. With ALWAYS_EAGER, a date that has passed would not be queued. -/
structure Host.Registers (h : Host) (task : Task) : Prop where
  uniqueId : ∀ d : TaskData,
    h.genUniqueId d.func (.arr d.args) (.obj d.kwargs) = task.data.id ↔ Calls task d
  periodic : h.isPeriodic task.data.func = true
  schedule : ∃ date, h.nextPeriod task.data.func = .ok (some date) ∧
    (h.alwaysEager = true → (delayTarget (some date) (h.time task.data.id)).1 = .scheduled)

/-- A periodic function as the workers have it: its task takes no arguments and is alone in its
queue. -/
structure Registered {C : Type} (workers : C → WorkerProcess) (task : Task) : Prop where
  unique : task.data.unique = true
  args : task.data.args = [] ∧ task.data.kwargs = []
  known : ∀ c, task ∈ (workers c).periodicTasks
  ownQueue : ∀ c, ∀ t ∈ (workers c).periodicTasks, t.queue = task.queue → t = task
  hosts : ∀ c, ∀ h ∈ (workers c).hosts, h.Registers task

/-- In the queue of the task, this is a task object of it. -/
def Fits (task : Task) (queue : String) (t : Task) : Prop :=
  t.queue = queue ∧ (queue = task.queue → t.data.id = task.data.id ∧ Calls task t.data)

section

variable {task : Task} {h : Host} {queue : String}

/-- A command that ends no execution, and picks nothing up. -/
def Command.Tame (task : Task) (c : Command) : Prop :=
  c.Respects task ∧ ¬c.Finishes task ∧ ∀ s, ¬c.Returns s task.queue task.data.id

theorem tame_passive {c : Command} (hc : c.Passive) : c.Tame task := by
  refine ⟨respects_passive hc, ?_, fun s => ?_⟩
  · cases c with
    | move => exact hc.elim
    | _ => exact id
  · cases c with
    | pickup => exact hc.elim
    | _ => exact id

theorem tame_move {m : Move} (hm : m.kind ≠ .done ∧ m.kind ≠ .fail) :
    Command.Tame task (.move m) := by
  refine ⟨trivial, ?_, fun _ => id⟩
  rintro ⟨-, -, hk | hk⟩
  · exact hm.1 hk
  · exact hm.2 hk

/-- The clone for the next period has the id of the task exactly if it makes the same call. -/
theorem tame_delay (hr : h.Registers task) {t : Task} (fits : Fits task t.queue t)
    {ts : Option Time} {now : Instant} {publish : Bool} :
    Command.Tame task (.delay t.queue (t.nextData h) ts now publish) := by
  refine ⟨⟨fun hq => (hr.uniqueId t.data).mpr (fits.2 hq).2, fun hx => ?_⟩, id, fun _ => id⟩
  exact (hr.uniqueId t.data).mp hx

/-- Tame commands keep what is so once the execution is prepared. -/
theorem Command.Tame.keeps {c : Command} (hc : c.Tame task) {p : Prop} :
    (preparing task).Keeps (fun prepared => p → prepared) c := by
  intro prepared s hprepared _
  exact ⟨⟨hc.1, fun hf => absurd hf hc.2.1⟩, fun hp => ⟨hc.2.2 s, Or.inl (hprepared hp)⟩⟩

theorem Command.Tame.wp {α : Type} {p : Routine α} (hp : Issues (Command.Tame task) p)
    {prepared : Prop} : Wp exec (preparing task) (fun _ => True) p prepared (fun _ _ => True) := by
  have wp : Wp exec (preparing task) (fun prepared => False → prepared) p prepared
      (fun _ prepared => False → prepared) := (hp.mono (fun _ hc => hc.keeps)).wp False.elim
  rw [wp_iff] at wp ⊢
  exact wp.mono (fun _ _ _ => trivial) (fun _ _ _ => trivial)

theorem Command.Tame.wp_yields {α : Type} {p : Routine α} {P : α → Prop}
    (hp : Issues (Command.Tame task) p) (hy : Yields P p) {prepared : Prop} :
    Wp exec (preparing task) (fun _ => True) p prepared (fun a _ => P a) := by
  have wp : Wp exec (preparing task) (fun prepared => False → prepared) p prepared
      (fun a prepared => P a ∧ (False → prepared)) :=
    (hp.mono (fun _ hc => hc.keeps)).wp_yields hy False.elim
  rw [wp_iff] at wp ⊢
  exact wp.mono (fun _ _ _ => trivial) (fun _ _ yields => yields.1)

/-! Worker._execute_task_group. -/

theorem yields_loadTasks_queue (entries : List (String × Option TaskData)) :
    Yields (fun tasks => ∀ t ∈ tasks, t.queue = queue) (Worker.loadTasks h queue entries) := by
  induction entries with
  | nil =>
    intro t ht
    cases ht
  | cons entry entries ih =>
    obtain ⟨id, data⟩ := entry
    cases data with
    | none => exact (yields_any _).bind (fun _ _ => ih)
    | some d =>
      rw [Worker.loadTasks]
      apply yields_ite
      · apply ih.bind
        intro tasks hin
        exact List.forall_mem_cons.mpr ⟨rfl, hin⟩
      · exact (yields_any _).bind (fun _ _ => ih)

/-- The clone of a task without arguments is delayed under the id of the task. -/
theorem queueForNextPeriod_delays (hr : h.Registers task) {t : Task} (calls : Calls task t.data) :
    ∃ date now, t.queueForNextPeriod h =
      Task.checkQueueSize ⟨t.queue, t.nextData h⟩ none >>= fun _ =>
        redis (.delay t.queue (t.nextData h) (some date) now h.publishQueuedTasks) := by
  obtain ⟨date, schedule, ahead⟩ := hr.schedule
  have id : (t.nextData h).id = task.data.id := (hr.uniqueId t.data).mpr calls
  have next : t.queueForNextPeriod h =
      Task.delay h ⟨t.queue, t.nextData h⟩ (some date) (h.time (t.nextData h).id) none := by
    unfold Task.queueForNextPeriod
    rw [calls.1, schedule]
    simp only [Task.nextData, calls.1]
    rfl
  have lazy : ¬(h.alwaysEager = true ∧
      (delayTarget (some date) (h.time (t.nextData h).id)).1 = .queued) :=
    fun eager => by simp [id, ahead eager.1] at eager
  refine ⟨date, h.time (t.nextData h).id, ?_⟩
  rw [next, Task.delay, if_neg lazy]

/-- _prepare_execution queues the task for its next period. -/
theorem wp_prepareExecution (hr : h.Registers task) {ready : List Task} {prepared : Prop}
    (some_ready : ready ≠ []) (fits : ∀ t ∈ ready, Fits task queue t) :
    Wp exec (preparing task) (fun _ => True) (Worker.prepareExecution h ready) prepared
      (fun _ prepared => queue = task.queue → prepared) := by
  by_cases hq : queue = task.queue
  · cases ready with
    | nil => exact absurd rfl some_ready
    | cons t ready =>
      obtain ⟨own, same⟩ := fits t List.mem_cons_self
      obtain ⟨hx, calls⟩ := same hq
      obtain ⟨date, now, next⟩ := queueForNextPeriod_delays hr calls
      have periodic : h.isPeriodic t.data.func = true := by rw [calls.1, hr.periodic]
      change Wp exec _ _ (if h.isPeriodic t.data.func then t.queueForNextPeriod h else pure ()) _ _
      rw [if_pos periodic, next]
      apply (Command.Tame.wp (issues_checkQueueSize (tame_passive trivial))).bind
      intro _ prepared _
      apply wp_ask_bind (k := Prog.ret)
      intro s _
      have tame : Command.Tame task
          (.delay t.queue (t.nextData h) (some date) now h.publishQueuedTasks) :=
        tame_delay hr ⟨rfl, fun _ => ⟨hx, calls⟩⟩
      have delays : (t.nextData h).id = task.data.id := (hr.uniqueId t.data).mpr calls
      exact ⟨⟨tame.1, fun hf => absurd hf tame.2.1⟩,
        fun _ => ⟨id, Or.inr ⟨own.trans hq, delays⟩⟩⟩
  · have other : ∀ t ∈ ready, Fits task t.queue t := by
      intro t ht
      obtain ⟨rfl, same⟩ := fits t ht
      exact ⟨rfl, same⟩
    have tame : Issues (Command.Tame task) (Worker.prepareExecution h ready) :=
      Worker.issues_prepareExecution ready (fun _ => tame_passive trivial)
        (fun t ht _ _ _ => tame_delay hr (other t ht))
    exact (Command.Tame.wp tame).mono (fun _ _ _ hq' => absurd hq' hq)

/-- What follows the preparation, up to the return of the ready tasks. -/
theorem tame_releaseLocks {locks : List String} {ready : List Task}
    (fits : ∀ t ∈ ready, Fits task queue t) :
    Issues (Command.Tame task)
      (Worker.executor h queue ready >>= Worker.releaseLocks h locks ready) := by
  refine issues_bind (issues_bind (issues_call _) (fun executed => ?_)) (fun success => ?_)
  · refine issues_bind (issues_forM (fun step => ?_)) (fun _ => trivial)
    cases step with
    | heartbeat now =>
      refine issues_ask ⟨fun hq y hy => ?_, id, fun _ => id⟩
      obtain ⟨t, ht, rfl⟩ := List.mem_map.mp hy
      exact ((fits t ht).2 hq).1
    | store e => exact issues_forM (fun t => issues_ask (tame_passive trivial))
  · refine issues_bind (issues_forM (fun lock => ?_)) (fun _ => trivial)
    exact issues_bind (issues_ask (tame_passive trivial)) (fun _ => trivial)

theorem yields_releaseLocks {locks : List String} {ready : List Task} :
    Yields (fun processed => processed.2 = ready)
      (Worker.executor h queue ready >>= Worker.releaseLocks h locks ready) :=
  (yields_any _).bind (fun _ _ => (yields_any _).bind (fun _ _ => rfl))

/-- The tasks of a group that are executed have been prepared. -/
theorem wp_preparing_executeTaskGroup (hr : h.Registers task) {tasks : List Task} {prepared : Prop}
    (fits : ∀ t ∈ tasks, Fits task queue t) :
    Wp exec (preparing task) (fun _ => True) (Worker.executeTaskGroup h queue tasks) prepared
      (fun processed prepared => (∀ t ∈ processed.2, Fits task queue t) ∧
        (processed.2 ≠ [] → queue = task.queue → prepared)) := by
  have misses : Issues (Command.Tame task) (Worker.acquireLocks h tasks [] []) :=
    Worker.issues_acquireLocks (fun _ => tame_passive trivial)
      (fun m hm => tame_move (by simp [hm])) tasks [] []
  rw [Worker.executeTaskGroup_eq, Worker.executeTaskGroupWith_eq]
  apply (Command.Tame.wp_yields misses (yields_acquireLocks tasks [] [])).bind
  intro acquired prepared kept
  have ready : ∀ t ∈ acquired.2, Fits task queue t :=
    fun t ht => fits t (by simpa using kept t ht)
  unfold Worker.executeReady
  split_ifs with none_ready
  · exact ⟨by simp, fun h => absurd rfl h⟩
  · have some_ready : acquired.2 ≠ [] := by simpa using none_ready
    apply (wp_prepareExecution hr some_ready ready).bind
    intro _ prepared hprepared
    have keeps : Issues ((preparing task).Keeps (fun prepared => queue = task.queue → prepared))
        (Worker.executor h queue acquired.2 >>= Worker.releaseLocks h acquired.1 acquired.2) :=
      (tame_releaseLocks ready).mono (fun _ hc => hc.keeps)
    have wp : Wp exec (preparing task) _ (Worker.executor h queue acquired.2 >>= _) prepared _ :=
      keeps.wp_yields yields_releaseLocks hprepared
    rw [wp_iff] at wp ⊢
    refine wp.mono (fun _ _ _ => trivial) ?_
    rintro ⟨success, processed⟩ prepared ⟨rfl, hprepared⟩
    exact ⟨ready, fun _ => hprepared⟩

/-! Worker._finish_task_processing. -/

theorem wp_preparing_finishTaskProcessing {t : Task} {success : Bool} {prepared : Prop}
    (fits : Fits task queue t) (hprepared : queue = task.queue → prepared) :
    Wp exec (preparing task) (fun _ => True) (Worker.finishTaskProcessing h t success) prepared
      (fun _ prepared => queue = task.queue → prepared) := by
  have reads : ∀ c : Command, c.Passive →
      (preparing task).Keeps (fun prepared => queue = task.queue → prepared) c :=
    fun _ hc => (tame_passive hc).keeps
  have finish : Issues ((preparing task).Keeps (fun prepared => queue = task.queue → prepared))
      (Worker.finishTaskProcessing h t success) := by
    refine Worker.issues_finishTaskProcessing h (fun m hm _ => ?_) ?_ ?_ ?_
    · intro prepared s kept _
      exact ⟨⟨trivial, fun hf => kept (fits.1.symm.trans (hm.1.symm.trans hf.1))⟩,
        fun hq => ⟨id, Or.inl (kept hq)⟩⟩
    · exact reads _ trivial
    · exact reads _ trivial
    · exact reads _ trivial
  have wp : Wp exec (preparing task) _ (Worker.finishTaskProcessing h t success) prepared _ :=
    finish.wp hprepared
  rw [wp_iff] at wp ⊢
  exact wp.mono (fun _ _ _ => trivial) (fun _ _ kept => kept)

theorem wp_preparing_processGroups (hr : h.Registers task) {groups : List (List Task)}
    {prepared : Prop} (fits : ∀ g ∈ groups, ∀ t ∈ g, Fits task queue t) :
    Wp exec (preparing task) (fun _ => True) (Worker.processGroups h queue groups) prepared
      (fun _ _ => True) := by
  induction groups generalizing prepared with
  | nil => trivial
  | cons tasks groups ih =>
    apply (wp_preparing_executeTaskGroup hr (fits tasks (by simp))).bind
    rintro ⟨success, processed⟩ prepared ⟨fit, hprepared⟩
    have later : ∀ prepared, Wp exec (preparing task) (fun _ => True)
        (Worker.processGroups h queue groups >>= fun rest => pure (processed.length + rest))
        prepared (fun _ _ => True) := by
      intro prepared
      apply (ih (fun g hg => fits g (by simp [hg]))).bind
      intro _ _ _
      trivial
    cases processed with
    | nil => exact later prepared
    | cons first processed =>
      have finishes : Wp exec (preparing task) (fun _ => True)
          ((first :: processed).forM (fun t => Worker.finishTaskProcessing h t success)) prepared
          (fun _ prepared => queue = task.queue → prepared) := by
        have one : ∀ t l prepared, (∀ t' ∈ t :: l, Fits task queue t') ∧
            (queue = task.queue → prepared) →
              Concludes exec (preparing task) (fun _ _ => True)
                (Worker.finishTaskProcessing h t success) prepared
                (fun _ prepared =>
                  (∀ t' ∈ l, Fits task queue t') ∧ (queue = task.queue → prepared)) := by
          rintro t l prepared ⟨fit, hprepared⟩
          obtain ⟨here, fit⟩ := List.forall_mem_cons.mp fit
          have finish : Wp exec (preparing task) _ (Worker.finishTaskProcessing h t success)
              prepared _ := wp_preparing_finishTaskProcessing here hprepared
          rw [wp_iff] at finish
          exact finish.imp (fun _ _ kept => ⟨fit, kept⟩)
        have all := concludes_forM (fun l prepared => (∀ t ∈ l, Fits task queue t) ∧
          (queue = task.queue → prepared)) one ⟨fit, hprepared (by simp)⟩
        rw [wp_iff]
        exact all.imp (fun _ _ kept => kept.2)
      exact finishes.bind (fun _ prepared _ => later prepared)

/-! Worker._process_queue_tasks. -/

/-- The objects of a batch are found as they are stored. -/
theorem fits_entries {s : Store} {ids : List String} {t : Task} (alone : Alone task s)
    (only : queue = task.queue → ∀ id ∈ ids, id = task.data.id) (own : t.queue = queue)
    (loaded : (t.data.id, some t.data) ∈ ids.zip (ids.map s.task)) : Fits task queue t := by
  refine ⟨own, fun hq => ?_⟩
  obtain ⟨hid, object⟩ := Worker.mem_entries loaded
  have hx : t.data.id = task.data.id := only hq _ hid
  have found : s.task task.data.id = some t.data := hx ▸ object.symm
  exact ⟨hx, alone.object t.data found⟩

theorem wp_preparing_processQueueTasks (hr : h.Registers task) {ids : List String} {prepared : Prop}
    (only : queue = task.queue → ∀ id ∈ ids, id = task.data.id) :
    Wp exec (preparing task) (fun _ => True) (Worker.processQueueTasks h queue ids) prepared
      (fun _ _ => True) := by
  apply wp_ask_bind
  intro s alone
  refine ⟨⟨trivial, False.elim⟩, ?_⟩
  have loads := (yields_loadTasks (h := h) queue (ids.zip (ids.map s.task))).and
    (yields_loadTasks_queue (ids.zip (ids.map s.task)))
  have removals : Issues (Command.Tame task)
      (Worker.loadTasks h queue (ids.zip (ids.map s.task))) :=
    Worker.issues_loadTasks (fun _ hm _ => tame_move (by simp [hm]))
      (fun _ hm => tame_move (by simp [hm])) _
  apply (Command.Tame.wp_yields removals loads).bind
  rintro tasks prepared ⟨loaded, own⟩
  apply wp_preparing_processGroups hr
  intro g hg t ht
  rcases mem_groups hg ht with hin | ⟨g', hg', -⟩
  · exact fits_entries alone only (own t hin) (loaded t hin)
  · cases hg'

/-! Worker.run. -/

/-- A batch of the queue of the task is of the task alone. -/
theorem only_of_returned {s : Store} {count : Int} {now : Instant} {later : Time} {ids : List String}
    (alone : Alone task s) (hids : (exec (.pickup task.queue count now later) s).1 = .ok ids) :
    ∀ id ∈ ids, id = task.data.id := by
  intro id hid
  have returned : Returned task.queue count now later s task.queue id := ⟨rfl, ids, hids, hid⟩
  exact alone.only .queued id (Zpoppush.mem_source_of_mem_members
    (Zpoppush.mem_moved.mp (returned_iff.mp returned).2.1).1)

theorem wp_preparing_chore (hr : h.Registers task) (chore : Chore) {prepared : Prop} :
    Wp exec (preparing task) (fun _ => True) (chore.routine h) prepared (fun _ _ => True) := by
  cases chore with
  | scheduledTasks lock queues batchSize now =>
    exact Command.Tame.wp (Worker.issues_workerQueueScheduledTasks h
      (fun _ hc _ => tame_passive hc) (fun _ _ _ => ⟨trivial, id, fun _ => id⟩)
      lock queues batchSize now)
  | expiredTasks =>
    refine Command.Tame.wp (Worker.issues_workerQueueExpiredTasks h
      (fun _ hc _ => tame_passive hc) (fun m hm => tame_move ?_))
    rcases hm with hm | hm | hm <;> simp [hm]
  | fromQueue queue batchSize failedToAcquire now later =>
    apply Wp.bind (Q := fun _ _ => True)
    · unfold Worker.processFromQueue
      split_ifs
      · trivial
      · apply wp_ask_bind
        intro s alone
        refine ⟨⟨trivial, False.elim⟩, ?_⟩
        cases hids : (exec (.pickup queue batchSize now later) s).1 with
        | error e => trivial
        | ok ids =>
          cases ids with
          | nil => trivial
          | cons id ids =>
            have only : queue = task.queue → ∀ y ∈ id :: ids, y = task.data.id := by
              rintro rfl
              exact only_of_returned alone hids
            apply (wp_preparing_processQueueTasks hr only).bind
            intro _ _ _
            trivial
    · intro _ _ _
      trivial

variable {C : Type} {workers : C → WorkerProcess}

/-- A worker ends an execution of the task only when it has queued it for its next period. -/
theorem wp_preparing_workerProcess (hr : Registered workers task) (c : C) {prepared : Prop} :
    Wp exec (preparing task) (fun _ => True) (workers c).routine prepared (fun _ _ => True) := by
  apply Wp.bind (Q := fun _ _ => True)
  · apply wp_forM _ trivial
    intro t ht prepared _
    have fits : Fits task t.queue t := by
      refine ⟨rfl, fun hq => ?_⟩
      obtain rfl := hr.ownQueue c t (List.mem_filter.mp ht).1 hq
      exact ⟨rfl, rfl, hr.args⟩
    have startup : (workers c).startup.Registers task := hr.hosts c _ List.mem_cons_self
    have look : Command.Tame task (.zscores t.queue t.data.id) := tame_passive trivial
    refine Command.Tame.wp (issues_bind (issues_ask look) (fun results => ?_))
    exact issues_ite trivial (issues_queueForNextPeriod t (fun _ => tame_passive trivial)
      (fun _ _ _ => tame_delay startup fits))
  · intro _ prepared _
    apply wp_forM _ trivial
    intro chore hc prepared _
    exact wp_preparing_chore (hr.hosts c _ (List.mem_cons_of_mem _ (List.mem_map_of_mem hc))) chore.2

end

/-! Worker._queue_periodic_tasks. -/

/-- A worker has seen the task in its cycle if one of its commands has left it there. -/
def sighting (task : Task) : Monitor Store Command Prop where
  Expected _ _ := True
  Allowed _ _ _ := True
  update seen s c := seen ∨ InCycle task.queue task.data.id (exec c s).2

section

variable {task : Task} {h : Host} {seen : Prop}

/-- What has been seen has been seen. -/
theorem wp_sighting {α : Type} {p : Routine α} {before : Prop} (kept : before → seen) :
    Wp exec (sighting task) (fun _ => True) p seen (fun _ seen => before → seen) := by
  induction p generalizing seen with
  | ret a => exact kept
  | raise e => trivial
  | call c k ih =>
    intro s _
    exact ⟨trivial, ih _ (fun was => Or.inl (kept was))⟩

theorem after_sighting {tr tail : List (Store × Command)} (h : (sighting task).after seen tr) :
    (sighting task).after seen (tr ++ tail) := by
  induction tail using List.reverseRecOn with
  | nil => rwa [List.append_nil]
  | append_singleton tail y ih =>
    rw [← List.append_assoc, Monitor.after_concat]
    exact Or.inl ih

/-- A score that zscore finds is that of a queued, scheduled or running task. -/
theorem inCycle_of_zscores {s : Store} {q x : String}
    (found : ((exec (.zscores q x) s).1.any fun score => score.any fun ts => decide (ts ≠ 0)) = true) :
    InCycle q x s := by
  obtain ⟨score, hscore, some_score⟩ := List.any_eq_true.mp found
  obtain ⟨st, hst, rfl⟩ := List.mem_map.mp hscore
  have hin : x ∈ s.zset st q := by
    rw [Store.mem_iff_score]
    intro none_score
    rw [none_score] at some_score
    cases some_score
  refine inCycle_iff.mpr ⟨st, ?_, hin⟩
  rintro rfl
  simp at hst

theorem wp_sighting_queuePeriodicTask (hr : h.Registers task) (calls : Calls task task.data) :
    Wp exec (sighting task) (fun _ => True) (Worker.queuePeriodicTask h task) seen
      (fun _ seen => seen) := by
  apply wp_ask_bind
  intro s _
  refine ⟨trivial, ?_⟩
  split_ifs with found
  · exact Or.inr (inCycle_of_zscores found)
  · obtain ⟨date, now, next⟩ := queueForNextPeriod_delays hr calls
    have id : (task.nextData h).id = task.data.id := (hr.uniqueId task.data).mpr calls
    rw [next]
    apply (wp_sighting False.elim).bind
    intro _ seen _
    apply wp_ask_bind (k := Prog.ret)
    intro s _
    refine ⟨trivial, Or.inr ?_⟩
    rw [← id]
    exact pending_delay.inCycle

variable {C : Type} {workers : C → WorkerProcess}

/-- The start-up of a worker that is responsible for its queue sees the task in its cycle. -/
theorem wp_sighting_queuePeriodicTasks (hr : Registered workers task) {c : C}
    (responsible : queueMatches task.queue (workers c).onlyQueues (workers c).excludeQueues = true) :
    Wp exec (sighting task) (fun _ => True) (workers c).start seen (fun _ seen => seen) := by
  have own : task ∈ (workers c).periodicTasks.filter
      (fun t => queueMatches t.queue (workers c).onlyQueues (workers c).excludeQueues) :=
    List.mem_filter.mpr ⟨hr.known c, responsible⟩
  have startup : (workers c).startup.Registers task := hr.hosts c _ List.mem_cons_self
  have one : ∀ t l seen, task ∈ t :: l ∨ seen →
      Concludes exec (sighting task) (fun _ _ => True)
        (Worker.queuePeriodicTask (workers c).startup t) seen (fun _ seen => task ∈ l ∨ seen) := by
    intro t l seen before
    by_cases same : t = task
    · subst same
      have sees : Wp exec (sighting t) _ _ seen _ :=
        wp_sighting_queuePeriodicTask startup ⟨rfl, hr.args⟩
      rw [wp_iff] at sees
      exact sees.imp (fun _ _ seen => Or.inr seen)
    · have later : task ∈ l ∨ seen := by simpa [Ne.symm same] using before
      have keeps : Wp exec (sighting task) _ (Worker.queuePeriodicTask (workers c).startup t) seen
          (fun _ seen => ¬task ∈ l → seen) := wp_sighting later.resolve_left
      rw [wp_iff] at keeps
      exact keeps.imp (fun _ _ kept => Classical.or_iff_not_imp_left.mpr kept)
  have all := concludes_forM (fun l seen => task ∈ l ∨ seen) one (m := seen) (Or.inl own)
  rw [wp_iff]
  exact all.imp (fun _ _ seen => seen.resolve_left List.not_mem_nil)

end

/-! Runs of any number of workers. -/

section Run

variable {C : Type} [DecidableEq C] {workers : C → WorkerProcess} {task : Task} {s : Store}

/-- A pool of workers, and the one whose pickup put the task into ACTIVE, while it is there. -/
abbrev HeldPool (C : Type) := WorkerPool C × Option C

/-- A pickup that returns the task makes its worker the holder, until the task leaves ACTIVE. -/
def holder (task : Task) (held : Option C) (pool : WorkerPool C) (ev : PoolEvent C Command) :
    Option C :=
  if task.data.id ∈ (step (Pool.exec exec) pool ev).state.zset .active task.queue then
    match ev with
    | .step c =>
        if ∃ i ∈ pool.next (.step c), i.Returns pool.state task.queue task.data.id then some c
        else held
    | .other _ => held
  else none

def heldExec (task : Task) (ev : PoolEvent C Command) (p : HeldPool C) : Unit × HeldPool C :=
  ((), step (Pool.exec exec) p.1 ev, holder task p.2 p.1 ev)

/-- Whatever takes the task out of a state leaves its next run pending, but for the finish of an
execution by the worker that holds the task; and other clients leave its queue to the task. -/
def Careful (task : Task) (p : HeldPool C) : PoolEvent C Command → Prop
  | .step c => ∀ i ∈ p.1.next (.step c), i.LeavesPending task.queue task.data.id p.1.state ∨
      i.Finishes task ∧ p.2 = some c
  | .other i => i.LeavesPending task.queue task.data.id p.1.state ∧ i.Respects task

instance (task : Task) (p : HeldPool C) : (ev : PoolEvent C Command) → Decidable (Careful task p ev)
  | .step c => Option.decidableForallMem (p.1.next (.step c))
  | .other _ => inferInstanceAs (Decidable (_ ∧ _))

theorem holder_cases {held : Option C} {pool : WorkerPool C} {ev : PoolEvent C Command} {c : C}
    (h : holder task held pool ev = some c) :
    task.data.id ∈ (step (Pool.exec exec) pool ev).state.zset .active task.queue ∧
      ((ev = .step c ∧ ∃ i ∈ pool.next ev, i.Returns pool.state task.queue task.data.id) ∨
        held = some c) := by
  unfold holder at h
  split_ifs at h with active
  refine ⟨active, ?_⟩
  cases ev with
  | other i => exact Or.inr h
  | step d =>
    simp only at h
    split_ifs at h with returns
    · obtain rfl := Option.some.inj h
      exact Or.inl ⟨rfl, returns⟩
    · exact Or.inr h

theorem run_heldExec (p : HeldPool C) (l : List (PoolEvent C Command)) :
    (run (heldExec task) p l).1 = run (Pool.exec exec) p.1 l := by
  induction l generalizing p with
  | nil => rfl
  | cons ev l ih => rw [run_cons, ih, run_cons]; rfl

/-- The queue is the task's own, each worker prepares its executions, and when the holder has
prepared its execution, the next run is pending. -/
structure Orderly (task : Task) (p : HeldPool C) : Prop where
  alone : Alone task p.1.state
  prepares : ∀ c, Wp exec (preparing task) (fun _ => True) (p.1.client c)
    ((preparing task).after False (p.1.trace c)) (fun _ _ => True)
  held : ∀ c, p.2 = some c → task.data.id ∈ p.1.state.zset .active task.queue
  next : ∀ c, p.2 = some c → (preparing task).after False (p.1.trace c) →
    Pending task.queue task.data.id p.1.state

omit [DecidableEq C] in
theorem orderly_start (hr : Registered workers task) (alone : Alone task s) :
    Orderly task (Pool.start s fun c => (workers c).routine, none) where
  alone := alone
  prepares c := wp_preparing_workerProcess hr c
  held c hc := by cases hc
  next c hc := by cases hc

variable {p : HeldPool C} {ev : PoolEvent C Command}

omit [DecidableEq C] in
theorem Orderly.respects (h : Orderly task p) (hc : Careful task p ev) :
    ∀ i, p.1.next ev = some i → i.Respects task := by
  intro i hi
  cases ev with
  | step c => exact (Pool.wp_next (h.prepares c) h.alone hi).1
  | other j =>
    obtain rfl : j = i := by simpa [Pool.next] using hi
    exact hc.2

omit [DecidableEq C] in
/-- A command of a careful run leaves the next run pending, or finishes the holder's execution. -/
theorem Careful.leaves (hc : Careful task p ev) {i : Command} (hi : p.1.next ev = some i) :
    i.LeavesPending task.queue task.data.id p.1.state ∨
      i.Finishes task ∧ ∃ c, ev = .step c ∧ p.2 = some c := by
  cases ev with
  | step c =>
    rcases hc i hi with leaves | ⟨finishes, held⟩
    · exact Or.inl leaves
    · exact Or.inr ⟨finishes, c, rfl, held⟩
  | other j =>
    obtain rfl : j = i := by simpa [Pool.next] using hi
    exact Or.inl hc.1

theorem Command.Finishes.fromActive {c : Command} (h : c.Finishes task) :
    ∃ m, c = .move m ∧ m.kind.fromState = .active := by
  cases c with
  | move m =>
    obtain ⟨-, -, hk | hk⟩ := h
    · exact ⟨m, rfl, by simp [hk, MoveKind.fromState]⟩
    · exact ⟨m, rfl, by simp [hk, MoveKind.fromState]⟩
  | _ => exact h.elim

/-- What is pending stays pending while somebody holds the task. -/
theorem Orderly.pending_step (hc : Careful task p ev)
    (active : task.data.id ∈ p.1.state.zset .active task.queue)
    (pending : Pending task.queue task.data.id p.1.state) :
    Pending task.queue task.data.id (step (Pool.exec exec) p.1 ev).state := by
  rw [Pool.state_step]
  cases hi : p.1.next ev with
  | none => exact pending
  | some i =>
    have kept : ¬i.Returns p.1.state task.queue task.data.id := fun returns => returns.idle active
    apply pending.leaves kept
    exact (hc.leaves hi).imp_right (fun finish => finish.1.fromActive)

/-- The holder is prepared after a step if it was before, or has just delayed the task. -/
theorem Orderly.prepared_step (h : Orderly task p) (hc : Careful task p ev) {c : C}
    (held : p.2 = some c)
    (prepared : (preparing task).after False ((step (Pool.exec exec) p.1 ev).trace c)) :
    Pending task.queue task.data.id (step (Pool.exec exec) p.1 ev).state := by
  have before : (preparing task).after False (p.1.trace c) →
      Pending task.queue task.data.id (step (Pool.exec exec) p.1 ev).state :=
    fun was => Orderly.pending_step hc (h.held c held) (h.next c held was)
  have after : (∃ i, ev = .step c ∧ p.1.next (.step c) = some i) ∨
      (preparing task).after False ((step (Pool.exec exec) p.1 ev).trace c) = _ :=
    Pool.after_step ev
  rcases after with ⟨i, rfl, hi⟩ | same
  · rw [Pool.after_step_own hi] at prepared
    obtain ⟨-, was | delays⟩ := prepared
    · exact before was
    · rw [Pool.state_step, hi]
      cases i with
      | delay queue data ts now publish =>
        obtain ⟨rfl, hx⟩ := delays
        rw [← hx]
        exact pending_delay
      | _ => exact delays.elim
  · rw [same] at prepared
    exact before prepared

theorem Orderly.step (h : Orderly task p) (hc : Careful task p ev) :
    Orderly task (Interleaving.step (heldExec task) p ev) where
  alone := by
    change Alone task (Interleaving.step (Pool.exec exec) p.1 ev).state
    rw [Pool.state_step]
    cases hi : p.1.next ev with
    | none => exact h.alone
    | some i => exact h.alone.step (h.respects hc i hi)
  prepares c := Pool.wp_step (h.prepares c) h.alone ev
  held c held := (holder_cases held).1
  next := by
    intro c held prepared
    rcases (holder_cases held).2 with ⟨rfl, i, hi, returns⟩ | before
    · -- the pickup itself: nothing is prepared yet
      have here : (preparing task).after False
          ((Interleaving.step (Pool.exec exec) p.1 (.step c)).trace c) := prepared
      rw [Pool.after_step_own hi] at here
      exact absurd returns here.1
    · exact h.prepared_step hc before prepared

/-- A task in its cycle stays there. -/
theorem Orderly.inCycle_step (h : Orderly task p) (hc : Careful task p ev)
    (cycle : InCycle task.queue task.data.id p.1.state) :
    InCycle task.queue task.data.id (Interleaving.step (heldExec task) p ev).1.state := by
  change InCycle _ _ (Interleaving.step (Pool.exec exec) p.1 ev).state
  cases hi : p.1.next ev with
  | none => rwa [Pool.state_step, hi]
  | some i =>
    rcases hc.leaves hi with leaves | ⟨finishes, c, rfl, held⟩
    · rw [Pool.state_step, hi]
      exact (TaskTiger.inCycle_step cycle).mpr (leaves.keepsCycle cycle)
    · -- the worker still holds the task, and has queued it for the next period
      have prepared := (Pool.wp_next (h.prepares c) h.alone hi).2 finishes
      exact (Orderly.pending_step hc (h.held c held) (h.next c held prepared)).inCycle

/-- Who has seen the task in its cycle finds it there still. -/
structure Kept (task : Task) (p : HeldPool C) : Prop where
  orderly : Orderly task p
  seen : ∀ c, (sighting task).after False (p.1.trace c) → InCycle task.queue task.data.id p.1.state

theorem Kept.step (h : Kept task p) (hc : Careful task p ev) :
    Kept task (Interleaving.step (heldExec task) p ev) where
  orderly := h.orderly.step hc
  seen := by
    intro c seen
    have before : (sighting task).after False (p.1.trace c) →
        InCycle task.queue task.data.id (Interleaving.step (heldExec task) p ev).1.state :=
      fun was => h.orderly.inCycle_step hc (h.seen c was)
    have here : (sighting task).after False
        ((Interleaving.step (Pool.exec exec) p.1 ev).trace c) := seen
    have after : (∃ i, ev = .step c ∧ p.1.next (.step c) = some i) ∨
        (sighting task).after False ((Interleaving.step (Pool.exec exec) p.1 ev).trace c) = _ :=
      Pool.after_step ev
    rcases after with ⟨i, rfl, hi⟩ | same
    · rw [Pool.after_step_own hi] at here
      rcases here with was | now
      · exact before was
      · change InCycle _ _ (Interleaving.step (Pool.exec exec) p.1 (.step c)).state
        rw [Pool.state_step, hi]
        exact now
    · rw [same] at here
      exact before here

omit [DecidableEq C] in
theorem kept_start (hr : Registered workers task) (alone : Alone task s) :
    Kept task (Pool.start s fun c => (workers c).routine, none) where
  orderly := orderly_start hr alone
  seen c hc := by cases hc

/-- The id is in its cycle at every point of the rest of the run. -/
def StaysInCycle (workers : C → WorkerProcess) (s : Store) (task : Task)
    (first rest : List (PoolEvent C Command)) : Prop :=
  ∀ pre, pre <+: rest →
    InCycle task.queue task.data.id (workersAfter workers s (first ++ pre)).state

/-- The worker has been through its start-up. -/
def StartedUp (workers : C → WorkerProcess) (pool : WorkerPool C) (c : C) : Prop :=
  ∃ tr, tr <+: pool.trace c ∧ Reaches exec (workers c).start tr (.ret ())

/-- Once a task is in its cycle it stays there; and it is there once a worker has started that is
responsible for its queue. -/
structure KeptInCycle (workers : C → WorkerProcess) (s : Store) (task : Task)
    (l : List (PoolEvent C Command)) : Prop where
  stays : ∀ first rest, l = first ++ rest →
    InCycle task.queue task.data.id (workersAfter workers s first).state →
      StaysInCycle workers s task first rest
  started : ∀ first rest, l = first ++ rest → ∀ c,
    queueMatches task.queue (workers c).onlyQueues (workers c).excludeQueues = true →
      StartedUp workers (workersAfter workers s first) c → StaysInCycle workers s task first rest

/-- A periodic task falls out of its cycle only where an expiry, a removal, a cancel, a script that
gives up or a worker that has lost the task finds no next run pending. -/
theorem inCycle_workers_run {l : List (PoolEvent C Command)} (hr : Registered workers task)
    (alone : Alone task s)
    (careful : Along (heldExec task) (Careful task)
      (Pool.start s fun c => (workers c).routine, none) l) :
    KeptInCycle workers s task l := by
  let start : HeldPool C := (Pool.start s fun c => (workers c).routine, none)
  have state : ∀ l, (run (heldExec task) start l).1 = workersAfter workers s l :=
    fun l => run_heldExec start l
  have kept : ∀ first rest, l = first ++ rest → Kept task (run (heldExec task) start first) ∧
      Along (heldExec task) (Careful task) (run (heldExec task) start first) rest := by
    rintro first rest rfl
    obtain ⟨before, after⟩ := along_append.mp careful
    exact ⟨run_invariant (fun _ _ kept hc => kept.step hc) (kept_start hr alone) before, after⟩
  have stays : ∀ first rest, l = first ++ rest →
      InCycle task.queue task.data.id (workersAfter workers s first).state →
        StaysInCycle workers s task first rest := by
    rintro first rest hl cycle pre ⟨post, rfl⟩
    obtain ⟨before, after⟩ := kept first (pre ++ post) hl
    let Inv : HeldPool C → Prop :=
      fun p => Orderly task p ∧ InCycle task.queue task.data.id p.1.state
    have keep : ∀ p ev, Inv p → Careful task p ev → Inv (step (heldExec task) p ev) :=
      fun _ _ inv hc => ⟨inv.1.step hc, inv.1.inCycle_step hc inv.2⟩
    have both := run_invariant keep ⟨before.orderly, by rwa [state]⟩ (along_append.mp after).1
    have cycled := both.2
    rwa [← run_append, state] at cycled
  refine ⟨stays, ?_⟩
  rintro first rest hl c responsible ⟨tr, ⟨tail, htrace⟩, reaches⟩
  have seen : (sighting task).after False tr :=
    ((wp_sighting_queuePeriodicTasks hr responsible).reaches reaches (fun _ _ _ => trivial)).2
  have still : (sighting task).after False ((workersAfter workers s first).trace c) := by
    rw [← htrace]
    exact after_sighting seen
  obtain ⟨before, -⟩ := kept first rest hl
  rw [← state] at still
  have cycle := before.seen c still
  rw [state] at cycle
  exact stays first rest hl cycle

end Run

/-! A crash, and a restart that expires the task. -/

/-- A periodic task that is due every five minutes. -/
def reportTask : Task := ⟨"periodic", { id := "tasks:report", func := "tasks:report", unique := true }⟩

def periodicHost (startTime : Instant) : Host :=
  { plainHost with
    startTime := startTime
    time := fun _ => startTime
    genUniqueId := fun func args kwargs =>
      match args, kwargs with
      | .arr [], .obj [] => func
      | _, _ => ""
    isPeriodic := fun func => decide (func = "tasks:report")
    nextPeriod := fun _ => .ok (some (startTime.time + 300)) }

/-- The first process picks the task up and crashes; the second, which starts while the task is
in ACTIVE, expires it. -/
def crashedAndRestarted (first : Bool) : WorkerProcess where
  onlyQueues := ∅
  excludeQueues := ∅
  periodicTasks := [reportTask]
  startup := periodicHost 100
  chores :=
    if first then
      [(periodicHost 400, .scheduledTasks none ["periodic"] 1000 400),
        (periodicHost 401, .fromQueue "periodic" 1 false 401 402)]
    else [(periodicHost 900, .expiredTasks)]

theorem registers_periodicHost (startTime : Instant) :
    (periodicHost startTime).Registers reportTask := by
  refine ⟨?_, rfl, ⟨_, rfl, fun eager => absurd eager Bool.false_ne_true⟩⟩
  rintro ⟨id, func, unique, uniqueKey, lock, lockKey, args, kwargs⟩
  cases args <;> cases kwargs <;> simp [periodicHost, reportTask, Calls]

theorem registered_reportTask : Registered crashedAndRestarted reportTask := by
  have hosts : ∀ c, ∀ h ∈ (crashedAndRestarted c).hosts, ∃ now, h = periodicHost now := by
    intro c h hh
    cases c <;> simp [crashedAndRestarted, WorkerProcess.hosts] at hh
    · rcases hh with rfl | rfl <;> exact ⟨_, rfl⟩
    · rcases hh with rfl | rfl | rfl <;> exact ⟨_, rfl⟩
  refine ⟨rfl, ⟨rfl, rfl⟩, fun c => List.mem_singleton_self _, ?_, ?_⟩
  · intro c t ht _
    exact List.mem_singleton.mp ht
  · intro c h hh
    obtain ⟨now, rfl⟩ := hosts c h hh
    exact registers_periodicHost now

/-- The first process starts, promotes the task, announces it and picks it up. -/
def pickedUp : List Bool := List.replicate 5 true

/-- It loads the task, delays it for the next period, and finishes it. -/
def finished : List Bool := List.replicate 3 true

/-- The start-up of the second process, and its expiry. -/
def restarted : List Bool := List.replicate 6 false

theorem inCycle_workers_run_prepared :
    KeptInCycle crashedAndRestarted Store.empty reportTask
        ((pickedUp ++ finished ++ restarted).map .step) ∧
      KeptInCycle crashedAndRestarted Store.empty reportTask
        ((pickedUp ++ finished.take 2 ++ restarted).map .step) := by
  have alone : Alone reportTask Store.empty := ⟨fun st y hy => (by cases hy), fun d hd => by cases hd⟩
  exact ⟨inCycle_workers_run registered_reportTask alone (by decide +kernel),
    inCycle_workers_run registered_reportTask alone (by decide +kernel)⟩

/-- The expiry sends the task to ERROR before anybody has queued it for the next period. -/
theorem not_inCycle_crashed : ¬∀ (workers : Bool → WorkerProcess) (task : Task),
    Registered workers task → ∀ first rest : List Bool,
      InCycle task.queue task.data.id (workersAfter workers Store.empty (first.map .step)).state →
        StaysInCycle workers Store.empty task (first.map .step) (rest.map .step) := by
  intro hall
  have queued : InCycle "periodic" "tasks:report"
      (workersAfter crashedAndRestarted Store.empty (pickedUp.map .step)).state := by
    decide +kernel
  have dropped : ¬InCycle "periodic" "tasks:report"
      (workersAfter crashedAndRestarted Store.empty
        (pickedUp.map .step ++ restarted.map .step)).state := by
    decide +kernel
  have stays := hall crashedAndRestarted reportTask registered_reportTask pickedUp restarted queued
  exact dropped (stays _ List.prefix_rfl)

end TaskTiger
