import TaskTiger.Framework.Assuming
import TaskTiger.Invariants.Ownership
import TaskTiger.Worker.Disposal
import TaskTiger.Worker.Exclusive
import TaskTiger.Worker.MainLoop
import TaskTiger.Worker.Purge

namespace TaskTiger

open Redis Interleaving Prog

/-! What a worker does with a batch. -/

/-- The command picks nothing up, and its heartbeats are for ids of the batch. -/
def Command.OnBatch (queue : String) (taskIds : List String) : Command → Prop
  | .pickup .. | .promote .. => False
  | .heartbeat q ids _ => q = queue ∧ ids ⊆ taskIds
  | _ => True

section

variable {s : Store} {q queue x : String} {taskIds : List String} {c : Command}

theorem active_onBatch (hc : c.OnBatch queue taskIds) (h : x ∈ (exec c s).2.zset .active q) :
    x ∈ s.zset .active q ∨ q = queue ∧ x ∈ taskIds := by
  by_cases before : x ∈ s.zset .active q
  · exact Or.inl before
  · by_cases beats : c.Beats x
    · cases c with
      | heartbeat r ids now =>
        obtain ⟨rfl, within⟩ := hc
        rw [Store.mem_iff_score, score_heartbeat] at h
        split_ifs at h with beaten
        · exact Or.inr ⟨beaten.2.1, within beats⟩
        · exact Or.inl (Store.mem_iff_score.mpr h)
      | _ => exact beats.elim
    · have returns := returns_of_active (fun late => beats late.strays.beats) before h
      cases c with
      | pickup => exact hc.elim
      | _ => exact returns.elim

end

namespace Worker

variable {queue : String} {taskIds : List String} (h : Host)

/-- A client whose commands are for the batch, whatever it finds. -/
abbrev StaysOn (queue : String) (taskIds : List String) {α : Type} (p : Routine α)
    (post : α → Prop) : Prop :=
  Assuming exec (fun _ _ => True) (Command.OnBatch queue taskIds) p post

theorem staysOn_executeTaskGroup {tasks : List Task} (within : ∀ t ∈ tasks, t.data.id ∈ taskIds) :
    StaysOn queue taskIds (executeTaskGroup h queue tasks) (fun r => ∀ t ∈ r.2, t ∈ tasks) := by
  have locks : Issues (Command.OnBatch queue taskIds) (acquireLocks h tasks [] []) :=
    issues_acquireLocks (fun _ => trivial) (fun _ _ => trivial) _ _ _
  refine (locks.assuming_yields (yields_acquireLocks tasks [] [])).bind (fun acquired ready => ?_)
  refine assuming_ite (fun _ t ht => absurd ht (by simp)) (fun _ => ?_)
  have prepare : Issues (Command.OnBatch queue taskIds) (prepareExecution h acquired.2) :=
    issues_prepareExecution _ (fun _ => trivial) (fun _ _ _ _ _ => trivial)
  refine prepare.assuming.bind (fun _ _ => (issues_call _).assuming.bind (fun executed _ => ?_))
  refine (assuming_forM (fun step _ => ?_)).bind (fun _ _ => ?_)
  · cases step with
    | heartbeat now =>
      refine ⟨⟨rfl, fun y hy => ?_⟩, fun _ _ => trivial⟩
      obtain ⟨t, ht, rfl⟩ := List.mem_map.mp hy
      exact within t (ready t ht)
    | store e => exact (issues_forM (fun task => issues_ask trivial)).assuming
  · refine (assuming_forM (fun lock _ => ?_)).bind (fun _ _ => ready)
    exact assuming_ask_bind trivial (fun _ _ => trivial)

theorem staysOn_processGroups {groups : List (List Task)}
    (within : ∀ g ∈ groups, ∀ t ∈ g, t.data.id ∈ taskIds) :
    StaysOn queue taskIds (processGroups h queue groups) (fun _ => True) := by
  induction groups with
  | nil => trivial
  | cons tasks groups ih =>
    obtain ⟨first, within⟩ := List.forall_mem_cons.mp within
    rw [processGroups]
    refine (staysOn_executeTaskGroup h first).bind (fun processed _ => ?_)
    refine (assuming_forM (fun task _ => ?_)).bind (fun _ _ => (ih within).bind (fun _ _ => trivial))
    exact (issues_finishTaskProcessing h (fun _ _ _ => trivial) trivial trivial trivial).assuming

theorem staysOn_processQueueTasks (queue : String) (taskIds : List String) :
    StaysOn queue taskIds (processQueueTasks h queue taskIds) (fun _ => True) := by
  refine assuming_ask_bind trivial (fun s _ => ?_)
  have loads : ∀ entries, Issues (Command.OnBatch queue taskIds) (loadTasks h queue entries) :=
    issues_loadTasks (fun _ _ _ => trivial) (fun _ _ => trivial)
  refine ((loads _).assuming_yields (yields_loadTasks queue _)).bind (fun tasks loaded => ?_)
  refine staysOn_processGroups h (fun g hg t ht => ?_)
  rcases mem_groups hg ht with here | ⟨g', hg', -⟩
  · exact (List.of_mem_zip (loaded t here)).1
  · simp at hg'

end Worker

/-! What it leaves in ACTIVE. -/

/-- Nothing is active, and each object is stored under its own id. -/
structure Idle (s : Store) : Prop where
  keyed : Keyed s
  inactive : ∀ q x, x ∉ s.zset .active q

/-- The ids in ACTIVE are those of the batch. -/
structure BatchActive (queue : String) (taskIds : List String) (s : Store) : Prop where
  keyed : Keyed s
  distinct : taskIds.Nodup
  active : ∀ q x, x ∈ s.zset .active q ↔ q = queue ∧ x ∈ taskIds

theorem Keyed.objectId {s : Store} (keyed : Keyed s) (id : String) : s.objectId id = id := by
  unfold Store.objectId
  cases found : s.task id with
  | none => rfl
  | some d => exact keyed id d found

/-- The command neither brings ids into ACTIVE nor takes them out, as those of clients. -/
def Command.SparesActive : Command → Prop
  | .pickup .. | .heartbeat .. => False
  | .move m => m.kind.fromState ≠ .active
  | _ => True

section

variable {s : Store} {q x queue : String} {taskIds : List String} {c : Command}

theorem Command.SparesActive.mem_iff (hc : c.SparesActive) :
    x ∈ (exec c s).2.zset .active q ↔ x ∈ s.zset .active q := by
  constructor
  · intro after
    by_contra before
    have unbeaten : ¬c.StraysIn s x q := by
      cases c with
      | heartbeat => exact hc.elim
      | _ => exact id
    have returns := returns_of_active unbeaten before after
    cases c with
    | pickup => exact hc.elim
    | _ => exact returns.elim
  · intro before
    refine mem_active_step before ?_
    cases c with
    | move m => exact fun takes => hc takes.1
    | _ => exact id

theorem Idle.spared (idle : Idle s) (hc : c.SparesActive) : Idle (exec c s).2 :=
  ⟨idle.keyed.step c, fun q x hx => idle.inactive q x (hc.mem_iff.mp hx)⟩

theorem BatchActive.spared (handling : BatchActive queue taskIds s) (hc : c.SparesActive) :
    BatchActive queue taskIds (exec c s).2 :=
  ⟨handling.keyed.step c, handling.distinct, fun q x => hc.mem_iff.trans (handling.active q x)⟩

theorem sameActive_run {l : List Command} (hl : ∀ c ∈ l, c.SparesActive) :
    SameActive queue taskIds s (run exec s l) := by
  have stable : ∀ c t, Command.SparesActive c → SameActive queue taskIds s t →
      SameActive queue taskIds s (exec c t).2 := fun c t hc same x hx => hc.mem_iff.trans (same x hx)
  exact stable_run stable hl (fun _ _ => Iff.rfl)

end

/-- A client of the worker, besides clients that leave ACTIVE alone. -/
abbrev BesidesClients {α : Type} (P : Store → Prop) (p : Routine α) (post : α → Store → Prop) : Prop :=
  Besides exec Command.SparesActive P p post

/-- A worker that has handled its batch has nothing active. -/
theorem besides_processQueueTasks (h : Host) (queue : String) (taskIds : List String) :
    BesidesClients (BatchActive queue taskIds) (Worker.processQueueTasks h queue taskIds)
      (fun _ => Idle) := by
  intro env others n s k handling ended
  let o := go exec env (Worker.processQueueTasks h queue taskIds) n s
  have undisturbed : Undisturbed exec (SameActive queue taskIds) s o.trace := by
    refine (undisturbed_besides others _ n s).mono ?_
    rintro s t ⟨l, hl, rfl⟩
    exact sameActive_run hl
  have handled : Concludes exec (batch queue taskIds s) _ (Worker.processQueueTasks h queue taskIds)
      [] _ := Worker.concludes_processQueueTasks (h := h) handling.distinct
  obtain ⟨commands, returned, -⟩ := handled.recorded undisturbed
  obtain ⟨targets, -, progress⟩ := returned k ended
  have finds : FindsOwn taskIds o.trace := by
    intro t ht
    have keyed : Keyed t := trace_keeps (fun c _ keyed => keyed.step c)
      (Worker.processQueueTasks h queue taskIds) env n handling.keyed _ ht
    have own : t.objectId = id := funext keyed.objectId
    rw [own, List.map_id]
  have batchRun : BatchRun queue taskIds s o :=
    ⟨handling.distinct, fun y hy => (handling.active queue y).mpr ⟨rfl, hy⟩, undisturbed, commands,
      state_go _ _ _ _⟩
  have all : (departed queue o.trace).Perm targets := by simpa using progress.perm
  have disposed := batchRun.disposedOnce finds (all.trans (progress.own.mp finds))
  let Within : Store → Prop := fun t => ∀ q x, x ∈ t.zset .active q → q = queue ∧ x ∈ taskIds
  have stable : ∀ c t, Command.SparesActive c → Keyed t ∧ Within t →
      Keyed (exec c t).2 ∧ Within (exec c t).2 := by
    intro c t hc ⟨keyed, within⟩
    exact ⟨keyed.step c, fun q x hx => within q x (hc.mem_iff.mp hx)⟩
  have keeps : ∀ c t, Command.OnBatch queue taskIds c → Keyed t ∧ Within t →
      Keyed (exec c t).2 ∧ Within (exec c t).2 := by
    intro c t hc ⟨keyed, within⟩
    exact ⟨keyed.step c, fun q x hx => (active_onBatch hc hx).elim (within q x) id⟩
  obtain ⟨-, keyed, within⟩ := (Worker.staysOn_processQueueTasks h queue taskIds).besides stable keeps
    env others n s k ⟨handling.keyed, fun q x hx => (handling.active q x).mp hx⟩ ended
  refine ⟨keyed, fun q x hx => ?_⟩
  obtain ⟨rfl, hin⟩ := within q x hx
  exact (disposed x hin).2 hx

/-! Commands that bring nothing into ACTIVE. -/

/-- The command is no pickup and no heartbeat. -/
def Command.Unpicking : Command → Prop
  | .pickup .. | .heartbeat .. => False
  | _ => True

theorem Idle.step {s : Store} {c : Command} (idle : Idle s) (hc : c.Unpicking) :
    Idle (exec c s).2 := by
  refine ⟨idle.keyed.step c, fun q x hx => ?_⟩
  have unbeaten : ¬c.StraysIn s x q := by
    cases c with
    | heartbeat => exact hc.elim
    | _ => exact id
  have returns := returns_of_active unbeaten (idle.inactive q x) hx
  cases c with
  | pickup => exact hc.elim
  | _ => exact returns.elim

theorem Idle.besides {α : Type} {p : Routine α} (hp : Issues Command.Unpicking p) :
    BesidesClients Idle p (fun _ => Idle) := by
  intro env others n s a idle ended
  have stable : ∀ c t, Command.SparesActive c → Idle t → Idle (exec c t).2 :=
    fun _ _ hc idle => idle.spared hc
  have keeps : ∀ c t, Command.Unpicking c → Idle t → Idle (exec c t).2 :=
    fun _ _ hc idle => idle.step hc
  exact (hp.assuming.besides stable keeps env others n s a idle ended).2

theorem Command.Passive.unpicking {c : Command} (hc : c.Passive) : c.Unpicking := by
  cases c with
  | pickup => exact hc
  | heartbeat => exact hc
  | _ => trivial

namespace MainWorker

variable {w : MainWorker}

theorem unpicking_retrieveQueues (st : TaskState) :
    Issues Command.Unpicking (w.retrieveQueues st) := issues_bind (issues_ask trivial) (fun _ => trivial)

theorem unpicking_refreshQueueSet : Issues Command.Unpicking w.refreshQueueSet :=
  issues_bind (unpicking_retrieveQueues .queued) (fun _ => trivial)

theorem unpicking_workerQueueScheduledTasks (h : Host) (now : Instant) :
    Issues Command.Unpicking (w.workerQueueScheduledTasks h now) := by
  refine issues_bind ?_ (fun acquired => issues_ite ?_ trivial)
  · unfold acquireScheduledTasksLock
    cases w.scheduledTasksLock with
    | none => trivial
    | some name => exact issues_ask trivial
  · refine issues_bind (unpicking_retrieveQueues .scheduled) (fun queues => issues_forM (fun queue => ?_))
    refine issues_bind (issues_ask trivial) (fun result => ?_)
    cases result with
    | error e => trivial
    | ok ids => exact issues_ite (issues_ask trivial) trivial

/-! The loop. -/

theorem besides_processFromQueue (v : Visit) (queue : String) :
    BesidesClients Idle (w.processFromQueue v queue) (fun _ => Idle) := by
  unfold processFromQueue Worker.processFromQueue
  refine besides_ite (fun _ => besides_pure (fun _ idle => idle)) (fun _ =>
    besides_ask_bind (fun _ _ hc idle => idle.spared hc) (fun s idle => ?_))
  let pickup := Command.pickup queue (w.getQueueBatchSize queue) v.now v.later
  have returned : ∀ q x, x ∈ (exec pickup s).2.zset .active q →
      Returned queue (w.getQueueBatchSize queue) v.now v.later s q x :=
    fun q x hx => @returns_of_active s q x pickup id (idle.inactive q x) hx
  have keyed : Keyed (exec pickup s).2 := idle.keyed.step pickup
  cases reply : (exec pickup s).1 with
  | error e => exact besides_raise _
  | ok taskIds =>
    have picked : ∀ q x, x ∈ (exec pickup s).2.zset .active q → q = queue ∧ x ∈ taskIds := by
      intro q x hx
      obtain ⟨here, ids, replied, hin⟩ := returned q x hx
      obtain rfl : taskIds = ids := Except.ok.inj (reply.symm.trans replied)
      exact ⟨here, hin⟩
    cases taskIds with
    | nil =>
      refine besides_pure ?_
      rintro t rfl
      exact ⟨keyed, fun q x hx => absurd (picked q x hx).2 (by simp)⟩
    | cons id ids =>
      obtain ⟨distinct, within⟩ := picked_active reply
      have handling : BatchActive queue (id :: ids) (exec pickup s).2 := by
        refine ⟨keyed, distinct, fun q x => ⟨picked q x, ?_⟩⟩
        rintro ⟨rfl, hin⟩
        exact within x hin
      refine Besides.bind ?_ (fun n => besides_pure (fun _ idle => idle))
      intro env others n t k ht ended
      subst ht
      exact besides_processQueueTasks v.host queue (id :: ids) env others n _ k handling ended

theorem besides_processQueues (it : Iteration) (order : List String) (queues : Finset String) :
    BesidesClients Idle (w.processQueues it order queues) (fun _ => Idle) := by
  induction order generalizing queues with
  | nil => exact besides_pure (fun _ idle => idle)
  | cons q order ih =>
    refine (besides_processFromQueue (it.visit q) q).bind (fun result => ?_)
    exact besides_ite (fun _ => besides_pure (fun _ idle => idle)) (fun _ => ih _)

theorem besides_workerRun (it : Iteration) (queues : Finset String) :
    BesidesClients Idle (w.workerRun it queues) (fun _ => Idle) := by
  refine (besides_processQueues it _ queues).bind (fun result => ?_)
  refine besides_ite (fun _ => besides_pure (fun _ idle => idle)) (fun _ => ?_)
  refine besides_ite (fun _ => ?_) (fun _ => besides_pure (fun _ idle => idle))
  refine (Idle.besides (unpicking_workerQueueScheduledTasks _ _)).bind (fun _ => ?_)
  have sweeps : Issues Command.Unpicking (Worker.workerQueueExpiredTasks it.check) :=
    Worker.issues_workerQueueExpiredTasks _ (fun _ hc _ => hc.unpicking) (fun _ _ => trivial)
  exact (Idle.besides sweeps).bind (fun _ => besides_pure (fun _ idle => idle))

theorem besides_loop (its : List Iteration) (queues : Finset String) :
    BesidesClients Idle (w.loop its queues) (fun _ => Idle) := by
  induction its generalizing queues with
  | nil => exact besides_pure (fun _ idle => idle)
  | cons it its ih =>
    refine besides_ite (fun _ => besides_pure (fun _ idle => idle)) (fun _ => ?_)
    have waits : BesidesClients Idle (w.waitForQueues it queues) (fun _ => Idle) :=
      besides_ite (fun _ => Idle.besides unpicking_refreshQueueSet) (fun _ => besides_pure (fun _ idle => idle))
    refine waits.bind (fun next => (besides_workerRun it next).bind (fun ran => ?_))
    refine besides_ite (fun _ => besides_pure (fun _ idle => idle)) (fun _ => ?_)
    refine besides_ite (fun _ => besides_pure (fun _ idle => idle)) (fun _ => ?_)
    refine besides_ite (fun _ => besides_pure (fun _ idle => idle)) (fun _ => ?_)
    exact (ih _).bind (fun rest => besides_pure (fun _ idle => idle))

/-- A worker leaves nothing active when it ends without an exception, however it comes to its end
and whatever clients do in the meantime. -/
theorem idle_run (startup : Host) (its : List Iteration) {env : Nat → List Command} {n : Nat}
    {s : Store} {r : LoopRun} (clients : ∀ n, ∀ c ∈ env n, c.SparesActive) (idle : Idle s)
    (ended : (go exec env (w.run startup its) n s).result = .ok r) :
    Idle (go exec env (w.run startup its) n s).state := by
  have periodic : BesidesClients Idle (Worker.queuePeriodicTasks startup w.onlyQueues
      w.excludeQueues w.periodicTasks) (fun _ => Idle) :=
    Idle.besides (Worker.issues_queuePeriodicTasks _ (fun _ hc _ => hc.unpicking)
      (fun _ _ _ _ _ => trivial) _ _ _)
  have all : BesidesClients Idle (w.run startup its) (fun _ => Idle) :=
    periodic.bind (fun _ => (Idle.besides unpicking_refreshQueueSet).bind (fun queues =>
      besides_loop its queues))
  exact all env clients n s r idle ended

end MainWorker

/-! A signal comes while the worker executes a task. -/

def stoppedIteration : Iteration :=
  { quickIteration [] with visit := fun _ => { quickVisit with stopRequested := true } }

theorem clientTasks_spare (n : Nat) : ∀ c ∈ clientTasks n, Command.SparesActive c := by
  unfold clientTasks
  split <;> simp [Command.SparesActive]

theorem idle_empty : Idle Store.empty := by
  refine ⟨keyed_run [], fun q x h => ?_⟩
  rw [Store.mem_iff_score] at h
  exact h rfl

theorem idle_run_stopped :
    Idle (go exec clientTasks (onceWorker.run plainHost [stoppedIteration]) 0 Store.empty).state :=
  MainWorker.idle_run plainHost [stoppedIteration] (r := ⟨some .stopped, {"default"}, 1⟩)
    clientTasks_spare idle_empty (by decide +kernel)

namespace MainWorker

variable {w : MainWorker}

/-! The queues that a worker takes tasks from. -/

/-- All of the queues are matched by the filter of the worker. -/
def Filtered (w : MainWorker) (queues : Finset String) : Prop :=
  ∀ q ∈ queues, TaskTiger.queueMatches q w.onlyQueues w.excludeQueues = true

/-- A pickup or a promotion is from a queue that the filter matches. -/
def Responsible (w : MainWorker) : Command → Prop
  | .pickup queue .. | .promote queue .. =>
    TaskTiger.queueMatches queue w.onlyQueues w.excludeQueues = true
  | _ => True

/-- A part of the worker that takes tasks from its own queues only, whatever it finds. -/
abbrev Minds (w : MainWorker) {α : Type} (p : Routine α) (post : α → Prop) : Prop :=
  Assuming exec (fun _ _ => True) w.Responsible p post

theorem responsible_passive {c : Command} (hc : c.Passive) : w.Responsible c := by
  cases c with
  | pickup => exact hc.elim
  | promote => exact hc.elim
  | _ => trivial

theorem filtered_filterQueues (queues : Finset String) : w.Filtered (w.filterQueues queues) :=
  fun _ hq => (Finset.mem_filter.mp hq).2

theorem minds_processFromQueue (v : Visit) {queue : String}
    (own : TaskTiger.queueMatches queue w.onlyQueues w.excludeQueues = true) :
    w.Minds (w.processFromQueue v queue) (fun _ => True) := by
  unfold processFromQueue Worker.processFromQueue
  refine assuming_ite (fun _ => trivial) (fun _ => assuming_ask_bind own (fun s _ => ?_))
  cases (exec (.pickup queue (w.getQueueBatchSize queue) v.now v.later) s).1 with
  | error e => trivial
  | ok taskIds =>
    cases taskIds with
    | nil => trivial
    | cons id ids =>
      have staysOn := Worker.staysOn_processQueueTasks v.host queue (id :: ids)
      have harmless : ∀ c, Command.OnBatch queue (id :: ids) c → w.Responsible c := by
        intro c hc
        cases c with
        | pickup => exact hc.elim
        | promote => exact hc.elim
        | _ => trivial
      exact (staysOn.weaken harmless).bind (fun _ _ => trivial)

theorem minds_processQueues (it : Iteration) {order : List String} (queues : Finset String)
    (own : ∀ q ∈ order, TaskTiger.queueMatches q w.onlyQueues w.excludeQueues = true) :
    w.Minds (w.processQueues it order queues) (fun r => r.1 ⊆ queues) := by
  induction order generalizing queues with
  | nil => exact Finset.Subset.refl queues
  | cons q order ih =>
    obtain ⟨first, own⟩ := List.forall_mem_cons.mp own
    refine (minds_processFromQueue (it.visit q) first).bind (fun result _ => ?_)
    have less : (if Worker.removesQueue result then queues.erase q else queues) ⊆ queues := by
      split_ifs
      · exact Finset.erase_subset q queues
      · exact Finset.Subset.refl queues
    exact assuming_ite (fun _ => less) (fun _ => (ih _ own).imp (fun _ rest => rest.trans less))

theorem minds_workerQueueScheduledTasks (h : Host) (now : Instant) :
    w.Minds (w.workerQueueScheduledTasks h now) (fun _ => True) := by
  have lock : Issues w.Responsible (w.acquireScheduledTasksLock h) := by
    unfold acquireScheduledTasksLock
    cases w.scheduledTasksLock with
    | none => trivial
    | some name => exact issues_ask trivial
  refine lock.assuming.bind (fun acquired _ => assuming_ite (fun _ => ?_) (fun _ => trivial))
  refine Assuming.bind (m := fun _ => True) (assuming_ask_bind trivial (fun _ _ => trivial))
    (fun queues _ => assuming_forM (fun queue hqueue => ?_))
  have own := filtered_filterQueues queues queue ((w.smembers.mem _ _).mp hqueue)
  refine assuming_ask_bind own (fun s _ => ?_)
  cases (exec (.promote queue w.scheduledTaskBatchSize now) s).1 with
  | error e => trivial
  | ok ids => exact assuming_ite (fun _ => assuming_ask_bind trivial (fun _ _ => trivial)) (fun _ => trivial)

theorem minds_workerRun (it : Iteration) {queues : Finset String} (own : w.Filtered queues) :
    w.Minds (w.workerRun it queues) (fun r => w.Filtered r.1) := by
  have order : ∀ q ∈ it.shuffle.order queues,
      TaskTiger.queueMatches q w.onlyQueues w.excludeQueues = true :=
    fun q hq => own q ((it.shuffle.mem _ _).mp hq)
  refine (minds_processQueues it queues order).bind (fun result less => ?_)
  have left : w.Filtered result.1 := fun q hq => own q (less hq)
  refine assuming_ite (fun _ => left) (fun _ => assuming_ite (fun _ => ?_) (fun _ => left))
  refine (minds_workerQueueScheduledTasks it.check it.checkTime).bind (fun _ _ => ?_)
  have sweeps : Issues w.Responsible (Worker.workerQueueExpiredTasks it.check) :=
    Worker.issues_workerQueueExpiredTasks _ (fun _ hc _ => responsible_passive hc) (fun _ _ => trivial)
  exact sweeps.assuming.bind (fun _ _ => left)

theorem minds_waitForQueues (it : Iteration) {queues : Finset String} (own : w.Filtered queues) :
    w.Minds (w.waitForQueues it queues) w.Filtered := by
  refine assuming_ite (fun _ => ?_) (fun _ q hq => ?_)
  · refine Assuming.bind (m := fun _ => True) ?_ (fun queues _ => filtered_filterQueues queues)
    exact assuming_ask_bind trivial (fun _ _ => trivial)
  · rcases mem_processMessages.mp hq with old | new
    · exact own q old
    · exact filtered_filterQueues _ q new

theorem minds_loop (its : List Iteration) {queues : Finset String} (own : w.Filtered queues) :
    w.Minds (w.loop its queues) (fun r => w.Filtered r.queueSet) := by
  induction its generalizing queues with
  | nil => exact own
  | cons it its ih =>
    refine assuming_ite (fun _ => own) (fun _ => ?_)
    refine (minds_waitForQueues it own).bind (fun next own => (minds_workerRun it own).bind (fun ran own => ?_))
    refine assuming_ite (fun _ => own) (fun _ => assuming_ite (fun _ => own) (fun _ => ?_))
    exact assuming_ite (fun _ => own) (fun _ => (ih own).bind (fun _ own => own))

/-- A worker takes tasks only from queues that its filter matches, whatever the channel says and
whatever the other clients do. -/
theorem responsible_run (startup : Host) (its : List Iteration) (env : Nat → List Command) (n : Nat)
    (s : Store) : ∀ y ∈ (go exec env (w.run startup its) n s).trace, w.Responsible y.2 := by
  have periodic : Issues w.Responsible (Worker.queuePeriodicTasks startup w.onlyQueues
      w.excludeQueues w.periodicTasks) :=
    Worker.issues_queuePeriodicTasks _ (fun _ hc _ => responsible_passive hc)
      (fun _ _ _ _ _ => trivial) _ _ _
  have runs : w.Minds (w.run startup its) (fun _ => True) := by
    refine periodic.assuming.bind (fun _ _ => ?_)
    refine Assuming.bind (m := w.Filtered) ?_ (fun queues own => (minds_loop its own).imp (fun _ _ => trivial))
    refine Assuming.bind (m := fun _ => True) ?_ (fun queues _ => filtered_filterQueues queues)
    exact assuming_ask_bind trivial (fun _ _ => trivial)
  exact runs.trace (fun _ _ => trivial)

end MainWorker

/-- The excluded queue is announced, too, and what comes after the refresh is a pickup. -/
def excludedRun : Outcome Store Command Exn LoopRun :=
  go exec clientTasks (onceWorker.run plainHost [quickIteration ["slow", "default"]]) 0 Store.empty

theorem responsible_run_excluded :
    onceWorker.Responsible (excludedRun.trace.get ⟨1, by decide +kernel⟩).2 :=
  MainWorker.responsible_run plainHost [quickIteration ["slow", "default"]] clientTasks 0 Store.empty _
    (List.get_mem _ _)

end TaskTiger
