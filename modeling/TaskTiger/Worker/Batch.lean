import TaskTiger.Worker.Departures

namespace TaskTiger

open Redis Interleaving Prog

/-! The groups hold the tasks. -/

/-- The function has a task in the group. -/
def InGroup (f : String) (g : List Task) : Prop := ∃ t ∈ g, t.data.func = f

/-- No function has tasks in two groups. -/
def Separate (groups : List (List Task)) : Prop :=
  groups.Pairwise (fun g g' => ∀ f, InGroup f g → ¬InGroup f g')

theorem addToGroup_of_new {groups : List (List Task)} {task : Task}
    (new : ∀ g ∈ groups, ¬InGroup task.data.func g) :
    Worker.addToGroup groups task = groups ++ [[task]] := by
  unfold Worker.addToGroup
  rw [if_neg]
  intro known
  obtain ⟨g, hg, t, ht, hf⟩ : ∃ g ∈ groups, ∃ t ∈ g, t.data.func = task.data.func := by
    simpa using known
  exact new g hg ⟨t, ht, hf⟩

/-- What addToGroup does with one of the groups when the function has one. -/
def withTask (task : Task) (g : List Task) : List Task :=
  if g.any (fun t => t.data.func = task.data.func) then g ++ [task] else g

theorem withTask_of_inGroup {g : List Task} {task : Task} (h : InGroup task.data.func g) :
    withTask task g = g ++ [task] := by
  apply if_pos
  simpa [InGroup] using h

theorem withTask_of_not_inGroup {g : List Task} {task : Task} (h : ¬InGroup task.data.func g) :
    withTask task g = g := by
  apply if_neg
  simpa [InGroup] using h

theorem addToGroup_of_known {groups : List (List Task)} {task : Task}
    (known : ∃ g ∈ groups, InGroup task.data.func g) :
    Worker.addToGroup groups task = groups.map (withTask task) := by
  apply if_pos
  simpa [InGroup] using known

theorem flatten_map_withTask {groups : List (List Task)} {task : Task} (separate : Separate groups)
    (known : ∃ g ∈ groups, InGroup task.data.func g) :
    (groups.map (withTask task)).flatten.Perm (groups.flatten ++ [task]) := by
  induction groups with
  | nil => simp at known
  | cons g groups ih =>
    obtain ⟨apart, separate⟩ := List.pairwise_cons.mp separate
    by_cases here : InGroup task.data.func g
    · have others : groups.map (withTask task) = groups :=
        List.map_congr_left (fun g' hg' => withTask_of_not_inGroup (apart g' hg' _ here)) |>.trans
          (List.map_id _)
      rw [List.map_cons, others, withTask_of_inGroup here]
      simp only [List.flatten_cons, List.append_assoc]
      exact List.perm_append_comm.append_left g
    · have later : ∃ g' ∈ groups, InGroup task.data.func g' := by
        obtain ⟨g', hg', hin⟩ := known
        rcases List.mem_cons.mp hg' with rfl | hg'
        · exact absurd hin here
        · exact ⟨g', hg', hin⟩
      rw [List.map_cons, withTask_of_not_inGroup here]
      simp only [List.flatten_cons, List.append_assoc]
      exact (ih separate later).append_left g

theorem inGroup_withTask {g : List Task} {task : Task} {f : String}
    (h : InGroup f (withTask task g)) :
    InGroup f g ∨ f = task.data.func ∧ InGroup task.data.func g := by
  by_cases here : InGroup task.data.func g
  · rw [withTask_of_inGroup here] at h
    obtain ⟨t, ht, rfl⟩ := h
    rcases List.mem_append.mp ht with ht | ht
    · exact Or.inl ⟨t, ht, rfl⟩
    · obtain rfl := List.mem_singleton.mp ht
      exact Or.inr ⟨rfl, here⟩
  · rw [withTask_of_not_inGroup here] at h
    exact Or.inl h

/-- A task is added to one group. -/
theorem flatten_addToGroup {groups : List (List Task)} (task : Task) (separate : Separate groups) :
    (Worker.addToGroup groups task).flatten.Perm (groups.flatten ++ [task]) ∧
      Separate (Worker.addToGroup groups task) := by
  by_cases known : ∃ g ∈ groups, InGroup task.data.func g
  · rw [addToGroup_of_known known]
    refine ⟨flatten_map_withTask separate known, List.pairwise_map.mpr (separate.imp ?_)⟩
    intro g g' apart f hg hg'
    have before : ∀ g, InGroup f (withTask task g) → InGroup f g := by
      intro g hg
      rcases inGroup_withTask hg with hf | ⟨rfl, hf⟩
      · exact hf
      · exact hf
    exact apart f (before g hg) (before g' hg')
  · have new : ∀ g ∈ groups, ¬InGroup task.data.func g := fun g hg h => known ⟨g, hg, h⟩
    rw [addToGroup_of_new new]
    refine ⟨by simp, List.pairwise_append.mpr ⟨separate, by simp, ?_⟩⟩
    intro g hg g' hg' f hf
    obtain rfl := List.mem_singleton.mp hg'
    rintro ⟨t, ht, rfl⟩
    obtain rfl := List.mem_singleton.mp ht
    exact new g hg hf

theorem flatten_groups {groups : List (List Task)} (tasks : List Task)
    (separate : Separate groups) :
    (tasks.foldl Worker.addToGroup groups).flatten.Perm (groups.flatten ++ tasks) := by
  induction tasks generalizing groups with
  | nil => simp
  | cons task tasks ih =>
    obtain ⟨perm, apart⟩ := flatten_addToGroup task separate
    have rest := ih apart
    apply rest.trans
    have added := perm.append_right tasks
    rwa [List.append_assoc] at added

/-! What is known of a run. -/

/-- The id of the object that is found under an id. -/
def Store.objectId (s : Store) (id : String) : String :=
  match s.task id with
  | none => id
  | some d => d.id

/-- The last execution of the task is a job timeout, at which the worker exits. -/
def Host.TimedOut (h : Host) (s : Store) (id : String) : Prop :=
  h.exitWorkerOnJobTimeout = true ∧
    (s.executions id).getLast?.map Execution.exceptionName = some jobTimeoutException

/-- The objects found have the ids of the batch, each once. -/
def FindsOwn (taskIds : List String) (tr : List (Store × Command)) : Prop :=
  ∀ s, (s, Command.mget taskIds) ∈ tr → (taskIds.map s.objectId).Perm taskIds

/-- Nobody else has put the ids into ACTIVE or taken them out. -/
def SameActive (queue : String) (taskIds : List String) (s t : Store) : Prop :=
  ∀ x ∈ taskIds, x ∈ t.zset .active queue ↔ x ∈ s.zset .active queue

/-! What a part of the run has done. -/

/-- The command asks for no object of the batch and for no last execution. -/
def Command.Unasking : Command → Prop
  | .mget _ | .lastExecution _ => False
  | _ => True

/-- The commands after tr have moved out the ids of l, in this order. -/
def Extends (queue : String) (l : List String) (tr tr' : List (Store × Command)) : Prop :=
  ∃ w, tr' = tr ++ w ∧ (∀ y ∈ w, y.2.Unasking) ∧ departed queue w = l

/-- The ids of targets have left, or are still to be handled; no job timeout has been found. -/
structure Progress (h : Host) (queue : String) (taskIds targets todo : List String)
    (tr : List (Store × Command)) : Prop where
  own : FindsOwn taskIds tr ↔ targets.Perm taskIds
  perm : (departed queue tr ++ todo).Perm targets
  inTime : ∀ s x, (s, .lastExecution x) ∈ tr → ¬h.TimedOut s x

/-- The worker exits after it has moved x, and leaves the ids of rest. -/
structure ExitsAt (h : Host) (queue : String) (taskIds targets : List String)
    (tr : List (Store × Command)) (s : Store) (x : String) (rest : List String)
    (tr' : List (Store × Command)) : Prop where
  before : Progress h queue taskIds targets (x :: rest) tr
  timedOut : h.TimedOut s x
  after : Extends queue [x] (tr ++ [(s, .lastExecution x)]) tr'

def exits (h : Host) (queue : String) (taskIds targets : List String) (e : Exn)
    (tr' : List (Store × Command)) : Prop :=
  e = .systemExit → ∃ tr s x rest, ExitsAt h queue taskIds targets tr s x rest tr'

/-- The commands of a worker that handles a batch. A heartbeat is for ids in ACTIVE only. -/
def batchCommand (queue : String) (taskIds : List String) (tr : List (Store × Command)) :
    Command → Prop
  | .move m => m.kind.fromState = .active
  | .heartbeat _ ids _ => FindsOwn taskIds tr → ∀ y ∈ ids, y ∉ departed queue tr
  | .pickup .. | .promote .. | .updateScheduledTime .. => False
  | _ => True

abbrev batch (queue : String) (taskIds : List String) (s : Store) :
    Monitor Store Command (List (Store × Command)) :=
  recorder exec (SameActive queue taskIds) s (fun tr _ c => batchCommand queue taskIds tr c)

/-- The command neither takes ids out of their ZSETs nor puts them in, Task.delay apart. -/
def Command.Quiet : Command → Prop
  | .move _ | .heartbeat .. | .pickup .. | .promote .. | .updateScheduledTime .. | .mget _
  | .lastExecution _ => False
  | _ => True

section

variable {h : Host} {queue x : String} {taskIds targets todo l l' : List String} {s : Store}
  {tr tr' tr'' : List (Store × Command)}

theorem Extends.refl (queue : String) (tr : List (Store × Command)) : Extends queue [] tr tr :=
  ⟨[], by simp, by simp, rfl⟩

theorem Extends.trans (h1 : Extends queue l tr tr') (h2 : Extends queue l' tr' tr'') :
    Extends queue (l ++ l') tr tr'' := by
  obtain ⟨w, rfl, hw, rfl⟩ := h1
  obtain ⟨w', rfl, hw', rfl⟩ := h2
  refine ⟨w ++ w', by simp, ?_, departed_append⟩
  intro y hy
  rcases List.mem_append.mp hy with hy | hy
  · exact hw y hy
  · exact hw' y hy

theorem extends_concat {c : Command} (unasking : c.Unasking) :
    Extends queue (departed queue [(s, c)]) tr (tr ++ [(s, c)]) :=
  ⟨[(s, c)], rfl, by simpa using unasking, rfl⟩

theorem Extends.departed_eq (h : Extends queue l tr tr') :
    departed queue tr' = departed queue tr ++ l := by
  obtain ⟨w, rfl, -, rfl⟩ := h
  exact departed_append

/-- The objects of the batch are asked for once. -/
theorem findsOwn_append {w : List (Store × Command)} (unasked : ∀ y ∈ w, ∀ ids, y.2 ≠ .mget ids) :
    FindsOwn taskIds (tr ++ w) ↔ FindsOwn taskIds tr := by
  constructor
  · intro finds t ht
    exact finds t (List.mem_append_left _ ht)
  · intro finds t ht
    rcases List.mem_append.mp ht with ht | ht
    · exact finds t ht
    · exact absurd rfl (unasked _ ht taskIds)

theorem Command.Unasking.ne_mget {c : Command} (hc : c.Unasking) (ids : List String) :
    c ≠ .mget ids := by
  rintro rfl
  exact hc

theorem Progress.extends (p : Progress h queue taskIds targets (l ++ todo) tr)
    (e : Extends queue l tr tr') : Progress h queue taskIds targets todo tr' := by
  have left := e.departed_eq
  obtain ⟨w, rfl, unasking, -⟩ := e
  refine ⟨?_, ?_, ?_⟩
  · rw [findsOwn_append (fun y hy => (unasking y hy).ne_mget)]
    exact p.own
  · rw [left, List.append_assoc]
    exact p.perm
  · intro t x ht
    rcases List.mem_append.mp ht with ht | ht
    · exact p.inTime t x ht
    · exact absurd (unasking _ ht) id

theorem Progress.perm_todo {todo' : List String} (p : Progress h queue taskIds targets todo tr)
    (same : todo'.Perm todo) : Progress h queue taskIds targets todo' tr :=
  ⟨p.own, (same.append_left _).trans p.perm, p.inTime⟩

/-! Commands that move nothing. -/

theorem keeps_quiet {c : Command} (hc : c.Quiet) :
    (batch queue taskIds s).Keeps (Extends queue l tr) c := by
  intro tr' t ext _
  have unasking : c.Unasking := by
    cases c with
    | mget => exact hc
    | lastExecution => exact hc
    | _ => trivial
  have moves : departed queue [(t, c)] = [] := by
    cases c with
    | move => exact hc.elim
    | _ => rfl
  refine ⟨?_, ?_⟩
  · cases c with
    | move => exact hc.elim
    | heartbeat => exact hc.elim
    | pickup => exact hc
    | promote => exact hc
    | updateScheduledTime => exact hc
    | _ => trivial
  · have more := ext.trans (extends_concat (s := t) unasking)
    rwa [moves, List.append_nil] at more

theorem concludes_quiet {α : Type} {p : Routine α} (hp : Issues Command.Quiet p)
    (hr : Raises (· ≠ .systemExit) p) :
    Concludes exec (batch queue taskIds s) (exits h queue taskIds targets) p tr
      (fun _ tr' => Extends queue [] tr tr') := by
  have issues : Issues ((batch queue taskIds s).Keeps (Extends queue [] tr)) p :=
    hp.mono (fun _ hc => keeps_quiet hc)
  have quiet : Concludes exec (batch queue taskIds s)
      (fun e tr' => e ≠ .systemExit ∧ Extends queue [] tr tr') p tr
      (fun _ tr' => Extends queue [] tr tr') :=
    issues.concludes hr (Extends.refl queue tr)
  apply quiet.mono
  · intro e tr' he exit
    exact absurd exit he.1
  · intro _ _ ext
    exact ext

theorem concludes_quiet_progress {α : Type} {p : Routine α} (hp : Issues Command.Quiet p)
    (hr : Raises (· ≠ .systemExit) p) (progress : Progress h queue taskIds targets todo tr) :
    Concludes exec (batch queue taskIds s) (exits h queue taskIds targets) p tr
      (fun _ tr' => Progress h queue taskIds targets todo tr') := by
  apply (concludes_quiet hp hr).imp
  intro _ _ ext
  exact Progress.extends (l := []) progress ext

/-! The parts of a batch. -/

/-- A move that does not raise has moved the task. -/
theorem concludes_move {task : Task} {kind : MoveKind} {time : Option Time} {now : Instant}
    (hq : task.queue = queue) (hk : kind.fromState = .active) :
    Concludes exec (batch queue taskIds s) (exits h queue taskIds targets)
      (task.move h kind time now) tr (fun _ tr' => Extends queue [task.data.id] tr tr') := by
  let m : Move := ⟨kind, task.queue, task.data.id, task.data.unique, Task.resolveWhen time now,
    h.publishQueuedTasks⟩
  apply concludes_ask_bind
  intro t _
  refine ⟨hk, ?_⟩
  by_cases effective : m.Effective t
  · have ok : (exec (.move m) t).1 = .ok () := exec_move_ok effective
    rw [ok]
    have moved : departed queue [(t, .move m)] = [task.data.id] :=
      departed_move effective hk hq
    rw [← moved]
    exact extends_concat trivial
  · have error : (exec (.move m) t).1 = .error .failIfNotInZset := by
      rw [exec_move_of_not_effective effective]
    rw [error]
    intro exit
    cases exit

namespace Worker

/-- The tasks that can run, and those whose locks were taken. -/
theorem concludes_acquireLocks {tasks : List Task} (here : ∀ t ∈ tasks, t.queue = queue)
    (locks : List String) (ready : List Task) :
    Concludes exec (batch queue taskIds s) (exits h queue taskIds targets)
      (acquireLocks h tasks locks ready) tr (fun acquired tr' => ∃ l, Extends queue l tr tr' ∧
        (l ++ acquired.2.map (fun t => t.data.id)).Perm
          ((ready ++ tasks).map (fun t => t.data.id))) := by
  induction tasks generalizing locks ready tr with
  | nil => exact ⟨[], Extends.refl _ _, by simp⟩
  | cons task tasks ih =>
    have hq : task.queue = queue := here task (by simp)
    have taken : ∀ locks tr, Concludes exec (batch queue taskIds s) (exits h queue taskIds targets)
        (acquireLocks h tasks locks (ready ++ [task])) tr (fun acquired tr' =>
          ∃ l, Extends queue l tr tr' ∧ (l ++ acquired.2.map (fun t => t.data.id)).Perm
            ((ready ++ task :: tasks).map (fun t => t.data.id))) := by
      intro locks tr
      have same : ready ++ task :: tasks = ready ++ [task] ++ tasks := by simp
      rw [same]
      exact ih (fun t ht => here t (by simp [ht])) locks (ready ++ [task])
    rw [acquireLocks]
    split_ifs with locked
    · apply concludes_ask_bind
      intro t _
      refine ⟨trivial, ?_⟩
      have asked : Extends queue [] tr (tr ++ [(t, .acquireLock (lockId h task)
          (h.token (lockId h task)))]) := extends_concat trivial
      split_ifs with acquired
      · apply (taken _ _).imp
        rintro acquired tr' ⟨l, ext, perm⟩
        exact ⟨l, asked.trans ext, perm⟩
      · apply (concludes_move hq rfl).bind
        intro _ tr1 missed
        apply (ih (fun t ht => here t (by simp [ht])) locks ready).imp
        rintro acquired tr' ⟨l, ext, perm⟩
        refine ⟨task.data.id :: l, (asked.trans missed).trans ext, ?_⟩
        have moved : ((ready ++ task :: tasks).map (fun t => t.data.id)).Perm
            (task.data.id :: (ready ++ tasks).map (fun t => t.data.id)) := by
          simp [List.perm_middle]
        exact (perm.cons _).trans moved.symm
    · exact taken locks tr

/-- The tasks to execute are still in ACTIVE. -/
theorem keeps_executorStep (distinct : taskIds.Nodup) (tasks : List Task) (step : ExecutorStep) :
    Issues ((batch queue taskIds s).Keeps
      (Progress h queue taskIds targets (tasks.map (fun t => t.data.id) ++ todo)))
      (executorStep queue tasks step) := by
  have unmoved : ∀ {tr t} {c : Command}, c.Unasking → departed queue [(t, c)] = [] →
      Progress h queue taskIds targets (tasks.map (fun t => t.data.id) ++ todo) tr →
        Progress h queue taskIds targets (tasks.map (fun t => t.data.id) ++ todo)
          (tr ++ [(t, c)]) := by
    intro tr t c unasking moves progress
    have ext : Extends queue (departed queue [(t, c)]) tr (tr ++ [(t, c)]) :=
      extends_concat unasking
    rw [moves] at ext
    exact Progress.extends (l := []) progress ext
  cases step with
  | heartbeat now =>
    apply issues_ask
    intro tr t progress _
    refine ⟨?_, unmoved trivial rfl progress⟩
    intro finds y hy gone
    have nodup : (departed queue tr ++ (tasks.map (fun t => t.data.id) ++ todo)).Nodup :=
      (progress.perm.trans (progress.own.mp finds)).nodup_iff.mpr distinct
    exact (List.nodup_append.mp nodup).2.2 y gone y (List.mem_append_left _ hy) rfl
  | store e =>
    apply issues_forM
    intro task
    apply issues_ask
    intro tr t progress _
    exact ⟨trivial, unmoved trivial rfl progress⟩

theorem concludes_executorSteps {tasks : List Task} (distinct : taskIds.Nodup)
    (steps : List ExecutorStep)
    (progress : Progress h queue taskIds targets (tasks.map (fun t => t.data.id) ++ todo) tr) :
    Concludes exec (batch queue taskIds s) (exits h queue taskIds targets)
      (steps.forM (executorStep queue tasks)) tr (fun _ tr' =>
        Progress h queue taskIds targets (tasks.map (fun t => t.data.id) ++ todo) tr') := by
  have keeps : Issues ((batch queue taskIds s).Keeps
      (Progress h queue taskIds targets (tasks.map (fun t => t.data.id) ++ todo)))
      (steps.forM (executorStep queue tasks)) :=
    issues_forM (keeps_executorStep distinct tasks)
  apply (keeps.concludes (raises_forM (raises_executorStep tasks)) progress).mono
  · intro e tr' he exit
    exact absurd exit he.1
  · intro _ _ kept
    exact kept

theorem concludes_executeTaskGroup {tasks : List Task} (distinct : taskIds.Nodup)
    (here : ∀ t ∈ tasks, t.queue = queue)
    (progress : Progress h queue taskIds targets (tasks.map (fun t => t.data.id) ++ todo) tr) :
    Concludes exec (batch queue taskIds s) (exits h queue taskIds targets)
      (executeTaskGroup h queue tasks) tr (fun executed tr' =>
        Progress h queue taskIds targets (executed.2.map (fun t => t.data.id) ++ todo) tr') := by
  apply (concludes_acquireLocks here [] []).bind
  intro acquired tr1 ⟨l, missed, perm⟩
  obtain ⟨locks, ready⟩ := acquired
  have left : Progress h queue taskIds targets (ready.map (fun t => t.data.id) ++ todo) tr1 := by
    have split : (l ++ (ready.map (fun t => t.data.id) ++ todo)).Perm
        (tasks.map (fun t => t.data.id) ++ todo) := by
      rw [← List.append_assoc]
      exact perm.append_right todo
    exact (progress.perm_todo split).extends missed
  change Concludes exec _ _ (if ready.isEmpty = true then _ else _) tr1 _
  split_ifs with none_ready
  · rw [List.isEmpty_iff.mp none_ready] at left
    exact left
  · have prepare : Issues Command.Quiet (prepareExecution h ready) :=
      issues_prepareExecution ready (fun _ => trivial) (fun _ _ _ _ _ => trivial)
    apply (concludes_quiet_progress prepare (raises_prepareExecution ready) left).bind
    intro _ tr2 left
    apply (concludes_quiet_progress (issues_call _) (raises_call _) left).bind
    intro executed tr3 left
    apply (concludes_executorSteps distinct executed.1 left).bind
    intro _ tr4 left
    have release : ∀ lock, Issues Command.Quiet (releaseLock h lock) :=
      fun lock => issues_bind (issues_ask trivial) (fun _ => trivial)
    have silent : ∀ lock, Raises (· ≠ Exn.systemExit) (releaseLock h lock) :=
      fun lock => raises_bind (raises_redis _) (fun _ => trivial)
    apply (concludes_quiet_progress (issues_forM release) (raises_forM silent) left).bind
    intro _ tr5 left
    exact left

theorem concludes_moveFailed {task : Task} {execution : Option Execution} {now : Instant}
    (hq : task.queue = queue) (retry : Option Time) :
    Concludes exec (batch queue taskIds s) (exits h queue taskIds targets)
      (moveFailed h task execution now retry) tr
      (fun _ tr' => Extends queue [task.data.id] tr tr') := by
  cases retry with
  | some ts => exact concludes_move hq rfl
  | none =>
    unfold moveFailed
    split_ifs
    · apply (concludes_move hq rfl).bind
      intro _ tr1 moved
      have report : Issues Command.Quiet (permanentError h task execution) :=
        issues_permanentError h trivial
      apply (concludes_quiet report (raises_permanentError task execution)).imp
      intro _ tr2 ext
      exact moved.trans ext
    · exact concludes_move hq rfl

theorem concludes_finishTaskProcessing {task : Task} {success : Bool} (hq : task.queue = queue)
    (progress : Progress h queue taskIds targets (task.data.id :: todo) tr) :
    Concludes exec (batch queue taskIds s) (exits h queue taskIds targets)
      (finishTaskProcessing h task success) tr
      (fun _ tr' => Progress h queue taskIds targets todo tr') := by
  unfold finishTaskProcessing
  cases success with
  | true =>
    apply (concludes_move hq rfl).imp
    intro _ tr' moved
    exact Progress.extends (l := [task.data.id]) progress moved
  | false =>
    apply concludes_ask_bind
    intro t _
    refine ⟨trivial, ?_⟩
    have count : Issues Command.Quiet (retryTime h task (exec (.lastExecution task.data.id) t).1
        (h.time task.data.id)) := issues_retryTime h trivial
    apply (concludes_quiet count (raises_retryTime _ _ _)).bind
    intro retry tr1 counted
    apply (concludes_moveFailed hq retry).bind
    intro _ tr2 moved
    have after : Extends queue [task.data.id] (tr ++ [(t, .lastExecution task.data.id)]) tr2 :=
      counted.trans moved
    change Concludes exec _ _ (if (h.exitWorkerOnJobTimeout && _) = true then _ else _) tr2 _
    have found : (exec (.lastExecution task.data.id) t).1 =
        (t.executions task.data.id).getLast? := rfl
    rw [found]
    split_ifs with timedOut
    · intro _
      refine ⟨tr, t, task.data.id, todo, progress, ?_, after⟩
      simpa [Host.TimedOut] using timedOut
    · have asked : Progress h queue taskIds targets (task.data.id :: todo)
          (tr ++ [(t, .lastExecution task.data.id)]) := by
        refine ⟨?_, ?_, ?_⟩
        · rw [findsOwn_append (by simp)]
          exact progress.own
        · rw [departed_append]
          simpa [departed, departures, Command.departure] using progress.perm
        · intro t' x ht
          rcases List.mem_append.mp ht with ht | ht
          · exact progress.inTime t' x ht
          · obtain ⟨rfl, rfl⟩ : t' = t ∧ x = task.data.id := by simpa using ht
            simpa [Host.TimedOut] using timedOut
      exact Progress.extends (l := [task.data.id]) asked after

theorem concludes_finishGroup {tasks : List Task} {success : Bool}
    (here : ∀ t ∈ tasks, t.queue = queue)
    (progress : Progress h queue taskIds targets (tasks.map (fun t => t.data.id) ++ todo) tr) :
    Concludes exec (batch queue taskIds s) (exits h queue taskIds targets)
      (tasks.forM (fun task => finishTaskProcessing h task success)) tr
      (fun _ tr' => Progress h queue taskIds targets todo tr') := by
  induction tasks generalizing tr with
  | nil => exact progress
  | cons task tasks ih =>
    apply (concludes_finishTaskProcessing (here task (by simp)) progress).bind
    intro _ tr1 progress
    exact ih (fun t ht => here t (by simp [ht])) progress

theorem concludes_processGroups {groups : List (List Task)} (distinct : taskIds.Nodup)
    (here : ∀ g ∈ groups, ∀ t ∈ g, t.queue = queue)
    (progress : Progress h queue taskIds targets (groups.flatten.map (fun t => t.data.id)) tr) :
    Concludes exec (batch queue taskIds s) (exits h queue taskIds targets)
      (processGroups h queue groups) tr
      (fun _ tr' => Progress h queue taskIds targets [] tr') := by
  induction groups generalizing tr with
  | nil => exact progress
  | cons tasks groups ih =>
    have first : ∀ t ∈ tasks, t.queue = queue := here tasks (by simp)
    rw [List.flatten_cons, List.map_append] at progress
    apply ((concludes_executeTaskGroup distinct first progress).yields
      (yields_executeTaskGroup queue tasks)).bind
    intro processed tr1 ⟨within, progress⟩
    apply (concludes_finishGroup (fun t ht => first t (within t ht)) progress).bind
    intro _ tr2 progress
    apply (ih (fun g hg => here g (by simp [hg])) progress).bind
    intro _ tr3 progress
    exact progress

/-- The id that an entry of the batch leads to. -/
def entryId (entry : String × Option TaskData) : String :=
  match entry.2 with
  | none => entry.1
  | some d => d.id

theorem concludes_loadTasks (entries : List (String × Option TaskData)) :
    Concludes exec (batch queue taskIds s) (exits h queue taskIds targets)
      (loadTasks h queue entries) tr (fun tasks tr' => (∀ t ∈ tasks, t.queue = queue) ∧
        ∃ l, Extends queue l tr tr' ∧
          (l ++ tasks.map (fun t => t.data.id)).Perm (entries.map entryId)) := by
  induction entries generalizing tr with
  | nil => exact ⟨by simp, [], Extends.refl _ _, by simp⟩
  | cons entry entries ih =>
    obtain ⟨id, data⟩ := entry
    have removed : ∀ {task : Task} {kind : MoveKind} {now : Instant}, task.queue = queue →
        kind.fromState = .active → entryId (id, data) = task.data.id →
        Concludes exec (batch queue taskIds s) (exits h queue taskIds targets)
          (task.move h kind none now >>= fun _ => loadTasks h queue entries) tr
          (fun tasks tr' => (∀ t ∈ tasks, t.queue = queue) ∧ ∃ l, Extends queue l tr tr' ∧
            (l ++ tasks.map (fun t => t.data.id)).Perm (((id, data) :: entries).map entryId)) := by
      intro task kind now hq hk hid
      apply (concludes_move hq hk).bind
      intro _ tr1 moved
      apply ih.imp
      intro tasks tr2 ⟨here, l, ext, perm⟩
      refine ⟨here, task.data.id :: l, moved.trans ext, ?_⟩
      rw [List.map_cons, hid]
      exact perm.cons _
    cases data with
    | none => exact removed rfl rfl rfl
    | some d =>
      rw [loadTasks]
      split_ifs with own
      · apply ih.bind
        intro tasks tr1 ⟨here, l, ext, perm⟩
        refine ⟨?_, l, ext, ?_⟩
        · intro t ht
          rcases List.mem_cons.mp ht with rfl | ht
          · rfl
          · exact here t ht
        · exact List.perm_middle.trans (perm.cons _)
      · exact removed rfl rfl rfl

theorem entryId_zip (t : Store) (ids : List String) :
    (ids.zip (ids.map t.task)).map entryId = ids.map t.objectId := by
  induction ids with
  | nil => rfl
  | cons id ids ih =>
    simp only [List.map_cons, List.zip_cons_cons, ih]
    rfl

theorem concludes_processQueueTasks (distinct : taskIds.Nodup) :
    Concludes exec (batch queue taskIds s)
      (fun e tr' => ∃ targets : List String, targets.length = taskIds.length ∧
        exits h queue taskIds targets e tr')
      (processQueueTasks h queue taskIds) [] (fun _ tr' => ∃ targets : List String,
        targets.length = taskIds.length ∧ Progress h queue taskIds targets [] tr') := by
  apply concludes_ask_bind
  intro t _
  refine ⟨trivial, ?_⟩
  let targets := taskIds.map t.objectId
  have size : targets.length = taskIds.length := by simp [targets]
  have start : Progress h queue taskIds targets targets [(t, .mget taskIds)] := by
    refine ⟨?_, ?_, ?_⟩
    · constructor
      · intro finds
        exact finds t (by simp)
      · intro perm t' ht
        obtain rfl : t' = t := by simpa using ht
        exact perm
    · exact List.Perm.refl _
    · intro t' x ht
      simp at ht
  have handled : Concludes exec (batch queue taskIds s) (exits h queue taskIds targets)
      (loadTasks h queue (taskIds.zip (taskIds.map t.task)) >>= fun tasks =>
        processGroups h queue (tasks.foldl addToGroup [])) [(t, .mget taskIds)]
      (fun _ tr' => Progress h queue taskIds targets [] tr') := by
    apply (concludes_loadTasks _).bind
    intro tasks tr1 ⟨here, l, ext, perm⟩
    rw [entryId_zip] at perm
    have loaded : Progress h queue taskIds targets (tasks.map (fun t => t.data.id)) tr1 :=
      (start.perm_todo perm).extends ext
    have groups : (tasks.foldl addToGroup []).flatten.Perm tasks := by
      have flat : (tasks.foldl addToGroup []).flatten.Perm ([].flatten ++ tasks) :=
        flatten_groups tasks List.Pairwise.nil
      simpa using flat
    apply concludes_processGroups distinct
    · intro g hg t ht
      exact here t (groups.mem_iff.mp (List.mem_flatten.mpr ⟨g, hg, ht⟩))
    · exact loaded.perm_todo (groups.map _)
  apply handled.mono
  · intro e tr' he
    exact ⟨targets, size, he⟩
  · intro _ tr' progress
    exact ⟨targets, size, progress⟩

end Worker

end

end TaskTiger
