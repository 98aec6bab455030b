import TaskTiger.Framework.Pool
import TaskTiger.Worker.Cleanup

namespace TaskTiger

open Redis Interleaving Prog

/-! Only the lock commands touch locks. -/

def Command.LockFree : Command → Prop
  | .acquireLock .. | .releaseLock .. | .expireLock _ => False
  | _ => True

theorem locks_exec {c : Command} (h : c.LockFree) (s : Store) : (exec c s).2.locks = s.locks := by
  cases c with
  | delay queue data ts now publish =>
    simp only [exec, delayPipeline]
    split_ifs <;> simp
  | pickup queue count now later => exact locks_zpoppushExists _ s
  | promote queue count now => exact locks_zpoppushExists _ s
  | move m => exact locks_moveTask m.args s
  | updateScheduledTime number queue id ts =>
    change (updateScheduledTime number queue id ts s).2.locks = s.locks
    cases update_effect number queue id ts s <;> rename_i result <;> rw [result] <;> rfl
  | acquireLock name token => exact absurd h (by simp [Command.LockFree])
  | releaseLock name token => exact absurd h (by simp [Command.LockFree])
  | expireLock name => exact absurd h (by simp [Command.LockFree])
  | _ => rfl

theorem reply_acquireLock (name token : String) (s : Store) :
    (exec (.acquireLock name token) s).1 = decide (s.locks name = none) := by
  cases h : s.locks name <;> simp [exec, h]

/-! The lock commands of one call. -/

/-- The locks a call has acquired: its acquires that found the lock free. -/
def acquiredIn (tr : List (Store × Command)) : List String :=
  tr.filterMap (fun x => match x.2 with
    | .acquireLock name _ => if x.1.locks name = none then some name else none
    | _ => none)

def releasedIn (tr : List (Store × Command)) : List String :=
  tr.filterMap (fun x => match x.2 with
    | .releaseLock name _ => some name
    | _ => none)

/-- The locks it holds after one more command. -/
def holding (held : List String) (x : Store × Command) : List String :=
  match x.2 with
  | .acquireLock name _ => if x.1.locks name = none then held ++ [name] else held
  | .releaseLock name _ => held.filter (· ≠ name)
  | _ => held

def heldAfter (tr : List (Store × Command)) : List String := tr.foldl holding []

@[simp] theorem acquiredIn_append (tr tr' : List (Store × Command)) :
    acquiredIn (tr ++ tr') = acquiredIn tr ++ acquiredIn tr' := List.filterMap_append

@[simp] theorem releasedIn_append (tr tr' : List (Store × Command)) :
    releasedIn (tr ++ tr') = releasedIn tr ++ releasedIn tr' := List.filterMap_append

/-- A trace without acquires acquires nothing. -/
theorem acquiredIn_eq_nil {tr : List (Store × Command)}
    (h : ∀ x ∈ tr, ∀ name token, x.2 ≠ .acquireLock name token) : acquiredIn tr = [] := by
  rw [acquiredIn, List.filterMap_eq_nil_iff]
  intro x hx
  have hne := h x hx
  obtain ⟨s, c⟩ := x
  cases c with
  | acquireLock name token => exact absurd rfl (hne name token)
  | _ => rfl

theorem lockFree_trace {tr : List (Store × Command)} (h : ∀ x ∈ tr, x.2.LockFree) :
    acquiredIn tr = [] ∧ releasedIn tr = [] ∧ ∀ held, tr.foldl holding held = held := by
  induction tr with
  | nil => exact ⟨rfl, rfl, fun _ => rfl⟩
  | cons x tr ih =>
    obtain ⟨s, c⟩ := x
    obtain ⟨ha, hr, hh⟩ := ih (fun y hy => h y (by simp [hy]))
    have hc : c.LockFree := h (s, c) (by simp)
    cases c with
    | acquireLock name token => exact absurd hc (by simp [Command.LockFree])
    | releaseLock name token => exact absurd hc (by simp [Command.LockFree])
    | _ => exact ⟨ha, hr, hh⟩

namespace Worker

variable (h : Host)

/-- The decisions of the loop, task by task: `held` are the locks held at the turn of the first
task and `locks` those at the end, `executed` the tasks that will be executed. -/
inductive Turns : (held : List String) → List Task → (tr : List (Store × Command)) →
    (executed : List Task) → (locks : List String) → Prop where
  | nil {held : List String} : Turns held [] [] [] held
  -- no lock is needed, or the call already holds it
  | free {held locks : List String} {task : Task} {tasks executed : List Task}
      {tr : List (Store × Command)} (noLock : task.data.lock = false ∨ lockId h task ∈ held)
      (rest : Turns held tasks tr executed locks) :
      Turns held (task :: tasks) tr (task :: executed) locks
  -- the lock could be acquired
  | acquired {held locks : List String} {task : Task} {tasks executed : List Task}
      {tr : List (Store × Command)} {s : Store} (lock : task.data.lock = true)
      (notHeld : lockId h task ∉ held) (could : s.locks (lockId h task) = none)
      (rest : Turns (held ++ [lockId h task]) tasks tr executed locks) :
      Turns held (task :: tasks)
        ((s, .acquireLock (lockId h task) (h.token (lockId h task))) :: tr)
        (task :: executed) locks
  -- it could not: the task goes from ACTIVE to SCHEDULED
  | missed {held locks : List String} {task : Task} {tasks executed : List Task}
      {tr : List (Store × Command)} {s t : Store} (m : Move) (lock : task.data.lock = true)
      (notHeld : lockId h task ∉ held) (taken : s.locks (lockId h task) ≠ none)
      (ofTask : m.id = task.data.id ∧ m.queue = task.queue)
      (active : task.data.id ∈ t.zset .active task.queue)
      (left : task.data.id ∉ (exec (.move m) t).2.zset .active task.queue)
      (scheduled : task.data.id ∈ (exec (.move m) t).2.zset .scheduled task.queue)
      (rest : Turns held tasks tr executed locks) :
      Turns held (task :: tasks)
        ((s, .acquireLock (lockId h task) (h.token (lockId h task))) :: (t, .move m) :: tr)
        executed locks

variable {h}

theorem Turns.locks_eq {held locks : List String} {tasks executed : List Task}
    {tr : List (Store × Command)} (ht : Turns h held tasks tr executed locks) :
    locks = held ++ acquiredIn tr ∧ releasedIn tr = [] ∧ tr.foldl holding held = locks := by
  induction ht with
  | nil => simp [acquiredIn, releasedIn]
  | free noLock rest ih => exact ih
  | acquired lock notHeld could rest ih =>
    obtain ⟨ha, hr, hh⟩ := ih
    refine ⟨?_, hr, ?_⟩
    · rw [ha]
      simp [acquiredIn, could]
    · simpa [holding, could] using hh
  | missed m lock notHeld taken ofTask active left scheduled rest ih =>
    obtain ⟨ha, hr, hh⟩ := ih
    refine ⟨?_, hr, ?_⟩
    · rw [ha]
      simp [acquiredIn, taken]
    · simpa [holding, taken] using hh

/-- Every task that will be executed has its lock held. -/
theorem Turns.covered {held locks : List String} {tasks executed : List Task}
    {tr : List (Store × Command)} (ht : Turns h held tasks tr executed locks) :
    (∀ l ∈ held, l ∈ locks) ∧
      ∀ task ∈ executed, task.data.lock = true → lockId h task ∈ locks := by
  induction ht with
  | nil => simp
  | free noLock rest ih =>
    refine ⟨ih.1, ?_⟩
    intro t ht hlock
    rcases List.mem_cons.mp ht with rfl | ht
    · rcases noLock with hf | hin
      · rw [hf] at hlock
        cases hlock
      · exact ih.1 _ hin
    · exact ih.2 t ht hlock
  | acquired lock notHeld could rest ih =>
    refine ⟨fun l hl => ih.1 l (by simp [hl]), ?_⟩
    intro t ht hlock
    rcases List.mem_cons.mp ht with rfl | ht
    · exact ih.1 _ (by simp)
    · exact ih.2 t ht hlock
  | missed m lock notHeld taken ofTask active left scheduled rest ih => exact ih

/-- A lock is only acquired for a task that will be executed. -/
theorem Turns.locks_of_none {held locks : List String} {tasks executed : List Task}
    {tr : List (Store × Command)} (ht : Turns h held tasks tr executed locks)
    (he : executed = []) : locks = held := by
  induction ht with
  | nil => rfl
  | free noLock rest ih => cases he
  | acquired lock notHeld could rest ih => cases he
  | missed m lock notHeld taken ofTask active left scheduled rest ih => exact ih he

theorem acquireLocks_free {task : Task} {tasks : List Task} {locks : List String}
    {ready : List Task} (hf : ¬(task.data.lock = true ∧ lockId h task ∉ locks)) :
    acquireLocks h (task :: tasks) locks ready = acquireLocks h tasks locks (ready ++ [task]) := by
  rw [acquireLocks, if_neg hf]

/-- The turn of a task whose lock has to be acquired. -/
theorem acquireLocks_locked {task : Task} {tasks : List Task} {locks : List String}
    {ready : List Task} (hl : task.data.lock = true ∧ lockId h task ∉ locks) :
    acquireLocks h (task :: tasks) locks ready =
      redis (.acquireLock (lockId h task) (h.token (lockId h task))) >>= fun acquired =>
        if acquired then acquireLocks h tasks (locks ++ [lockId h task]) (ready ++ [task])
        else task.move h .lockMiss (some ((h.time task.data.id).time + h.lockRetry))
          (h.time task.data.id) >>= fun _ => acquireLocks h tasks locks ready := by
  rw [acquireLocks, if_pos hl]

theorem lockFree_move (task : Task) (kind : MoveKind) (time : Option Time) (now : Instant) :
    Issues Command.LockFree (task.move h kind time now) :=
  issues_move trivial

/-- A move that raises nothing has found its id. -/
theorem reaches_move {task : Task} {kind : MoveKind} {time : Option Time} {now : Instant}
    {tr : List (Store × Command)} {u : Unit}
    (hr : Reaches exec (task.move h kind time now) tr (.ret u)) :
    ∃ t m, tr = [(t, .move m)] ∧ m.Effective t ∧ m.kind = kind ∧ m.queue = task.queue ∧
      m.id = task.data.id := by
  let m : Move := ⟨kind, task.queue, task.data.id, task.data.unique,
    Task.resolveWhen time now, h.publishQueuedTasks⟩
  rcases reaches_ask_bind hr with ⟨-, hq⟩ | ⟨t, rest, rfl, hrest⟩
  · cases hq
  · by_cases he : m.Effective t
    · rw [show (exec (.move m) t).1 = .ok () from exec_move_ok he] at hrest
      obtain ⟨rfl, -⟩ := reaches_ret hrest
      exact ⟨t, m, rfl, he, rfl, rfl, rfl⟩
    · rw [show exec (.move m) t = (.error .failIfNotInZset, t) from
        exec_move_of_not_effective he] at hrest
      obtain ⟨-, hu⟩ := reaches_raise hrest
      cases hu

/-- The lock miss takes the task from ACTIVE to SCHEDULED. -/
theorem mem_lockMiss {m : Move} {t : Store} (he : m.Effective t) (hk : m.kind = .lockMiss) :
    m.id ∈ t.zset .active m.queue ∧ m.id ∉ (exec (.move m) t).2.zset .active m.queue ∧
      m.id ∈ (exec (.move m) t).2.zset .scheduled m.queue := by
  refine ⟨?_, ?_, ?_⟩
  · simpa [Move.Effective, hk, MoveKind.fromState] using he
  · rw [Store.not_mem_iff_score, score_move he]
    simp [hk, MoveKind.fromState]
  · rw [Store.mem_iff_score, score_move he]
    simp [hk, MoveKind.fromState, MoveKind.toState]

/-- A finished loop has made its decisions task by task. -/
theorem reaches_acquireLocks {tasks : List Task} {locks : List String} {ready : List Task}
    {tr : List (Store × Command)} {out : List String × List Task}
    (hr : Reaches exec (acquireLocks h tasks locks ready) tr (.ret out)) :
    ∃ executed, out.2 = ready ++ executed ∧ Turns h locks tasks tr executed out.1 := by
  induction tasks generalizing locks ready tr with
  | nil =>
    obtain ⟨rfl, hout⟩ := reaches_ret hr
    obtain rfl := Prog.ret.inj hout
    exact ⟨[], by simp, .nil⟩
  | cons task tasks ih =>
    by_cases hl : task.data.lock = true ∧ lockId h task ∉ locks
    · rw [acquireLocks_locked hl] at hr
      rcases reaches_ask_bind hr with ⟨-, hq⟩ | ⟨s, rest, rfl, hrest⟩
      · cases hq
      by_cases hs : s.locks (lockId h task) = none
      · rw [reply_acquireLock, if_pos (by simpa using hs)] at hrest
        obtain ⟨executed, hout, turns⟩ := ih hrest
        exact ⟨task :: executed, by simp [hout], .acquired hl.1 hl.2 hs turns⟩
      · rw [reply_acquireLock, if_neg (by simpa using hs)] at hrest
        obtain ⟨first, last, u, rfl, hmove, hlast⟩ := reaches_bind_ret hrest
        obtain ⟨t, m, rfl, he, hk, hq, hid⟩ := reaches_move hmove
        obtain ⟨executed, hout, turns⟩ := ih hlast
        obtain ⟨active, left, scheduled⟩ := mem_lockMiss he hk
        rw [hq, hid] at active left scheduled
        exact ⟨executed, hout, .missed m hl.1 hl.2 hs ⟨hid, hq⟩ active left scheduled turns⟩
    · rw [acquireLocks_free hl] at hr
      obtain ⟨executed, hout, turns⟩ := ih hr
      refine ⟨task :: executed, by simp [hout], .free ?_ turns⟩
      by_cases hlock : task.data.lock = true
      · exact Or.inr (by tauto)
      · exact Or.inl (by simpa using hlock)

/-- At every point of the loop each lock has been acquired at most once. -/
theorem nodup_acquireLocks {tasks : List Task} {locks : List String} {ready : List Task}
    {tr : List (Store × Command)} {q : Routine (List String × List Task)}
    (hr : Reaches exec (acquireLocks h tasks locks ready) tr q) (hn : locks.Nodup) :
    (locks ++ acquiredIn tr).Nodup := by
  induction tasks generalizing locks ready tr with
  | nil =>
    obtain ⟨rfl, -⟩ := reaches_ret hr
    simpa [acquiredIn] using hn
  | cons task tasks ih =>
    by_cases hl : task.data.lock = true ∧ lockId h task ∉ locks
    · rw [acquireLocks_locked hl] at hr
      rcases reaches_ask_bind hr with ⟨rfl, -⟩ | ⟨s, rest, rfl, hrest⟩
      · simpa [acquiredIn] using hn
      by_cases hs : s.locks (lockId h task) = none
      · rw [reply_acquireLock, if_pos (by simpa using hs)] at hrest
        have hn' : (locks ++ [lockId h task]).Nodup := by
          rw [← List.concat_eq_append]
          exact hn.concat hl.2
        have nodup := ih hrest hn'
        simpa [acquiredIn, hs] using nodup
      · rw [reply_acquireLock, if_neg (by simpa using hs)] at hrest
        have here : acquiredIn ((s, .acquireLock (lockId h task) (h.token (lockId h task))) :: rest)
            = acquiredIn rest := by simp [acquiredIn, hs]
        rw [here]
        rcases reaches_bind hrest with ⟨p, hp, -⟩ | ⟨first, last, u, rfl, hfirst, hlast⟩
        · rw [(lockFree_trace ((lockFree_move _ _ _ _).reaches hp).1).1]
          simpa using hn
        · rw [acquiredIn_append, (lockFree_trace ((lockFree_move _ _ _ _).reaches hfirst).1).1]
          exact ih hlast hn
    · rw [acquireLocks_free hl] at hr
      exact ih hr hn

/-! The whole call. -/

/-- executor.execute: the tasks, and what happens in Redis while they run. -/
def executor (h : Host) (queue : String) (ready : List Task) : Routine Bool := do
  let (steps, success) ← Host.call (h.execute ready)
  steps.forM (executorStep queue ready)
  pure success

/-- _execute_task_group with any executor. -/
def executeTaskGroupWith (h : Host) (execute : List Task → Routine Bool) (tasks : List Task) :
    Routine (Bool × List Task) := do
  let (locks, ready) ← acquireLocks h tasks [] []
  if ready.isEmpty then pure (true, [])
  else do
    prepareExecution h ready
    let success ← execute ready
    locks.forM (releaseLock h)
    pure (success, ready)

theorem executeTaskGroup_eq (queue : String) (tasks : List Task) :
    executeTaskGroup h queue tasks = executeTaskGroupWith h (executor h queue) tasks := by
  unfold executeTaskGroup executeTaskGroupWith executor
  simp only [Prog.bind_assoc]
  rfl

theorem lockFree_prepareExecution (tasks : List Task) :
    Issues Command.LockFree (prepareExecution h tasks) :=
  issues_prepareExecution tasks (fun _ => trivial) (fun _ _ _ _ _ => trivial)

theorem lockFree_executor (queue : String) (ready : List Task) :
    Issues Command.LockFree (executor h queue ready) := by
  refine issues_bind (issues_call _) (fun executed => ?_)
  refine issues_bind (issues_forM (fun step => ?_)) (fun _ => trivial)
  exact issues_executorStep ready (fun _ _ => trivial) (fun _ _ _ => trivial) step

/-- The releases release each lock once, in their order. -/
theorem reaches_releaseLocks {locks : List String} {tr : List (Store × Command)} {u : Unit}
    (hr : Reaches exec (locks.forM (releaseLock h)) tr (.ret u)) :
    releasedIn tr = locks ∧ acquiredIn tr = [] ∧
      ∀ held, tr.foldl holding held = held.filter (· ∉ locks) := by
  induction locks generalizing tr with
  | nil =>
    obtain ⟨rfl, -⟩ := reaches_ret hr
    simp [releasedIn, acquiredIn]
  | cons lock locks ih =>
    obtain ⟨first, last, u', rfl, hfirst, hlast⟩ := reaches_bind_ret hr
    obtain ⟨hr', ha', hh'⟩ := ih hlast
    rcases reaches_ask_bind hfirst with ⟨-, hq⟩ | ⟨s, rest, rfl, hrest⟩
    · cases hq
    obtain ⟨rfl, -⟩ := reaches_ret hrest
    refine ⟨?_, ?_, ?_⟩
    · simpa [releasedIn] using hr'
    · simpa [acquiredIn] using ha'
    · intro held
      simp only [List.cons_append, List.nil_append, List.foldl_cons, hh', holding]
      rw [List.filter_filter]
      congr 1
      funext x
      simp [Bool.and_comm]

/-- What is left of a call when its executor has come to its result. -/
def releaseLocks (h : Host) (locks : List String) (ready : List Task) (success : Bool) :
    Routine (Bool × List Task) :=
  locks.forM (releaseLock h) >>= fun _ => pure (success, ready)

/-- What is left of a call when its loop has ended. -/
def executeReady (h : Host) (execute : List Task → Routine Bool) (locks : List String)
    (ready : List Task) : Routine (Bool × List Task) :=
  if ready.isEmpty then pure (true, [])
  else prepareExecution h ready >>= fun _ => execute ready >>= releaseLocks h locks ready

theorem executeTaskGroupWith_eq (execute : List Task → Routine Bool) (tasks : List Task) :
    executeTaskGroupWith h execute tasks =
      acquireLocks h tasks [] [] >>= fun out => executeReady h execute out.1 out.2 := rfl

/-- The commands of a call up to some point of executor.execute: its loop has ended with these
locks and tasks, so has _prepare_execution, and the executor has come to q and raised nothing. -/
structure Past (h : Host) (execute : List Task → Routine Bool) (tasks : List Task)
    (tr : List (Store × Command)) (ready : List Task) (locks : List String) (q : Routine Bool) :
    Prop where
  some_ready : ready ≠ []
  split : ∃ loop prep work, tr = loop ++ prep ++ work ∧
    Reaches exec (acquireLocks h tasks [] []) loop (.ret (locks, ready)) ∧
    Reaches exec (prepareExecution h ready) prep (.ret ()) ∧ Reaches exec (execute ready) work q
  quiet : ∀ x, q ≠ .raise x

/-- The call is inside executor.execute: it has got there, and what it does next is the rest of
the executor's run, before it releases its locks. -/
structure Inside (h : Host) (execute : List Task → Routine Bool) (tasks : List Task)
    (tr : List (Store × Command)) (client : Routine (Bool × List Task)) (ready : List Task)
    (locks : List String) (q : Routine Bool) : Prop where
  past : Past h execute tasks tr ready locks q
  next : client = q >>= releaseLocks h locks ready

/-- The trace of a call that has returned. -/
inductive Completed (h : Host) (execute : List Task → Routine Bool) (tasks : List Task) :
    (tr : List (Store × Command)) → (success : Bool) → (ready : List Task) → Prop where
  -- no task is ready
  | idle {tr : List (Store × Command)} {locks : List String} (turns : Turns h [] tasks tr [] locks) :
      Completed h execute tasks tr true []
  -- the ready tasks are prepared and executed, and then the locks of the loop are released
  | executed {loop prep work last : List (Store × Command)} {locks : List String}
      {ready : List Task} {success : Bool} (some_ready : ready ≠ [])
      (turns : Turns h [] tasks loop ready locks)
      (prepared : Reaches exec (prepareExecution h ready) prep (.ret ()))
      (ran : Reaches exec (execute ready) work (.ret success))
      (released : Reaches exec (locks.forM (releaseLock h)) last (.ret ())) :
      Completed h execute tasks (loop ++ prep ++ work ++ last) success ready

section Inside

variable {execute : List Task → Routine Bool} {tasks ready : List Task} {locks : List String}
  {tr : List (Store × Command)} {client : Routine (Bool × List Task)} {q : Routine Bool}
  {success : Bool}

/-- There it holds the locks of its loop, among them one for each task that needs one. -/
theorem Past.holds (hi : Past h execute tasks tr ready locks q)
    (hfree : ∀ ready, Issues Command.LockFree (execute ready)) :
    heldAfter tr = locks ∧ (∃ loop rest, tr = loop ++ rest ∧ Turns h [] tasks loop ready locks) ∧
      ∀ task ∈ ready, task.data.lock = true → lockId h task ∈ locks := by
  obtain ⟨loop, prep, work, rfl, hloop, hprep, hwork⟩ := hi.split
  obtain ⟨executed, hready, turns⟩ := reaches_acquireLocks hloop
  obtain rfl : executed = ready := by simpa using hready.symm
  have prepFree := lockFree_trace ((lockFree_prepareExecution _).reaches hprep).1
  have workFree := lockFree_trace ((hfree _).reaches hwork).1
  refine ⟨?_, ⟨loop, prep ++ work, by simp, turns⟩, turns.covered.2⟩
  rw [heldAfter, List.foldl_append, List.foldl_append, turns.locks_eq.2.2, prepFree.2.2,
    workFree.2.2]

/-- A call that has got there executes its ready tasks, and nothing else before the releases. -/
theorem Past.inside (hi : Past h execute tasks tr ready locks q)
    (hr : Reaches exec (executeTaskGroupWith h execute tasks) tr client) :
    Inside h execute tasks tr client ready locks q := by
  refine ⟨hi, ?_⟩
  obtain ⟨loop, prep, work, rfl, hloop, hprep, hwork⟩ := hi.split
  have atReady : Reaches exec (executeTaskGroupWith h execute tasks) loop
      (executeReady h execute locks ready) := by
    rw [executeTaskGroupWith_eq]
    exact hloop.bind
  have hne : ready.isEmpty = false := by simpa using hi.some_ready
  rw [executeReady, hne] at atReady
  have atExecute := atReady.append hprep.bind
  exact hr.unique (atExecute.append hwork.bind)

/-- A call that holds locks there still has them to release. -/
theorem Inside.running (hi : Inside h execute tasks tr client ready locks q) (hl : locks ≠ []) :
    ∃ i, ∃ k : Reply i → Routine (Bool × List Task), client = .call i k := by
  rw [hi.next]
  cases q with
  | raise x => exact absurd rfl (hi.past.quiet x)
  | call i k => exact ⟨i, _, rfl⟩
  | ret success =>
    cases locks with
    | nil => exact absurd rfl hl
    | cons lock locks => exact ⟨_, _, rfl⟩

/-- The commands of a call that has returned normally. -/
theorem completed_executeTaskGroup {out : Bool × List Task}
    (hr : Reaches exec (executeTaskGroupWith h execute tasks) tr (.ret out)) :
    Completed h execute tasks tr out.1 out.2 := by
  rw [executeTaskGroupWith_eq] at hr
  obtain ⟨loop, rest, ⟨locks, ready⟩, rfl, hloop, hrest⟩ := reaches_bind_ret hr
  obtain ⟨executed, hready, turns⟩ := reaches_acquireLocks hloop
  obtain rfl : executed = ready := by simpa using hready.symm
  by_cases he : executed = []
  · subst he
    have hout : Reaches exec (pure (true, []) : Routine (Bool × List Task)) rest (.ret out) := hrest
    obtain ⟨rfl, hret⟩ := reaches_ret hout
    obtain rfl := Prog.ret.inj hret
    rw [List.append_nil]
    exact .idle turns
  · have hne : executed.isEmpty = false := by simpa using he
    simp only [executeReady, hne] at hrest
    obtain ⟨prep, rest, u, rfl, hprep, hrest⟩ := reaches_bind_ret hrest
    obtain ⟨work, rest, success, rfl, hwork, hrest⟩ := reaches_bind_ret hrest
    obtain ⟨last, none, u', rfl, hlast, hnone⟩ := reaches_bind_ret hrest
    obtain ⟨rfl, hret⟩ := reaches_ret hnone
    obtain rfl := Prog.ret.inj hret
    have done := Completed.executed he turns hprep hwork hlast
    simpa using done

/-- It has released what it acquired. -/
theorem Completed.released (hc : Completed h execute tasks tr success ready)
    (hfree : ∀ ready, Issues Command.LockFree (execute ready)) :
    releasedIn tr = acquiredIn tr ∧ heldAfter tr = [] := by
  cases hc with
  | @idle _ locks turns =>
    -- no task is ready, so no lock has been acquired
    obtain ⟨hlocks, hreleased, hheld⟩ := turns.locks_eq
    have hnone : locks = [] := turns.locks_of_none rfl
    have hacquired : acquiredIn tr = [] := by simpa [hnone] using hlocks.symm
    refine ⟨?_, ?_⟩
    · simp [hreleased, hacquired]
    · simpa [heldAfter, hnone] using hheld
  | @executed loop prep work last locks _ _ _ turns hprep hwork hlast =>
    obtain ⟨hlocks, hreleased, hheld⟩ := turns.locks_eq
    obtain ⟨prepA, prepR, prepH⟩ := lockFree_trace ((lockFree_prepareExecution _).reaches hprep).1
    obtain ⟨workA, workR, workH⟩ := lockFree_trace ((hfree _).reaches hwork).1
    obtain ⟨lastR, lastA, lastH⟩ := reaches_releaseLocks hlast
    have hacquired : acquiredIn loop = locks := by simpa using hlocks.symm
    refine ⟨?_, ?_⟩
    · simp [prepA, prepR, workA, workR, lastR, lastA, hreleased, hacquired]
    · simp [heldAfter, hheld, prepH, workH, lastH]

/-- No command of the call past its loop acquires a lock. -/
def NoAcquire (c : Command) : Prop := ∀ name token, c ≠ .acquireLock name token

theorem noAcquire_executeReady (hfree : ∀ ready, Issues Command.LockFree (execute ready)) :
    Issues NoAcquire (executeReady h execute locks ready) := by
  have weaken : ∀ c : Command, c.LockFree → NoAcquire c := by
    rintro c hc name token rfl
    exact hc
  refine issues_ite trivial (issues_bind ((lockFree_prepareExecution _).mono weaken) (fun _ => ?_))
  refine issues_bind ((hfree _).mono weaken) (fun success => ?_)
  refine issues_bind (issues_forM (fun lock => ?_)) (fun _ => trivial)
  exact issues_bind (issues_ask (by intro name token; simp)) (fun _ => trivial)

/-- At every point of a call each lock has been acquired at most once. -/
theorem nodup_executeTaskGroup {q : Routine (Bool × List Task)}
    (hfree : ∀ ready, Issues Command.LockFree (execute ready))
    (hr : Reaches exec (executeTaskGroupWith h execute tasks) tr q) : (acquiredIn tr).Nodup := by
  rw [executeTaskGroupWith_eq] at hr
  rcases reaches_bind hr with ⟨p, hp, -⟩ | ⟨loop, rest, out, rfl, hloop, hrest⟩
  · exact nodup_acquireLocks hp List.nodup_nil
  · have quiet := ((noAcquire_executeReady hfree).reaches hrest).1
    rw [acquiredIn_append, acquiredIn_eq_nil quiet, List.append_nil]
    exact nodup_acquireLocks hloop List.nodup_nil

/-- A call locks with its own tokens, and lets no lock run out. -/
def OwnLocks (h : Host) : Command → Prop
  | .acquireLock name token | .releaseLock name token => token = h.token name
  | .expireLock _ => False
  | _ => True

theorem ownLocks_of_lockFree {c : Command} (hc : c.LockFree) : OwnLocks h c := by
  cases c <;> first | exact trivial | exact absurd hc (by simp [Command.LockFree])

theorem ownLocks_executeTaskGroup (hfree : ∀ ready, Issues Command.LockFree (execute ready)) :
    Issues (OwnLocks h) (executeTaskGroupWith h execute tasks) := by
  have weaken : ∀ c : Command, c.LockFree → OwnLocks h c := fun c => ownLocks_of_lockFree
  have loop := issues_acquireLocks (Q := OwnLocks h) (fun _ => rfl) (fun _ _ => trivial)
  refine issues_bind (loop _ _ _) (fun out => issues_ite trivial ?_)
  refine issues_bind ((lockFree_prepareExecution _).mono weaken) (fun _ => ?_)
  refine issues_bind ((hfree _).mono weaken) (fun success => ?_)
  refine issues_bind (issues_forM (fun lock => ?_)) (fun _ => trivial)
  exact issues_bind (issues_ask rfl) (fun _ => trivial)

end Inside

end Worker

end TaskTiger
