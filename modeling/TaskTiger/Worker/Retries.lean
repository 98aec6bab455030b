import TaskTiger.Framework.Monitor
import TaskTiger.Invariants.Placement
import TaskTiger.Worker.FailureHandling

namespace TaskTiger

open Redis Interleaving Prog

/-! The retry functions of the package. -/

namespace Retry

/-- retry._fixed. -/
def fixed (retry : Nat) (delay maxRetries : ℚ) : RetryDelay :=
  if maxRetries < retry then .stop else .delay delay

/-- retry._linear. -/
def linear (retry : Nat) (delay increment maxRetries : ℚ) : RetryDelay :=
  if maxRetries < retry then .stop else .delay (delay + increment * (retry - 1))

/-- retry._exponential. -/
def exponential (retry : Nat) (delay factor maxRetries : ℚ) : RetryDelay :=
  if maxRetries < retry then .stop else .delay (delay * factor ^ ((retry : Int) - 1))

end Retry

/-- fixed, linear or exponential, with the arguments other than max_retries. -/
inductive Strategy where
  | fixed (delay : ℚ)
  | linear (delay increment : ℚ)
  | exponential (delay factor : ℚ)

namespace Strategy

/-- The serialized retry method. -/
def method (maxRetries : Nat) : Strategy → RetryMethod
  | fixed delay => ⟨"tasktiger.retry:_fixed", .arr [.num delay, .num maxRetries]⟩
  | linear delay increment =>
    ⟨"tasktiger.retry:_linear", .arr [.num delay, .num increment, .num maxRetries]⟩
  | exponential delay factor =>
    ⟨"tasktiger.retry:_exponential", .arr [.num delay, .num factor, .num maxRetries]⟩

/-- What is configured for the k-th retry. -/
def delay (k : Nat) : Strategy → Time
  | fixed delay => delay
  | linear delay increment => delay + increment * (k - 1)
  | exponential delay factor => delay * factor ^ (k - 1)

end Strategy

/-- The host imports the retry functions of the package and calls them. -/
structure RunsRetry (h : Host) : Prop where
  fixed : h.importable "tasktiger.retry:_fixed" = true ∧ ∀ k delay maxRetries,
    h.retryDelay ⟨"tasktiger.retry:_fixed", .arr [.num delay, .num maxRetries]⟩ k =
      Retry.fixed k delay maxRetries
  linear : h.importable "tasktiger.retry:_linear" = true ∧ ∀ k delay increment maxRetries,
    h.retryDelay ⟨"tasktiger.retry:_linear",
        .arr [.num delay, .num increment, .num maxRetries]⟩ k =
      Retry.linear k delay increment maxRetries
  exponential : h.importable "tasktiger.retry:_exponential" = true ∧
    ∀ k delay factor maxRetries,
      h.retryDelay ⟨"tasktiger.retry:_exponential",
          .arr [.num delay, .num factor, .num maxRetries]⟩ k =
        Retry.exponential k delay factor maxRetries

theorem RunsRetry.importable {h : Host} (hr : RunsRetry h) (strategy : Strategy) (n : Nat) :
    h.importable (strategy.method n).func = true := by
  cases strategy with
  | fixed => exact hr.fixed.1
  | linear => exact hr.linear.1
  | exponential => exact hr.exponential.1

/-- The k-th call of the retry function gives the k-th delay, and the one after the last retry
stops. -/
theorem RunsRetry.retryDelay {h : Host} (hr : RunsRetry h) (strategy : Strategy) (n k : Nat)
    (hk : 1 ≤ k) : h.retryDelay (strategy.method n) k =
      if n < k then .stop else .delay (strategy.delay k) := by
  have limit : ((n : ℚ) < k) = (n < k) := by
    rw [Nat.cast_lt]
  cases strategy with
  | fixed delay =>
    rw [Strategy.method, hr.fixed.2, Retry.fixed]
    simp only [limit, Strategy.delay]
  | linear delay increment =>
    rw [Strategy.method, hr.linear.2, Retry.linear]
    simp only [limit, Strategy.delay]
  | exponential delay factor =>
    have power : factor ^ ((k : Int) - 1) = factor ^ (k - 1) := by
      rw [← zpow_natCast, Nat.cast_sub hk, Nat.cast_one]
    rw [Strategy.method, hr.exponential.2, Retry.exponential, power]
    simp only [limit, Strategy.delay]

/-! A task that fails again and again. -/

/-- The task retries on the exception, which is no RetryException. -/
def RetriesOn (h : Host) (task : Task) (e : Execution) : Prop :=
  e.retry = false ∧
    ((task.data.retryOn.getD []).isEmpty = true ∨
      h.importable e.exceptionName = true ∧ task.shouldRetryOn h e.exceptionName = true)

/-- An attempt that fails: the task that the worker has loaded, the heartbeats of its executor
before and after it stores the execution, and the commands of others before each command of the
worker. -/
structure FailedAttempt where
  host : Host
  task : Task
  before : List Instant
  execution : Execution
  after : List Instant
  env : Nat → List Command

namespace FailedAttempt

def routine (a : FailedAttempt) : Routine Unit := do
  a.before.forM (fun now => Worker.executorStep a.task.queue [a.task] (.heartbeat now))
  Worker.executorStep a.task.queue [a.task] (.store a.execution)
  a.after.forM (fun now => Worker.executorStep a.task.queue [a.task] (.heartbeat now))
  Worker.finishTaskProcessing a.host a.task false

end FailedAttempt

/-- The command is none of those that are for the task alone: its delay, its moves, its heartbeats
and executions, and the update of its time. -/
def Command.Bystands (x : String) : Command → Prop
  | .delay _ data _ _ _ => data.id ≠ x
  | .move m => m.id ≠ x
  | .updateScheduledTime _ _ id _ => id ≠ x
  | .heartbeat _ ids _ => x ∉ ids
  | .storeExecution id _ _ => id ≠ x
  | _ => True

/-- The time of the task is updated, and its object is printed exactly. -/
def Command.Updates (x : String) : Command → Prop
  | .updateScheduledTime number _ id _ => id = x ∧ ∀ r, number r = r
  | _ => False

/-- A move of the task whose lock is taken, or one that fails. -/
def Command.MissesLock (x : String) (s : Store) : Command → Prop
  | .move m => m.id = x ∧ (m.kind = .lockMiss ∨ ¬m.Effective s)
  | _ => False

/-- A step in the life of the task: a command of anybody, or a failed attempt. -/
inductive Turn where
  | other (c : Command)
  | failure (a : FailedAttempt)

def Turn.exec : (t : Turn) → Store → Unit × Store
  | .other c, s => ((), (TaskTiger.exec c s).2)
  | .failure a, s => ((), (go TaskTiger.exec a.env a.routine 0 s).state)

/-- The attempts are of workers that hold the task in ACTIVE, and fail with an exception that it
retries on. Nobody else touches the task, except that its time is updated, or that its pickup
misses the lock, after which it is rescheduled. -/
def Turn.Expected (task : Task) (s : Store) : Turn → Prop
  | .other c => (c.Bystands task.data.id ∨ c.Updates task.data.id ∨ c.MissesLock task.data.id s) ∧
      c.PopsSafely s task.data.id
  | .failure a => task.data.id ∈ s.zset .active task.queue ∧
      a.task.queue = task.queue ∧ s.task task.data.id = some a.task.data ∧ RunsRetry a.host ∧
      RetriesOn a.host a.task a.execution ∧
      ∀ n, ∀ c ∈ a.env n, c.Bystands task.data.id ∨ c.Updates task.data.id

def Turn.Failure : Turn → Bool
  | .other _ => false
  | .failure _ => true

/-- Where the task is after some failures: it has its object, the executions it has stored and the
count of its failures. -/
structure Placed (task : Task) (st : TaskState) (k : Nat) (es : List Execution) (s : Store) : Prop where
  place : SoleAt s task.data.id st task.queue
  stored : s.task task.data.id = some task.data
  count : (s.executionsCount task.data.id).getD 0 = k
  executions : s.executions task.data.id = es

section

variable {x q : String} {s : Store} {st : TaskState} {task : Task} {k : Nat} {es : List Execution}

theorem Command.Bystands.spares {c : Command} (hc : c.Bystands x) : c.SparesExecutions x := by
  cases c with
  | storeExecution => exact hc
  | move => exact hc
  | _ => trivial

theorem task_bystands {c : Command} (hc : c.Bystands x) : (exec c s).2.task x = s.task x := by
  by_cases hp : c.Passive
  · rw [(exec_passive hp s).2.2]
  · cases c with
    | delay queue data ts now publish =>
      rw [task_delay, if_neg (Ne.symm hc)]
    | pickup => rw [task_pickup]
    | promote => rw [task_promote]
    | move m =>
      rw [task_move, if_neg]
      exact fun h => hc h.2.symm
    | updateScheduledTime => exact task_updateScheduledTime_of_ne (Ne.symm hc)
    | heartbeat => rfl
    | _ => exact absurd trivial hp

/-- Others leave an id alone that is not pending. -/
theorem score_bystands {c : Command} (hc : c.Bystands x) (idle : ∀ q, ¬Pending q x s)
    (st : TaskState) (q : String) : (exec c s).2.score st q x = s.score st q x := by
  by_cases hp : c.Passive
  · rw [Store.score, (exec_passive hp s).1, Store.score]
  · cases c with
    | delay queue data ts now publish =>
      rw [score_delay, if_neg (fun h => hc h.2.2.symm)]
    | pickup queue count now later =>
      cases pickup_effect queue count now later s q x with
      | untouched scores => exact scores st
      | picked here pending => exact absurd (Or.inl pending) (idle q)
      | diverted here pending => exact absurd (Or.inl pending) (idle q)
      | lost here pending => exact absurd (Or.inl pending) (idle q)
    | promote queue count now =>
      cases promote_effect queue count now s q x with
      | untouched scores => exact scores st
      | promoted here due => exact absurd (Or.inr due) (idle q)
      | lost here due => exact absurd (Or.inr due) (idle q)
    | move m =>
      by_cases he : m.Effective s
      · rw [score_move he, if_neg (fun h => hc h.2.symm)]
      · rw [exec_move_of_not_effective he]
    | updateScheduledTime number queue id ts =>
      rw [score_updateScheduledTime, if_neg (fun h => hc h.2.2.1.symm)]
    | heartbeat queue ids now =>
      rw [score_heartbeat, if_neg (fun h => hc h.2.2)]
    | _ => exact absurd trivial hp

theorem SoleAt.not_pending (h : SoleAt s x st q) (hst : st = .active ∨ st = .error) (q' : String) :
    ¬Pending q' x s := by
  intro pending
  rcases pending with hin | hin
  · obtain ⟨rfl, -⟩ := (h _ _).mp hin
    simp at hst
  · obtain ⟨rfl, -⟩ := (h _ _).mp hin
    simp at hst

theorem SoleAt.of_scores {t : Store} (h : SoleAt s x st q)
    (scores : ∀ st q, t.score st q x = s.score st q x) : SoleAt t x st q :=
  h.kept (fun st' q' _ => scores st' q') (fun st' => scores st' q)

/-- The update does nothing to a task that is not in SCHEDULED. -/
theorem exec_update {c : Command} (hc : c.Updates x) (idle : ∀ q, x ∉ s.zset .scheduled q) :
    (exec c s).2 = s := by
  cases c with
  | updateScheduledTime number queue id ts =>
    obtain ⟨rfl, -⟩ := hc
    show (updateScheduledTime number queue id ts s).2 = s
    cases update_effect number queue id ts s with
    | absent out result => rw [result]
    | failed e within => exact absurd within (idle queue)
    | updated d within => exact absurd within (idle queue)
  | _ => exact hc.elim

theorem Placed.bystands {c : Command} (h : Placed task st k es s) (hst : st = .active ∨ st = .error)
    (hc : c.Bystands task.data.id) : Placed task st k es (exec c s).2 where
  place := h.place.of_scores (score_bystands hc (h.place.not_pending hst))
  stored := (task_bystands hc).trans h.stored
  count := by rw [(executions_exec hc.spares).2, h.count]
  executions := (executions_exec hc.spares).1.trans h.executions

theorem Placed.run {l : List Command} (h : Placed task st k es s) (hst : st = .active ∨ st = .error)
    (hl : ∀ c ∈ l, c.Bystands task.data.id ∨ c.Updates task.data.id) :
    Placed task st k es (runAll s l) := by
  induction l generalizing s with
  | nil => exact h
  | cons c l ih =>
    have rest : ∀ d ∈ l, d.Bystands task.data.id ∨ d.Updates task.data.id :=
      fun d hd => hl d (by simp [hd])
    rcases hl c (by simp) with hc | hc
    · exact ih (h.bystands hst hc) rest
    · have same : (exec c s).2 = s :=
        exec_update hc (fun q hin => h.place.not_pending hst q (Or.inr hin))
      show Placed task st k es (runAll (exec c s).2 l)
      rw [same]
      exact ih h rest

/-! The commands of the worker that holds the task. -/

theorem Placed.heartbeat {now : Instant} (h : Placed task .active k es s) :
    Placed task .active k es (exec (.heartbeat task.queue [task.data.id] now) s).2 where
  place := by
    apply h.place.moved
    · intro st' q' hq
      rw [score_heartbeat, if_neg (fun hc => hq hc.2.1)]
    · rw [score_heartbeat, if_pos ⟨rfl, rfl, by simp⟩]
      simp
    · intro hne
      exact absurd rfl hne
    · intro st' hst _
      rw [score_heartbeat, if_neg (fun hc => hst hc.1)]
  stored := h.stored
  count := h.count
  executions := h.executions

theorem Placed.store {e : Execution} (h : Placed task .active k es s)
    (kept : ∀ m ∈ task.data.maxStoredExecutions, 0 ≤ m) :
    ∃ es', es'.getLast? = some e ∧ Placed task .active (k + 1) es'
      (exec (.storeExecution task.data.id task.data.maxStoredExecutions e) s).2 := by
  refine ⟨_, getLast_storeExecution (storeExecution_ne_nil (s := s) kept e),
    ⟨h.place, h.stored, ?_, rfl⟩⟩
  show ((storeExecution task.data.id task.data.maxStoredExecutions e s).executionsCount
    task.data.id).getD 0 = k + 1
  simp [storeExecution, h.count]

theorem executions_move {m : Move} {dest : TaskState} (he : m.Effective s)
    (hto : m.kind.toState = some dest) : (exec (.move m) s).2.executions x = s.executions x ∧
      (exec (.move m) s).2.executionsCount x = s.executionsCount x := by
  apply (executions_moveTask he.not_raises).2
  intro hc
  exact absurd (hto.symm.trans hc.2.1) (by simp)

theorem Placed.move {m : Move} {dest : TaskState} (h : Placed task st k es s) (he : m.Effective s)
    (hid : m.id = task.data.id) (hto : m.kind.toState = some dest) :
    Placed task dest k es (exec (.move m) s).2 where
  place := by
    have hin : task.data.id ∈ s.zset m.kind.fromState m.queue := hid ▸ he
    obtain ⟨rfl, hq⟩ := (h.place _ _).mp hin
    have scores : ∀ st', (exec (.move m) s).2.score st' task.queue task.data.id =
        if st' = m.kind.fromState then none
        else if m.kind.toState = some st' then
          some (m.kind.mode.newScore (s.score st' task.queue task.data.id) m.when)
        else s.score st' task.queue task.data.id := by
      intro st'
      rw [score_move he, if_pos ⟨hq.symm, hid.symm⟩]
    have away : dest ≠ m.kind.fromState := by
      intro hc
      exact m.kind.toState_ne_fromState (hc ▸ hto)
    apply h.place.moved
    · intro st' q' hq'
      rw [score_move he, if_neg (fun hc => hq' (hc.1.trans hq))]
    · rw [scores, if_neg away, if_pos hto]
      simp
    · intro _
      rw [scores, if_pos rfl]
    · intro st' hfrom hdest
      rw [scores, if_neg hfrom, if_neg (fun hc => hdest (Option.some.inj (hc.symm.trans hto)))]
  stored := by
    rw [task_move, if_neg, h.stored]
    intro hc
    exact absurd (hto.symm.trans hc.1.2.1) (by simp)
  count := by rw [(executions_move he hto).2, h.count]
  executions := by rw [(executions_move he hto).1, h.executions]

theorem score_moved {m : Move} {dest : TaskState} (he : m.Effective s)
    (hid : m.id = task.data.id) (hq : m.queue = task.queue) (hto : m.kind.toState = some dest)
    (always : m.kind.mode = .always) :
    (exec (.move m) s).2.score dest task.queue task.data.id = some m.when := by
  have away : dest ≠ m.kind.fromState := fun hc => m.kind.toState_ne_fromState (hc ▸ hto)
  rw [score_move he, if_pos ⟨hq.symm, hid.symm⟩, if_neg away, if_pos hto, always]
  rfl

/-! The routine of a failed attempt. -/

variable {h : Host} {quit : Store → Prop}

/-- The worker that holds the task, among others. -/
abbrev Holding (task : Task) : Monitor Store Command Store :=
  rely exec (fun c => c.Bystands task.data.id ∨ c.Updates task.data.id)

theorem wp_heartbeat {now : Instant} (held : Placed task .active k es s) :
    Wp exec (Holding task) quit (Worker.executorStep task.queue [task] (.heartbeat now)) s
      (fun _ => Placed task .active k es) := by
  rintro t ⟨l, others, rfl⟩
  exact ⟨trivial, (held.run (Or.inl rfl) others).heartbeat⟩

theorem wp_store {e : Execution} (held : Placed task .active k es s)
    (kept : ∀ m ∈ task.data.maxStoredExecutions, 0 ≤ m) :
    Wp exec (Holding task) quit (Worker.executorStep task.queue [task] (.store e)) s
      (fun _ t => ∃ es', es'.getLast? = some e ∧ Placed task .active (k + 1) es' t) := by
  rintro t ⟨l, others, rfl⟩
  exact ⟨trivial, (held.run (Or.inl rfl) others).store kept⟩

theorem wp_move {kind : MoveKind} {dest : TaskState} {time : Option Time} {now : Instant}
    (held : Placed task .active k es s) (hfrom : kind.fromState = .active)
    (hto : kind.toState = some dest) (always : kind.mode = .always) :
    Wp exec (Holding task) quit (task.move h kind time now) s (fun _ t => Placed task dest k es t ∧
      t.score dest task.queue task.data.id = some (Task.resolveWhen time now)) := by
  apply wp_ask_bind
  rintro t ⟨l, others, rfl⟩
  refine ⟨trivial, ?_⟩
  have here := held.run (Or.inl rfl) others
  let m : Move := ⟨kind, task.queue, task.data.id, task.data.unique, Task.resolveWhen time now,
    h.publishQueuedTasks⟩
  have he : m.Effective (runAll s l) := by
    show task.data.id ∈ (runAll s l).zset kind.fromState task.queue
    rw [hfrom]
    exact here.place.mem
  rw [exec_move_ok he]
  exact ⟨here.move he rfl hto, score_moved he rfl rfl hto always⟩

theorem wp_lastExecution {e : Execution} (held : Placed task .active k es s)
    (last : es.getLast? = some e) :
    Wp exec (Holding task) quit (redis (.lastExecution task.data.id)) s
      (fun execution t => execution = some e ∧ Placed task .active k es t) := by
  rintro t ⟨l, others, rfl⟩
  have here := held.run (Or.inl rfl) others
  refine ⟨trivial, ?_, here⟩
  show ((runAll s l).executions task.data.id).getLast? = some e
  rw [here.executions, last]

theorem wp_nExecutions (held : Placed task .active k es s) :
    Wp exec (Holding task) quit task.nExecutions s
      (fun count t => count = k ∧ Placed task .active k es t) := by
  apply wp_ask_bind
  rintro t ⟨l, others, rfl⟩
  have here := held.run (Or.inl rfl) others
  refine ⟨trivial, ?_⟩
  have found : (exec (.nExecutions task.data.id) (runAll s l)).1 =
      (true, (runAll s l).executionsCount task.data.id) := by
    show (((runAll s l).task task.data.id).isSome, _) = _
    rw [here.stored]
    rfl
  rw [found]
  exact ⟨here.count, here⟩

/-- The method and time of the retry after the k-th failure. -/
theorem wp_retryTime {strategy : Strategy} {n : Nat} {e : Execution} {now : Instant}
    (configured : task.data.retryMethod = some (strategy.method n)) (runs : RunsRetry h)
    (retries : RetriesOn h task e) (hk : 1 ≤ k) (held : Placed task .active k es s) :
    Wp exec (Holding task) quit (Worker.retryTime h task (some e) now) s (fun retry t =>
      retry = (if n < k then none else some (now.time + strategy.delay k)) ∧
        Placed task .active k es t) := by
  have method : Worker.retryMethod h task (some e) = some (strategy.method n) := by
    obtain ⟨plain, hon⟩ := retries
    simp only [Worker.retryMethod, plain, configured]
    rcases hon with always | ⟨known, listed⟩
    · simp [always]
    · simp [known, listed]
  unfold Worker.retryTime
  rw [method]
  apply (wp_nExecutions held).bind
  rintro count t ⟨rfl, held⟩
  have number : (if count = 0 then 1 else count) = count := if_neg (by omega)
  simp only [runs.importable, if_true, number, runs.retryDelay strategy n count hk]
  split_ifs
  · exact ⟨rfl, held⟩
  · exact ⟨rfl, held⟩

/-- Where the j-th failure leaves the task. -/
structure Rescheduled (task : Task) (strategy : Strategy) (n j : Nat) (now : Instant) (s : Store) :
    Prop where
  held : ∃ es, Placed task (if n < j then .error else .scheduled) j es s
  score : j ≤ n → s.score .scheduled task.queue task.data.id =
    some (Task.resolveWhen (some (now.time + strategy.delay j)) now)

theorem wp_reportError {execution : Option Execution} {strategy : Strategy} {n : Nat}
    {now : Instant} (exceeded : n < k) (held : Placed task .error k es s) :
    Wp exec (Holding task) (Rescheduled task strategy n k now)
      (Worker.permanentError h task execution) s (fun _ => Rescheduled task strategy n k now) := by
  have left : ∀ t, Placed task .error k es t → Rescheduled task strategy n k now t := by
    intro t here
    refine ⟨⟨es, ?_⟩, fun hk => absurd hk (by omega)⟩
    rwa [if_pos exceeded]
  unfold Worker.permanentError
  cases task.data.runnerClass with
  | none => exact left s held
  | some path =>
    simp only
    split_ifs
    · exact left s held
    · cases h.loadRunner path with
      | error name => exact left s held
      | ok u =>
        apply wp_ask_bind
        rintro t ⟨l, others, rfl⟩
        have here := left _ (held.run (Or.inr rfl) others)
        refine ⟨trivial, ?_⟩
        cases h.onPermanentError task execution with
        | ok u => exact here
        | error name => exact here

theorem wp_moveFailed_retried {strategy : Strategy} {n : Nat} {e : Execution} {now : Instant}
    (plain : e.retry = false) (held : Placed task .active k es s) :
    Wp exec (Holding task) (Rescheduled task strategy n k now)
      (Worker.moveFailed h task (some e) now
        (if n < k then none else some (now.time + strategy.delay k))) s
      (fun _ => Rescheduled task strategy n k now) := by
  by_cases exceeded : n < k
  · have logged : Worker.shouldLogError (some e) = true := by
      simp [Worker.shouldLogError, plain]
    rw [if_pos exceeded, Worker.moveFailed, if_pos logged]
    apply (wp_move held rfl rfl rfl).bind
    rintro _ t ⟨here, -⟩
    exact wp_reportError exceeded here
  · rw [if_neg exceeded]
    apply (wp_move held rfl rfl rfl).mono
    rintro _ t ⟨here, score⟩
    refine ⟨⟨es, ?_⟩, fun _ => score⟩
    rwa [if_neg exceeded]

theorem wp_routine {a : FailedAttempt} {strategy : Strategy} {n : Nat}
    (configured : a.task.data.retryMethod = some (strategy.method n))
    (kept : ∀ m ∈ a.task.data.maxStoredExecutions, 0 ≤ m) (runs : RunsRetry a.host)
    (retries : RetriesOn a.host a.task a.execution) (held : Placed a.task .active k es s) :
    Wp exec (Holding a.task) (Rescheduled a.task strategy n (k + 1) (a.host.time a.task.data.id))
      a.routine s
      (fun _ => Rescheduled a.task strategy n (k + 1) (a.host.time a.task.data.id)) := by
  have beats : ∀ (times : List Instant) {k : Nat} {es : List Execution} {s : Store}
      {quit : Store → Prop}, Placed a.task .active k es s → Wp exec (Holding a.task) quit
        (times.forM (fun now => Worker.executorStep a.task.queue [a.task] (.heartbeat now))) s
        (fun _ => Placed a.task .active k es) := by
    intro times k es s quit held
    apply wp_forM _ held
    intro now _ t here
    exact wp_heartbeat here
  apply (beats a.before held).bind
  intro _ _ held
  apply (wp_store held kept).bind
  rintro _ _ ⟨es', last, held⟩
  apply (beats a.after held).bind
  intro _ _ held
  apply (wp_lastExecution held last).bind
  rintro execution _ ⟨rfl, held⟩
  apply (wp_retryTime configured runs retries (by omega) held).bind
  rintro retry _ ⟨rfl, held⟩
  apply (wp_moveFailed_retried retries.1 held).bind
  intro _ t done
  split_ifs
  · exact done
  · exact done

/-! The life of the task. -/

/-- The task of an attempt is the one that is held. -/
theorem Placed.loaded {a : FailedAttempt} (held : Placed task st k es s)
    (expected : (Turn.failure a).Expected task s) : a.task = task := by
  obtain ⟨-, queue, data, -⟩ := expected
  have same : a.task.data = task.data := Option.some.inj (data.symm.trans held.stored)
  cases ha : a.task with
  | mk queue' data' =>
    rw [ha] at queue same
    cases task
    simp_all

theorem Placed.failure {a : FailedAttempt} {strategy : Strategy} {n : Nat}
    (configured : task.data.retryMethod = some (strategy.method n))
    (kept : ∀ m ∈ task.data.maxStoredExecutions, 0 ≤ m) (held : Placed task .active k es s)
    (expected : (Turn.failure a).Expected task s) :
    Rescheduled task strategy n (k + 1) (a.host.time task.data.id)
      (step Turn.exec s (.failure a)) := by
  obtain rfl : a.task = task := held.loaded expected
  obtain ⟨-, -, -, runs, retries, others⟩ := expected
  have hp := wp_routine configured kept runs retries held
  rcases hp.go others 0 with ⟨u, -, done⟩ | done
  · exact done
  · exact done

theorem score_error_bystands {c : Command} (hc : c.Bystands x) :
    (exec c s).2.score .error q x = s.score .error q x := by
  by_cases hm : ∃ m, c = .move m
  · obtain ⟨m, rfl⟩ := hm
    by_cases he : m.Effective s
    · rw [score_move he, if_neg (fun h => hc h.2.symm)]
    · rw [exec_move_of_not_effective he]
  · exact score_error_exec (fun m h => hm ⟨m, h⟩)

theorem Placed.bystands_any {c : Command} (held : Placed task st k es s)
    (hc : c.Bystands task.data.id) (safe : c.PopsSafely s task.data.id) :
    ∃ st', (st' = .error ↔ st = .error) ∧ Placed task st' k es (exec c s).2 := by
  have stays : ∃ st', SoleAt (exec c s).2 task.data.id st' task.queue := by
    have undelayed : ¬c.Delays task.data.id := by
      intro hd
      cases c with
      | delay => exact hc hd
      | _ => exact hd
    have unbeaten : ¬c.Beats task.data.id := by
      intro hb
      cases c with
      | heartbeat => exact hc hb
      | _ => exact hb
    rcases held.place.step undelayed (fun late => unbeaten late.beats) with ⟨kept, -⟩ | ⟨-, removed | lost⟩
    · exact kept
    · cases c with
      | move m => exact absurd removed.1 hc
      | _ => exact removed.elim
    · exact absurd safe lost
  obtain ⟨st', place⟩ := stays
  refine ⟨st', ?_, place, (task_bystands hc).trans held.stored, ?_,
    (executions_exec hc.spares).1.trans held.executions⟩
  · have same : task.data.id ∈ (exec c s).2.zset .error task.queue ↔
        task.data.id ∈ s.zset .error task.queue := by
      rw [Store.mem_iff_score, score_error_bystands hc, Store.mem_iff_score]
    rw [place, held.place] at same
    simpa [eq_comm] using same
  · rw [(executions_exec hc.spares).2, held.count]

theorem Placed.misses {c : Command} (held : Placed task st k es s)
    (misses : c.MissesLock task.data.id s) :
    ∃ st', (st' = .error ↔ st = .error) ∧ Placed task st' k es (exec c s).2 := by
  cases c with
  | move m =>
    obtain ⟨hid, hkind⟩ := misses
    by_cases he : m.Effective s
    · have hkind : m.kind = .lockMiss := hkind.resolve_right (not_not.mpr he)
      have active : st = .active := by
        have hin : task.data.id ∈ s.zset m.kind.fromState m.queue := hid ▸ he
        rw [← ((held.place _ _).mp hin).1, hkind]
        rfl
      refine ⟨.scheduled, by simp [active], held.move he hid ?_⟩
      rw [hkind]
      rfl
    · rw [exec_move_of_not_effective he]
      exact ⟨st, Iff.rfl, held⟩
  | _ => exact misses.elim

/-- The object has the same id and is retried in the same way. -/
structure SameRetries (d d' : TaskData) : Prop where
  id : d'.id = d.id
  retryMethod : d'.retryMethod = d.retryMethod
  maxStoredExecutions : d'.maxStoredExecutions = d.maxStoredExecutions

theorem sameRetries_refl (d : TaskData) : SameRetries d d := ⟨rfl, rfl, rfl⟩

theorem SameRetries.trans {d₁ d₂ d₃ : TaskData} (h₁ : SameRetries d₁ d₂) (h₂ : SameRetries d₂ d₃) :
    SameRetries d₁ d₃ :=
  ⟨h₂.id.trans h₁.id, h₂.retryMethod.trans h₁.retryMethod,
    h₂.maxStoredExecutions.trans h₁.maxStoredExecutions⟩

theorem sameRetries_cjson {number : ℚ → ℚ} {strategy : Strategy} {n : Nat} {d : TaskData} {ts : Time}
    (configured : d.retryMethod = some (strategy.method n)) (printed : ∀ r, number r = r) :
    SameRetries d { d.cjson number with scheduledAt := some ts } where
  id := rfl
  retryMethod := by
    show d.retryMethod.map (RetryMethod.cjson number) = d.retryMethod
    rw [configured]
    cases strategy <;>
      simp [Strategy.method, RetryMethod.cjson, Json.cjson, cjsonItems, printed]
  maxStoredExecutions := by
    show d.maxStoredExecutions.map (cjsonInt number) = d.maxStoredExecutions
    cases d.maxStoredExecutions <;> simp [cjsonInt, printed]

/-- The update of the time rewrites the object, but not what its retries depend on. -/
theorem Placed.updates {c : Command} {strategy : Strategy} {n : Nat}
    (configured : task.data.retryMethod = some (strategy.method n)) (held : Placed task st k es s)
    (updates : c.Updates task.data.id) :
    ∃ d, SameRetries task.data d ∧ Placed ⟨task.queue, d⟩ st k es (exec c s).2 := by
  cases c with
  | updateScheduledTime number queue id ts =>
    obtain ⟨hid, printed⟩ := updates
    have place : SoleAt (exec (.updateScheduledTime number queue id ts) s).2 task.data.id st
        task.queue := by
      apply held.place.moved
      · intro st' q' hq
        rw [score_updateScheduledTime, if_neg]
        exact fun hc => hq ((held.place _ _).mp hc.2.2.2).2
      · rw [score_updateScheduledTime]
        split_ifs
        · simp
        · exact Store.mem_iff_score.mp held.place.mem
      · intro hne
        exact absurd rfl hne
      · intro st' hst _
        rw [score_updateScheduledTime, if_neg]
        exact fun hc => hst ((held.place _ _).mp hc.2.2.2).1
    have counts := executions_exec (c := .updateScheduledTime number queue id ts) (s := s)
      (x := task.data.id) trivial
    have stored : ∃ d, SameRetries task.data d ∧
        (exec (.updateScheduledTime number queue id ts) s).2.task task.data.id = some d := by
      show ∃ d, SameRetries task.data d ∧
        (updateScheduledTime number queue id ts s).2.task task.data.id = some d
      subst hid
      cases update_effect number queue task.data.id ts s with
      | absent out result =>
        rw [result]
        exact ⟨_, sameRetries_refl _, held.stored⟩
      | failed e within bad result =>
        rw [result]
        exact ⟨_, sameRetries_refl _, held.stored⟩
      | updated d within found good result =>
        obtain rfl : task.data = d := Option.some.inj (held.stored.symm.trans found)
        rw [result, Store.task_setTask, if_pos rfl]
        exact ⟨_, sameRetries_cjson configured printed, rfl⟩
    obtain ⟨d, same, hd⟩ := stored
    refine ⟨d, same, ?_, ?_, ?_, ?_⟩
    · simpa [same.id] using place
    · simpa [same.id] using hd
    · simpa [same.id, counts.2] using held.count
    · simpa [same.id, counts.1] using held.executions
  | _ => exact updates.elim

/-- After k failures the task is in ERROR if its retries are used up, and else on its way to the
next attempt. -/
def Retried (task : Task) (n : Nat) (s : Store) (k : Nat) : Prop :=
  k ≤ n + 1 ∧ ∃ d st es, SameRetries task.data d ∧ (st = .error ↔ k = n + 1) ∧
    Placed ⟨task.queue, d⟩ st k es s

theorem Retried.place {n : Nat} (h : Retried task n s k) :
    ∃ st, (st = .error ↔ k = n + 1) ∧ SoleAt s task.data.id st task.queue := by
  obtain ⟨-, d, st, es, same, used, held⟩ := h
  exact ⟨st, used, same.id ▸ held.place⟩

theorem expected_congr {d : TaskData} {t : Turn} (same : SameRetries task.data d)
    (expected : t.Expected task s) : t.Expected ⟨task.queue, d⟩ s := by
  cases t <;> simpa only [Turn.Expected, same.id] using expected

/-- A failure is one more, and leaves the task where it is rescheduled. -/
theorem Retried.failure {a : FailedAttempt} {strategy : Strategy} {n : Nat}
    (configured : task.data.retryMethod = some (strategy.method n))
    (kept : ∀ m ∈ task.data.maxStoredExecutions, 0 ≤ m) (h : Retried task n s k)
    (expected : (Turn.failure a).Expected task s) :
    k ≤ n ∧ ∃ d, SameRetries task.data d ∧ Rescheduled ⟨task.queue, d⟩ strategy n (k + 1)
      (a.host.time task.data.id) (step Turn.exec s (.failure a)) := by
  obtain ⟨bound, d, st, es, same, used, held⟩ := h
  have here : (Turn.failure a).Expected ⟨task.queue, d⟩ s := expected_congr same expected
  obtain ⟨rfl, -⟩ := (held.place _ _).mp here.1
  have more : k ≠ n + 1 := fun hk => by simpa using used.mpr hk
  refine ⟨by omega, d, same, ?_⟩
  rw [← same.id]
  exact held.failure (same.retryMethod.trans configured)
    (fun m hm => kept m (same.maxStoredExecutions ▸ hm)) here

def countFailures (k : Nat) (_ : Store) (t : Turn) : Nat := k + if t.Failure then 1 else 0

theorem retried_step {strategy : Strategy} {n : Nat}
    (configured : task.data.retryMethod = some (strategy.method n))
    (kept : ∀ m ∈ task.data.maxStoredExecutions, 0 ≤ m) (s : Store) (k : Nat) (t : Turn)
    (h : Retried task n s k) (expected : t.Expected task s) :
    Retried task n (step Turn.exec s t) (countFailures k s t) := by
  cases t with
  | failure a =>
    obtain ⟨more, d, same, ⟨es, held⟩, -⟩ := h.failure configured kept expected
    refine ⟨by simp [countFailures, Turn.Failure, more], d, _, es, same, ?_, held⟩
    simp only [countFailures, Turn.Failure, if_true]
    split_ifs with exceeded
    · simp
      omega
    · simp
      omega
  | other c =>
    obtain ⟨bound, d, st, es, same, used, held⟩ := h
    obtain ⟨touch, safe⟩ := expected_congr same expected
    rcases touch with bystands | updates | misses
    · obtain ⟨st', error, here⟩ := held.bystands_any bystands safe
      exact ⟨bound, d, st', es, same, error.trans used, here⟩
    · obtain ⟨d', same', here⟩ := held.updates (same.retryMethod.trans configured) updates
      exact ⟨bound, d', st, es, same.trans same', used, here⟩
    · obtain ⟨st', error, here⟩ := held.misses misses
      exact ⟨bound, d, st', es, same, error.trans used, here⟩

theorem watch_countFailures (l : List Turn) :
    watch Turn.exec countFailures s k l = k + l.countP Turn.Failure := by
  induction l generalizing s k with
  | nil => rfl
  | cons t l ih =>
    rw [watch, ih, List.countP_cons, countFailures]
    omega

end

/-- The retries go as they are configured: the j-th failure reschedules the task for the finish of
the attempt and the j-th delay, but for a sum of zero, and the one after the last retry leaves it
in ERROR; and it is there exactly when it has failed once more than it has retries. -/
structure RetriesAsConfigured (strategy : Strategy) (n : Nat) (task : Task) (s : Store)
    (l : List Turn) : Prop where
  failure : ∀ pre a, pre ++ [.failure a] <+: l →
    let j := pre.countP Turn.Failure + 1
    let due := (a.host.time task.data.id).time + strategy.delay j
    let t := run Turn.exec s (pre ++ [.failure a])
    (j ≤ n → SoleAt t task.data.id .scheduled task.queue ∧
      (due ≠ 0 → t.score .scheduled task.queue task.data.id = some due)) ∧
    (j = n + 1 → SoleAt t task.data.id .error task.queue)
  attempts : l.countP Turn.Failure ≤ n + 1
  ended : l.countP Turn.Failure = n + 1 ↔
    SoleAt (run Turn.exec s l) task.data.id .error task.queue
  pending : l.countP Turn.Failure ≤ n ↔
    ∃ st, st ≠ .error ∧ SoleAt (run Turn.exec s l) task.data.id st task.queue

/-- A task whose attempts all fail is attempted once and retried as often as it is configured. -/
theorem retries_as_configured {strategy : Strategy} {n : Nat} {task : Task} {s : Store}
    {st : TaskState} {es : List Execution} {l : List Turn}
    (configured : task.data.retryMethod = some (strategy.method n))
    (kept : ∀ m ∈ task.data.maxStoredExecutions, 0 ≤ m)
    (delayed : Placed task st 0 es s) (waits : st ≠ .error)
    (expected : Along Turn.exec (Turn.Expected task) s l) :
    RetriesAsConfigured strategy n task s l := by
  have retried : ∀ pre, Along Turn.exec (Turn.Expected task) s pre →
      Retried task n (run Turn.exec s pre) (pre.countP Turn.Failure) := by
    intro pre hpre
    have start : Retried task n s 0 :=
      ⟨by omega, task.data, st, es, sameRetries_refl _, by simp [waits], delayed⟩
    have here := watch_invariant (retried_step configured kept) start hpre
    rwa [watch_countFailures, Nat.zero_add] at here
  have bound := (retried l expected).1
  obtain ⟨st', used, place⟩ := (retried l expected).place
  refine ⟨?_, bound, ?_, ?_⟩
  · rintro pre a ⟨post, rfl⟩
    obtain ⟨before, -⟩ := along_append.mp expected
    obtain ⟨earlier, attempt, -⟩ := along_append.mp before
    obtain ⟨-, d, same, ⟨es, left⟩, score⟩ := (retried pre earlier).failure configured kept attempt
    have place := left.place
    rw [same.id] at place score
    rw [run_append]
    constructor
    · intro more
      rw [if_neg (by omega)] at place
      refine ⟨place, ?_⟩
      intro nonzero
      rw [run_cons, run_nil, score more, Task.resolveWhen, if_neg nonzero]
    · intro last
      rwa [if_pos (by omega)] at place
  · constructor
    · intro last
      rw [← used.mpr last]
      exact place
    · intro here
      exact used.mp ((place _ _).mp here.mem).1.symm
  · constructor
    · intro more
      refine ⟨st', ?_, place⟩
      intro error
      have last := used.mp error
      omega
    · rintro ⟨st'', away, here⟩
      obtain ⟨rfl, -⟩ := (place _ _).mp here.mem
      have more : l.countP Turn.Failure ≠ n + 1 := fun last => away (used.mpr last)
      omega

/-! Two retries, and a limit below zero. -/

/-- Calls the retry functions of the package. -/
def packageDelay (m : RetryMethod) (k : Nat) : RetryDelay :=
  if m.func = "tasktiger.retry:_fixed" then
    match m.args with
    | .arr [.num delay, .num maxRetries] => Retry.fixed k delay maxRetries
    | _ => .raised "builtins:TypeError"
  else if m.func = "tasktiger.retry:_linear" then
    match m.args with
    | .arr [.num delay, .num increment, .num maxRetries] =>
      Retry.linear k delay increment maxRetries
    | _ => .raised "builtins:TypeError"
  else
    match m.args with
    | .arr [.num delay, .num factor, .num maxRetries] =>
      Retry.exponential k delay factor maxRetries
    | _ => .raised "builtins:TypeError"

def retryHost (now : Instant) : Host :=
  { plainHost with
    retryDelay := packageDelay
    time := fun _ => now }

theorem runsRetry_retryHost (now : Instant) : RunsRetry (retryHost now) where
  fixed := ⟨rfl, fun _ _ _ => rfl⟩
  linear := ⟨rfl, fun _ _ _ _ => rfl⟩
  exponential := ⟨rfl, fun _ _ _ _ => rfl⟩

/-- A task that retries twice after a ValueError, the second time half a minute later than the
first. -/
def retryingTask (maxStoredExecutions : Option Int) : Task :=
  ⟨"default", { id := "a", func := "tasks:task",
                retryMethod := some ((Strategy.linear 60 30).method 2),
                retryOn := some ["builtins:ValueError"],
                maxStoredExecutions := maxStoredExecutions }⟩

def raisesValueError (maxStoredExecutions : Option Int) (now : Instant) : FailedAttempt where
  host := retryHost now
  task := retryingTask maxStoredExecutions
  before := [now]
  execution := { exceptionName := "builtins:ValueError", timeStarted := now.time, timeFailed := now.time }
  after := []
  env := fun _ => []

def delayedTask (maxStoredExecutions : Option Int) : Store :=
  (Store.empty.setTask "a" (some (retryingTask maxStoredExecutions).data)).setZset .queued "default"
    (ZSet.empty.add 80 "a")

theorem placed_delayedTask (maxStoredExecutions : Option Int) :
    Placed (retryingTask maxStoredExecutions) .queued 0 [] (delayedTask maxStoredExecutions) where
  place := by
    intro st q
    rw [delayedTask, Store.zset_setZset]
    split_ifs with here
    · simp [here, retryingTask]
    · simpa [retryingTask] using here
  stored := rfl
  count := rfl
  executions := rfl

/-- The pickup, and a failed attempt. -/
def firstAttempt (maxStoredExecutions : Option Int) : List Turn :=
  [.other (.pickup "default" 1 81 82), .failure (raisesValueError maxStoredExecutions 100)]

/-- The retry, which misses a lock at first. -/
def secondAttempt (maxStoredExecutions : Option Int) : List Turn :=
  [.other (.promote "default" 1 160), .other (.pickup "default" 1 161 162),
    .other (.move ⟨.lockMiss, "default", "a", false, 163, true⟩), .other (.promote "default" 1 163),
    .other (.pickup "default" 1 164 165), .failure (raisesValueError maxStoredExecutions 170)]

def thirdAttempt (maxStoredExecutions : Option Int) : List Turn :=
  [.other (.promote "default" 1 260), .other (.pickup "default" 1 261 262),
    .failure (raisesValueError maxStoredExecutions 270)]

theorem expected_raisesValueError {maxStoredExecutions : Option Int} {now : Instant} {s : Store}
    (active : "a" ∈ s.zset .active "default")
    (stored : s.task "a" = some (retryingTask maxStoredExecutions).data) :
    (Turn.failure (raisesValueError maxStoredExecutions now)).Expected
      (retryingTask maxStoredExecutions) s := by
  refine ⟨active, rfl, stored, runsRetry_retryHost now, ⟨rfl, Or.inr ⟨rfl, rfl⟩⟩, ?_⟩
  intro n c hc
  cases hc

theorem retries_as_configured_twice :
    RetriesAsConfigured (.linear 60 30) 2 (retryingTask none) (delayedTask none)
      (firstAttempt none ++ secondAttempt none ++ thirdAttempt none) := by
  have expected : Along Turn.exec (Turn.Expected (retryingTask none)) (delayedTask none)
      (firstAttempt none ++ secondAttempt none ++ thirdAttempt none) := by
    refine ⟨⟨Or.inl trivial, Or.inl ?_⟩, expected_raisesValueError ?_ rfl,
      ⟨Or.inl trivial, Or.inl ?_⟩, ⟨Or.inl trivial, Or.inl ?_⟩,
      ⟨Or.inr (Or.inr ⟨rfl, Or.inl rfl⟩), trivial⟩, ⟨Or.inl trivial, Or.inl ?_⟩,
      ⟨Or.inl trivial, Or.inl ?_⟩, expected_raisesValueError ?_ (by with_unfolding_all rfl),
      ⟨Or.inl trivial, Or.inl ?_⟩, ⟨Or.inl trivial, Or.inl ?_⟩,
      expected_raisesValueError ?_ (by with_unfolding_all rfl), trivial⟩ <;> decide +kernel
  exact retries_as_configured rfl (by simp [retryingTask]) (placed_delayedTask none) (by simp) expected

/-- With max_stored_executions=-1, LTRIM removes the execution that it comes after. -/
theorem not_retries_as_configured_trimmed : ¬∀ (strategy : Strategy) (n : Nat) (task : Task)
    (s : Store) (st : TaskState) (es : List Execution) (l : List Turn), task.data.unique = false →
      task.data.retryMethod = some (strategy.method n) → Placed task st 0 es s → st ≠ .error →
      Along Turn.exec (Turn.Expected task) s l → RetriesAsConfigured strategy n task s l := by
  intro hall
  let first := firstAttempt (some (-1))
  have expected : Along Turn.exec (Turn.Expected (retryingTask (some (-1))))
      (delayedTask (some (-1))) first := by
    refine ⟨⟨Or.inl trivial, Or.inl ?_⟩, expected_raisesValueError ?_ rfl, trivial⟩ <;> decide +kernel
  have lost : "a" ∉ (run Turn.exec (delayedTask (some (-1))) first).zset .scheduled "default" := by
    decide +kernel
  have configured := hall (.linear 60 30) 2 (retryingTask (some (-1))) (delayedTask (some (-1)))
    .queued [] first rfl rfl (placed_delayedTask _) (by simp) expected
  have rescheduled := configured.failure (first.take 1) (raisesValueError (some (-1)) 100)
    List.prefix_rfl
  exact lost (rescheduled.1 (by decide)).1.mem

end TaskTiger
