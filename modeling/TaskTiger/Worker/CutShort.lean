import TaskTiger.Invariants.Expiry
import TaskTiger.Worker.Departures
import TaskTiger.Worker.FailureHandling
import TaskTiger.Worker.Purge

namespace TaskTiger

open Redis Interleaving Prog

/-! A task whose execution was cut short, by the end of its worker or of the child process. -/

/-- The task is in ACTIVE, and no execution of it is stored. -/
structure CutShort (task : Task) (s : Store) : Prop where
  stored : s.task task.data.id = some task.data
  active : task.data.id ∈ s.zset .active task.queue
  silent : s.executions task.data.id = []

/-- The worker has died: another one queues the expired tasks. -/
def expiry (h : Host) (s : Store) : Outcome Store Command Exn Unit :=
  go exec (fun _ => []) (Worker.workerQueueExpiredTasks h) 0 s

/-- The child process has died. -/
def childDeath (h : Host) (task : Task) (s : Store) : Outcome Store Command Exn Unit :=
  go exec (fun _ => []) (Worker.finishTaskProcessing h task false) 0 s

/-- The task has been moved from ACTIVE to the state. -/
def SentTo (task : Task) (st : TaskState) (o : Outcome Store Command Exn Unit) : Prop :=
  (task.data.id, some st) ∈ departures task.queue o.trace

/-- The task is requeued after its expiry if and only if it is retried after the death of the
child, and else fails in both cases. -/
def JudgedAlike (h : Host) (task : Task) (s : Store) : Prop :=
  (SentTo task .queued (expiry h s) ↔ SentTo task .scheduled (childDeath h task s)) ∧
    (¬SentTo task .queued (expiry h s) →
      SentTo task .error (expiry h s) ∧ SentTo task .error (childDeath h task s))

/-- The entries that _worker_queue_expired_tasks finds. -/
def expiredBatch (h : Host) (s : Store) : List (String × String) :=
  getExpiredTasks h.smembers (h.startTime.time - h.activeTaskUpdateTimeout)
    h.requeueExpiredTasksBatchSize s

/-- The number of the retry: without executions, pretend there is one. -/
def retryNum (s : Store) (id : String) : Nat :=
  let n := (s.executionsCount id).getD 0
  if n = 0 then 1 else n

/-- The retry function is called after the death of the child, and raises StopRetry. -/
def StopsRetry (h : Host) (task : Task) (s : Store) : Prop :=
  ∃ m, Worker.retryMethod h task none = some m ∧ h.importable m.func = true ∧
    h.retryDelay m (retryNum s task.data.id) = .stop

/-- A task with a retry method has retry_on as well, or the method is of no use; and a task that
retries on JobTimeoutException has a method that can be imported and returns a delay. -/
def SameVerdict (h : Host) (task : Task) (s : Store) : Prop :=
  (∀ m ∈ task.data.retryMethod, task.data.retryOn.getD [] = [] → h.importable m.func = false) ∧
    (task.shouldRetryOn h jobTimeoutException = true → ∃ m ∈ task.data.retryMethod,
      h.importable m.func = true ∧ ∃ d, h.retryDelay m (retryNum s task.data.id) = .delay d)

/-- Where the expired task goes. -/
def expiryState (h : Host) (task : Task) : TaskState :=
  if task.shouldRetryOn h jobTimeoutException then .queued else .error

/-- Where the task of a dead child goes, unless the retry function raises something else. -/
def childState (h : Host) (task : Task) (s : Store) : Option TaskState :=
  match Worker.retryMethod h task none with
  | none => some .error
  | some m =>
    if h.importable m.func then
      match h.retryDelay m (retryNum s task.data.id) with
      | .delay _ => some .scheduled
      | .stop => some .error
      | .raised _ => none
    else some .error

section

variable {h : Host} {task : Task} {s : Store}

theorem retryMethod_none :
    Worker.retryMethod h task none = task.data.retryMethod.bind (fun m =>
      if task.data.retryOn.getD [] = [] ∨ task.shouldRetryOn h jobTimeoutException = true then some m
      else none) := by
  unfold Worker.retryMethod
  cases task.data.retryMethod with
  | none => rfl
  | some m =>
    simp only [Option.bind_some, List.isEmpty_iff]
    by_cases anything : task.data.retryOn.getD [] = []
    · simp [anything]
    · simp [anything]

theorem shouldRetryOn_of_nil {name : String} (anything : task.data.retryOn.getD [] = []) :
    task.shouldRetryOn h name = false := by
  simp [Task.shouldRetryOn, anything]

theorem childState_of_none (h' : Worker.retryMethod h task none = none) :
    childState h task s = some .error := by
  simp only [childState, h']

theorem childState_scheduled_iff {m : RetryMethod} (hm : Worker.retryMethod h task none = some m) :
    childState h task s = some .scheduled ↔
      h.importable m.func = true ∧ ∃ d, h.retryDelay m (retryNum s task.data.id) = .delay d := by
  simp only [childState, hm]
  by_cases importable : h.importable m.func = true
  · cases h.retryDelay m (retryNum s task.data.id) <;> simp [importable]
  · simp [importable]

theorem childState_error_iff {m : RetryMethod} (hm : Worker.retryMethod h task none = some m)
    (running : ¬StopsRetry h task s) :
    childState h task s = some .error ↔ h.importable m.func = false := by
  simp only [childState, hm]
  by_cases importable : h.importable m.func = true
  · cases delay : h.retryDelay m (retryNum s task.data.id) with
    | stop => exact absurd ⟨m, hm, importable, delay⟩ running
    | _ => simp [importable]
  · simp [importable]

/-- When the two verdicts are the same. -/
theorem sameVerdict_iff (running : ¬StopsRetry h task s) :
    ((expiryState h task = .queued ↔ childState h task s = some .scheduled) ∧
      (expiryState h task ≠ .queued → childState h task s = some .error)) ↔
        SameVerdict h task s := by
  by_cases retriable : task.shouldRetryOn h jobTimeoutException = true
  · have restricted : task.data.retryOn.getD [] ≠ [] := by
      intro anything
      rw [shouldRetryOn_of_nil anything] at retriable
      cases retriable
    have requeued : expiryState h task = .queued := if_pos retriable
    cases method : task.data.retryMethod with
    | none =>
      have none_applies : Worker.retryMethod h task none = none := by
        rw [retryMethod_none, method]
        rfl
      simp [requeued, childState_of_none none_applies, SameVerdict, method, retriable]
    | some m =>
      have applies : Worker.retryMethod h task none = some m := by
        rw [retryMethod_none, method]
        simp [retriable]
      simp [requeued, childState_scheduled_iff applies, SameVerdict, method, restricted, retriable]
  · have failed : expiryState h task = .error := if_neg retriable
    cases method : task.data.retryMethod with
    | none =>
      have none_applies : Worker.retryMethod h task none = none := by
        rw [retryMethod_none, method]
        rfl
      simp [failed, childState_of_none none_applies, SameVerdict, method, retriable]
    | some m =>
      by_cases anything : task.data.retryOn.getD [] = []
      · have applies : Worker.retryMethod h task none = some m := by
          rw [retryMethod_none, method]
          simp [anything]
        have error := childState_error_iff applies running
        have gone : h.importable m.func = false → ¬childState h task s = some .scheduled := by
          intro unimportable
          simp [error.mpr unimportable]
        simpa [failed, error, SameVerdict, method, anything, retriable] using gone
      · have none_applies : Worker.retryMethod h task none = none := by
          rw [retryMethod_none, method]
          simp [anything, retriable]
        simp [failed, childState_of_none none_applies, SameVerdict, method, anything, retriable]

/-! The moves of one worker, alone. -/

variable {queue : String} {tr : List (Store × Command)} {D : List (String × Option TaskState)}

theorem departures_concat {t : Store} {c : Command} :
    departures queue (tr ++ [(t, c)]) =
      departures queue tr ++ (c.departure queue t).toList := by
  cases h : c.departure queue t <;> simp [departures, h]

/-- The command is no call of Task._move. -/
def Command.Unmoving : Command → Prop
  | .move _ => False
  | _ => True

theorem concludes_unmoving {α : Type} {p : Routine α} (hp : Issues Command.Unmoving p)
    (sent : departures queue tr = D) :
    Concludes exec (alone exec s) (fun _ tr' => departures queue tr' = D) p tr
      (fun _ tr' => departures queue tr' = D) := by
  have keeps : Issues ((alone exec s).Keeps (fun tr' => departures queue tr' = D)) p := by
    apply hp.mono
    intro c hc tr' t sent _
    refine ⟨trivial, ?_⟩
    change departures queue (tr' ++ [(t, c)]) = D
    have nothing : c.departure queue t = none := by
      cases c with
      | move => exact hc.elim
      | _ => rfl
    rw [departures_concat, nothing, sent, Option.toList_none, List.append_nil]
  apply (keeps.concludes (raises_of_forall (fun _ => trivial) p : Raises (fun _ => True) p) sent).mono
  · intro _ _ h
    exact h.2
  · intro _ _ h
    exact h

/-- A task that is in ACTIVE is moved. -/
theorem concludes_move_alone {quit : Exn → List (Store × Command) → Prop} {t : Store}
    {kind : MoveKind} {time : Option Time} {now : Instant} (here : endState exec s tr = t)
    (hk : kind.fromState = .active) (active : task.data.id ∈ t.zset .active task.queue) :
    Concludes exec (alone exec s) quit (task.move h kind time now) tr (fun _ tr' =>
      ∃ m : Move, tr' = tr ++ [(t, .move m)] ∧ m.Effective t ∧ m.queue = task.queue ∧
        m.id = task.data.id ∧ m.kind = kind) := by
  let m : Move := ⟨kind, task.queue, task.data.id, task.data.unique, Task.resolveWhen time now,
    h.publishQueuedTasks⟩
  have effective : m.Effective t := by
    change task.data.id ∈ t.zset kind.fromState task.queue
    rw [hk]
    exact active
  apply concludes_ask_alone here
  have ok : (exec (.move m) t).1 = .ok () := exec_move_ok effective
  rw [ok]
  exact ⟨m, rfl, effective, rfl, rfl, rfl⟩

theorem departures_move {t : Store} {m : Move} (he : m.Effective t)
    (hf : m.kind.fromState = .active) (hq : m.queue = queue) :
    departures queue (tr ++ [(t, .move m)]) = departures queue tr ++ [(m.id, m.kind.toState)] := by
  rw [departures_concat, Command.departure, if_pos ⟨he, hf, hq⟩]
  rfl

/-! The death of the child. -/

theorem concludes_retryTime_alone {now : Instant} (cut : CutShort task s)
    (here : endState exec s tr = s) (sent : departures queue tr = D) :
    Concludes exec (alone exec s)
      (fun _ tr' => childState h task s = none ∧ departures queue tr' = D)
      (Worker.retryTime h task none now) tr (fun retry tr' =>
        endState exec s tr' = s ∧ departures queue tr' = D ∧
          childState h task s = some (if retry.isSome then .scheduled else .error)) := by
  unfold Worker.retryTime
  cases method : Worker.retryMethod h task none with
  | none => exact ⟨here, sent, childState_of_none method⟩
  | some m =>
    have found : (exec (.nExecutions task.data.id) s).1 =
        (true, s.executionsCount task.data.id) := by
      simp [exec, cut.stored]
    apply Concludes.bind (Q := fun n tr' => n = (s.executionsCount task.data.id).getD 0 ∧
      endState exec s tr' = s ∧ departures queue tr' = D)
    · apply concludes_ask_alone here
      rw [found]
      refine ⟨rfl, endState_concat _ _ _, ?_⟩
      rw [departures_concat, sent]
      simp [Command.departure]
    · intro n tr' before
      obtain ⟨count, here, sent⟩ := before
      have number : (if n = 0 then 1 else n) = retryNum s task.data.id := by
        rw [count]
        rfl
      rw [number]
      split_ifs with importable
      · cases delay : h.retryDelay m (retryNum s task.data.id) with
        | delay d => exact ⟨here, sent, by simp [childState, method, importable, delay]⟩
        | stop => exact ⟨here, sent, by simp [childState, method, importable, delay]⟩
        | raised name => exact ⟨by simp [childState, method, importable, delay], sent⟩
      · exact ⟨here, sent, by simp [childState, method, importable]⟩

theorem departures_childDeath (cut : CutShort task s) :
    departures task.queue (childDeath h task s).trace =
      ((childState h task s).map (fun st => (task.data.id, some st))).toList := by
  let D := ((childState h task s).map (fun st => (task.data.id, some st))).toList
  have handled : Concludes exec (alone exec s) (fun _ tr' => departures task.queue tr' = D)
      (Worker.finishTaskProcessing h task false) []
      (fun _ tr' => departures task.queue tr' = D) := by
    rw [Worker.finishTaskProcessing_failed]
    apply concludes_ask_alone (t := s) rfl
    have unknown : (exec (.lastExecution task.data.id) s).1 = none := by
      change (s.executions task.data.id).getLast? = none
      rw [cut.silent]
      rfl
    rw [unknown]
    have counted : Concludes exec (alone exec s)
        (fun _ tr' => childState h task s = none ∧ departures task.queue tr' = [])
        (Worker.retryTime h task none (h.time task.data.id)) [(s, .lastExecution task.data.id)]
        (fun retry tr' => endState exec s tr' = s ∧ departures task.queue tr' = [] ∧
          childState h task s = some (if retry.isSome then .scheduled else .error)) :=
      concludes_retryTime_alone cut rfl rfl
    apply Concludes.bind
    · apply counted.mono
      · intro _ tr' before
        obtain ⟨nowhere, sent⟩ := before
        rw [sent]
        simp [D, nowhere]
      · intro _ _ h
        exact h
    · intro retry tr1 before
      obtain ⟨here, sent, state⟩ := before
      have moved : Concludes exec (alone exec s) (fun _ tr' => departures task.queue tr' = D)
          (Worker.moveFailed h task none (h.time task.data.id) retry) tr1
          (fun _ tr' => departures task.queue tr' = D) := by
        cases retry with
        | some ts =>
          apply (concludes_move_alone here rfl cut.active).imp
          rintro _ _ ⟨m, rfl, effective, hq, hid, hk⟩
          rw [departures_move effective (by rw [hk]; rfl) hq, sent, hid, hk]
          simp [D, state, MoveKind.toState]
        | none =>
          apply (concludes_move_alone here rfl cut.active).bind
          rintro _ _ ⟨m, rfl, effective, hq, hid, hk⟩
          have report : Issues Command.Unmoving (Worker.permanentError h task none) :=
            Worker.issues_permanentError h trivial
          apply concludes_unmoving report
          rw [departures_move effective (by rw [hk]; rfl) hq, sent, hid, hk]
          simp [D, state, MoveKind.toState]
      apply moved.bind
      intro _ tr2 sent
      split_ifs
      · exact sent
      · exact sent
  obtain ⟨returned, raised⟩ := handled.alone 0
  cases result : (childDeath h task s).result with
  | ok u => exact returned u result
  | error e => exact raised e result

/-! The expiry. -/

/-- The entries of l are still to be handled; the task has gone where it must unless it is one of
them. -/
structure Expiring (h : Host) (task : Task) (s : Store) (l : List (String × String))
    (tr : List (Store × Command)) : Prop where
  objects : (endState exec s tr).task = s.task
  waiting : ∀ p ∈ l, p.2 ∈ s.zset .active p.1 ∧
    (endState exec s tr).score .active p.1 p.2 = s.score .active p.1 p.2
  distinct : l.Nodup
  verdict : ∀ st, (task.data.id, st) ∈ departures task.queue tr ↔
    st = some (expiryState h task) ∧ (task.queue, task.data.id) ∉ l

theorem Expiring.read {l : List (String × String)} {c : Command} (e : Expiring h task s l tr)
    (reads : ∀ t, (exec c t).2 = t ∧ c.departure task.queue t = none) :
    endState exec s (tr ++ [(endState exec s tr, c)]) = endState exec s tr ∧
      Expiring h task s l (tr ++ [(endState exec s tr, c)]) := by
  obtain ⟨same, nothing⟩ := reads (endState exec s tr)
  have state : endState exec s (tr ++ [(endState exec s tr, c)]) = endState exec s tr := by
    rw [endState_concat, same]
  refine ⟨state, ?_⟩
  constructor
  · rw [state]
    exact e.objects
  · rw [state]
    exact e.waiting
  · exact e.distinct
  · rw [departures_concat, nothing, Option.toList_none, List.append_nil]
    exact e.verdict

theorem Expiring.move {p : String × String} {l : List (String × String)} {m : Move}
    (e : Expiring h task s (p :: l) tr) (effective : m.Effective (endState exec s tr))
    (hf : m.kind.fromState = .active) (hp : p = (m.queue, m.id))
    (kept : m.kind.toState ≠ none ∨ s.task m.id = none)
    (goes : p = (task.queue, task.data.id) → m.kind.toState = some (expiryState h task)) :
    Expiring h task s l (tr ++ [(endState exec s tr, .move m)]) := by
  subst hp
  obtain ⟨handled, distinct⟩ := List.nodup_cons.mp e.distinct
  constructor
  · rw [endState_concat]
    funext y
    rw [task_move]
    split_ifs with deleted
    · rcases kept with stays | missing
      · exact absurd deleted.1.2.1 stays
      · rw [deleted.2, missing]
    · rw [e.objects]
  · intro p hp
    have other : ¬(p.1 = m.queue ∧ p.2 = m.id) := by
      intro same
      obtain rfl : p = (m.queue, m.id) := Prod.ext same.1 same.2
      exact handled hp
    obtain ⟨active, score⟩ := e.waiting p (List.mem_cons_of_mem _ hp)
    refine ⟨active, ?_⟩
    rw [endState_concat, score_move effective, if_neg other, score]
  · exact distinct
  · intro st
    by_cases here : m.queue = task.queue
    · rw [departures_move effective hf here, List.mem_append, e.verdict]
      by_cases same : m.id = task.data.id
      · have ours : (m.queue, m.id) = (task.queue, task.data.id) := by rw [here, same]
        rw [goes ours, ← ours]
        simp [handled, ← same]
      · simp [Ne.symm same]
    · have nothing : Command.departure task.queue (endState exec s tr) (.move m) = none :=
        if_neg (fun h => here h.2.2)
      have other : (task.queue, task.data.id) ≠ (m.queue, m.id) :=
        fun h => here (Prod.mk.inj h).1.symm
      rw [departures_concat, nothing, Option.toList_none, List.append_nil, e.verdict]
      simp [other]

theorem Expiring.active {p : String × String} {l : List (String × String)}
    (e : Expiring h task s (p :: l) tr) : p.2 ∈ (endState exec s tr).zset .active p.1 := by
  obtain ⟨active, score⟩ := e.waiting p (by simp)
  rw [Store.mem_iff_score, score]
  exact Store.mem_iff_score.mp active

theorem Expiring.concludes_move {quit : Exn → List (Store × Command) → Prop} (other : Task)
    {kind : MoveKind} {time : Option Time} {now : Instant} {l : List (String × String)}
    (e : Expiring h task s ((other.queue, other.data.id) :: l) tr) (hk : kind.fromState = .active)
    (kept : kind.toState ≠ none ∨ s.task other.data.id = none)
    (goes : (other.queue, other.data.id) = (task.queue, task.data.id) →
      kind.toState = some (expiryState h task)) :
    Concludes exec (alone exec s) quit (other.move h kind time now) tr
      (fun _ tr' => Expiring h task s l tr') := by
  apply (concludes_move_alone rfl hk e.active).imp
  rintro _ _ ⟨m, rfl, effective, hq, hid, rfl⟩
  rw [← hq, ← hid] at e goes
  rw [← hid] at kept
  exact e.move effective hk rfl kept goes

theorem concludes_expire {quit : Exn → List (Store × Command) → Prop} (keyed : Keyed s)
    (positive : ActivePositive s) (stored : s.task task.data.id = some task.data)
    {p : String × String} {l : List (String × String)} (e : Expiring h task s (p :: l) tr) :
    Concludes exec (alone exec s) quit
      (attempt (Worker.expireTask h p.1 p.2) (Worker.expireNotFound h p.1 p.2)) tr
      (fun _ tr' => Expiring h task s l tr') := by
  obtain ⟨queue, id⟩ := p
  obtain ⟨active, score⟩ := e.waiting (queue, id) (by simp)
  obtain ⟨ts, entry⟩ := ZSet.mem_iff.mp active
  have nonzero : ts ≠ 0 := (positive queue id ts entry).ne'
  let t := endState exec s tr
  have found : (exec (.fromId .active queue id) t).1 = (s.task id, some ts) := by
    change (t.task id, t.score .active queue id) = _
    rw [e.objects, score]
    exact Prod.ext rfl entry
  obtain ⟨-, loaded⟩ := e.read (c := .fromId .active queue id) (fun _ => ⟨rfl, rfl⟩)
  cases object : s.task id with
  | some d =>
    obtain rfl : d.id = id := keyed id d object
    have ours : (queue, d.id) = (task.queue, task.data.id) →
        expiryState h ⟨queue, d⟩ = expiryState h task := by
      intro same
      obtain ⟨rfl, hid⟩ := Prod.mk.inj same
      rw [hid, stored] at object
      rw [← Option.some.inj object]
    have moved : Concludes exec (alone exec s) (fun _ _ => False)
        (Worker.expireTask h queue d.id) tr (fun _ tr' => Expiring h task s l tr') := by
      apply Concludes.bind (Q := fun other tr' => other = ⟨queue, d⟩ ∧
        tr' = tr ++ [(t, .fromId .active queue d.id)])
      · apply concludes_ask_alone (t := t) rfl
        rw [found, object]
        simp only [if_neg nonzero]
        exact ⟨rfl, rfl⟩
      · rintro _ _ ⟨rfl, rfl⟩
        split_ifs with retriable
        · apply loaded.concludes_move ⟨queue, d⟩ rfl (Or.inl (by simp [MoveKind.toState]))
          intro same
          rw [← ours same, expiryState, if_pos retriable]
          rfl
        · apply loaded.concludes_move ⟨queue, d⟩ rfl (Or.inl (by simp [MoveKind.toState]))
          intro same
          rw [← ours same, expiryState, if_neg retriable]
          rfl
    exact moved.attempt (fun _ _ impossible => impossible.elim)
  | none =>
    have missing : Concludes exec (alone exec s) (fun x tr' => x = .taskNotFound ∧
        tr' = tr ++ [(t, .fromId .active queue id)]) (Worker.expireTask h queue id) tr
        (fun _ tr' => Expiring h task s l tr') := by
      apply Concludes.bind (Q := fun _ _ => False)
      · apply concludes_ask_alone (t := t) rfl
        rw [found, object]
        exact ⟨rfl, rfl⟩
      · intro _ _ impossible
        exact impossible.elim
    apply missing.attempt
    rintro _ _ ⟨rfl, rfl⟩
    obtain ⟨state, asked⟩ := loaded.read (c := .get id) (fun _ => ⟨rfl, rfl⟩)
    apply concludes_ask_alone rfl
    have gone : (exec (.get id) (endState exec s (tr ++ [(t, .fromId .active queue id)]))).1 =
        none := by
      change (endState exec s _).task id = none
      rw [loaded.objects, object]
    rw [gone]
    apply asked.concludes_move (Task.bare queue id) rfl (Or.inr object)
    intro same
    obtain ⟨-, hid⟩ := Prod.mk.inj same
    change id = task.data.id at hid
    rw [hid, stored] at object
    cases object

/-- The batch is a part of what has expired, also when it is not full. -/
theorem expiredIn_sublist (time : Time) (queues : List String) (batchSize : Int) :
    (expiredIn s time queues batchSize).Sublist (s.expiredOf time queues) := by
  induction queues generalizing batchSize with
  | nil => exact List.Sublist.refl _
  | cons queue queues ih =>
    rw [Store.expiredOf, List.flatMap_cons, ← Store.expiredOf]
    apply List.Sublist.append
    · exact (((ZSet.limit_isPrefix _ _).sublist.map _).map _)
    · split_ifs
      · exact List.nil_sublist _
      · exact ih _

theorem expiredIn_congr {t : Store} (same : t.zset .active = s.zset .active) (time : Time)
    (queues : List String) (batchSize : Int) :
    expiredIn t time queues batchSize = expiredIn s time queues batchSize := by
  induction queues generalizing batchSize with
  | nil => rfl
  | cons queue queues ih => simp only [expiredIn, same, ih]

theorem expiring_batch (expired : (task.queue, task.data.id) ∈ expiredBatch h s)
    (sent : departures task.queue tr = []) (objects : (endState exec s tr).task = s.task)
    (zset : (endState exec s tr).zset = s.zset) :
    Expiring h task s (expiredBatch h s) tr := by
  have part : (expiredBatch h s).Sublist
      (s.expiredOf (h.startTime.time - h.activeTaskUpdateTimeout)
        (h.smembers.order (s.queues .active))) := expiredIn_sublist _ _ _
  constructor
  · exact objects
  · intro p hp
    obtain ⟨-, t, ht, -⟩ := (mem_expiredOf_order h.smembers p).mp (part.subset hp)
    refine ⟨ZSet.mem_iff.mpr ⟨t, ht⟩, ?_⟩
    rw [Store.score, zset, Store.score]
  · exact (nodup_expiredOf (h.smembers.nodup _)).sublist part
  · intro st
    simp [sent, expired]

theorem departures_expiry (keyed : Keyed s) (positive : ActivePositive s)
    (stored : s.task task.data.id = some task.data) (free : s.locks Worker.expiredTasksLock = none)
    (expired : (task.queue, task.data.id) ∈ expiredBatch h s) (st : Option TaskState) :
    (task.data.id, st) ∈ departures task.queue (expiry h s).trace ↔
      st = some (expiryState h task) := by
  let Judged (tr : List (Store × Command)) : Prop := ∀ st,
    (task.data.id, st) ∈ departures task.queue tr ↔ st = some (expiryState h task)
  let acquire : Command :=
    .acquireLock Worker.expiredTasksLock (h.token Worker.expiredTasksLock)
  let locked := (exec acquire s).2
  let fetch : Command := .getExpiredTasks h.smembers
    (h.startTime.time - h.activeTaskUpdateTimeout) h.requeueExpiredTasksBatchSize
  obtain ⟨zset, queues, objects⟩ := exec_passive (c := acquire) trivial s
  have acquired : (exec acquire s).1 = true := by
    simp only [acquire, exec, free]
  have fetched : (exec fetch locked).1 = expiredBatch h s := by
    change expiredIn locked _ (h.smembers.order (locked.queues .active)) _ = _
    rw [queues, expiredIn_congr (congrFun zset .active)]
    rfl
  have handled : Concludes exec (alone exec s) (fun _ tr' => Judged tr')
      (Worker.workerQueueExpiredTasks h) [] (fun _ tr' => Judged tr') := by
    apply concludes_ask_alone (t := s) rfl
    rw [acquired]
    apply concludes_ask_alone (t := locked) rfl
    rw [fetched]
    have loop : Concludes exec (alone exec s) (fun _ tr' => Judged tr')
        ((expiredBatch h s).forM (fun e =>
          attempt (Worker.expireTask h e.1 e.2) (Worker.expireNotFound h e.1 e.2)))
        [(s, acquire), (locked, fetch)] (fun _ tr' => Expiring h task s [] tr') := by
      apply concludes_forM (Expiring h task s)
      · intro p l tr e
        exact concludes_expire keyed positive stored e
      · exact expiring_batch expired rfl objects zset
    apply loop.bind
    · intro _ tr handled
      have judged : Judged tr := by
        intro st
        rw [handled.verdict]
        simp
      split_ifs
      · have release : Issues Command.Unmoving (Worker.releaseLock h Worker.expiredTasksLock) :=
          issues_bind (issues_ask trivial) (fun _ => trivial)
        apply (concludes_unmoving release rfl).mono
        · intro _ tr' same
          change ∀ st, _
          rw [same]
          exact judged
        · intro _ tr' same
          change ∀ st, _
          rw [same]
          exact judged
      · exact judged
  obtain ⟨returned, raised⟩ := handled.alone 0
  cases result : (expiry h s).result with
  | ok u => exact returned u result st
  | error x => exact raised x result st

theorem keyed_run (l : List Command) : Keyed (runAll Store.empty l) := by
  have start : Keyed Store.empty := by
    intro id d hd
    cases hd
  have keep : ∀ s c, Keyed s → True → Keyed (step exec s c) := fun _ c hk _ => hk.step c
  exact run_invariant keep start (along_of_forall (fun _ _ => trivial))

theorem sentTo_childDeath (cut : CutShort task s) (st : TaskState) :
    SentTo task st (childDeath h task s) ↔ childState h task s = some st := by
  rw [SentTo, departures_childDeath cut]
  simp

/-- A task is judged alike after the death of its worker and of the child process exactly when the
conditions on its retry options hold, in every store that can be reached. -/
theorem judgedAlike_iff {l : List Command} (cut : CutShort task (runAll Store.empty l))
    (free : (runAll Store.empty l).locks Worker.expiredTasksLock = none)
    (expired : (task.queue, task.data.id) ∈ expiredBatch h (runAll Store.empty l))
    (running : ¬StopsRetry h task (runAll Store.empty l)) :
    JudgedAlike h task (runAll Store.empty l) ↔ SameVerdict h task (runAll Store.empty l) := by
  have sent : ∀ st, SentTo task st (expiry h (runAll Store.empty l)) ↔ expiryState h task = st := by
    intro st
    rw [SentTo, departures_expiry (keyed_run l) (activePositive_run l) cut.stored free expired,
      Option.some.injEq, eq_comm]
  have either : expiryState h task ≠ .queued → expiryState h task = .error := by
    unfold expiryState
    split_ifs
    · intro hne
      exact absurd rfl hne
    · intro _
      rfl
  rw [← sameVerdict_iff running, JudgedAlike]
  simp only [sent, sentTo_childDeath cut]
  constructor
  · intro judged
    obtain ⟨alike, failed⟩ := judged
    exact ⟨alike, fun hne => (failed hne).2⟩
  · intro judged
    obtain ⟨alike, failed⟩ := judged
    exact ⟨alike, fun hne => ⟨either hne, failed hne⟩⟩

end

/-! Two tasks whose worker and child have died. -/

instance (task : Task) (st : TaskState) (o : Outcome Store Command Exn Unit) :
    Decidable (SentTo task st o) :=
  inferInstanceAs (Decidable (_ ∈ _))

instance (h : Host) (task : Task) (s : Store) : Decidable (JudgedAlike h task s) :=
  inferInstanceAs (Decidable (_ ∧ _))

/-- A task with retry=True and this list of exceptions, if any. -/
def retriableTask (retryOn : Option (List String)) : Task :=
  ⟨"default", delayedData { id := "a", func := "tasks:simple_task",
                            retryMethod := some plainHost.defaultRetryMethod, retryOn := retryOn }
    none 1⟩

def pickUpOne (task : Task) : List Command :=
  [.delay "default" task.data none 1 true,
    .pickup "default" 1 2 3]

theorem cutShort_retriableTask (retryOn : Option (List String)) :
    CutShort (retriableTask retryOn) (runAll Store.empty (pickUpOne (retriableTask retryOn))) where
  stored := rfl
  active := rfl
  silent := rfl

theorem judgedAlike_iff_jobTimeout :
    JudgedAlike plainHost (retriableTask (some [jobTimeoutException]))
      (runAll Store.empty (pickUpOne (retriableTask (some [jobTimeoutException])))) := by
  refine (judgedAlike_iff (cutShort_retriableTask _) rfl (by decide +kernel) ?_).mpr ⟨?_, ?_⟩
  · intro stopped
    obtain ⟨m, _, _, stops⟩ := stopped
    cases stops
  · intro m _ anything
    cases anything
  · intro _
    exact ⟨_, rfl, rfl, 60, rfl⟩

/-- With retry=True alone, the dead child is retried and the expired task fails. -/
theorem not_judgedAlike_anyException : ¬∀ (h : Host) (task : Task) (l : List Command),
    CutShort task (runAll Store.empty l) →
      (runAll Store.empty l).locks Worker.expiredTasksLock = none →
        (task.queue, task.data.id) ∈ expiredBatch h (runAll Store.empty l) →
          ¬StopsRetry h task (runAll Store.empty l) → JudgedAlike h task (runAll Store.empty l) := by
  intro hall
  have running : ¬StopsRetry plainHost (retriableTask none)
      (runAll Store.empty (pickUpOne (retriableTask none))) := by
    intro stopped
    obtain ⟨m, _, _, stops⟩ := stopped
    cases stops
  have alike := hall plainHost (retriableTask none) (pickUpOne (retriableTask none))
    (cutShort_retriableTask none) rfl (by decide +kernel) running
  exact absurd alike (by decide +kernel)

end TaskTiger
