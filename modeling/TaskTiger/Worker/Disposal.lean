import TaskTiger.Worker.Batch

namespace TaskTiger

open Redis Interleaving Prog

/-! What becomes of a batch. -/

/-- Each id of the batch has left ACTIVE exactly once, and has not come back. -/
def DisposedOnce (queue : String) (taskIds : List String)
    (o : Outcome Store Command Exn Nat) : Prop :=
  ∀ x ∈ taskIds, (departed queue o.trace).count x = 1 ∧ x ∉ o.state.zset .active queue

/-- When the worker exits at a job timeout, no other id of the batch is left in ACTIVE. -/
def ExitsLast (h : Host) (queue : String) (taskIds : List String)
    (tr : List (Store × Command)) : Prop :=
  ∀ s x, (s, Command.lastExecution x) ∈ tr → h.TimedOut s x →
    ∀ y ∈ taskIds, y ≠ x → y ∉ s.zset .active queue

section

variable {h : Host} {queue x : String} {taskIds targets : List String} {s : Store}
  {tr tr' : List (Store × Command)}

/-! Which ids of the batch are in ACTIVE. -/

/-- A command of the batch takes out the ids that it moves. -/
theorem mem_active_batchCommand {c : Command} {y : String} (hc : batchCommand queue taskIds tr c)
    (beats : ∀ q ids now, c = .heartbeat q ids now → y ∈ ids → y ∈ s.zset .active queue) :
    y ∈ (exec c s).2.zset .active queue ↔
      y ∈ s.zset .active queue ∧ y ∉ departed queue [(s, c)] := by
  by_cases hp : c.Passive
  · have stays : y ∉ departed queue [(s, c)] := by
      cases c with
      | move => exact hp.elim
      | _ => simp [departed, departures, Command.departure]
    rw [(exec_passive hp s).1]
    exact ⟨fun hy => ⟨hy, stays⟩, fun hy => hy.1⟩
  · cases c with
    | delay q data ts now publish =>
      have away : ¬(TaskState.active = (delayTarget ts now).1 ∧ queue = q) := by
        rcases delayTarget_state ts now with h | h <;> simp [h]
      rw [zset_delay, if_neg away]
      simp [departed, departures, Command.departure]
    | move m =>
      by_cases effective : m.Effective s
      · rw [Store.mem_iff_score, score_move effective, Store.mem_iff_score]
        by_cases here : m.queue = queue
        · have gone : departed queue [(s, .move m)] = [m.id] := departed_move effective hc here
          by_cases same : y = m.id
          · subst same
            rw [gone, if_pos ⟨here.symm, rfl⟩, if_pos hc.symm]
            simp
          · rw [gone, if_neg (fun h => same h.2)]
            simp [same]
        · have stays : departed queue [(s, .move m)] = [] := by
            simp [departed, departures, Command.departure, here]
          rw [stays, if_neg (fun h => here h.1.symm)]
          simp
      · have stays : departed queue [(s, .move m)] = [] := by
          simp [departed, departures, Command.departure, effective]
        rw [exec_move_of_not_effective effective, stays]
        simp
    | heartbeat q ids now =>
      rw [Store.mem_iff_score, score_heartbeat, Store.mem_iff_score]
      have stays : departed queue [(s, .heartbeat q ids now)] = [] := rfl
      split_ifs with hit
      · have before := beats q ids now rfl hit.2.2
        rw [Store.mem_iff_score] at before
        simp [stays, before]
      · simp [stays]
    | pickup => exact hc.elim
    | promote => exact hc.elim
    | updateScheduledTime => exact hc.elim
    | _ => exact absurd trivial hp

/-- In a run of a batch, an id of the batch is in ACTIVE until it departs. -/
theorem mem_active_iff {y : String} (finds : FindsOwn taskIds tr)
    (undisturbed : Undisturbed exec (SameActive queue taskIds) s tr)
    (commands : ∀ pre z rest, tr = pre ++ z :: rest → batchCommand queue taskIds pre z.2)
    (hy : y ∈ taskIds) (picked : y ∈ s.zset .active queue) :
    y ∈ (endState exec s tr).zset .active queue ↔ y ∉ departed queue tr := by
  induction tr using List.reverseRecOn with
  | nil => simpa using picked
  | append_singleton tr z ih =>
    obtain ⟨t, c⟩ := z
    have earlier : ∀ {pre z rest}, tr = pre ++ z :: rest → tr ++ [(t, c)] =
        pre ++ z :: (rest ++ [(t, c)]) := by
      rintro pre z rest rfl
      simp
    have findsBefore : FindsOwn taskIds tr := fun t' ht => finds t' (List.mem_append_left _ ht)
    have before := ih findsBefore (fun pre z rest h => undisturbed pre z _ (earlier h))
      (fun pre z rest h => commands pre z _ (earlier h))
    have found : y ∈ t.zset .active queue ↔ y ∉ departed queue tr :=
      (undisturbed tr (t, c) [] rfl y hy).trans before
    have command : batchCommand queue taskIds tr c := commands tr (t, c) [] rfl
    have beats : ∀ q ids now, c = .heartbeat q ids now → y ∈ ids → y ∈ t.zset .active queue := by
      rintro q ids now rfl hin
      exact found.mpr (command findsBefore y hin)
    rw [endState_concat, mem_active_batchCommand command beats, departed_append, found]
    simp

/-! The batch as a whole. -/

theorem perm_of_count_eq_one {l l' : List String} (distinct : l.Nodup)
    (once : ∀ x ∈ l, l'.count x = 1) (size : l'.length ≤ l.length) : l'.Perm l := by
  have within : l ⊆ l' := by
    intro x hx
    have := once x hx
    exact List.count_pos_iff.mp (by omega)
  exact ((distinct.subperm within).perm_of_length_le size).symm

theorem departed_exitsAt {rest : List String} {t : Store}
    (e : ExitsAt h queue taskIds targets tr t x rest tr') :
    departed queue tr' = departed queue tr ++ [x] := by
  rw [e.after.departed_eq, departed_append]
  simp [departed, departures, Command.departure]

theorem own_exitsAt {rest : List String} {t : Store}
    (e : ExitsAt h queue taskIds targets tr t x rest tr') :
    FindsOwn taskIds tr' ↔ targets.Perm taskIds := by
  obtain ⟨w, rfl, unasking, -⟩ := e.after
  rw [findsOwn_append (fun y hy => (unasking y hy).ne_mget), findsOwn_append (by simp)]
  exact e.before.own

/-- The job timeout at which the worker exits is the only one that it has found. -/
theorem timedOut_exitsAt {rest : List String} {t t' : Store} {x' : String}
    (e : ExitsAt h queue taskIds targets tr t x rest tr')
    (asked : (t', .lastExecution x') ∈ tr') (timedOut : h.TimedOut t' x') : t' = t ∧ x' = x := by
  obtain ⟨w, rfl, unasking, -⟩ := e.after
  rcases List.mem_append.mp asked with asked | asked
  · rcases List.mem_append.mp asked with asked | asked
    · exact absurd timedOut (e.before.inTime t' x' asked)
    · simpa using asked
  · exact absurd (unasking _ asked) id

/-- A run of a batch whose ids are distinct and in ACTIVE. -/
structure BatchRun (queue : String) (taskIds : List String) (s : Store)
    (o : Outcome Store Command Exn Nat) : Prop where
  distinct : taskIds.Nodup
  picked : ∀ y ∈ taskIds, y ∈ s.zset .active queue
  undisturbed : Undisturbed exec (SameActive queue taskIds) s o.trace
  commands : ∀ pre z rest, o.trace = pre ++ z :: rest → batchCommand queue taskIds pre z.2
  state : o.state = endState exec s o.trace

section

variable {o : Outcome Store Command Exn Nat}

/-- The ids that a command of the run finds in ACTIVE. -/
theorem BatchRun.mem_active_iff {y : String} {t : Store} {c : Command}
    {w : List (Store × Command)} (r : BatchRun queue taskIds s o)
    (finds : FindsOwn taskIds o.trace) (split : o.trace = tr ++ (t, c) :: w) (hy : y ∈ taskIds) :
    y ∈ t.zset .active queue ↔ y ∉ departed queue tr := by
  have before : ∀ {pre z post}, tr = pre ++ z :: post →
      o.trace = pre ++ z :: (post ++ (t, c) :: w) := by
    rintro pre z post rfl
    simpa using split
  have findsBefore : FindsOwn taskIds tr := by
    intro t' ht
    exact finds t' (split ▸ List.mem_append_left _ ht)
  have tracked := TaskTiger.mem_active_iff findsBefore
    (fun pre z post h => r.undisturbed pre z _ (before h))
    (fun pre z post h => r.commands pre z _ (before h)) hy (r.picked y hy)
  exact (r.undisturbed tr _ w split y hy).trans tracked

/-- Under its own objects, the batch is disposed of if the ids that have left are its own. -/
theorem BatchRun.disposedOnce (r : BatchRun queue taskIds s o) (finds : FindsOwn taskIds o.trace)
    (left : (departed queue o.trace).Perm taskIds) : DisposedOnce queue taskIds o := by
  intro y hy
  have gone : y ∈ departed queue o.trace := left.mem_iff.mpr hy
  refine ⟨List.count_eq_one_of_mem (left.nodup_iff.mpr r.distinct) gone, ?_⟩
  rw [r.state, TaskTiger.mem_active_iff finds r.undisturbed r.commands hy (r.picked y hy)]
  exact fun stays => stays gone

theorem BatchRun.perm_of_disposedOnce (r : BatchRun queue taskIds s o)
    (once : DisposedOnce queue taskIds o)
    (size : (departed queue o.trace).length ≤ taskIds.length) :
    (departed queue o.trace).Perm taskIds :=
  perm_of_count_eq_one r.distinct (fun y hy => (once y hy).1) size

/-- The worker has handled all of the batch. -/
theorem BatchRun.disposedOnce_iff_of_returned (r : BatchRun queue taskIds s o)
    (size : targets.length = taskIds.length)
    (progress : Progress h queue taskIds targets [] o.trace) :
    DisposedOnce queue taskIds o ↔
      FindsOwn taskIds o.trace ∧ ExitsLast h queue taskIds o.trace := by
  have all : (departed queue o.trace).Perm targets := by
    simpa using progress.perm
  constructor
  · intro once
    have left := r.perm_of_disposedOnce once (by rw [all.length_eq, size])
    refine ⟨progress.own.mpr (all.symm.trans left), ?_⟩
    intro t x asked timedOut
    exact absurd timedOut (progress.inTime t x asked)
  · intro ⟨finds, _⟩
    exact r.disposedOnce finds (all.trans (progress.own.mp finds))

/-- The worker has exited after x, and has left the ids of rest. -/
theorem BatchRun.disposedOnce_iff_of_exited {t : Store} {rest : List String}
    (r : BatchRun queue taskIds s o) (size : targets.length = taskIds.length)
    (e : ExitsAt h queue taskIds targets tr t x rest o.trace) :
    DisposedOnce queue taskIds o ↔
      FindsOwn taskIds o.trace ∧ ExitsLast h queue taskIds o.trace := by
  have left := departed_exitsAt e
  have total := e.before.perm.length_eq
  rw [List.length_append, List.length_cons, size] at total
  obtain ⟨w, split, -, -⟩ := e.after
  rw [List.append_assoc, List.singleton_append] at split
  constructor
  · intro once
    have all := r.perm_of_disposedOnce once (by
      rw [left, List.length_append, List.length_singleton]
      omega)
    have none_left : rest = [] := by
      have length := all.length_eq
      rw [left, List.length_append, List.length_singleton] at length
      exact List.eq_nil_of_length_eq_zero (by omega)
    have own : targets.Perm taskIds := by
      have perm := e.before.perm
      rw [none_left, ← left] at perm
      exact perm.symm.trans all
    have finds := (own_exitsAt e).mpr own
    refine ⟨finds, ?_⟩
    intro t' x' asked timedOut y hy hne
    obtain ⟨rfl, rfl⟩ := timedOut_exitsAt e asked timedOut
    have gone : y ∈ departed queue tr := by
      have hin := all.mem_iff.mpr hy
      rw [left] at hin
      simpa [hne] using hin
    exact fun hin => (r.mem_active_iff finds split hy).mp hin gone
  · intro ⟨finds, last⟩
    have perm := e.before.perm.trans ((own_exitsAt e).mp finds)
    have nodup : (departed queue tr ++ x :: rest).Nodup := perm.nodup_iff.mpr r.distinct
    obtain ⟨-, handled, apart⟩ := List.nodup_append.mp nodup
    have none_left : rest = [] := by
      apply List.eq_nil_iff_forall_not_mem.mpr
      intro z hz
      have hin : z ∈ taskIds := perm.mem_iff.mp (by simp [hz])
      have other : z ≠ x := by
        intro same
        exact (List.nodup_cons.mp handled).1 (same ▸ hz)
      have asked : (t, Command.lastExecution x) ∈ o.trace := by
        rw [split]
        simp
      have gone : z ∈ departed queue tr := by
        by_contra stays
        exact last t x asked e.timedOut z hin other ((r.mem_active_iff finds split hin).mpr stays)
      exact apart z gone z (by simp [hz]) rfl
    rw [none_left, ← left] at perm
    exact r.disposedOnce finds perm

end

variable {env : Nat → List Command} {n : Nat}

/-- A batch whose ids are distinct and in ACTIVE. -/
theorem disposedOnce_iff_of_active (distinct : taskIds.Nodup)
    (picked : ∀ y ∈ taskIds, y ∈ s.zset .active queue) :
    let o := go exec env (Worker.processQueueTasks h queue taskIds) n s
    Undisturbed exec (SameActive queue taskIds) s o.trace →
      ((∃ k, o.result = .ok k) ∨ o.result = .error .systemExit) →
        (DisposedOnce queue taskIds o ↔
          FindsOwn taskIds o.trace ∧ ExitsLast h queue taskIds o.trace) := by
  intro o undisturbed ended
  have handled : Concludes exec (batch queue taskIds s) _ (Worker.processQueueTasks h queue taskIds)
      [] _ := Worker.concludes_processQueueTasks (h := h) distinct
  obtain ⟨commands, returned, raised⟩ := handled.recorded undisturbed
  have batchRun : BatchRun queue taskIds s o :=
    ⟨distinct, picked, undisturbed, commands, state_go _ _ _ _⟩
  rcases ended with ⟨k, ok⟩ | exit
  · obtain ⟨targets, size, progress⟩ := returned k ok
    exact batchRun.disposedOnce_iff_of_returned size progress
  · obtain ⟨targets, size, exited⟩ := raised _ exit
    obtain ⟨tr, t, x, rest, e⟩ := exited rfl
    exact batchRun.disposedOnce_iff_of_exited size e

/-- What a pickup returns is in ACTIVE, each id once. -/
theorem picked_active {count : Int} {now : Instant} {later : Time}
    (picked : (exec (.pickup queue count now later) s).1 = .ok taskIds) :
    taskIds.Nodup ∧
      ∀ y ∈ taskIds, y ∈ (exec (.pickup queue count now later) s).2.zset .active queue := by
  let a := pickupArgs queue count now later
  constructor
  · have members : (a.members s).Nodup :=
      (s.zset a.source a.queue).unique.sublist
        ((ZSet.rangeByScore_isPrefix _ a.score a.count).sublist.map _)
    change (zpoppushExists a s).1 = .ok taskIds at picked
    unfold zpoppushExists at picked
    split_ifs at picked with nothing fits
    · obtain rfl : [] = taskIds := by simpa using picked
      exact List.nodup_nil
    · obtain rfl : a.moved s = taskIds := by simpa using picked
      exact members.filter _
  · intro y hy
    have returned : Returned queue count now later s queue y := ⟨rfl, taskIds, picked, hy⟩
    cases pickup_effect queue count now later s queue y with
    | picked _ _ _ scores _ =>
      rw [Store.mem_iff_score, scores]
      simp
    | untouched _ kept => exact absurd returned kept
    | diverted _ _ _ _ kept => exact absurd returned kept
    | lost _ _ _ _ _ kept => exact absurd returned kept

/-- Every task of a batch is disposed of exactly once, exactly when the objects found have the ids
of the batch, and the worker exits only when no other task of the batch is left in ACTIVE. -/
theorem disposedOnce_iff {count : Int} {now : Instant} {later : Time}
    (picked : (exec (.pickup queue count now later) s).1 = .ok taskIds) :
    let active := (exec (.pickup queue count now later) s).2
    let o := go exec env (Worker.processQueueTasks h queue taskIds) n active
    Undisturbed exec (SameActive queue taskIds) active o.trace →
      ((∃ k, o.result = .ok k) ∨ o.result = .error .systemExit) →
        (DisposedOnce queue taskIds o ↔
          FindsOwn taskIds o.trace ∧ ExitsLast h queue taskIds o.trace) := by
  obtain ⟨distinct, within⟩ := picked_active picked
  exact disposedOnce_iff_of_active distinct within

end

/-! A SyncExecutor whose tasks time out. -/

def syncHost : Host :=
  { plainHost with
    exitWorkerOnJobTimeout := true
    execute := fun _ => .ok ([.store { exceptionName := jobTimeoutException, timeStarted := 101,
                                       timeFailed := 102 }], false) }

def slowTask (id : String) : TaskData := { id := id, func := "tasks:" ++ id }

def slowTasks (ids : List String) : Store :=
  runAll Store.empty (ids.map (fun id => .delay "default" (slowTask id) none 1 true))

def pickupAll : Command := .pickup "default" 2 100 101

def handleAll (ids : List String) : Outcome Store Command Exn Nat :=
  go exec (fun _ => []) (Worker.processQueueTasks syncHost "default" ids) 0
    (exec pickupAll (slowTasks ids)).2

instance (queue : String) (taskIds : List String) (o : Outcome Store Command Exn Nat) :
    Decidable (DisposedOnce queue taskIds o) :=
  inferInstanceAs (Decidable (∀ x ∈ taskIds, _ ∧ _))

theorem undisturbed_handleAll (ids : List String) :
    Undisturbed exec (SameActive "default" ids) (exec pickupAll (slowTasks ids)).2
      (handleAll ids).trace := by
  have alone : Undisturbed exec (fun s t => t = s) (exec pickupAll (slowTasks ids)).2
      (handleAll ids).trace := undisturbed_alone _ _ _
  exact alone.mono (fun s t same x _ => by rw [same])

/-- Two tasks of a batch function, one that fails, one whose object is missing, one that misses its
lock, and one that times out, in the order of their ids. -/
def mixedTask : String → TaskData
  | "a" => { id := "a", func := "tasks:batch" }
  | "b" => { id := "b", func := "tasks:batch" }
  | "e" => { id := "e", func := "tasks:locked", lock := true }
  | id => slowTask id

def mixedIds : List String := ["a", "b", "c", "d", "e", "f"]

def mixedHost : Host :=
  { syncHost with
    execute := fun tasks =>
      if tasks.any (fun task => task.data.func = "tasks:batch") then .ok ([], true)
      else if tasks.any (fun task => task.data.func = "tasks:c") then
        .ok ([.store { exceptionName := "builtins:ValueError", timeStarted := 101, timeFailed := 102 }],
          false)
      else syncHost.execute tasks }

def mixedTasks : Store :=
  (runAll Store.empty (mixedIds.map (fun id => .delay "default" (mixedTask id) none 1 true) ++
    [.acquireLock (Worker.lockId mixedHost ⟨"default", mixedTask "e"⟩) "other"])).setTask "d" none

def handleMixed : Outcome Store Command Exn Nat :=
  go exec (fun _ => []) (Worker.processQueueTasks mixedHost "default" mixedIds) 0
    (exec (.pickup "default" 6 100 101) mixedTasks).2

/-- The worker exits after the last task of a batch of several functions. -/
theorem disposedOnce_iff_mixed : DisposedOnce "default" mixedIds handleMixed ∧
    FindsOwn mixedIds handleMixed.trace ∧
      ExitsLast mixedHost "default" mixedIds handleMixed.trace := by
  have once : DisposedOnce "default" mixedIds handleMixed := by decide +kernel
  have undisturbed : Undisturbed exec (SameActive "default" mixedIds)
      (exec (.pickup "default" 6 100 101) mixedTasks).2 handleMixed.trace :=
    (undisturbed_alone _ _ _).mono (fun s t same x _ => by rw [same])
  exact ⟨once, (disposedOnce_iff (s := mixedTasks) (by rfl) undisturbed (Or.inr (by rfl))).mp once⟩

/-- The worker exits after the first of two tasks. -/
theorem not_disposedOnce_exit : ¬∀ (h : Host) (queue : String) (s : Store) (count : Int)
    (now : Instant) (later : Time) (taskIds : List String) (env : Nat → List Command),
    (exec (.pickup queue count now later) s).1 = .ok taskIds →
      let active := (exec (.pickup queue count now later) s).2
      let o := go exec env (Worker.processQueueTasks h queue taskIds) 0 active
      Undisturbed exec (SameActive queue taskIds) active o.trace →
        ((∃ k, o.result = .ok k) ∨ o.result = .error .systemExit) →
          DisposedOnce queue taskIds o := by
  intro hall
  have once : DisposedOnce "default" ["a", "b"] (handleAll ["a", "b"]) :=
    hall syncHost "default" (slowTasks ["a", "b"]) 2 100 101 ["a", "b"] (fun _ => [])
      rfl (undisturbed_handleAll ["a", "b"]) (Or.inr (by rfl))
  exact absurd once (by decide +kernel)

end TaskTiger
