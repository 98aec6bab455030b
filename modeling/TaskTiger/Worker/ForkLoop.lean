import TaskTiger.Worker.Executor
import TaskTiger.Worker.QueueLocks

namespace TaskTiger

/-! The loop in which ForkExecutor.execute waits for its child. -/

/-- A child process that runs: when it ends by itself, if ever, with the status that waitpid then
reports, and the status it has when it is killed. -/
structure RunningChild where
  exits : Option (Time × Int)
  sigkill : Int

/-- check_child_exit: the return code of the child if it is done, without waiting for it. -/
def RunningChild.checkChildExit (child : RunningChild) (now : Time) : Option Int :=
  match child.exits with
  | some (done, status) => if done ≤ now then some status else none
  | none => none

/-- os.kill and os.waitpid: a child that has ended in the meantime is not killed any more. -/
def RunningChild.kill (child : RunningChild) (now : Time) : Int :=
  (child.checkChildExit now).getD child.sigkill

/-- How long each part of a turn of the loop takes. -/
structure ForkTurn where
  toSelect : Time     -- the first check
  select : Time       -- until the timeout or a signal
  toNow : Time        -- the second check
  toHeartbeat : Time
  renewal : Time      -- of the locks

namespace ForkTurn

variable (turn : ForkTurn) (start : Time)

def selected : Time := start + turn.toSelect + turn.select

/-- The time that is compared with timeout_at. -/
def now : Time := turn.selected start + turn.toNow

def heartbeat : Time := turn.now start + turn.toHeartbeat

def next : Time := turn.heartbeat start + turn.renewal

end ForkTurn

/-- What has come of the loop: how the wait ended, if it has, when it ended or is now, the
heartbeats so far, the last one first, and the times of the turns that found the child running. -/
structure ForkRun where
  waited : Option Waited
  finish : Time
  heartbeats : List Time
  turns : List Time

def ForkRun.beat (run : ForkRun) (now : Time) : ForkRun := { run with turns := now :: run.turns }

def forkLoop (timeoutAt : Time) (child : RunningChild) : Time → List Time → List ForkTurn → ForkRun
  | start, heartbeats, [] => ⟨none, start, heartbeats, []⟩
  | start, heartbeats, turn :: turns =>
    match child.checkChildExit start with
    | some returnCode => ⟨some (.exited returnCode), start, heartbeats, []⟩
    | none =>
      match child.checkChildExit (turn.selected start) with
      | some returnCode => ⟨some (.exited returnCode), turn.selected start, heartbeats, []⟩
      | none =>
        let now := turn.now start
        if now > timeoutAt then ⟨some (.killed (child.kill now) now), now, heartbeats, [now]⟩
        else (forkLoop timeoutAt child (turn.next start) (turn.heartbeat start :: heartbeats)
          turns).beat now

/-- select returns within the timer, and the rest of a turn takes no longer than the overhead. -/
structure ForkTurn.Prompt (timer overhead : Time) (turn : ForkTurn) : Prop where
  toSelect : 0 ≤ turn.toSelect
  select : 0 ≤ turn.select ∧ turn.select ≤ timer
  toNow : 0 ≤ turn.toNow
  toHeartbeat : 0 ≤ turn.toHeartbeat
  renewal : 0 ≤ turn.renewal
  rest : turn.toSelect + turn.toNow + turn.toHeartbeat + turn.renewal ≤ overhead

section

variable {timer overhead timeout timeoutAt start last : Time} {child : RunningChild}
  {turn : ForkTurn} {turns : List ForkTurn} {heartbeats : List Time}

/-- The times of a turn, in their order, and how far they are from its start. -/
theorem ForkTurn.Prompt.order (prompt : turn.Prompt timer overhead) (start : Time) :
    start ≤ turn.selected start ∧ turn.selected start ≤ turn.now start ∧
      turn.now start ≤ turn.heartbeat start ∧ turn.heartbeat start ≤ turn.next start ∧
      turn.next start ≤ turn.heartbeat start + overhead ∧
      turn.heartbeat start ≤ start + timer + overhead := by
  obtain ⟨h1, ⟨h2, h3⟩, h4, h5, h6, h7⟩ := prompt
  simp only [ForkTurn.next, ForkTurn.heartbeat, ForkTurn.now, ForkTurn.selected]
  refine ⟨?_, ?_, ?_, ?_, ?_, ?_⟩ <;> linarith

/-- Between two heartbeats, and from the last one to the end, there is less than the timeout. -/
theorem steady_forkLoop (prompt : ∀ turn ∈ turns, turn.Prompt timer overhead)
    (short : timer + 2 * overhead < timeout) (soon : start ≤ last + overhead)
    (pos : 0 ≤ timer ∧ 0 ≤ overhead) (before : Steady timeout (last :: heartbeats)) :
    Steady timeout ((forkLoop timeoutAt child start (last :: heartbeats) turns).finish ::
      (forkLoop timeoutAt child start (last :: heartbeats) turns).heartbeats) := by
  induction turns generalizing start last heartbeats with
  | nil =>
    have gap : start < last + timeout := by linarith [pos.1, pos.2]
    exact List.isChain_cons_cons.mpr ⟨gap, before⟩
  | cons turn turns ih =>
    obtain ⟨h1, h2, h3, h4, h5, h6⟩ := (prompt turn List.mem_cons_self).order start
    have later : ∀ now, now ≤ turn.heartbeat start → Steady timeout (now :: last :: heartbeats) := by
      intro now hnow
      have gap : now < last + timeout := by linarith
      exact List.isChain_cons_cons.mpr ⟨gap, before⟩
    rw [forkLoop]
    cases child.checkChildExit start with
    | some returnCode => exact later start (by linarith)
    | none =>
      cases child.checkChildExit (turn.selected start) with
      | some returnCode => exact later _ (h2.trans h3)
      | none =>
        dsimp only
        split_ifs with expired
        · exact later _ h3
        · exact ih (fun t ht => prompt t (List.mem_cons_of_mem turn ht)) h5 (later _ le_rfl)

/-- The child is still running. -/
theorem RunningChild.running {now : Time} (h : child.checkChildExit now = none) :
    ∀ exit ∈ child.exits, now < exit.1 := by
  intro exit hexit
  by_contra done
  rw [not_lt] at done
  rw [Option.mem_def] at hexit
  simp [RunningChild.checkChildExit, hexit, done] at h

theorem RunningChild.exited {now : Time} {returnCode : Int}
    (h : child.checkChildExit now = some returnCode) :
    ∃ done, child.exits = some (done, returnCode) ∧ done ≤ now := by
  unfold RunningChild.checkChildExit at h
  cases hexit : child.exits with
  | none => simp [hexit] at h
  | some exit =>
    obtain ⟨done, status⟩ := exit
    simp only [hexit, Option.ite_none_right_eq_some, Option.some.injEq] at h
    obtain ⟨hdone, rfl⟩ := h
    exact ⟨done, rfl, hdone⟩

/-- How a parent waits for its child. -/
structure Watched (timer overhead timeoutAt start : Time) (child : RunningChild)
    (turns : List ForkTurn) (run : ForkRun) : Prop where
  exited : ∀ returnCode, run.waited = some (.exited returnCode) →
    ∃ done, child.exits = some (done, returnCode) ∧ done ≤ run.finish ∧
      run.finish ≤ max start (done + timer + overhead)
  killed : ∀ returnCode now, run.waited = some (.killed returnCode now) →
    now = run.finish ∧ timeoutAt < now ∧ returnCode = child.kill now ∧
      ∀ exit ∈ child.exits, now < exit.1 + overhead
  ends : run.finish ≤ max start (timeoutAt + overhead) + timer + overhead
  waits : run.waited = none → run.finish = turns.foldl (fun start turn => turn.next start) start

theorem watched_forkLoop (prompt : ∀ turn ∈ turns, turn.Prompt timer overhead)
    (pos : 0 ≤ timer ∧ 0 ≤ overhead) (heartbeats : List Time) :
    Watched timer overhead timeoutAt start child turns
      (forkLoop timeoutAt child start heartbeats turns) := by
  induction turns generalizing start heartbeats with
  | nil =>
    have ends : start ≤ max start (timeoutAt + overhead) + timer + overhead := by
      linarith [le_max_left start (timeoutAt + overhead), pos.1, pos.2]
    exact ⟨fun _ h => by simp [forkLoop] at h, fun _ _ h => by simp [forkLoop] at h, ends,
      fun _ => rfl⟩
  | cons turn turns ih =>
    obtain ⟨h1, h2, h3, h4, h5, h6⟩ := (prompt turn List.mem_cons_self).order start
    have start_le := le_max_left start (timeoutAt + overhead)
    rw [forkLoop]
    cases first : child.checkChildExit start with
    | some code =>
      obtain ⟨done, hexit, hdone⟩ := RunningChild.exited first
      refine ⟨?_, fun _ _ h => by simp at h, ?_, fun h => by simp at h⟩
      · intro returnCode h
        obtain rfl : code = returnCode := by simpa using h
        exact ⟨done, hexit, hdone, le_max_left _ _⟩
      · change start ≤ _
        linarith [pos.1, pos.2]
    | none =>
      cases second : child.checkChildExit (turn.selected start) with
      | some code =>
        obtain ⟨done, hexit, hdone⟩ := RunningChild.exited second
        have before : start < done := RunningChild.running first _ hexit
        refine ⟨?_, fun _ _ h => by simp at h, ?_, fun h => by simp at h⟩
        · intro returnCode h
          obtain rfl : code = returnCode := by simpa using h
          refine ⟨done, hexit, hdone, le_max_of_le_right ?_⟩
          change turn.selected start ≤ _
          linarith
        · change turn.selected start ≤ _
          linarith
      | none =>
        have running := RunningChild.running second
        -- the second check is at most the overhead before the heartbeat
        have recent : turn.next start ≤ turn.selected start + overhead := by
          obtain ⟨p1, p2, p3, p4, p5, p6⟩ := prompt turn List.mem_cons_self
          simp only [ForkTurn.next, ForkTurn.heartbeat, ForkTurn.now]
          linarith
        dsimp only
        split_ifs with expired
        · refine ⟨fun _ h => by simp at h, ?_, ?_, fun h => by simp at h⟩
          · intro returnCode now h
            simp only [Option.some.injEq, Waited.killed.injEq] at h
            obtain ⟨rfl, rfl⟩ := h
            refine ⟨rfl, expired, rfl, ?_⟩
            intro exit hexit
            linarith [running exit hexit]
          · change turn.now start ≤ _
            linarith
        · have rest : Watched timer overhead timeoutAt (turn.next start) child turns
              (forkLoop timeoutAt child (turn.next start) (turn.heartbeat start :: heartbeats) turns) :=
            ih (fun t ht => prompt t (List.mem_cons_of_mem turn ht)) _
          refine ⟨?_, rest.killed, ?_, rest.waits⟩
          · intro returnCode h
            obtain ⟨done, hexit, hdone, hfinish⟩ := rest.exited returnCode h
            have before := running _ hexit
            have soon : turn.next start ≤ done + timer + overhead := by linarith [pos.1]
            exact ⟨done, hexit, hdone, le_max_of_le_right (hfinish.trans (max_le soon le_rfl))⟩
          · have inTime : turn.next start ≤ timeoutAt + overhead := by linarith [not_lt.mp expired]
            have ends := rest.ends
            rw [max_eq_right inTime] at ends
            have bound := le_max_right start (timeoutAt + overhead)
            change (forkLoop _ _ _ _ _).finish ≤ _
            linarith

/-- The turns go on for longer than any loop does. -/
def Outlast (timer overhead timeoutAt start : Time) (turns : List ForkTurn) : Prop :=
  max start (timeoutAt + overhead) + timer + overhead <
    turns.foldl (fun start turn => turn.next start) start

instance : Decidable (Outlast timer overhead timeoutAt start turns) :=
  inferInstanceAs (Decidable (_ < _))

/-- Within turns that outlast it, a loop comes to its end. -/
theorem Watched.ended {run : ForkRun} (h : Watched timer overhead timeoutAt start child turns run)
    (outlast : Outlast timer overhead timeoutAt start turns) : ∃ waited, run.waited = some waited := by
  cases hw : run.waited with
  | some waited => exact ⟨waited, rfl⟩
  | none =>
    have finish := h.waits hw
    exact absurd (finish ▸ h.ends) (not_le.mpr outlast)

/-- A parent whose turns are prompt renews what it holds in time, up to the end of the loop, and
is done soon after its child or after the time limit. -/
theorem heartbeats_forkLoop (prompt : ∀ turn ∈ turns, turn.Prompt timer overhead)
    (pos : 0 ≤ timer ∧ 0 ≤ overhead) (short : timer + 2 * overhead < timeout)
    (soon : start ≤ last + overhead) :
    Steady timeout ((forkLoop timeoutAt child start [last] turns).finish ::
        (forkLoop timeoutAt child start [last] turns).heartbeats) ∧
      Watched timer overhead timeoutAt start child turns
        (forkLoop timeoutAt child start [last] turns) :=
  ⟨steady_forkLoop prompt short soon pos (List.isChain_singleton _),
    watched_forkLoop prompt pos [last]⟩

end

/-! The loop within ForkExecutor.execute. -/

/-- What ForkExecutor.execute sees of a child in this loop. -/
def RunningChild.seen (child : RunningChild) (process : Process) (stored : Nat) (run : ForkRun) :
    Child where
  process := process
  stored := stored
  status := (child.exits.map Prod.snd).getD child.sigkill
  killed := child.kill run.finish
  turns := run.turns

section

variable {timer overhead start last : Time} {child : RunningChild} {turns : List ForkTurn}

theorem wait_seen {timeoutAt : Time} {heartbeats : List Time} {waited : Waited} {seen : Child}
    (status : ∀ exit ∈ child.exits, seen.status = exit.2)
    (killed : seen.killed = child.kill (forkLoop timeoutAt child start heartbeats turns).finish)
    (ended : (forkLoop timeoutAt child start heartbeats turns).waited = some waited) :
    seen.wait timeoutAt (forkLoop timeoutAt child start heartbeats turns).turns = waited := by
  induction turns generalizing start heartbeats with
  | nil => simp [forkLoop] at ended
  | cons turn turns ih =>
    have exits (now : Time) (code : Int) (h : child.checkChildExit now = some code) :
        Waited.exited seen.status = Waited.exited code := by
      obtain ⟨done, hexit, -⟩ := RunningChild.exited h
      rw [status _ hexit]
    rw [forkLoop] at killed ended ⊢
    cases first : child.checkChildExit start with
    | some code =>
      simp only [first, Option.some.injEq] at ended
      exact (exits _ _ first).trans ended
    | none =>
      cases second : child.checkChildExit (turn.selected start) with
      | some code =>
        simp only [first, second, Option.some.injEq] at ended
        exact (exits _ _ second).trans ended
      | none =>
        simp only [first, second] at killed ended ⊢
        by_cases expired : turn.now start > timeoutAt
        · simp only [if_pos expired, Option.some.injEq] at killed ended ⊢
          rw [Child.wait, if_pos expired, killed, ended]
        · simp only [if_neg expired] at killed ended ⊢
          exact (if_neg expired).trans (ih killed ended)

variable {cfg : ExecutorConfig} {app : Application} {parent process : Process} {func : PyFunc}
  {loaded : Option PyFunc} {g : TaskGroup} {stored : Nat} {waited : Waited}

/-- What the parent stores for each task when it kills the child. -/
def timeoutEntry (parent : Process) (now : Time) : Entry where
  exceptionName := "tasktiger.exceptions:JobTimeoutException"
  timeStarted := parent.timeStarted
  timeFailed := now
  success := false
  host := parent.hostname
  traceback := none

/-- What becomes of the tasks, if the child is done before the time limit and if it would run long
after it. -/
structure ForkOutcome (cfg : ExecutorConfig) (app : Application) (parent process : Process)
    (func : PyFunc) (g : TaskGroup) (stored : Nat) (timer overhead start : Time)
    (child : RunningChild) (finish : Time) (executed : Executed) : Prop where
  inTime : ∀ success done, (executeTasks cfg app process (some func) g).result = .ok success →
    child.exits = some (done, exitStatus success) →
    (executeTasks cfg app process (some func) g).stored.length ≤ stored →
    done + overhead ≤ timeoutAt cfg parent func g →
      executed = executeTasks cfg app process (some func) g ∧
        finish ≤ max start (done + timer + overhead)
  late : child.sigkill ≠ 0 →
    (∀ exit ∈ child.exits,
      max start (timeoutAt cfg parent func g + overhead) + timer + overhead < exit.1) →
      ∃ now, timeoutAt cfg parent func g < now ∧ now = finish ∧
        now ≤ max start (timeoutAt cfg parent func g + overhead) + timer + overhead ∧
        executed = ⟨.ok false, (executeTasks cfg app process (some func) g).stored.take stored ++
          storeTaskExecution g.tasks (timeoutEntry parent now)⟩

theorem execute_forkLoop (hfunc : g.first.pyFunc app loaded = .ok func)
    (prompt : ∀ turn ∈ turns, turn.Prompt timer overhead) (pos : 0 ≤ timer ∧ 0 ≤ overhead)
    {run : ForkRun} (hrun : run = forkLoop (timeoutAt cfg parent func g) child start [last] turns)
    (complete : (∃ waited, run.waited = some waited) ∨
      Outlast timer overhead (timeoutAt cfg parent func g) start turns) :
    ForkOutcome cfg app parent process func g stored timer overhead start child run.finish
      (ForkExecutor.execute cfg app parent (child.seen process stored run) loaded g) := by
  let seen := child.seen process stored run
  have status : ∀ exit ∈ child.exits, seen.status = exit.2 := by
    intro exit hexit
    rw [Option.mem_def] at hexit
    simp [seen, RunningChild.seen, hexit]
  have watched : Watched timer overhead (timeoutAt cfg parent func g) start child turns run := by
    rw [hrun]
    exact watched_forkLoop prompt pos [last]
  obtain ⟨waited, ended⟩ := complete.elim id watched.ended
  have waits : seen.wait (timeoutAt cfg parent func g) seen.turns = waited := by
    subst hrun
    exact wait_seen status rfl ended
  constructor
  · intro success done hresult hexit hstored hdone
    cases waited with
    | killed code now =>
      obtain ⟨-, late, -, recent⟩ := watched.killed code now ended
      linarith [recent _ hexit]
    | exited code =>
      obtain ⟨done', hexit', -, hfinish⟩ := watched.exited code ended
      obtain ⟨rfl, rfl⟩ : done = done' ∧ exitStatus success = code := by
        simpa [hexit] using hexit'
      refine ⟨?_, hfinish⟩
      have all := List.take_of_length_le hstored
      unfold ForkExecutor.execute
      change seen.wait _ (RunningChild.seen child process stored run).turns = _ at waits
      simp only [hfunc]
      rw [waits]
      simp only [exitStatus_eq_zero, ← hresult]
      dsimp only [RunningChild.seen]
      rw [all]
  · intro nonzero late
    cases waited with
    | exited code =>
      obtain ⟨done, hexit, hdone, -⟩ := watched.exited code ended
      linarith [late _ hexit, watched.ends]
    | killed code now =>
      obtain ⟨rfl, expired, hcode, -⟩ := watched.killed code now ended
      have running : child.checkChildExit run.finish = none := by
        unfold RunningChild.checkChildExit
        cases hexit : child.exits with
        | none => rfl
        | some exit =>
          have still : run.finish < exit.1 := lt_of_le_of_lt watched.ends (late _ hexit)
          exact if_neg (not_le.mpr still)
      have killed : code = child.sigkill := by rw [hcode, RunningChild.kill, running]; rfl
      refine ⟨run.finish, expired, rfl, watched.ends, ?_⟩
      unfold ForkExecutor.execute
      change seen.wait _ (RunningChild.seen child process stored run).turns = _ at waits
      simp only [hfunc]
      rw [waits]
      simp only [killed, nonzero, decide_false]
      rfl

end

deriving instance DecidableEq for Waited

/-- A turn in which select runs into its timeout. -/
def fullTurn : ForkTurn := ⟨0, 30, 0, 1 / 2, 1 / 2⟩

theorem fullTurn_prompt : fullTurn.Prompt 30 1 := by
  constructor <;> norm_num [fullTurn]

theorem fullTurns_prompt (n : Nat) : ∀ turn ∈ List.replicate n fullTurn, turn.Prompt 30 1 := by
  intro turn h
  rw [List.eq_of_mem_replicate h]
  exact fullTurn_prompt

/-- Tasks that get five seconds each. -/
def hastyConfig : ExecutorConfig := ⟨true, 5, 60⟩

theorem heartbeats_forkLoop_full :
    Steady 60 ((forkLoop 80 ⟨none, 9⟩ 10 [10] (List.replicate 3 fullTurn)).finish ::
        (forkLoop 80 ⟨none, 9⟩ 10 [10] (List.replicate 3 fullTurn)).heartbeats) ∧
      Watched 30 1 80 10 ⟨none, 9⟩ (List.replicate 3 fullTurn)
        (forkLoop 80 ⟨none, 9⟩ 10 [10] (List.replicate 3 fullTurn)) :=
  heartbeats_forkLoop (fullTurns_prompt 3) (by norm_num) (by norm_num) (by norm_num)

/-- A child that is done after 35 s, and one that hangs. -/
theorem execute_forkLoop_full :
    ForkOutcome hastyConfig (retryingApplication false) (processAt 10 "parent")
        (processAt 11 "child") ⟨false, none⟩ twoTasks 2 30 1 10 ⟨some (45, 256), 9⟩ 71
        (ForkExecutor.execute hastyConfig (retryingApplication false) (processAt 10 "parent")
          (RunningChild.seen ⟨some (45, 256), 9⟩ (processAt 11 "child") 2
            (forkLoop 80 ⟨some (45, 256), 9⟩ 10 [10] (List.replicate 3 fullTurn))) none twoTasks) ∧
      ForkOutcome hastyConfig (retryingApplication false) (processAt 10 "parent")
        (processAt 11 "child") ⟨false, none⟩ twoTasks 0 30 1 10 ⟨none, 9⟩ 102
        (ForkExecutor.execute hastyConfig (retryingApplication false) (processAt 10 "parent")
          (RunningChild.seen ⟨none, 9⟩ (processAt 11 "child") 0
            (forkLoop 80 ⟨none, 9⟩ 10 [10] (List.replicate 4 fullTurn))) none twoTasks) := by
  have limit : timeoutAt hastyConfig (processAt 10 "parent") ⟨false, none⟩ twoTasks = 80 := by
    decide +kernel
  have exits : (forkLoop 80 ⟨some (45, 256), 9⟩ 10 [10] (List.replicate 3 fullTurn)).finish = 71 := by
    decide +kernel
  have hangs : (forkLoop 80 ⟨none, 9⟩ 10 [10] (List.replicate 4 fullTurn)).finish = 102 := by
    decide +kernel
  have ends : (forkLoop 80 ⟨some (45, 256), 9⟩ 10 [10] (List.replicate 3 fullTurn)).waited =
      some (.exited 256) := by decide +kernel
  have outlast : Outlast 30 1 80 10 (List.replicate 4 fullTurn) := by decide +kernel
  constructor
  · rw [← exits]
    exact execute_forkLoop rfl (fullTurns_prompt 3) (by norm_num) (by rw [limit]) (Or.inl ⟨_, ends⟩)
  · rw [← hangs]
    exact execute_forkLoop rfl (fullTurns_prompt 4) (by norm_num) (by rw [limit])
      (Or.inr (by rwa [limit]))

end TaskTiger
