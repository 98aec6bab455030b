import TaskTiger.Framework.Monitor
import TaskTiger.Worker.Periodic

namespace TaskTiger

open Redis Interleaving Prog

/-! The transitions of a task into ERROR and the calls of its runner. -/

/-- The command moves the task to ERROR. -/
def Command.Fails (x : String) (s : Store) : Command → Prop
  | .move m => m.id = x ∧ m.kind.toState = some .error ∧ m.Effective s
  | _ => False

instance (x : String) (s : Store) (c : Command) : Decidable (c.Fails x s) := by
  induction c using Command.casesOn with
  | move m => exact inferInstanceAs (Decidable (_ ∧ _ ∧ _))
  | _ => exact inferInstanceAs (Decidable False)

/-- The command is the move of _finish_task_processing to ERROR. -/
def Command.OfFinish : Command → Prop
  | .move m => m.kind = .fail
  | _ => False

instance (c : Command) : Decidable c.OfFinish := by
  induction c using Command.casesOn with
  | move m => exact inferInstanceAs (Decidable (_ = _))
  | _ => exact inferInstanceAs (Decidable False)

/-- The worker calls on_permanent_error for the task. -/
def Command.Reports (x : String) : Command → Prop
  | .permanentError id => id = x
  | _ => False

instance (x : String) (c : Command) : Decidable (c.Reports x) := by
  induction c using Command.casesOn with
  | permanentError id => exact inferInstanceAs (Decidable (_ = _))
  | _ => exact inferInstanceAs (Decidable False)

/-- Only workers fail tasks and call runners. -/
def Command.OfClient : Command → Prop
  | .move m => m.kind.toState ≠ some .error
  | .permanentError _ => False
  | _ => True

/-- The object of the task, while there is one, has the runner class r. -/
def CustomRunner (x r : String) (s : Store) : Prop := ∀ d ∈ s.task x, d.runnerClass = some r

instance (x r : String) (s : Store) : Decidable (CustomRunner x r s) :=
  inferInstanceAs (Decidable (∀ d ∈ s.task x, d.runnerClass = some r))

/-- The worker follows each move of the task to ERROR by a call of its runner, or has the call to
make next, and makes no other. -/
def Reported (x : String) (tr : List (Store × Command)) (next : Option Command) : Prop :=
  let calls (n : Nat) := ∃ c ∈ (tr.map Prod.snd ++ next.toList)[n]?, c.Reports x
  ¬calls 0 ∧ ∀ n, (h : n < tr.length) → (tr[n].2.Fails x tr[n].1 ↔ calls (n + 1))

instance (x : String) (tr : List (Store × Command)) (next : Option Command) :
    Decidable (Reported x tr next) :=
  inferInstanceAs (Decidable (¬_ ∧ ∀ n, ∀ _ : n < tr.length, (_ ↔ _)))

/-! What a worker remembers: whether it owes a call. -/

section

variable {h : Host} {x r : String} {loads : Bool} {due : Prop}

/-- A call is due after a move of _finish_task_processing, if the runner class can be loaded. -/
def Command.Owes (x : String) (loads : Bool) (s : Store) (c : Command) : Prop :=
  c.Fails x s ∧ c.OfFinish ∧ loads = true

def reports (x r : String) (loads : Bool) : Monitor Store Command Prop where
  Expected _ := CustomRunner x r
  Allowed due _ c := c.Reports x ↔ due
  update _ s c := c.Owes x loads s

theorem keeps_reports {c : Command} (silent : ¬c.Reports x) (other : ¬∃ s, c.Owes x loads s) :
    (reports x r loads).Keeps Not c := by
  intro due s idle _
  exact ⟨iff_of_false silent idle, fun owes => other ⟨s, owes⟩⟩

theorem keeps_unfinishing {c : Command} (hc : c.Unfinishing h) :
    (reports x r loads).Keeps Not c := by
  apply keeps_reports
  · intro hr
    cases c with
    | permanentError id => exact hc.2
    | _ => exact hr
  · rintro ⟨s, -, finish, -⟩
    cases c with
    | move m => exact hc.2 finish
    | _ => exact finish

theorem wp_unfinishing {α : Type} {p : Routine α} (hp : Issues (Command.Unfinishing h) p)
    (idle : ¬due) : Wp exec (reports x r loads) Not p due (fun _ due => ¬due) :=
  (hp.mono (fun _ => keeps_unfinishing)).wp idle

/-! Worker._finish_task_processing. -/

theorem keeps_move {m : Move} (hm : m.id ≠ x ∨ m.kind ≠ .fail) :
    (reports x r loads).Keeps Not (.move m) := by
  apply keeps_reports id
  rintro ⟨s, ⟨hx, -, -⟩, finish, -⟩
  rcases hm with hm | hm
  · exact hm hx
  · exact hm finish

theorem wp_fail {task : Task} {time : Option Time} {now : Instant} (hx : task.data.id = x)
    (idle : ¬due) : Wp exec (reports x r loads) Not (task.move h .fail time now) due
      (fun _ due => due ↔ loads = true) := by
  apply wp_ask_bind
  intro s _
  refine ⟨iff_of_false id idle, ?_⟩
  let m : Move := ⟨.fail, task.queue, task.data.id, task.data.unique, Task.resolveWhen time now,
    h.publishQueuedTasks⟩
  by_cases he : m.Effective s
  · rw [exec_move_ok he]
    show Command.Owes x loads s (.move m) ↔ loads = true
    constructor
    · intro owes
      exact owes.2.2
    · intro hl
      exact ⟨⟨hx, rfl, he⟩, rfl, hl⟩
  · rw [exec_move_of_not_effective he]
    show ¬Command.Owes x loads s (.move m)
    intro owes
    exact he owes.1.2.2

theorem wp_permanentError {task : Task} {execution : Option Execution} (hx : task.data.id = x)
    (custom : task.data.runnerClass = some r) (named : r ≠ "")
    (load : (h.loadRunner r).isOk = loads) (hdue : due ↔ loads = true) :
    Wp exec (reports x r loads) Not (Worker.permanentError h task execution) due
      (fun _ due => ¬due) := by
  unfold Worker.permanentError
  rw [custom]
  simp only [if_neg named]
  cases hl : h.loadRunner r with
  | error name =>
    have unloaded : loads = false := by rw [← load, hl]; rfl
    show ¬due
    simp [hdue, unloaded]
  | ok u =>
    have loaded : loads = true := by rw [← load, hl]; rfl
    apply wp_ask_bind
    intro s _
    refine ⟨iff_of_true hx (hdue.mpr loaded), ?_⟩
    have paid : ¬Command.Owes x loads s (.permanentError task.data.id) := fun owes => owes.1
    cases h.onPermanentError task execution with
    | ok u => exact paid
    | error name => exact paid

theorem wp_moveFailed {task : Task} {execution : Option Execution} {now : Instant}
    (hx : task.data.id = x) (custom : task.data.runnerClass = some r) (named : r ≠ "")
    (load : (h.loadRunner r).isOk = loads) (retry : Option Time) (idle : ¬due) :
    Wp exec (reports x r loads) Not (Worker.moveFailed h task execution now retry) due
      (fun _ due => ¬due) := by
  cases retry with
  | some ts => exact (issues_move (keeps_move (Or.inr (by simp)))).wp idle
  | none =>
    unfold Worker.moveFailed
    split_ifs
    · apply (wp_fail hx idle).bind
      intro _ due hdue
      exact wp_permanentError hx custom named load hdue
    · exact (issues_move (keeps_move (Or.inr (by simp)))).wp idle

theorem wp_finishTaskProcessing {task : Task} {success : Bool}
    (custom : task.data.id = x → task.data.runnerClass = some r) (named : r ≠ "")
    (load : (h.loadRunner r).isOk = loads) (idle : ¬due) :
    Wp exec (reports x r loads) Not (Worker.finishTaskProcessing h task success) due
      (fun _ due => ¬due) := by
  have reads : ∀ c : Command, (∀ y, ¬c.Reports y) → (∀ s, ¬c.Fails x s) →
      (reports x r loads).Keeps Not c :=
    fun c silent still => keeps_reports (silent x) (fun ⟨s, owes⟩ => still s owes.1)
  by_cases hx : task.data.id = x
  · unfold Worker.finishTaskProcessing
    cases success with
    | true => exact (issues_move (keeps_move (Or.inr (by simp)))).wp idle
    | false =>
      apply ((issues_ask (reads _ (fun _ => id) (fun _ => id))).wp idle).bind
      intro execution due idle
      apply ((Worker.issues_retryTime h (reads _ (fun _ => id) (fun _ => id))).wp idle).bind
      intro retry due idle
      apply (wp_moveFailed hx (custom hx) named load retry idle).bind
      intro _ due idle
      split_ifs
      · exact idle
      · exact idle
  · apply Issues.wp _ idle
    apply Worker.issues_finishTaskProcessing
    · intro m hm _
      apply keeps_move
      exact Or.inl (fun h => hx (hm.2.symm.trans h))
    · exact reads _ (fun _ => id) (fun _ => id)
    · exact reads _ (fun _ => id) (fun _ => id)
    · exact keeps_reports hx (fun ⟨s, owes⟩ => owes.1)

/-! Worker._process_queue_tasks. -/

theorem mem_addToGroup {groups : List (List Task)} {task t : Task} {g : List Task}
    (hg : g ∈ Worker.addToGroup groups task) (ht : t ∈ g) :
    t = task ∨ ∃ g' ∈ groups, t ∈ g' := by
  unfold Worker.addToGroup at hg
  split_ifs at hg
  · obtain ⟨g', hg', rfl⟩ := List.mem_map.mp hg
    split_ifs at ht
    · rcases List.mem_append.mp ht with ht | ht
      · exact Or.inr ⟨g', hg', ht⟩
      · exact Or.inl (List.mem_singleton.mp ht)
    · exact Or.inr ⟨g', hg', ht⟩
  · rcases List.mem_append.mp hg with hg | hg
    · exact Or.inr ⟨g, hg, ht⟩
    · obtain rfl := List.mem_singleton.mp hg
      exact Or.inl (List.mem_singleton.mp ht)

theorem mem_groups {tasks : List Task} {groups : List (List Task)} {g : List Task} {t : Task}
    (hg : g ∈ tasks.foldl Worker.addToGroup groups) (ht : t ∈ g) :
    t ∈ tasks ∨ ∃ g' ∈ groups, t ∈ g' := by
  induction tasks generalizing groups with
  | nil => exact Or.inr ⟨g, hg, ht⟩
  | cons task tasks ih =>
    rcases ih hg with hin | ⟨g', hg', hin⟩
    · exact Or.inl (List.mem_cons_of_mem _ hin)
    · rcases mem_addToGroup hg' hin with rfl | earlier
      · exact Or.inl List.mem_cons_self
      · exact Or.inr earlier

theorem yields_acquireLocks (tasks : List Task) (locks : List String) (ready : List Task) :
    Yields (fun acquired => ∀ t ∈ acquired.2, t ∈ ready ++ tasks)
      (Worker.acquireLocks h tasks locks ready) := by
  induction tasks generalizing locks ready with
  | nil =>
    intro t ht
    simpa using ht
  | cons task tasks ih =>
    have taken : ∀ locks, Yields (fun acquired => ∀ t ∈ acquired.2, t ∈ ready ++ task :: tasks)
        (Worker.acquireLocks h tasks locks (ready ++ [task])) := by
      intro locks
      simpa using ih locks (ready ++ [task])
    have missed : Yields (fun acquired => ∀ t ∈ acquired.2, t ∈ ready ++ task :: tasks)
        (Worker.acquireLocks h tasks locks ready) := by
      apply (ih locks ready).mono
      intro acquired hin t ht
      rcases List.mem_append.mp (hin t ht) with hr | hr <;> simp [hr]
    rw [Worker.acquireLocks]
    apply yields_ite _ (taken _)
    intro acquired
    apply yields_ite (taken _)
    apply (yields_any _).bind
    intro _ _
    exact missed

theorem yields_executeTaskGroup (queue : String) (tasks : List Task) :
    Yields (fun processed => ∀ t ∈ processed.2, t ∈ tasks)
      (Worker.executeTaskGroup h queue tasks) := by
  apply (yields_acquireLocks tasks [] []).bind
  intro acquired hin
  apply yields_ite
  · intro t ht
    cases ht
  · apply (yields_any _).bind
    intro _ _
    apply (yields_any _).bind
    intro executed _
    apply (yields_any _).bind
    intro _ _
    apply (yields_any _).bind
    intro _ _
    exact hin

theorem yields_loadTasks (queue : String) (entries : List (String × Option TaskData)) :
    Yields (fun tasks => ∀ t ∈ tasks, (t.data.id, some t.data) ∈ entries)
      (Worker.loadTasks h queue entries) := by
  induction entries with
  | nil =>
    intro t ht
    cases ht
  | cons entry entries ih =>
    have rest : Yields (fun tasks => ∀ t ∈ tasks, (t.data.id, some t.data) ∈ entry :: entries)
        (Worker.loadTasks h queue entries) :=
      ih.mono (fun tasks hin t ht => List.mem_cons_of_mem _ (hin t ht))
    have skipped : ∀ (task : Task) (kind : MoveKind) (now : Instant),
        Yields (fun tasks => ∀ t ∈ tasks, (t.data.id, some t.data) ∈ entry :: entries)
          (task.move h kind none now >>= fun _ => Worker.loadTasks h queue entries) := by
      intro task kind now
      apply (yields_any _).bind
      intro _ _
      exact rest
    obtain ⟨id, data⟩ := entry
    cases data with
    | none => exact skipped _ _ _
    | some d =>
      rw [Worker.loadTasks]
      split_ifs with hid
      · apply rest.bind
        intro tasks hin t ht
        rcases List.mem_cons.mp ht with rfl | ht
        · rw [← hid]
          exact List.mem_cons_self
        · exact hin t ht
      · exact skipped _ _ _

theorem wp_processGroups {queue : String} {groups : List (List Task)} (named : r ≠ "")
    (load : (h.loadRunner r).isOk = loads)
    (custom : ∀ g ∈ groups, ∀ t ∈ g, t.data.id = x → t.data.runnerClass = some r)
    (idle : ¬due) : Wp exec (reports x r loads) Not (Worker.processGroups h queue groups) due
      (fun _ due => ¬due) := by
  induction groups generalizing due with
  | nil => exact idle
  | cons tasks groups ih =>
    have group := (Worker.unfinishing_executeTaskGroup h queue tasks).mono
      (fun _ hc => (keeps_unfinishing hc : (reports x r loads).Keeps Not _))
    apply (group.wp_yields (yields_executeTaskGroup queue tasks) idle).bind
    intro processed due ⟨hin, idle⟩
    apply Wp.bind (Q := fun _ due => ¬due)
    · apply wp_forM _ idle
      intro task ht due idle
      exact wp_finishTaskProcessing (custom tasks (by simp) task (hin task ht)) named load idle
    · intro _ due idle
      apply (ih (fun g hg => custom g (by simp [hg])) idle).bind
      intro _ due idle
      exact idle

theorem wp_processQueueTasks {queue : String} {taskIds : List String} (named : r ≠ "")
    (load : (h.loadRunner r).isOk = loads) (idle : ¬due) :
    Wp exec (reports x r loads) Not (Worker.processQueueTasks h queue taskIds) due
      (fun _ due => ¬due) := by
  apply wp_ask_bind
  intro s expected
  have entries : taskIds.zip (exec (.mget taskIds) s).1 = taskIds.map (fun id => (id, s.task id)) :=
    List.map_prod_left_eq_zip.symm
  have read : (reports x r loads).Keeps Not (.mget taskIds) :=
    keeps_reports id (fun ⟨s, owes⟩ => owes.1)
  refine ⟨(read due s idle expected).1, ?_⟩
  rw [entries]
  have load_ := (Worker.unfinishing_loadTasks h queue (taskIds.map (fun id => (id, s.task id)))).mono
    (fun _ hc => (keeps_unfinishing hc : (reports x r loads).Keeps Not _))
  apply (load_.wp_yields (yields_loadTasks queue _) (read due s idle expected).2).bind
  intro tasks due ⟨hin, idle⟩
  apply wp_processGroups named load _ idle
  intro g hg t ht hx
  rcases mem_groups hg ht with hmem | ⟨g', hg', -⟩
  · obtain ⟨id, -, hentry⟩ := List.mem_map.mp (hin t hmem)
    obtain ⟨rfl, hdata⟩ := Prod.mk.inj hentry
    exact expected t.data (by rw [← hx]; exact hdata)
  · cases hg'

/-! Worker.run. -/

theorem wp_chore {chore : Chore} (named : r ≠ "") (load : (h.loadRunner r).isOk = loads)
    (idle : ¬due) :
    Wp exec (reports x r loads) Not (chore.routine h) due (fun _ due => ¬due) := by
  cases chore with
  | fromQueue queue batchSize failedToAcquire now later =>
    apply Wp.bind (Q := fun _ due => ¬due)
    · unfold Worker.processFromQueue
      split_ifs
      · exact idle
      · have pickup : Command.Unfinishing h (.pickup queue batchSize now later) :=
          ⟨trivial, trivial⟩
        apply (wp_unfinishing (issues_ask pickup) idle).bind
        intro reply due idle
        cases reply with
        | error e => exact idle
        | ok taskIds =>
          cases taskIds with
          | nil => exact idle
          | cons id ids =>
            apply (wp_processQueueTasks named load idle).bind
            intro count due idle
            exact idle
    · intro _ due idle
      exact idle
  | scheduledTasks lock queues batchSize now =>
    exact wp_unfinishing (unfinishing_workerQueueScheduledTasks h _ _ _ _) idle
  | expiredTasks => exact wp_unfinishing (Worker.unfinishing_workerQueueExpiredTasks h) idle

end

/-! The trace of a worker. -/

/-- Each command of the trace, with the host as it was in the part of the worker that ran it. -/
def ranParts : List (Host × Routine Unit) → List (Store × Command) → List (Host × Store × Command)
  | [], _ => []
  | (h, p) :: parts, tr =>
      let (own, rest) := consume exec p tr
      own.map (fun y => (h, y)) ++ ranParts parts rest

namespace WorkerProcess

/-- The start-up of the worker and its chores. -/
def parts (w : WorkerProcess) : List (Host × Routine Unit) :=
  (w.startup, w.start) :: w.chores.map (fun (h, chore) => (h, chore.routine h))

def ran (w : WorkerProcess) (tr : List (Store × Command)) : List (Host × Store × Command) :=
  ranParts w.parts tr

theorem routine_eq (w : WorkerProcess) : w.routine = w.parts.forM Prod.snd := by
  have chores : ∀ chores : List (Host × Chore),
      (chores.forM (fun (h, chore) => chore.routine h) : Routine Unit) =
      (chores.map (fun (h, chore) => (h, chore.routine h))).forM Prod.snd := by
    intro chores
    induction chores with
    | nil => rfl
    | cons chore chores ih => exact congrArg (fun p => chore.2.routine chore.1 >>= fun _ => p) ih
  exact congrArg (fun p => w.start >>= fun _ => p) (chores w.chores)

end WorkerProcess

section

variable {x r : String} {due : Prop} {h : Host}

/-- The commands make the calls that are owed, and no others. -/
def Pays (x r : String) : Prop → List (Host × Store × Command) → Option Command → Prop
  | due, [], next => (∃ c ∈ next, c.Reports x) ↔ due
  | due, (h, s, c) :: run, next =>
      (c.Reports x ↔ due) ∧ Pays x r (c.Owes x (h.loadRunner r).isOk s) run next

theorem Pays.append {first rest : List (Host × Store × Command)} {next : Option Command}
    (hfirst : Pays x r due first none) (hrest : Pays x r False rest next) :
    Pays x r due (first ++ rest) next := by
  induction first generalizing due with
  | nil =>
    have idle : due = False := by simpa [Pays] using hfirst
    rwa [idle]
  | cons y first ih => exact ⟨hfirst.1, ih hfirst.2⟩

theorem pays_of_wp {p q : Routine Unit} {tr : List (Store × Command)} {s : Store}
    (hp : Wp exec (reports x r (h.loadRunner r).isOk) Not p due (fun _ due => ¬due))
    (reached : Reaches exec p tr q) (expected : ∀ y ∈ tr, CustomRunner x r y.1)
    (here : CustomRunner x r s) : Pays x r due (tr.map (fun y => (h, y))) q.next := by
  induction reached generalizing due with
  | start p =>
    cases p with
    | ret a =>
      have idle : ¬due := hp
      simpa [Pays, Prog.next] using idle
    | raise e =>
      have idle : ¬due := hp
      simpa [Pays, Prog.next] using idle
    | call i k =>
      have allowed : i.Reports x ↔ due := (hp s here).1
      simpa [Pays, Prog.next] using allowed
  | call t reached ih =>
    obtain ⟨due, rest⟩ := hp t (expected _ List.mem_cons_self)
    exact ⟨due, ih rest (fun y hy => expected y (List.mem_cons_of_mem _ hy))⟩

theorem ranParts_nil (parts : List (Host × Routine Unit)) : ranParts parts [] = [] := by
  induction parts with
  | nil => rfl
  | cons part parts ih =>
    have none : consume exec part.2 [] = ([], []) := (Reaches.start part.2).consume
    simp [ranParts, none, ih]

theorem pays_ranParts {parts : List (Host × Routine Unit)} {tr : List (Store × Command)}
    {q : Routine Unit} {s : Store}
    (hp : ∀ part ∈ parts, Wp exec (reports x r (part.1.loadRunner r).isOk) Not part.2 False
      (fun _ due => ¬due))
    (reached : Reaches exec (parts.forM Prod.snd) tr q)
    (expected : ∀ y ∈ tr, CustomRunner x r y.1) (here : CustomRunner x r s) :
    (ranParts parts tr).map Prod.snd = tr ∧ Pays x r False (ranParts parts tr) q.next := by
  induction parts generalizing tr with
  | nil =>
    obtain ⟨rfl, rfl⟩ := reaches_ret reached
    exact ⟨rfl, by simp [Pays, ranParts, Prog.next]⟩
  | cons part parts ih =>
    obtain ⟨h, p⟩ := part
    have own := hp (h, p) List.mem_cons_self
    rcases reaches_bind_next reached with ⟨p', hp', next⟩ | ⟨first, rest, a, rfl, hfirst, hrest⟩
    · simp only [ranParts, hp'.consume, ranParts_nil, List.append_nil, next]
      exact ⟨by simp [Function.comp_def], pays_of_wp own hp' expected here⟩
    · have consumed := hfirst.consume_append rest
      obtain ⟨same, pays⟩ := ih (fun part hpart => hp part (List.mem_cons_of_mem _ hpart)) hrest
        (fun y hy => expected y (List.mem_append_right _ hy))
      have paid := pays_of_wp own hfirst (fun y hy => expected y (List.mem_append_left _ hy)) here
      simp only [ranParts, consumed]
      refine ⟨?_, paid.append pays⟩
      simp [same, Function.comp_def]

theorem wp_parts {w : WorkerProcess} (named : r ≠ "") :
    ∀ part ∈ w.parts, Wp exec (reports x r (part.1.loadRunner r).isOk) Not part.2 False
      (fun _ due => ¬due) := by
  intro part hpart
  rcases List.mem_cons.mp hpart with rfl | hpart
  · exact wp_unfinishing (unfinishing_queuePeriodicTasks w.startup _ _ _) id
  · obtain ⟨chore, -, rfl⟩ := List.mem_map.mp hpart
    exact wp_chore named rfl id

/-- The call at each point is the one that is owed there. -/
theorem Pays.calls {run : List (Host × Store × Command)} {next : Option Command}
    (hp : Pays x r due run next) :
    ((∃ c ∈ ((run.map Prod.snd).map Prod.snd ++ next.toList)[0]?, c.Reports x) ↔ due) ∧
      ∀ n, (hn : n < run.length) →
        ((∃ c ∈ ((run.map Prod.snd).map Prod.snd ++ next.toList)[n + 1]?, c.Reports x) ↔
          run[n].2.2.Owes x (run[n].1.loadRunner r).isOk run[n].2.1) := by
  induction run generalizing due with
  | nil =>
    refine ⟨?_, fun n hn => absurd hn (Nat.not_lt_zero n)⟩
    cases next <;> simpa [Pays] using hp
  | cons y run ih =>
    obtain ⟨now, later⟩ := ih hp.2
    refine ⟨by simpa using hp.1, ?_⟩
    intro n hn
    cases n with
    | zero => simpa using now
    | succ n => simpa using later n (by simpa using hn)

theorem reported_iff {run : List (Host × Store × Command)} {next : Option Command}
    (hp : Pays x r False run next) :
    Reported x (run.map Prod.snd) next ↔
      ∀ y ∈ run, y.2.2.Fails x y.2.1 → y.2.2.OfFinish ∧ (y.1.loadRunner r).isOk = true := by
  obtain ⟨start, owed⟩ := hp.calls
  constructor
  · rintro ⟨-, follows⟩ y hy fails
    obtain ⟨n, hn, rfl⟩ := List.mem_iff_getElem.mp hy
    have called := (follows n (by simpa using hn)).mp (by simpa using fails)
    exact ((owed n hn).mp called).2
  · intro finishes
    refine ⟨start.mp, ?_⟩
    intro n hn
    have hrun : n < run.length := by simpa using hn
    apply Iff.trans _ (owed n hrun).symm
    simp only [List.getElem_map]
    constructor
    · intro fails
      exact ⟨fails, finishes _ (List.getElem_mem hrun) fails⟩
    · intro owes
      exact owes.1

end

variable {C : Type} [DecidableEq C]

/-- At this point of the run, the workers have reported all moves of the task to ERROR, and nobody
else has made one or called the runner. -/
def ReportsErrors (workers : C → WorkerProcess) (s : Store) (x : String)
    (l : List (PoolEvent C Command)) : Prop :=
  (∀ c, Reported x ((workersAfter workers s l).trace c)
    ((workersAfter workers s l).client c).next) ∧
  ∀ pre i, pre ++ [.other i] <+: l →
    ¬i.Fails x (workersAfter workers s pre).state ∧ ¬i.Reports x

/-- The permanent errors of a task with a runner class are reported exactly when each of its moves
to ERROR is that of _finish_task_processing, none of an expiry, and is made where the worker can load
the runner class. -/
theorem reportsErrors_iff {workers : C → WorkerProcess} {s : Store} {x r : String}
    {l : List (PoolEvent C Command)} (named : r ≠ "")
    (custom : ∀ pre, pre <+: l → CustomRunner x r (workersAfter workers s pre).state)
    (clients : ∀ i, .other i ∈ l → i.OfClient) :
    ReportsErrors workers s x l ↔
      ∀ c, ∀ y ∈ (workers c).ran ((workersAfter workers s l).trace c), y.2.2.Fails x y.2.1 →
        y.2.2.OfFinish ∧ (y.1.loadRunner r).isOk = true := by
  have worker : ∀ c, Reported x ((workersAfter workers s l).trace c)
      ((workersAfter workers s l).client c).next ↔
        ∀ y ∈ (workers c).ran ((workersAfter workers s l).trace c), y.2.2.Fails x y.2.1 →
          y.2.2.OfFinish ∧ (y.1.loadRunner r).isOk = true := by
    intro c
    have expected : ∀ y ∈ (workersAfter workers s l).trace c, CustomRunner x r y.1 := by
      intro y hy
      obtain ⟨pre, hpre, hstate⟩ := Pool.exists_prefix_of_mem_trace hy
      rw [hstate]
      exact custom pre hpre
    have reached := Pool.reaches_run (e := exec) s (fun c => (workers c).routine) l c
    rw [WorkerProcess.routine_eq] at reached
    obtain ⟨same, pays⟩ := pays_ranParts (wp_parts named) reached expected (custom l List.prefix_rfl)
    have reported := reported_iff pays
    rwa [same] at reported
  constructor
  · intro reported c
    exact (worker c).mp (reported.1 c)
  · intro finishes
    refine ⟨fun c => (worker c).mpr (finishes c), ?_⟩
    intro pre i hpre
    have client : i.OfClient := clients i (hpre.subset (by simp))
    cases i with
    | move m => exact ⟨fun fails => client fails.2.1, id⟩
    | permanentError id => exact client.elim
    | _ => exact ⟨id, id⟩

/-! A task with a runner class that fails, and one that expires. -/

def runnerTask : TaskData := { id := "a", func := "tasks:task", runnerClass := some "app:Runner" }

def queuedTask : Store :=
  runAll Store.empty [.delay "default" runnerTask none 1 true]

/-- A worker with one chore. -/
def workerWith (h : Host) (chore : Chore) (_ : Unit) : WorkerProcess where
  onlyQueues := ∅
  excludeQueues := ∅
  periodicTasks := []
  startup := h
  chores := [(h, chore)]

/-- The child process of the task dies. -/
def failingHost : Host := { plainHost with execute := fun _ => .ok ([], false) }

def failingWorker : Unit → WorkerProcess :=
  workerWith failingHost (.fromQueue "default" 1 false 100 101)

theorem loads_workerWith {h : Host} {chore : Chore} (load : h.loadRunner "app:Runner" = .ok ()) :
    ∀ c, ∀ host ∈ (workerWith h chore c).hosts, (host.loadRunner "app:Runner").isOk = true := by
  intro c host hhost
  have same : host = h := by simpa [workerWith, WorkerProcess.hosts] using hhost
  rw [same, load]
  rfl

/-- Pickup, MGET, the failed task's last execution, its move to ERROR and the call. -/
theorem reportsErrors_iff_failed :
    ReportsErrors failingWorker queuedTask "a" (List.replicate 5 (.step ())) := by
  have custom : ∀ pre ∈ (List.replicate 5 (PoolEvent.step ())).inits,
      CustomRunner "a" "app:Runner" (workersAfter failingWorker queuedTask pre).state := by
    decide +kernel
  have finishes : ∀ y ∈ (failingWorker ()).ran ((workersAfter failingWorker queuedTask
      (List.replicate 5 (.step ()))).trace ()), y.2.2.Fails "a" y.2.1 →
        y.2.2.OfFinish ∧ (y.1.loadRunner "app:Runner").isOk = true := by
    decide +kernel
  exact (reportsErrors_iff (by decide)
    (fun pre hpre => custom pre (List.mem_inits _ _ |>.mpr hpre)) (by simp)).mpr (fun _ => finishes)

/-- A worker that died at 2 has left the task in ACTIVE. -/
def leftInActive : Store :=
  runAll queuedTask [.pickup "default" 1 2 3]

def expiringWorker : Unit → WorkerProcess := workerWith plainHost .expiredTasks

/-- The expiry moves the task to ERROR and calls nothing. -/
theorem not_reportsErrors_expired : ¬∀ (workers : Unit → WorkerProcess) (s : Store) (x r : String)
    (l : List (PoolEvent Unit Command)), r ≠ "" →
      (∀ pre, pre <+: l → CustomRunner x r (workersAfter workers s pre).state) →
      (∀ c, ∀ h ∈ (workers c).hosts, (h.loadRunner r).isOk = true) →
      (∀ i, .other i ∈ l → i.OfClient) → ReportsErrors workers s x l := by
  intro hall
  have custom : ∀ pre ∈ (List.replicate 4 (PoolEvent.step ())).inits,
      CustomRunner "a" "app:Runner" (workersAfter expiringWorker leftInActive pre).state := by
    decide +kernel
  have silent : ¬Reported "a"
      ((workersAfter expiringWorker leftInActive (List.replicate 4 (.step ()))).trace ())
      ((workersAfter expiringWorker leftInActive (List.replicate 4 (.step ()))).client ()).next := by
    decide +kernel
  have reported := hall expiringWorker leftInActive "a" "app:Runner" (List.replicate 4 (.step ()))
    (by decide) (fun pre hpre => custom pre (List.mem_inits _ _ |>.mpr hpre))
    (loads_workerWith rfl) (by simp)
  exact silent (reported.1 ())

end TaskTiger
