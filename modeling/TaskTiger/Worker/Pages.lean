import TaskTiger.Framework.Rounding
import TaskTiger.Worker.Task

namespace TaskTiger

open Redis Rounding Interleaving

/-! Task.tasks_from_queue. -/

def microsecond : Time := 1 / 1000000

/-- The datetime of a timestamp lies in the years 1 to 9999. -/
def Dated (t : Time) : Prop :=
  -62135596800 ≤ toMultiple microsecond t ∧ toMultiple microsecond t < 253402300800

instance (t : Time) : Decidable (Dated t) :=
  inferInstanceAs (Decidable (-62135596800 ≤ toMultiple microsecond t ∧
    toMultiple microsecond t < 253402300800))

/-- datetime.utcfromtimestamp, which rounds to microseconds. -/
def utcfromtimestamp (t : Time) : Except String Time :=
  if Dated t then .ok (toMultiple microsecond t) else .error "ValueError"

/-- Task._data as it is loaded: the stored object, or a dict with nothing but the id. -/
inductive LoadedData where
  | stored (d : TaskData)
  | idOnly (id : String)

/-- A Task that has been loaded from a queue. -/
structure LoadedTask where
  queue : String
  state : TaskState
  data : LoadedData
  ts : Time
  executions : List Execution

/-- What the loop zips for an id of the slice. -/
structure LoadedRow where
  id : String
  serializedData : Option TaskData
  executions : List Execution
  ts : Time

section

variable (queue : String) (state : TaskState) (includeNotFound : Bool)

/-- The variable `data` after the two tests: it keeps its value where an object is missing. -/
def loadData (data : Option LoadedData) (row : LoadedRow) : Option LoadedData :=
  match row.serializedData with
  | none => if includeNotFound then some (.idOnly row.id) else data
  | some d => some (.stored d)

/-- The loop over the slice. At first `data` has no value. -/
def loadLoop : Option LoadedData → List LoadedRow → Except String (List LoadedTask)
  | _, [] => .ok []
  | data, row :: rows =>
    match loadData includeNotFound data row with
    | none => .error "UnboundLocalError"
    | some d => (loadLoop (some d) rows).map (⟨queue, state, d, row.ts, row.executions⟩ :: ·)

/-- zip(items, objects, executions, tss). -/
def zipRows (ids : List String) (objects : List (Option TaskData))
    (executions : List (List Execution)) (tss : List Time) : List LoadedRow :=
  (((ids.zip objects).zip executions).zip tss).map (fun (((id, o), e), ts) => ⟨id, o, e, ts⟩)

/-- The block under `if items`. -/
def loadItems (loadExecutions : Nat) (items : List (Time × String)) : Routine (List LoadedTask) := do
  let tss ← Host.call (items.mapM (fun item => utcfromtimestamp item.1))
  let ids := items.map Prod.snd
  if loadExecutions ≠ 0 then do
    let (objects, executions) ← redis (.mgetExecutions ids loadExecutions)
    Host.call (loadLoop queue state includeNotFound none (zipRows ids objects executions tss))
  else do
    let objects ← redis (.mget ids)
    Host.call
      (loadLoop queue state includeNotFound none (zipRows ids objects (ids.map (fun _ => [])) tss))

def tasksFromQueue (skip limit loadExecutions : Nat) : Routine (Nat × List LoadedTask) := do
  let (n, items) ← redis (.zrange state queue (-limit - skip) (-1 - skip))
  let tasks ← if items.isEmpty then pure []
    else loadItems queue state includeNotFound loadExecutions items
  pure (n, tasks)

end

/-! Every Task with its own data. -/

/-- What an entry of the slice becomes, if it becomes anything: a Task with the data that the
store t has for its id. -/
def ownTask (t : Store) (queue : String) (state : TaskState) (includeNotFound : Bool)
    (loadExecutions : Nat) (entry : Time × String) : Option LoadedTask :=
  let data := match t.task entry.2 with
    | some d => some (LoadedData.stored d)
    | none => if includeNotFound then some (.idOnly entry.2) else none
  data.map (fun data => ⟨queue, state, data, toMultiple microsecond entry.1,
    (t.executions entry.2).rtake loadExecutions⟩)

def LoadedTask.withoutExecutions (task : LoadedTask) : LoadedTask := { task with executions := [] }

section

variable {queue : String} {state : TaskState} {includeNotFound : Bool}

theorem mapM_utcfromtimestamp {items : List (Time × String)} (h : ∀ e ∈ items, Dated e.1) :
    items.mapM (fun item => utcfromtimestamp item.1) =
      .ok (items.map (fun e => toMultiple microsecond e.1)) := by
  induction items with
  | nil => rfl
  | cons e items ih =>
    have first : Dated e.1 := h e (by simp)
    have rest := ih (fun x hx => h x (by simp [hx]))
    rw [List.mapM_cons, rest, utcfromtimestamp, if_pos first]
    rfl

theorem mapM_utcfromtimestamp_error {items : List (Time × String)}
    (h : ¬∀ e ∈ items, Dated e.1) :
    items.mapM (fun item => utcfromtimestamp item.1) = .error "ValueError" := by
  induction items with
  | nil => simp at h
  | cons e items ih =>
    rw [List.mapM_cons, utcfromtimestamp]
    by_cases first : Dated e.1
    · have rest : ¬∀ x ∈ items, Dated x.1 := by
        intro hrest
        apply h
        intro x hx
        rcases List.mem_cons.mp hx with rfl | hx
        · exact first
        · exact hrest x hx
      rw [if_pos first, ih rest]
      rfl
    · rw [if_neg first]
      rfl

theorem zipRows_map (items : List (Time × String)) (object : String → Option TaskData)
    (executions : String → List Execution) (ts : Time → Time) :
    zipRows (items.map Prod.snd) ((items.map Prod.snd).map object)
      ((items.map Prod.snd).map executions) (items.map (fun e => ts e.1)) =
        items.map (fun e => ⟨e.2, object e.2, executions e.2, ts e.1⟩) := by
  induction items with
  | nil => rfl
  | cons e items ih => exact congrArg (List.cons _) ih

/-- Each row gives one Task, whatever its data are. -/
theorem length_loadLoop {data : Option LoadedData} {rows : List LoadedRow}
    {tasks : List LoadedTask}
    (h : loadLoop queue state includeNotFound data rows = .ok tasks) :
    tasks.length = rows.length := by
  induction rows generalizing data tasks with
  | nil =>
    obtain rfl : [] = tasks := by simpa [loadLoop] using h
    rfl
  | cons row rows ih =>
    rw [loadLoop] at h
    cases hdata : loadData includeNotFound data row with
    | none => simp [hdata] at h
    | some d =>
      simp only [hdata] at h
      cases hrest : loadLoop queue state includeNotFound (some d) rows with
      | error e => simp [hrest, Except.map] at h
      | ok rest =>
        obtain rfl : _ :: rest = tasks := by simpa [hrest, Except.map] using h
        simp [ih hrest]

/-- What the loop zips for an entry of the slice. -/
def rowOf (t : Store) (loadExecutions : Nat) (entry : Time × String) : LoadedRow :=
  ⟨entry.2, t.task entry.2, (t.executions entry.2).rtake loadExecutions,
    toMultiple microsecond entry.1⟩

theorem loadLoop_own {t : Store} {loadExecutions : Nat} {items : List (Time × String)}
    (h : includeNotFound = true ∨ ∀ e ∈ items, (t.task e.2).isSome = true)
    (data : Option LoadedData) :
    loadLoop queue state includeNotFound data (items.map (rowOf t loadExecutions)) =
      .ok (items.filterMap (ownTask t queue state includeNotFound loadExecutions)) := by
  induction items generalizing data with
  | nil => rfl
  | cons e items ih =>
    have rest := ih (h.imp_right (fun hall x hx => hall x (by simp [hx])))
    have found : ∃ d, loadData includeNotFound data (rowOf t loadExecutions e) = some d ∧
        ownTask t queue state includeNotFound loadExecutions e =
          some ⟨queue, state, d, toMultiple microsecond e.1,
            (t.executions e.2).rtake loadExecutions⟩ := by
      cases ho : t.task e.2 with
      | some d => exact ⟨.stored d, by simp [loadData, rowOf, ho], by simp [ownTask, ho]⟩
      | none =>
        have included : includeNotFound = true := by
          apply h.resolve_right
          intro hall
          have := hall e (by simp)
          rw [ho] at this
          cases this
        exact ⟨.idOnly e.2, by simp [loadData, rowOf, ho, included],
          by simp [ownTask, ho, included]⟩
    obtain ⟨d, hload, hown⟩ := found
    rw [List.map_cons, loadLoop, hload, List.filterMap_cons, hown]
    simp only [rest]
    rfl

/-- Leaving a task out makes the list shorter than the slice. -/
theorem length_ownTasks_lt (queue : String) (state : TaskState) (loadExecutions : Nat) {t : Store}
    {items : List (Time × String)} (hinclude : includeNotFound = false) {e : Time × String} (he : e ∈ items)
    (missing : t.task e.2 = none) :
    (items.filterMap (ownTask t queue state includeNotFound loadExecutions)).length <
      items.length := by
  have left : ownTask t queue state includeNotFound loadExecutions e = none := by
    simp [ownTask, missing, hinclude]
  exact List.length_filterMap_lt_length_iff_exists.mpr ⟨e, he, left⟩

theorem go_call (env : Nat → List Command) (x : Except String α) (n : Nat) (s : Store) :
    Prog.go exec env (Host.call x) n s = ⟨x.mapError Exn.raised, s, []⟩ := by
  cases x <;> rfl

/-- What the block returns, when other clients run before its round trip. -/
theorem result_loadItems {env : Nat → List Command} {n : Nat} {s : Store} (loadExecutions : Nat)
    (items : List (Time × String)) :
    (Prog.go exec env (loadItems queue state includeNotFound loadExecutions items) n s).result =
      match items.mapM (fun item => utcfromtimestamp item.1) with
      | .error name => .error (.raised name)
      | .ok _ => (loadLoop queue state includeNotFound none
          (items.map (rowOf (runAll s (env n)) loadExecutions))).mapError Exn.raised := by
  by_cases dated : ∀ e ∈ items, Dated e.1
  · rw [loadItems, mapM_utcfromtimestamp dated]
    change (Prog.go exec env (if loadExecutions ≠ 0 then _ else _) n s).result = _
    by_cases hload : loadExecutions = 0
    · have rows := zipRows_map items (runAll s (env n)).task (fun _ => []) (toMultiple microsecond)
      have no_executions : rowOf (runAll s (env n)) 0 = fun e =>
          ⟨e.2, (runAll s (env n)).task e.2, [], toMultiple microsecond e.1⟩ := by
        funext e
        simp [rowOf]
      rw [if_neg (not_not.mpr hload), redis, Prog.go_ask_bind, hload, no_executions]
      simp only [exec, rows, go_call]
    · have rows := zipRows_map items (runAll s (env n)).task
        (fun id => ((runAll s (env n)).executions id).rtake loadExecutions) (toMultiple microsecond)
      rw [if_pos hload, redis, Prog.go_ask_bind]
      simp only [exec, rows, go_call]
      rfl
  · rw [loadItems, mapM_utcfromtimestamp_error dated]
    rfl

/-- The call reads the page first, and then its tasks. -/
theorem result_tasksFromQueue {env : Nat → List Command} {n : Nat} {s : Store} (queue : String)
    (state : TaskState) (includeNotFound : Bool) (skip : Nat) {limit : Nat}
    (loadExecutions : Nat) (hl : 0 < limit) :
    (Prog.go exec env (tasksFromQueue queue state includeNotFound skip limit loadExecutions)
        n s).result =
      (Prog.go exec env (loadItems queue state includeNotFound loadExecutions
        (((runAll s (env n)).zset state queue).slice skip limit)) (n + 1)
          (runAll s (env n))).result.map
            (fun tasks => (((runAll s (env n)).zset state queue).card, tasks)) := by
  have page : exec (.zrange state queue (-limit - skip) (-1 - skip)) (runAll s (env n)) =
      ((((runAll s (env n)).zset state queue).card,
        ((runAll s (env n)).zset state queue).slice skip limit), runAll s (env n)) := by
    simp only [exec]
    rw [ZSet.range_eq_slice _ _ hl]
  rw [tasksFromQueue, redis, Prog.go_ask_bind]
  simp only [page]
  split_ifs with hempty
  · rw [List.isEmpty_iff.mp hempty, result_loadItems]
    rfl
  · exact Prog.result_bind_pure

/-- Every call for this slice returns its tasks with their own data. -/
structure LoadsOwn (env : Nat → List Command) (n : Nat) (s : Store) (queue : String)
    (state : TaskState) (includeNotFound : Bool) (skip limit : Nat) : Prop where
  own : ∀ loadExecutions,
    (Prog.go exec env (tasksFromQueue queue state includeNotFound skip limit loadExecutions)
      n s).result =
      .ok (((runAll s (env n)).zset state queue).card,
        (((runAll s (env n)).zset state queue).slice skip limit).filterMap
          (ownTask (runAll (runAll s (env n)) (env (n + 1))) queue state includeNotFound
            loadExecutions))
  agree : ∀ loadExecutions,
    (Prog.go exec env (tasksFromQueue queue state includeNotFound skip limit loadExecutions)
      n s).result.map (fun (count, tasks) => (count, tasks.map LoadedTask.withoutExecutions)) =
      (Prog.go exec env (tasksFromQueue queue state includeNotFound skip limit 0) n s).result

/-- What a call needs of its slice: dates, and an object for each id unless those without one are
asked for. -/
def Loadable (t : Store) (includeNotFound : Bool) (items : List (Time × String)) : Prop :=
  (∀ e ∈ items, Dated e.1) ∧
    (includeNotFound = true ∨ ∀ e ∈ items, (t.task e.2).isSome = true)

theorem ownTask_withoutExecutions (t : Store) (loadExecutions : Nat) (items : List (Time × String)) :
    (items.filterMap (ownTask t queue state includeNotFound loadExecutions)).map
      LoadedTask.withoutExecutions =
        items.filterMap (ownTask t queue state includeNotFound 0) := by
  rw [List.map_filterMap]
  congr 1
  funext e
  simp [ownTask, Function.comp_def, LoadedTask.withoutExecutions]

theorem result_of_loadable {env : Nat → List Command} {n : Nat} {s : Store}
    {items : List (Time × String)} (loadExecutions : Nat)
    (h : Loadable (runAll s (env n)) includeNotFound items) :
    (Prog.go exec env (loadItems queue state includeNotFound loadExecutions items) n s).result =
      .ok (items.filterMap
        (ownTask (runAll s (env n)) queue state includeNotFound loadExecutions)) := by
  rw [result_loadItems, mapM_utcfromtimestamp h.1, loadLoop_own h.2]
  rfl

theorem dated_of_result {env : Nat → List Command} {n : Nat} {s : Store}
    {items : List (Time × String)} {loadExecutions : Nat} {tasks : List LoadedTask}
    (h : (Prog.go exec env (loadItems queue state includeNotFound loadExecutions items) n s).result =
      .ok tasks) : ∀ e ∈ items, Dated e.1 := by
  by_contra undated
  rw [result_loadItems, mapM_utcfromtimestamp_error undated] at h
  cases h

theorem loadable_of_result {env : Nat → List Command} {n : Nat} {s : Store}
    {items : List (Time × String)} {loadExecutions : Nat}
    (h : (Prog.go exec env (loadItems queue state includeNotFound loadExecutions items) n s).result =
      .ok (items.filterMap
        (ownTask (runAll s (env n)) queue state includeNotFound loadExecutions))) :
    Loadable (runAll s (env n)) includeNotFound items := by
  have dated := dated_of_result h
  refine ⟨dated, ?_⟩
  rw [result_loadItems, mapM_utcfromtimestamp dated] at h
  cases hinclude : includeNotFound with
  | true => exact Or.inl rfl
  | false =>
    right
    intro e he
    by_contra missing
    have ho : (runAll s (env n)).task e.2 = none := by simpa using missing
    have shorter := length_ownTasks_lt queue state loadExecutions hinclude he ho
    cases hloop : loadLoop queue state includeNotFound none
        (items.map (rowOf (runAll s (env n)) loadExecutions)) with
    | error name => simp [hloop, Except.mapError] at h
    | ok tasks =>
      have length := length_loadLoop hloop
      have same : tasks = items.filterMap
          (ownTask (runAll s (env n)) queue state includeNotFound loadExecutions) := by
        simpa [hloop, Except.mapError] using h
      rw [same, List.length_map] at length
      omega

theorem LoadsOwn.loadable {env : Nat → List Command} {n : Nat} {s : Store} {skip limit : Nat}
    (h : LoadsOwn env n s queue state includeNotFound skip limit) (hl : 0 < limit) :
    Loadable (runAll (runAll s (env n)) (env (n + 1))) includeNotFound
      (((runAll s (env n)).zset state queue).slice skip limit) := by
  have first := h.own 0
  rw [result_tasksFromQueue queue state includeNotFound skip 0 hl] at first
  have loaded : (Prog.go exec env (loadItems queue state includeNotFound 0
      (((runAll s (env n)).zset state queue).slice skip limit)) (n + 1)
        (runAll s (env n))).result = .ok ((((runAll s (env n)).zset state queue).slice skip
          limit).filterMap (ownTask (runAll (runAll s (env n)) (env (n + 1))) queue state
            includeNotFound 0)) := by
    revert first
    cases (Prog.go exec env (loadItems queue state includeNotFound 0
      (((runAll s (env n)).zset state queue).slice skip limit)) (n + 1)
        (runAll s (env n))).result with
    | error e => simp [Except.map]
    | ok tasks => simp [Except.map]
  exact loadable_of_result loaded

/-- tasks_from_queue returns each task with its own data exactly when no object is missing, or
those that are missing are asked for. -/
theorem loadsOwn_iff (env : Nat → List Command) (n : Nat) (s : Store) (queue : String)
    (state : TaskState) (includeNotFound : Bool) (skip : Nat) {limit : Nat} (hl : 0 < limit) :
    LoadsOwn env n s queue state includeNotFound skip limit ↔
      Loadable (runAll (runAll s (env n)) (env (n + 1))) includeNotFound
        (((runAll s (env n)).zset state queue).slice skip limit) := by
  constructor
  · intro h
    exact h.loadable hl
  · intro h
    have own : ∀ loadExecutions, _ := fun loadExecutions =>
      (result_tasksFromQueue queue state includeNotFound skip loadExecutions hl).trans
        (congrArg _ (result_of_loadable loadExecutions h))
    refine ⟨own, ?_⟩
    intro loadExecutions
    rw [own, own]
    simp [Except.map, ownTask_withoutExecutions]

/-! A client that loads tasks alone. -/

def Command.Reads : Command → Prop
  | .zrange .. | .mget _ | .mgetExecutions .. => True
  | _ => False

theorem Command.Reads.exec_eq {c : Command} (h : c.Reads) (s : Store) : (exec c s).2 = s := by
  cases c with
  | zrange => rfl
  | mget => rfl
  | mgetExecutions => rfl
  | _ => exact h.elim

theorem reads_call {α : Type} (x : Except String α) : Prog.Issues Command.Reads (Host.call x) := by
  cases x <;> trivial

theorem reads_tasksFromQueue (skip limit loadExecutions : Nat) : Prog.Issues Command.Reads
    (tasksFromQueue queue state includeNotFound skip limit loadExecutions) := by
  apply Prog.issues_bind (Prog.issues_ask trivial)
  rintro ⟨count, items⟩
  apply Prog.issues_ite
  · trivial
  · apply Prog.issues_bind
    · apply Prog.issues_bind (reads_call _)
      intro tss
      apply Prog.issues_ite
      · exact Prog.issues_bind (Prog.issues_ask trivial) (fun _ => reads_call _)
      · exact Prog.issues_bind (Prog.issues_ask trivial) (fun _ => reads_call _)
    · intro tasks
      trivial

theorem returns_tasksFromQueue {s : Store} {skip limit : Nat} (loadExecutions : Nat)
    (hl : 0 < limit) (h : Loadable s includeNotFound ((s.zset state queue).slice skip limit)) :
    Prog.Returns exec
      (tasksFromQueue queue state includeNotFound skip limit loadExecutions) s
      ((s.zset state queue).card, ((s.zset state queue).slice skip limit).filterMap
        (ownTask s queue state includeNotFound loadExecutions)) s := by
  intro n
  refine ⟨?_, (reads_tasksFromQueue skip limit loadExecutions).state_eq
    (fun c hc => hc.exec_eq) n s⟩
  have loaded : (Prog.go exec (fun _ => []) (loadItems queue state includeNotFound loadExecutions
      ((s.zset state queue).slice skip limit)) (n + 1) s).result = _ :=
    result_of_loadable loadExecutions h
  rw [result_tasksFromQueue queue state includeNotFound skip loadExecutions hl]
  exact congrArg _ loaded

end

/-- Two failed tasks; the object of the second one is missing. -/
def secondMissing : Store :=
  ((Store.empty.setZset .error "default" ((ZSet.empty.add 10 "u").add 20 "v")).sadd .error
    "default").setTask "u" (some { id := "u", func := "tasks:exception_task" })

theorem loadsOwn_iff_asked : LoadsOwn (fun _ => []) 0 secondMissing "default" .error true 0 1000 := by
  refine (loadsOwn_iff (fun _ => []) 0 secondMissing "default" .error true 0 (by norm_num)).mpr ?_
  exact ⟨by decide +kernel, Or.inl rfl⟩

theorem not_loadsOwn_secondMissing : ¬∀ (env : Nat → List Command) (n : Nat) (s : Store)
    (queue : String) (state : TaskState) (includeNotFound : Bool) (skip limit : Nat), 0 < limit →
      LoadsOwn env n s queue state includeNotFound skip limit := by
  intro hall
  have own := hall (fun _ => []) 0 secondMissing "default" .error false 0 1000 (by norm_num)
  obtain ⟨-, included | found⟩ := own.loadable (by norm_num)
  · cases included
  · have entry : ((20 : Time), "v") ∈ (secondMissing.zset .error "default").slice 0 1000 := by
      decide +kernel
    have := found _ entry
    revert this
    decide +kernel

end TaskTiger
