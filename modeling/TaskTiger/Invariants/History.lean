import TaskTiger.Invariants.Conservation
import TaskTiger.Store.MoveTask

namespace TaskTiger

open Redis Interleaving

variable {x : String} {s : Store}

/-! The stored executions of one id. -/

/-- The move deletes the stored executions of the id. -/
def Command.ClearsHistory (x : String) (s : Store) : Command → Prop
  | .move m => m.Effective s ∧ m.id = x ∧ m.kind.toState = none ∧ m.args.DeletesExecutions s
  | _ => False

/-- The entry that the command stores for the id. -/
def Command.entryFor (x : String) : Command → Option Execution
  | .storeExecution id _ e => if id = x then some e else none
  | _ => none

theorem entryFor_eq_some {c : Command} {e : Execution} (h : c.entryFor x = some e) :
    ∃ m, c = .storeExecution x m e := by
  cases c with
  | storeExecution id m e' =>
    simp only [Command.entryFor, Option.ite_none_right_eq_some, Option.some.injEq] at h
    exact ⟨m, by rw [h.1, h.2]⟩
  | _ => simp [Command.entryFor] at h

/-- The executions of an id change by its own entries and where a move deletes them. -/
theorem executions_unchanged {c : Command} (silent : c.entryFor x = none)
    (kept : ¬c.ClearsHistory x s) : (exec c s).2.executions x = s.executions x ∧
      (exec c s).2.executionsCount x = s.executionsCount x := by
  cases c with
  | delay queue data ts now publish =>
    simp only [exec, delayPipeline]
    split_ifs <;> exact ⟨rfl, rfl⟩
  | pickup queue count now later =>
    have same := executions_zpoppushExists (pickupArgs queue count now later) s
    exact ⟨congrFun same.1 x, congrFun same.2 x⟩
  | promote queue count now =>
    have same := executions_zpoppushExists (promoteArgs queue count now) s
    exact ⟨congrFun same.1 x, congrFun same.2 x⟩
  | move m =>
    by_cases he : m.Effective s
    · exact (executions_moveTask he.not_raises).2 (fun h => kept ⟨he, h.1.symm, h.2⟩)
    · rw [exec_move_of_not_effective he]
      exact ⟨rfl, rfl⟩
  | updateScheduledTime number queue id ts =>
    change (updateScheduledTime number queue id ts s).2.executions x = _ ∧
      (updateScheduledTime number queue id ts s).2.executionsCount x = _
    cases update_effect number queue id ts s <;> rename_i result <;> rw [result] <;>
      exact ⟨rfl, rfl⟩
  | storeExecution id maxStored e =>
    have hx : x ≠ id := by
      rintro rfl
      simp [Command.entryFor] at silent
    simp [exec, storeExecution, hx]
  | acquireLock name token =>
    simp only [exec]
    cases s.locks name <;> exact ⟨rfl, rfl⟩
  | releaseLock name token =>
    simp only [exec]
    split_ifs <;> exact ⟨rfl, rfl⟩
  | _ => exact ⟨rfl, rfl⟩

theorem executions_cleared {m : Move} (h : Command.ClearsHistory x s (.move m)) :
    (exec (.move m) s).2.executions x = [] ∧ (exec (.move m) s).2.executionsCount x = none := by
  obtain ⟨he, rfl, hto, hdel⟩ := h
  exact (executions_moveTask he.not_raises).1 ⟨rfl, hto, hdel⟩

/-! Counting and truncating. -/

/-- What a limit leaves of the entries that were stored: the last ones. -/
def lastEntries (limit : Option ℕ) (stored : List Execution) : List Execution :=
  match limit with
  | none => stored
  | some m => stored.rtake m

theorem length_lastEntries (limit : Option ℕ) (stored : List Execution) :
    (lastEntries limit stored).length = (limit.map (min stored.length)).getD stored.length := by
  cases limit with
  | none => rfl
  | some m =>
    simp only [lastEntries, List.rtake, List.length_drop, Option.map_some, Option.getD_some]
    omega

/-- An entry that was cut off earlier would be cut off later too. -/
theorem lastEntries_concat (limit : Option ℕ) (stored : List Execution) (e : Execution) :
    lastEntries limit (lastEntries limit stored ++ [e]) = lastEntries limit (stored ++ [e]) := by
  cases limit with
  | none => rfl
  | some m =>
    cases m with
    | zero => simp [lastEntries, List.rtake_zero]
    | succ m =>
      have again : (stored.rtake (m + 1)).rtake m = stored.rtake m := by
        simp only [List.rtake, List.length_drop, List.drop_drop]
        congr 1
        omega
      simp only [lastEntries, List.rtake_concat_succ, again]

theorem getLast_lastEntries {limit : Option ℕ} (hlimit : limit ≠ some 0)
    (stored : List Execution) : (lastEntries limit stored).getLast? = stored.getLast? := by
  induction stored using List.reverseRecOn with
  | nil => cases limit <;> simp [lastEntries, List.rtake_nil]
  | append_singleton stored e _ =>
    cases limit with
    | none => rfl
    | some m =>
      cases m with
      | zero => exact absurd rfl hlimit
      | succ m => simp [lastEntries, List.rtake_concat_succ]

/-- The history of an id after these entries: counted, truncated and with the last one last. -/
structure History (x : String) (limit : Option ℕ) (stored : List Execution) (s : Store) :
    Prop where
  count : (s.executionsCount x).getD 0 = stored.length
  kept : s.executions x = lastEntries limit stored
  recent : s.executions x ≠ [] → (s.executions x).getLast? = stored.getLast?

/-- max_stored_executions of zero is no limit for store_task_execution. -/
def effectiveLimit : Option ℕ → Option ℕ
  | some (m + 1) => some (m + 1)
  | _ => none

theorem effectiveLimit_ne_zero (maxStored : Option ℕ) : effectiveLimit maxStored ≠ some 0 := by
  cases maxStored with
  | none => simp [effectiveLimit]
  | some m => cases m <;> simp [effectiveLimit]

theorem executions_storeExecution (maxStored : Option ℕ) (e : Execution) :
    (storeExecution x (maxStored.map Int.ofNat) e s).executions x =
      lastEntries (effectiveLimit maxStored) (s.executions x ++ [e]) := by
  cases maxStored with
  | none => simp [storeExecution, effectiveLimit, lastEntries]
  | some m =>
    cases m with
    | zero => simp [storeExecution, effectiveLimit, lastEntries]
    | succ m =>
      have positive : ((m : Int) + 1) ≠ 0 := by omega
      have nonneg : (0 : Int) ≤ m + 1 := by omega
      simp [storeExecution, effectiveLimit, lastEntries, positive, ltrim, nonneg, List.rtake]

/-- The step stores with this limit, if anything, and does not delete the history. -/
def Command.KeepsHistory (x : String) (maxStored : Option ℕ) (s : Store) (c : Command) : Prop :=
  (∀ m e, c = .storeExecution x m e → m = maxStored.map Int.ofNat) ∧ ¬c.ClearsHistory x s

theorem history_step {maxStored : Option ℕ} {stored : List Execution} {c : Command}
    (h : History x (effectiveLimit maxStored) stored s) (keeps : c.KeepsHistory x maxStored s) :
    History x (effectiveLimit maxStored) (stored ++ (c.entryFor x).toList) (exec c s).2 := by
  cases hentry : c.entryFor x with
  | none =>
    obtain ⟨executions, count⟩ := executions_unchanged hentry keeps.2
    rw [Option.toList_none, List.append_nil]
    exact ⟨count ▸ h.count, executions ▸ h.kept, executions ▸ h.recent⟩
  | some e =>
    obtain ⟨m, rfl⟩ := entryFor_eq_some hentry
    rw [keeps.1 m e rfl, Option.toList_some]
    have kept : (exec (.storeExecution x (maxStored.map Int.ofNat) e) s).2.executions x =
        lastEntries (effectiveLimit maxStored) (stored ++ [e]) := by
      change (storeExecution x (maxStored.map Int.ofNat) e s).executions x = _
      rw [executions_storeExecution, h.kept, lastEntries_concat]
    refine ⟨?_, kept, fun _ => ?_⟩
    · simp [exec, storeExecution, h.count]
    · rw [kept, getLast_lastEntries (effectiveLimit_ne_zero maxStored)]

theorem history_from {maxStored : Option ℕ} {stored : List Execution} {l : List Command}
    (h : History x (effectiveLimit maxStored) stored s)
    (keeps : Throughout (Command.KeepsHistory x maxStored) s l) :
    History x (effectiveLimit maxStored) (stored ++ l.filterMap (Command.entryFor x))
      (runAll s l) := by
  induction l generalizing s stored with
  | nil => simpa using h
  | cons c l ih =>
    have rest := ih (history_step h keeps.1) keeps.2
    have entries : (c :: l).filterMap (Command.entryFor x) =
        (c.entryFor x).toList ++ l.filterMap (Command.entryFor x) := by
      cases hentry : c.entryFor x with
      | none => rw [List.filterMap_cons_none hentry]; rfl
      | some e => rw [List.filterMap_cons_some hentry]; rfl
    rw [entries, ← List.append_assoc]
    exact rest

/-- From an id without a history on, the counter is the number of entries that were stored, and
the list holds the last of them, all of them where max_stored_executions is absent or zero. -/
theorem history_run (maxStored : Option ℕ) {l : List Command}
    (none_stored : s.executions x = [] ∧ s.executionsCount x = none)
    (keeps : Throughout (Command.KeepsHistory x maxStored) s l) :
    History x (effectiveLimit maxStored) (l.filterMap (Command.entryFor x)) (runAll s l) := by
  have start : History x (effectiveLimit maxStored) [] s := by
    refine ⟨by simp [none_stored.2], ?_, fun h => absurd none_stored.1 h⟩
    cases effectiveLimit maxStored <;> simp [none_stored.1, lastEntries, List.rtake_nil]
  simpa using history_from start keeps

/-- Executions are stored with this limit, and a heartbeat comes between them. -/
def failure (time : Time) : Execution :=
  { exceptionName := "builtins:Exception", timeStarted := time, timeFailed := time }

def threeFailures (maxStored : Option ℕ) : List Command :=
  [.storeExecution "a" (maxStored.map Int.ofNat) (failure 1),
    .heartbeat "default" ["a"] 2,
    .storeExecution "a" (maxStored.map Int.ofNat) (failure 3),
    .storeExecution "a" (maxStored.map Int.ofNat) (failure 4)]

theorem keepsHistory_threeFailures (maxStored : Option ℕ) (s : Store) :
    Throughout (Command.KeepsHistory "a" maxStored) s (threeFailures maxStored) := by
  apply along_iff.mpr
  intro pre c post hl
  have hc : c ∈ threeFailures maxStored := by simp [hl]
  simp only [threeFailures, List.mem_cons, List.not_mem_nil, or_false] at hc
  rcases hc with rfl | rfl | rfl | rfl <;> simp [Command.KeepsHistory, Command.ClearsHistory]

theorem history_run_two : History "a" (effectiveLimit (some 2))
    ((threeFailures (some 2)).filterMap (Command.entryFor "a"))
    (runAll Store.empty (threeFailures (some 2))) :=
  history_run (some 2) ⟨rfl, rfl⟩ (keepsHistory_threeFailures (some 2) Store.empty)

/-- With max_stored_executions=0 all the executions are kept. -/
theorem not_history_zero : ¬∀ (x : String) (maxStored : Option ℕ) (s : Store) (l : List Command),
    s.executions x = [] ∧ s.executionsCount x = none →
      Throughout (Command.KeepsHistory x maxStored) s l →
        History x maxStored (l.filterMap (Command.entryFor x)) (runAll s l) := by
  intro hall
  have kept := (hall "a" (some 0) Store.empty (threeFailures (some 0)) ⟨rfl, rfl⟩
    (keepsHistory_threeFailures (some 0) Store.empty)).kept
  have length := congrArg List.length kept
  have three : ((runAll Store.empty (threeFailures (some 0))).executions "a").length = 3 := by
    decide +kernel
  rw [three, length_lastEntries] at length
  simp at length

/-! The history and the task object. -/

/-- An id with executions or a count has its object. -/
def HistoryOwned (s : Store) : Prop :=
  ∀ x, s.executions x ≠ [] ∨ s.executionsCount x ≠ none → s.task x ≠ none

/-- An execution is stored for a task that still has its object. -/
def Command.StoresOwned (s : Store) : Command → Prop
  | .storeExecution id _ _ => s.task id ≠ none
  | _ => True

/-- A move that deletes the object deletes the history too. -/
theorem clearsHistory_of_deletes {m : Move} (h : m.Deletes s) :
    Command.ClearsHistory m.id s (.move m) := by
  obtain ⟨he, hto, hdel⟩ := h
  refine ⟨he, rfl, hto, fun hu => ?_⟩
  by_cases hfrom : m.kind.fromState = .error
  · exact Or.inl hfrom
  · exact Or.inr (hdel hu .error (Ne.symm hfrom))

theorem historyOwned_step {c : Command} (h : HistoryOwned s) :
    HistoryOwned (exec c s).2 ↔ c.StoresOwned s := by
  constructor
  · intro owned
    cases c with
    | storeExecution id m e =>
      have stored := owned id (Or.inr (by simp [exec, storeExecution]))
      exact stored
    | _ => trivial
  · intro hstores x hx
    by_cases hclear : c.ClearsHistory x s
    · cases c with
      | move m =>
        have cleared := executions_cleared hclear
        simp [cleared.1, cleared.2] at hx
      | _ => exact hclear.elim
    · have object : s.task x ≠ none := by
        cases hentry : c.entryFor x with
        | some e =>
          obtain ⟨m, rfl⟩ := entryFor_eq_some hentry
          exact hstores
        | none =>
          obtain ⟨executions, count⟩ := executions_unchanged hentry hclear
          rw [executions, count] at hx
          exact h x hx
      by_cases hdelay : c.Delays x
      · cases c with
        | delay queue data ts now publish =>
          obtain rfl : data.id = x := hdelay
          simp [task_delay]
        | _ => exact hdelay.elim
      · rw [Ne, task_step hdelay, not_or]
        refine ⟨object, ?_⟩
        rintro ⟨m, rfl, hdel, rfl⟩
        exact hclear (clearsHistory_of_deletes hdel)

/-- No history outlives its task exactly when every execution that is stored finds the object of
its task. -/
theorem historyOwned_run (l : List Command) :
    (∀ pre, pre <+: l → HistoryOwned (runAll Store.empty pre)) ↔
      Throughout (fun s c => c.StoresOwned s) Store.empty l := by
  have start : HistoryOwned Store.empty := by
    intro x hx
    simp [Store.empty] at hx
  exact run_invariant_iff (fun _ _ _ h => historyOwned_step h) start

/-- A slow worker's task expires and is done elsewhere; then the slow worker's child fails. -/
def lateExecution : List Command :=
  [.delay "default" { id := "a", func := "tasks:simple_task" } none 1 true,
    .pickup "default" 1 2 3,
    .move ⟨.requeueExpired, "default", "a", false, 400, true⟩,
    .pickup "default" 1 401 402,
    .move ⟨.done, "default", "a", false, 403, true⟩,
    .storeExecution "a" none (failure 404)]

theorem not_historyOwned_lateExecution : ¬∀ l : List Command,
    ∀ pre, pre <+: l → HistoryOwned (runAll Store.empty pre) := by
  intro hall
  have counted : (runAll Store.empty lateExecution).executionsCount "a" ≠ none := by
    decide +kernel
  have gone : (runAll Store.empty lateExecution).task "a" = none := by
    rfl
  exact hall lateExecution lateExecution List.prefix_rfl "a" (Or.inr counted) gone

end TaskTiger
