import TaskTiger.Worker.TaskLocks

namespace TaskTiger

open Redis Interleaving Prog Worker

/-- A call of _execute_task_group by some worker; its executor does not touch the locks' owners. -/
structure GroupCall where
  host : Host
  tasks : List Task
  execute : List Task → Routine Bool
  lockFree : ∀ ready, Issues Command.LockFree (execute ready)

namespace GroupCall

def routine (g : GroupCall) : Routine (Bool × List Task) :=
  executeTaskGroupWith g.host g.execute g.tasks

/-- The call as the worker makes it. -/
def ofWorker (h : Host) (queue : String) (tasks : List Task) : GroupCall where
  host := h
  tasks := tasks
  execute := executor h queue
  lockFree := lockFree_executor queue

theorem routine_ofWorker (h : Host) (queue : String) (tasks : List Task) :
    (ofWorker h queue tasks).routine = executeTaskGroup h queue tasks :=
  (executeTaskGroup_eq queue tasks).symm

end GroupCall

variable {C : Type}

/-- The calls of any number of workers, interleaved with each other and with other clients. -/
abbrev CallPool (C : Type) := Pool C Store Command Reply Exn (Bool × List Task)

def poolAfter [DecidableEq C] (calls : C → GroupCall) (s : Store) (l : List (PoolEvent C Command)) :
    CallPool C :=
  run (Pool.exec exec) (Pool.start s (fun c => (calls c).routine)) l

/-- The token a Lock is acquired with is its own. -/
structure OwnTokens (calls : C → GroupCall) (s : Store) : Prop where
  distinct : ∀ c d name, (calls c).host.token name = (calls d).host.token name → c = d
  unused : ∀ c name, s.locks name ≠ some ((calls c).host.token name)

/-- A lock of a call that runs does not expire, and nobody else uses its token. -/
def LocksLast (calls : C → GroupCall) (pool : CallPool C) : PoolEvent C Command → Prop
  | .step _ => True
  | .other (.acquireLock name token) => ∀ c, token ≠ (calls c).host.token name
  | .other (.releaseLock name token) => ∀ c, token ≠ (calls c).host.token name
  | .other (.expireLock name) =>
      ∀ c, pool.Running c → pool.state.locks name ≠ some ((calls c).host.token name)
  | .other _ => True

/-- The call is inside executor.execute with these tasks. -/
def Executing (calls : C → GroupCall) (pool : CallPool C) (c : C) (ready : List Task) : Prop :=
  ∃ locks q, Inside (calls c).host (calls c).execute (calls c).tasks (pool.trace c) (pool.client c)
    ready locks q

/-- The locks in the store with a call's token are those it holds, as long as it runs. -/
structure Held (calls : C → GroupCall) (pool : CallPool C) : Prop where
  own : ∀ c, Issues (OwnLocks (calls c).host) (pool.client c)
  held : ∀ c name, pool.Running c → name ∈ heldAfter (pool.trace c) →
    pool.state.locks name = some ((calls c).host.token name)
  kept : ∀ c name, pool.state.locks name = some ((calls c).host.token name) →
    name ∈ heldAfter (pool.trace c)

section Step

variable {calls : C → GroupCall} {pool : CallPool C}

theorem held_start {s : Store} (ht : OwnTokens calls s) :
    Held calls (Pool.start s (fun c => (calls c).routine)) where
  own c := ownLocks_executeTaskGroup (calls c).lockFree
  held c name _ hin := by simp [Pool.start, heldAfter] at hin
  kept c name hs := absurd hs (ht.unused c name)

theorem heldAfter_concat (tr : List (Store × Command)) (x : Store × Command) :
    heldAfter (tr ++ [x]) = holding (heldAfter tr) x := List.foldl_append

theorem holding_of_lockFree {c : Command} (hc : c.LockFree) (held : List String) (s : Store) :
    holding held (s, c) = held := by
  have free : ∀ x ∈ [(s, c)], x.2.LockFree := by simpa using hc
  exact (lockFree_trace free).2.2 held

/-- All a command can do with the locks. -/
inductive LocksChange (c : Command) (s : Store) : Prop where
  | none (same : (exec c s).2.locks = s.locks)
  | taken (name token : String) (command : c = .acquireLock name token)
      (idle : s.locks name = none)
      (locks : (exec c s).2.locks = fun x => if x = name then some token else s.locks x)
  | dropped (name : String)
      (command : (∃ token, c = .releaseLock name token ∧ s.locks name = some token) ∨
        c = .expireLock name)
      (locks : (exec c s).2.locks = fun x => if x = name then Option.none else s.locks x)

theorem locksChange (c : Command) (s : Store) : LocksChange c s := by
  by_cases hf : c.LockFree
  · exact .none (locks_exec hf s)
  · cases c with
    | acquireLock name token =>
      cases hs : s.locks name with
      | none => exact .taken name token rfl hs (by simp only [exec, hs])
      | some t => exact .none (by simp only [exec, hs])
    | releaseLock name token =>
      by_cases hs : s.locks name = some token
      · exact .dropped name (Or.inl ⟨token, rfl, hs⟩) (by simp [exec, hs])
      · exact .none (by simp [exec, hs])
    | expireLock name => exact .dropped name (Or.inr rfl) rfl
    | _ => exact absurd trivial hf

/-- What a command of a call does to the locks, and to those the call holds. -/
inductive LockEffect (h : Host) (c : Command) (s : Store) (held : List String) : Prop where
  | none (same : (exec c s).2.locks = s.locks) (keeps : holding held (s, c) = held)
  | acquired (name : String) (idle : s.locks name = none)
      (locks : (exec c s).2.locks = fun x => if x = name then some (h.token name) else s.locks x)
      (takes : holding held (s, c) = held ++ [name])
  | released (name : String)
      (locks : (exec c s).2.locks = fun x =>
        if x = name ∧ s.locks name = some (h.token name) then Option.none else s.locks x)
      (drops : holding held (s, c) = held.filter (· ≠ name))

theorem lockEffect {h : Host} {c : Command} (hc : OwnLocks h c) (s : Store) (held : List String) :
    LockEffect h c s held := by
  by_cases hf : c.LockFree
  · exact .none (locks_exec hf s) (holding_of_lockFree hf held s)
  · cases c with
    | acquireLock name token =>
      obtain rfl : token = h.token name := hc
      cases hs : s.locks name with
      | none =>
        refine .acquired name hs ?_ (by simp [holding, hs])
        simp only [exec, hs]
      | some t => exact .none (by simp only [exec, hs]) (by simp [holding, hs])
    | releaseLock name token =>
      obtain rfl : token = h.token name := hc
      refine .released name ?_ rfl
      by_cases hs : s.locks name = some (h.token name)
      · simp [exec, hs]
      · simp [exec, hs]
    | expireLock name => exact absurd hc (by simp [OwnLocks])
    | _ => exact absurd trivial hf

namespace LockEffect

variable {h : Host} {c : Command} {s : Store} {held : List String} {name t : String}

/-- What the call holds after the command is in the store with its token. -/
theorem stored (effect : LockEffect h c s held)
    (before : name ∈ held → s.locks name = some (h.token name))
    (hin : name ∈ holding held (s, c)) : (exec c s).2.locks name = some (h.token name) := by
  cases effect with
  | none same keeps =>
    rw [keeps] at hin
    rw [same]
    exact before hin
  | acquired n idle locks takes =>
    rw [locks]
    by_cases hn : name = n
    · simp [hn]
    · rw [takes] at hin
      simpa [hn] using before (by simpa [hn] using hin)
  | released n locks drops =>
    rw [drops] at hin
    have hn : name ∈ held ∧ name ≠ n := by simpa using hin
    rw [locks]
    simpa [hn.2] using before hn.1

/-- What is in the store with the call's token is what the call holds. -/
theorem holds (effect : LockEffect h c s held)
    (before : ∀ n, s.locks n = some (h.token n) → n ∈ held)
    (hs : (exec c s).2.locks name = some (h.token name)) : name ∈ holding held (s, c) := by
  cases effect with
  | none same keeps =>
    rw [same] at hs
    rw [keeps]
    exact before name hs
  | acquired n idle locks takes =>
    rw [takes]
    by_cases hn : name = n
    · simp [hn]
    · rw [locks] at hs
      have hin := before name (by simpa [hn] using hs)
      simp [hin]
  | released n locks drops =>
    rw [locks] at hs
    have hsome : ¬(name = n ∧ s.locks n = some (h.token n)) := by
      intro hn
      simp [hn] at hs
    simp only [hsome, if_false] at hs
    have hn : name ≠ n := by
      rintro rfl
      exact hsome ⟨rfl, hs⟩
    rw [drops]
    simpa [hn] using before name hs

/-- The locks with another token are those from before. -/
theorem other_token (effect : LockEffect h c s held) (ht : t ≠ h.token name) :
    (exec c s).2.locks name = some t ↔ s.locks name = some t := by
  cases effect with
  | none same keeps => rw [same]
  | acquired n idle locks takes =>
    rw [locks]
    by_cases hn : name = n
    · subst hn
      simp [idle, ht.symm]
    · simp [hn]
  | released n locks drops =>
    rw [locks]
    by_cases hn : name = n ∧ s.locks n = some (h.token n)
    · obtain ⟨rfl, hs⟩ := hn
      simp [hs, ht.symm]
    · simp only [hn, if_false]

end LockEffect

/-- The lock of an executing task is in the store, with the token of its call. -/
theorem Executing.locked (hp : Held calls pool) {c : C} {ready : List Task}
    (he : Executing calls pool c ready) {t : Task} (ht : t ∈ ready) (hlock : t.data.lock = true) :
    pool.state.locks (lockId (calls c).host t) =
      some ((calls c).host.token (lockId (calls c).host t)) := by
  obtain ⟨locks, q, inside⟩ := he
  obtain ⟨hheld, -, covered⟩ := inside.past.holds (calls c).lockFree
  have hin := covered t ht hlock
  apply hp.held
  · exact inside.running (List.ne_nil_of_mem hin)
  · rwa [hheld]

variable [DecidableEq C] {c : C} {i : Command} {k : Reply i → Routine (Bool × List Task)}

/-- A client that runs after a command of c was running before it. -/
theorem running_of_advance {d : C} (hc : pool.client c = .call i k)
    (hd : (pool.advance exec c i k).Running d) : pool.Running d := by
  by_cases hdc : d = c
  · subst hdc
    exact ⟨i, k, hc⟩
  · obtain ⟨j, l, hj⟩ := hd
    exact ⟨j, l, by simpa [Pool.advance, hdc] using hj⟩

theorem Held.advance (h : Held calls pool) {s : Store} (ht : OwnTokens calls s)
    (hc : pool.client c = .call i k) : Held calls (pool.advance exec c i k) := by
  have own : OwnLocks (calls c).host i ∧ ∀ r, Issues (OwnLocks (calls c).host) (k r) := by
    have hown := h.own c
    rw [hc] at hown
    exact hown
  have effect := lockEffect own.1 pool.state (heldAfter (pool.trace c))
  have traceSelf : heldAfter ((pool.advance exec c i k).trace c) =
      holding (heldAfter (pool.trace c)) (pool.state, i) := by
    rw [← heldAfter_concat]
    simp [Pool.advance]
  have traceOther : ∀ d, d ≠ c → (pool.advance exec c i k).trace d = pool.trace d := by
    intro d hdc
    simp [Pool.advance, hdc]
  have state : (pool.advance exec c i k).state = (exec i pool.state).2 := rfl
  have otherToken : ∀ d name, d ≠ c →
      (calls d).host.token name ≠ (calls c).host.token name :=
    fun d name hdc heq => hdc (ht.distinct d c name heq)
  refine ⟨?_, ?_, ?_⟩
  · intro d
    by_cases hdc : d = c
    · subst hdc
      simpa [Pool.advance] using own.2 _
    · simpa [Pool.advance, hdc] using h.own d
  · intro d name hrun hin
    have before := h.held d name (running_of_advance hc hrun)
    rw [state]
    by_cases hdc : d = c
    · subst hdc
      rw [traceSelf] at hin
      exact effect.stored before hin
    · rw [traceOther d hdc] at hin
      exact (effect.other_token (otherToken d name hdc)).mpr (before hin)
  · intro d name hs
    rw [state] at hs
    by_cases hdc : d = c
    · subst hdc
      rw [traceSelf]
      exact effect.holds (h.kept d) hs
    · rw [traceOther d hdc]
      exact h.kept d name ((effect.other_token (otherToken d name hdc)).mp hs)

/-- What other clients do leaves the locks of the calls that run. -/
theorem Held.other (h : Held calls pool) {i : Command} (hl : LocksLast calls pool (.other i)) :
    Held calls (step (Pool.exec exec) pool (.other i)) := by
  have state : (step (Pool.exec exec) pool (.other i)).state = (exec i pool.state).2 := rfl
  refine ⟨h.own, ?_, ?_⟩
  · intro d name hrun hin
    have locked := h.held d name hrun hin
    rw [state]
    cases locksChange i pool.state with
    | none same => rw [same, locked]
    | taken n token command idle locks =>
      have hn : name ≠ n := by
        rintro rfl
        rw [idle] at locked
        cases locked
      simpa [locks, hn] using locked
    | dropped n command locks =>
      have hn : name ≠ n := by
        rintro rfl
        rcases command with ⟨token, rfl, hs⟩ | rfl
        · rw [hs] at locked
          exact hl d (Option.some.inj locked)
        · exact hl d hrun locked
      simpa [locks, hn] using locked
  · intro d name hs
    rw [state] at hs
    apply h.kept d name
    cases locksChange i pool.state with
    | none same => rwa [same] at hs
    | taken n token command idle locks =>
      rw [locks] at hs
      by_cases hn : name = n
      · subst hn command
        exact absurd (by simpa using hs) (hl d)
      · simpa [hn] using hs
    | dropped n command locks =>
      rw [locks] at hs
      simp only at hs
      split_ifs at hs
      exact hs

theorem Held.step (h : Held calls pool) {s : Store} (ht : OwnTokens calls s)
    {e : PoolEvent C Command} (hl : LocksLast calls pool e) :
    Held calls (Interleaving.step (Pool.exec exec) pool e) := by
  cases e with
  | other i => exact h.other hl
  | step c =>
    by_cases hrun : pool.Running c
    · obtain ⟨i, k, hc⟩ := hrun
      rw [Pool.step_running hc]
      exact h.advance ht hc
    · rwa [Pool.step_idle hrun]

end Step

section Run

variable [DecidableEq C] {calls : C → GroupCall} {s : Store}

theorem held_run (ht : OwnTokens calls s) {l : List (PoolEvent C Command)}
    (hl : Along (Pool.exec exec) (LocksLast calls) (Pool.start s fun c => (calls c).routine) l) :
    Held calls (poolAfter calls s l) :=
  run_invariant (fun _ _ held hlast => held.step ht hlast) (held_start ht) hl

/-- Task locks exclude each other and do not leak. -/
structure LocksWork (calls : C → GroupCall) (pool : CallPool C) : Prop where
  /-- Two calls never execute tasks with one lock id at the same time. -/
  exclusive : ∀ c d ready ready', c ≠ d → Executing calls pool c ready →
    Executing calls pool d ready' → ∀ t ∈ ready, ∀ u ∈ ready', t.data.lock = true →
      u.data.lock = true → lockId (calls c).host t ≠ lockId (calls d).host u
  once : ∀ c, (acquiredIn (pool.trace c)).Nodup
  /-- A call whose loop has let tasks pass executes them, with its locks not yet released. -/
  executes : ∀ c ready locks q,
    Past (calls c).host (calls c).execute (calls c).tasks (pool.trace c) ready locks q →
    Executing calls pool c ready
  /-- The tasks that are executed are those the loop has let pass. -/
  executed : ∀ c ready, Executing calls pool c ready → ∃ loop rest locks,
    pool.trace c = loop ++ rest ∧ Turns (calls c).host [] (calls c).tasks loop ready locks
  /-- A call that has returned has decided on every task, executed those it has let pass, with
  this success, and released every lock. -/
  returned : ∀ c success ready, pool.client c = pure (success, ready) →
    Completed (calls c).host (calls c).execute (calls c).tasks (pool.trace c) success ready ∧
    releasedIn (pool.trace c) = acquiredIn (pool.trace c) ∧
    ∀ name, pool.state.locks name ≠ some ((calls c).host.token name)

/-- For any calls of any workers, in any interleaving with each other and with other clients. -/
theorem locks_work (ht : OwnTokens calls s) {l : List (PoolEvent C Command)}
    (hl : Along (Pool.exec exec) (LocksLast calls) (Pool.start s fun c => (calls c).routine) l) :
    LocksWork calls (poolAfter calls s l) := by
  have hp := held_run ht hl
  have hr : ∀ c, Reaches exec (calls c).routine ((poolAfter calls s l).trace c)
      ((poolAfter calls s l).client c) :=
    fun c => Pool.reaches_run s (fun c => (calls c).routine) l c
  refine ⟨?_, ?_, ?_, ?_, ?_⟩
  · intro c d ready ready' hcd hc hd t htr u hur hlt hlu heq
    have first := hc.locked hp htr hlt
    have second := hd.locked hp hur hlu
    rw [heq, second] at first
    exact hcd (ht.distinct c d _ (Option.some.inj first).symm)
  · intro c
    exact nodup_executeTaskGroup (calls c).lockFree (hr c)
  · intro c ready locks q past
    exact ⟨locks, q, past.inside (hr c)⟩
  · rintro c ready ⟨locks, q, inside⟩
    obtain ⟨-, ⟨loop, rest, htr, turns⟩, -⟩ := inside.past.holds (calls c).lockFree
    exact ⟨loop, rest, locks, htr, turns⟩
  · intro c success ready hret
    have finished := hr c
    rw [hret] at finished
    have completed := completed_executeTaskGroup finished
    obtain ⟨released, hheld⟩ := completed.released (calls c).lockFree
    refine ⟨completed, released, ?_⟩
    intro name hs
    have hin := hp.kept c name hs
    rw [hheld] at hin
    cases hin

/-- Two workers with a task each that need one lock. -/
def sharedLock (first : Bool) : GroupCall :=
  .ofWorker { plainHost with token := fun _ => if first then "token_1" else "token_2" } "default"
    [⟨"default", { id := if first then "a" else "b", func := "tasks:locked_task", lock := true }⟩]

def bothActive : Store :=
  Store.empty.setZset .active "default" ((ZSet.empty.add 1 "a").add 1 "b")

/-- The first acquires the lock, the second misses it and reschedules its task, the first
releases it. -/
def sharedRun : List (PoolEvent Bool Command) :=
  [.step true, .step false, .step false, .step true]

theorem locks_work_shared : LocksWork sharedLock (poolAfter sharedLock bothActive sharedRun) := by
  apply locks_work
  · constructor
    · intro c d name h
      cases c <;> cases d <;> first | rfl | exact absurd h (by simp [sharedLock, GroupCall.ofWorker])
    · intro c name h
      cases h
  · exact ⟨trivial, trivial, trivial, trivial, trivial⟩

end Run

end TaskTiger
