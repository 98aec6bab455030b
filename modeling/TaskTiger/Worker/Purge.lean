import TaskTiger.Framework.Paging
import TaskTiger.Worker.Pages
import TaskTiger.Worker.QueueNames
import TaskTiger.Worker.Races
import TaskTiger.Invariants.Index

namespace TaskTiger

open Redis Rounding Interleaving Paging

/-! TaskTiger.purge_errored_tasks. -/

/-- The arguments, an empty set for None, and the configuration that stands in for them. -/
structure Purge where
  queues : Finset String
  excludeQueues : Finset String
  lastExecutionBefore : Option Time
  limit : Option Nat
  configOnlyQueues : Finset String
  configExcludeQueues : Finset String

def LoadedTask.task (task : LoadedTask) : Task :=
  match task.data with
  | .stored d => ⟨task.queue, d⟩
  | .idOnly id => Task.bare task.queue id

namespace Purge

def taskLimit : Nat := 5000

variable (h : Host) (p : Purge)

def onlyQueues : Finset String := if p.queues = ∅ then p.configOnlyQueues else p.queues

def excluded : Finset String :=
  if p.excludeQueues = ∅ then p.configExcludeQueues else p.excludeQueues

def queueMatches (queue : String) : Bool :=
  TaskTiger.queueMatches queue p.onlyQueues p.excluded

/-- The generator passes over a task of this time. -/
def newer (ts : Time) : Bool :=
  match p.lastExecutionBefore with
  | none => false
  | some t => decide (t < ts)

/-- `limit and total_processed >= limit` -/
def reached (total : Nat) : Bool :=
  match p.limit with
  | none => false
  | some l => decide (l ≠ 0 ∧ l ≤ total)

/-- The consumer takes the tasks of one page from the generator: the number processed, and whether
it breaks. -/
def purgePage : List LoadedTask → Nat → Routine (Nat × Bool)
  | [], total => pure (total, false)
  | task :: tasks, total =>
    if p.newer task.ts then purgePage tasks total
    else do
      task.task.move h .delete none (h.time task.task.data.id)
      if p.reached (total + 1) then pure (total + 1, true) else purgePage tasks (total + 1)

/-- The loop over the pages of a queue, for at most so many of them. -/
def purgeQueue (queue : String) : Nat → Nat → Nat → Routine (Option (Nat × Bool))
  | 0, _, _ => pure none
  | fuel + 1, skip, total => do
    let (totalTasks, tasks) ← tasksFromQueue queue .error true skip taskLimit 0
    let (total, stop) ← purgePage h p tasks total
    if stop then pure (some (total, true))
    else if skip + taskLimit < totalTasks then purgeQueue queue fuel (skip + taskLimit) total
    else pure (some (total, false))

def purgeQueues (fuel : Nat) : List String → Nat → Routine (Option Nat)
  | [], total => pure (some total)
  | queue :: queues, total =>
    if p.queueMatches queue then do
      let result ← purgeQueue h p queue fuel 0 total
      match result with
      | none => pure none
      | some (total, true) => pure (some total)
      | some (total, false) => purgeQueues fuel queues total
    else purgeQueues fuel queues total

def purgeErroredTasks (fuel : Nat) : Routine (Option Nat) :=
  if p.limit = some 0 then Prog.raise (.raised "AssertionError")
  else do
    let queues ← redis (.smembers h.smembers .error)
    purgeQueues h p fuel queues 0

/-! What it promises. -/

/-- The id has failed in a queue that matches, at a time that is not after the given one. -/
def Matches (s : Store) (queue id : String) : Prop :=
  p.queueMatches queue = true ∧
    ∃ ts, s.score .error queue id = some ts ∧ p.newer (toMultiple microsecond ts) = false

def deleted (s t : Store) : Set (String × String) :=
  {e | e.2 ∈ s.zset .error e.1 ∧ e.2 ∉ t.zset .error e.1}

/-- Run in s, it has counted n tasks and left t. -/
structure Purges (s : Store) (n : Nat) (t : Store) : Prop where
  only : ∀ st q x, t.score st q x = s.score st q x ∨
    st = .error ∧ p.Matches s q x ∧ t.score st q x = none
  count : (deleted s t).encard = n
  limit : ∀ l ∈ p.limit, n ≤ l
  complete : (∀ l ∈ p.limit, n < l) → ∀ q x, p.Matches s q x → x ∉ t.zset .error q

/-- The failed tasks of a queue that are too new. -/
def kept (s : Store) (queue : String) : Nat :=
  (s.zset .error queue).entries.countP (fun e => p.newer (toMultiple microsecond e.1))

/-- What the pages of a queue show, one after the other. -/
def shown (s : Store) (queue : String) : Nat :=
  deletable taskLimit (s.zset .error queue).card (p.kept s queue)

/-- No queue has more failed tasks than those up to the end of the page in which the tasks that are
too new end; or the limit is no larger than what the pages show. -/
def WithinReach (s : Store) : Prop :=
  (∀ q ∈ s.queues .error, p.queueMatches q = true →
    (s.zset .error q).card ≤ pageEnd taskLimit (p.kept s q)) ∨
  ∃ l ∈ p.limit, l ≤ ∑ q ∈ (s.queues .error).filter (fun q => p.queueMatches q = true), p.shown s q

end Purge

/-! The failed tasks of a store that the package has written. -/

/-- Each object is stored under its own id. -/
def Keyed (s : Store) : Prop := ∀ id d, s.task id = some d → d.id = id

structure ErrorsSound (s : Store) : Prop where
  listed : Listed .error s
  keyed : Keyed s
  dated : ∀ q, ∀ e ∈ (s.zset .error q).entries, Dated e.1

theorem Keyed.move {s : Store} {m : Move} (hk : Keyed s) : Keyed (exec (.move m) s).2 := by
  intro id d hd
  rw [task_move] at hd
  split_ifs at hd
  exact hk id d hd

theorem Keyed.step {s : Store} (hk : Keyed s) (c : Command) : Keyed (exec c s).2 := by
  by_cases hp : c.Passive
  · intro id d hd
    rw [(exec_passive hp s).2.2] at hd
    exact hk id d hd
  · cases c with
    | delay queue data ts now publish =>
      intro id d hd
      rw [task_delay] at hd
      split_ifs at hd with hid
      · obtain rfl : delayedData data ts now = d := by simpa using hd
        exact hid.symm
      · exact hk id d hd
    | pickup =>
      intro id d hd
      rw [task_pickup] at hd
      exact hk id d hd
    | promote =>
      intro id d hd
      rw [task_promote] at hd
      exact hk id d hd
    | move => exact hk.move
    | updateScheduledTime number queue id ts =>
      change Keyed (updateScheduledTime number queue id ts s).2
      cases update_effect number queue id ts s with
      | absent out result => rwa [result]
      | failed e within bad result => rwa [result]
      | updated d within stored good result =>
        rw [result]
        intro x d' hd
        rw [Store.task_setTask] at hd
        split_ifs at hd with hx
        · obtain rfl : _ = d' := by simpa using hd
          rw [hx]
          exact hk id d stored
        · exact hk x d' hd
    | heartbeat => exact hk
    | _ => exact absurd trivial hp

/-- A task that goes to ERROR goes there with the time of a date. -/
def Command.ErrorsDated : Command → Prop
  | .move m => m.kind.toState = some .error → Dated m.when
  | _ => True

theorem ErrorsSound.step {s : Store} {c : Command} (h : ErrorsSound s) (hc : c.ErrorsDated) :
    ErrorsSound (exec c s).2 where
  listed := h.listed.step (fun hst => by cases hst)
  keyed := h.keyed.step c
  dated := by
    intro q e he
    have before {t : Time} (ht : s.score .error q e.2 = some t) : Dated t :=
      h.dated q (t, e.2) (ZSet.score_eq_some.mp ht)
    have after : (exec c s).2.score .error q e.2 = some e.1 := ZSet.score_eq_some.mpr he
    by_cases hm : ∃ m, c = .move m
    · obtain ⟨m, rfl⟩ := hm
      by_cases effective : m.Effective s
      · rw [score_move effective] at after
        split_ifs at after with here hfrom hto
        · have always : m.kind.mode = .always := by
            cases hk : m.kind <;> simp [hk, MoveKind.toState, MoveKind.mode] at hto ⊢
          have time : m.when = e.1 := by simpa [always, Mode.newScore] using after
          rw [← time]
          exact hc hto
        · exact before after
        · exact before after
      · rw [exec_move_of_not_effective effective] at after
        exact before after
    · rw [score_error_exec (fun m hc => hm ⟨m, hc⟩)] at after
      exact before after

/-- What the package writes is sound. -/
theorem errorsSound_run {l : List Command} (hl : Throughout (fun _ c => c.ErrorsDated) Store.empty l) :
    ErrorsSound (runAll Store.empty l) := by
  have empty : ErrorsSound Store.empty :=
    { listed := fun q hn => by cases hn
      keyed := fun id d hd => by cases hd
      dated := fun q e he => by cases he }
  exact run_invariant (fun s c h hc => h.step hc) empty hl

/-! One deletion. -/

def deletion (h : Host) (task : Task) : Move :=
  ⟨.delete, task.queue, task.data.id, task.data.unique, (h.time task.data.id).time,
    h.publishQueuedTasks⟩

section

variable {h : Host} {p : Purge} {s t : Store} {queue q x : String}

theorem zset_deletion {task : Task} {st : TaskState}
    (hin : task.data.id ∈ s.zset .error task.queue) :
    (exec (.move (deletion h task)) s).2.zset st q =
      if st = .error ∧ q = task.queue then (s.zset .error q).rem task.data.id
      else s.zset st q := by
  have effective : (deletion h task).Effective s := hin
  have score (m : String) : (exec (.move (deletion h task)) s).2.score st q m =
      if q = task.queue ∧ m = task.data.id then if st = .error then none else s.score st q m
      else s.score st q m := by
    rw [score_move effective]
    simp [deletion, MoveKind.fromState, MoveKind.toState]
  apply ZSet.ext_score
  intro m
  change (exec (.move (deletion h task)) s).2.score st q m = _
  rw [score]
  by_cases here : st = .error ∧ q = task.queue
  · obtain ⟨rfl, rfl⟩ := here
    simp [ZSet.score_rem, Store.score]
  · rw [if_neg here]
    by_cases hq : q = task.queue ∧ m = task.data.id
    · have hst : st ≠ .error := fun hc => here ⟨hc, hq.1⟩
      rw [if_pos hq, if_neg hst]
      rfl
    · rw [if_neg hq]
      rfl

theorem returns_deletion {task : Task} (hin : task.data.id ∈ s.zset .error task.queue) :
    Prog.Returns exec (task.move h .delete none (h.time task.data.id)) s ()
      (exec (.move (deletion h task)) s).2 := by
  have reply : (exec (.move (deletion h task)) s).1 = .ok () := exec_move_ok hin
  refine (Prog.returns_ask (Command.move (deletion h task)) s).bind ?_
  rw [reply]
  exact Prog.returns_pure () _

namespace Purge

/-- n tasks have been deleted between s and t, all of them failed tasks that match. -/
structure Progress (p : Purge) (s : Store) (n : Nat) (t : Store) : Prop where
  only : ∀ st q x, t.score st q x = s.score st q x ∨
    st = .error ∧ p.Matches s q x ∧ t.score st q x = none
  count : (deleted s t).encard = n
  keyed : Keyed t

theorem progress_refl (hk : Keyed s) : Progress p s 0 s where
  only := fun _ _ _ => Or.inl rfl
  count := by simp [deleted]
  keyed := hk

theorem Progress.score_eq {n : Nat} {ts : Time} {st : TaskState} (hp : Progress p s n t)
    (h : t.score st q x = some ts) : s.score st q x = some ts := by
  rcases hp.only st q x with same | ⟨-, -, gone⟩
  · rw [← same, h]
  · rw [gone] at h
    cases h

theorem Progress.matches {n : Nat} (hp : Progress p s n t) (h : p.Matches t q x) :
    p.Matches s q x := by
  obtain ⟨hq, ts, hts, old⟩ := h
  exact ⟨hq, ts, hp.score_eq hts, old⟩

theorem Progress.deletion {n : Nat} {task : Task} (hp : Progress p s n t)
    (hm : p.Matches t task.queue task.data.id) :
    Progress p s (n + 1) (exec (.move (deletion h task)) t).2 := by
  obtain ⟨-, ts, hts, -⟩ := id hm
  have hin : task.data.id ∈ t.zset .error task.queue := ZSet.mem_iff.mpr ⟨ts, hts⟩
  have hin' : task.data.id ∈ s.zset .error task.queue := ZSet.mem_iff.mpr ⟨ts, hp.score_eq hts⟩
  exact
    { only := by
        intro st q x
        rw [Store.score, zset_deletion hin]
        split_ifs with here
        · obtain ⟨rfl, rfl⟩ := here
          rw [ZSet.score_rem]
          split_ifs with hx
          · subst hx
            exact Or.inr ⟨rfl, hp.matches hm, rfl⟩
          · exact hp.only .error task.queue x
        · exact hp.only st q x
      count := by
        have one_more : deleted s (exec (.move (TaskTiger.deletion h task)) t).2 =
            insert (task.queue, task.data.id) (deleted s t) := by
          ext ⟨q, x⟩
          simp only [deleted, Set.mem_ofPred_eq, Set.mem_insert_iff, Prod.mk.injEq,
            zset_deletion hin]
          by_cases hq : q = task.queue
          · subst hq
            by_cases hx : x = task.data.id
            · subst hx
              simp [hin']
            · simp [hx]
          · simp [hq]
        rw [one_more, Set.encard_insert_of_notMem (fun hc => hc.2 hin), hp.count]
        rfl
      keyed := hp.keyed.move }

/-- A stretch of the run in one queue, from u to v, that is shown so many tasks to delete: it
deletes them all, or stops at the limit. -/
structure Stage (p : Purge) (s : Store) (queue : String) (shown : Nat) (u v : Store)
    (total total' : Nat) (stop : Bool) : Prop where
  progress : Progress p s total' v
  others : ∀ q, q ≠ queue → v.zset .error q = u.zset .error q
  card : (v.zset .error queue).card + total' = (u.zset .error queue).card + total
  kept : p.kept v queue = p.kept u queue
  whole : stop = false → total' = total + shown ∧ ∀ l ∈ p.limit, total' < l
  cut : stop = true → p.limit = some total' ∧ total' ≤ total + shown

variable {u v w : Store} {total total₁ total₂ shown shown₁ shown₂ : Nat} {stop : Bool}

theorem stage_refl (hp : Progress p s total u) (room : ∀ l ∈ p.limit, total < l) :
    Stage p s queue 0 u u total total false where
  progress := hp
  others := fun _ _ => rfl
  card := rfl
  kept := rfl
  whole := fun _ => ⟨rfl, room⟩
  cut := fun hc => by cases hc

theorem Stage.append (first : Stage p s queue shown₁ u v total total₁ false)
    (second : Stage p s queue shown₂ v w total₁ total₂ stop) :
    Stage p s queue (shown₁ + shown₂) u w total total₂ stop where
  progress := second.progress
  others := fun q hq => (second.others q hq).trans (first.others q hq)
  card := by
    have h₁ := first.card
    have h₂ := second.card
    omega
  kept := second.kept.trans first.kept
  whole := by
    intro hs
    obtain ⟨h₁, -⟩ := first.whole rfl
    obtain ⟨h₂, room⟩ := second.whole hs
    exact ⟨by omega, room⟩
  cut := by
    intro hs
    obtain ⟨h₁, -⟩ := first.whole rfl
    obtain ⟨hl, h₂⟩ := second.cut hs
    exact ⟨hl, by omega⟩

/-- What has been cut off may be shown more. -/
theorem Stage.cut_mono (h : Stage p s queue shown₁ u v total total₁ true) (hle : shown₁ ≤ shown₂) :
    Stage p s queue shown₂ u v total total₁ true where
  progress := h.progress
  others := h.others
  card := h.card
  kept := h.kept
  whole := fun hc => by cases hc
  cut := by
    intro hs
    obtain ⟨hl, h₁⟩ := h.cut hs
    exact ⟨hl, by omega⟩

theorem reached_iff {n : Nat} (room : ∀ l ∈ p.limit, total < l) (hn : n = total + 1) :
    p.reached n = true ↔ p.limit = some n := by
  subst hn
  cases hl : p.limit with
  | none => simp [reached, hl]
  | some l =>
    have hlt := room l hl
    simp only [reached, hl, decide_eq_true_eq, Option.some.injEq]
    omega

theorem stage_deletion {task : Task} (hp : Progress p s total u)
    (room : ∀ l ∈ p.limit, total < l) (hm : p.Matches u task.queue task.data.id) :
    Stage p s task.queue 1 u (exec (.move (TaskTiger.deletion h task)) u).2 total (total + 1)
      (p.reached (total + 1)) := by
  obtain ⟨-, ts, hts, old⟩ := id hm
  have hin : task.data.id ∈ u.zset .error task.queue := ZSet.mem_iff.mpr ⟨ts, hts⟩
  have here : (exec (.move (TaskTiger.deletion h task)) u).2.zset .error task.queue =
      (u.zset .error task.queue).rem task.data.id := by
    rw [zset_deletion hin, if_pos ⟨rfl, rfl⟩]
  exact
    { progress := hp.deletion hm
      others := fun q hq => by rw [zset_deletion hin, if_neg (fun hc => hq hc.2)]
      card := by
        have one_less := (ZSet.entries_perm_of_score hts).length_eq
        rw [here]
        simp only [ZSet.card, List.length_cons] at one_less ⊢
        omega
      kept := by
        have same := (ZSet.entries_perm_of_score hts).countP_eq
          (fun e => p.newer (toMultiple microsecond e.1))
        rw [List.countP_cons_of_neg (by simp [old])] at same
        rw [Purge.kept, Purge.kept, here, same]
      whole := by
        intro hr
        refine ⟨rfl, ?_⟩
        intro l hl
        have hlt := room l hl
        have hne : l ≠ total + 1 := by
          rintro rfl
          rw [(reached_iff room rfl).mpr hl] at hr
          cases hr
        omega
      cut := fun hr => ⟨(reached_iff room rfl).mp hr, le_rfl⟩ }

/-! One page. -/

/-- The Task that tasks_from_queue makes of an entry, when those not found are included. -/
def loaded (t : Store) (queue : String) (e : Time × String) : LoadedTask where
  queue := queue
  state := .error
  data := match t.task e.2 with
    | some d => .stored d
    | none => .idOnly e.2
  ts := toMultiple microsecond e.1
  executions := []

theorem ownTask_loaded (t : Store) (queue : String) (e : Time × String) :
    ownTask t queue .error true 0 e = some (loaded t queue e) := by
  cases ht : t.task e.2 <;> simp [ownTask, loaded, ht]

theorem task_loaded (hk : Keyed t) (queue : String) (e : Time × String) :
    (loaded t queue e).task.queue = queue ∧ (loaded t queue e).task.data.id = e.2 := by
  cases ht : t.task e.2 with
  | some d => simp [LoadedTask.task, loaded, ht, hk e.2 d ht]
  | none => simp [LoadedTask.task, loaded, ht, Task.bare]

/-- An entry that the generator does not pass over. -/
def shows (p : Purge) (e : Time × String) : Bool := !p.newer (toMultiple microsecond e.1)

theorem returns_purgePage (hk : Keyed t) (hq : p.queueMatches queue = true)
    (items : List (Time × String)) (nodup : (items.map Prod.snd).Nodup)
    (within : ∀ e ∈ items, u.score .error queue e.2 = some e.1) (hp : Progress p s total u)
    (room : ∀ l ∈ p.limit, total < l) :
    ∃ total' stop v,
      Prog.Returns exec (p.purgePage h (items.map (loaded t queue)) total) u (total', stop) v ∧
        Stage p s queue (items.countP p.shows) u v total total' stop := by
  induction items generalizing u total with
  | nil => exact ⟨total, false, u, Prog.returns_pure _ _, stage_refl hp room⟩
  | cons e items ih =>
    obtain ⟨hfresh, nodup⟩ := List.nodup_cons.mp nodup
    obtain ⟨hqueue, hid⟩ := task_loaded hk queue e
    cases hnew : p.newer (toMultiple microsecond e.1) with
    | true =>
      obtain ⟨total', stop, v, hret, stage⟩ :=
        ih nodup (fun x hx => within x (by simp [hx])) hp room
      refine ⟨total', stop, v, ?_, ?_⟩
      · rw [List.map_cons, purgePage, if_pos (show p.newer (loaded t queue e).ts = true from hnew)]
        exact hret
      · rw [List.countP_cons_of_neg (by simp [shows, hnew])]
        exact stage
    | false =>
      have matched : p.Matches u (loaded t queue e).task.queue (loaded t queue e).task.data.id := by
        rw [hqueue, hid]
        exact ⟨hq, e.1, within e (by simp), hnew⟩
      have hin : (loaded t queue e).task.data.id ∈ u.zset .error (loaded t queue e).task.queue := by
        rw [hqueue, hid]
        exact ZSet.mem_iff.mpr ⟨e.1, within e (by simp)⟩
      have one := stage_deletion (h := h) hp room matched
      have move := returns_deletion (h := h) hin
      rw [List.countP_cons_of_pos (by simp [shows, hnew]), Nat.add_comm]
      rw [hqueue] at one
      cases hreached : p.reached (total + 1) with
      | true =>
        rw [hreached] at one
        refine ⟨total + 1, true, _, ?_, one.cut_mono (by omega)⟩
        rw [List.map_cons, purgePage, if_neg (by simp [loaded, hnew])]
        refine move.bind ?_
        rw [if_pos hreached]
        exact Prog.returns_pure _ _
      | false =>
        rw [hreached] at one
        have rest : ∀ x ∈ items, (exec (.move (TaskTiger.deletion h (loaded t queue e).task))
            u).2.score .error queue x.2 = some x.1 := by
          intro x hx
          have other : x.2 ≠ e.2 := fun hc => hfresh (hc ▸ List.mem_map_of_mem hx)
          rw [Store.score, zset_deletion hin, if_pos ⟨rfl, hqueue.symm⟩, ZSet.score_rem, hid,
            if_neg other]
          exact within x (by simp [hx])
        obtain ⟨total', stop, v, hret, stage⟩ := ih nodup rest one.progress (one.whole rfl).2
        refine ⟨total', stop, v, ?_, one.append stage⟩
        rw [List.map_cons, purgePage, if_neg (by simp [loaded, hnew])]
        refine move.bind ?_
        rw [if_neg (by simp [hreached])]
        exact hret

/-! The pages of a queue. -/

theorem newer_mono (p : Purge) {a b : Time × String} (hab : Before a b)
    (ha : p.newer (toMultiple microsecond a.1) = true) :
    p.newer (toMultiple microsecond b.1) = true := by
  have unit : (0 : Time) < microsecond := by norm_num [microsecond]
  have le := toMultiple_mono unit hab.score_le
  unfold newer at ha ⊢
  cases hl : p.lastExecutionBefore with
  | none => simp [hl] at ha
  | some l =>
    simp only [hl, decide_eq_true_eq] at ha ⊢
    exact lt_of_lt_of_le ha le

theorem countP_slice (p : Purge) (z : ZSet Time String) (skip : Nat) :
    (z.slice skip taskLimit).countP p.shows = min z.card (skip + taskLimit) -
      max skip (z.entries.countP (fun e => p.newer (toMultiple microsecond e.1))) :=
  countP_page (z.ranked.imp p.newer_mono) skip

theorem slice_sublist (z : ZSet Time String) (skip limit : Nat) :
    (z.slice skip limit).Sublist z.entries :=
  page_sublist _ _ _

/-- Nothing in ERROR is out of the range of dates. -/
theorem Progress.dated {n : Nat} (hd : ∀ q, ∀ e ∈ (s.zset .error q).entries, Dated e.1)
    (hp : Progress p s n t) : ∀ q, ∀ e ∈ (t.zset .error q).entries, Dated e.1 := by
  intro q e he
  have after : t.score .error q e.2 = some e.1 := ZSet.score_eq_some.mpr he
  exact hd q e (ZSet.score_eq_some.mp (hp.score_eq after))

theorem returns_page (hd : ∀ q, ∀ e ∈ (u.zset .error q).entries, Dated e.1) (queue : String)
    (skip : Nat) :
    Prog.Returns exec (tasksFromQueue queue .error true skip taskLimit 0) u
      ((u.zset .error queue).card,
        ((u.zset .error queue).slice skip taskLimit).map (loaded u queue)) u := by
  have some_page : 0 < taskLimit := by decide
  have loadable : Loadable u true ((u.zset .error queue).slice skip taskLimit) :=
    ⟨fun e he => hd queue e ((slice_sublist _ _ _).subset he), Or.inl rfl⟩
  have returns := returns_tasksFromQueue 0 some_page loadable
  have all : ownTask u queue .error true 0 = fun e => some (loaded u queue e) := by
    funext e
    exact ownTask_loaded u queue e
  rwa [all, List.filterMap_eq_map'] at returns

theorem returns_purgeQueue (hd : ∀ q, ∀ e ∈ (s.zset .error q).entries, Dated e.1)
    (hq : p.queueMatches queue = true) {fuel : Nat} (skip : Nat) (hfuel : 0 < fuel)
    (enough : (u.zset .error queue).card ≤ skip + taskLimit * fuel) (hp : Progress p s total u)
    (room : ∀ l ∈ p.limit, total < l) :
    ∃ total' stop v,
      Prog.Returns exec (p.purgeQueue h queue fuel skip total) u (some (total', stop)) v ∧
        Stage p s queue
          (sweep taskLimit (p.kept u queue) fuel (u.zset .error queue).card skip) u v total total'
            stop := by
  induction fuel generalizing u total skip with
  | zero => omega
  | succ fuel ih =>
    have page := returns_page (hp.dated hd) queue skip
    have sub := slice_sublist (u.zset .error queue) skip taskLimit
    have nodup := (u.zset .error queue).unique.sublist (sub.map Prod.snd)
    have within : ∀ e ∈ (u.zset .error queue).slice skip taskLimit,
        u.score .error queue e.2 = some e.1 :=
      fun e he => ZSet.score_eq_some.mpr (sub.subset he)
    obtain ⟨total₁, stop₁, v, hret, stage⟩ :=
      returns_purgePage (h := h) hp.keyed hq _ nodup within hp room
    rw [countP_slice] at stage
    cases stop₁ with
    | true =>
      refine ⟨total₁, true, v, ?_, stage.cut_mono (Nat.le_add_right _ _)⟩
      exact page.bind (hret.bind (Prog.returns_pure _ _))
    | false =>
      by_cases more : skip + taskLimit < (u.zset .error queue).card
      · rw [Nat.mul_add] at enough
        have left := stage.card
        obtain ⟨all, room₁⟩ := stage.whole rfl
        have fewer : (v.zset .error queue).card = (u.zset .error queue).card -
            (min (u.zset .error queue).card (skip + taskLimit) - max skip (p.kept u queue)) := by
          change total₁ = total + (min (u.zset .error queue).card (skip + taskLimit) -
            max skip (p.kept u queue)) at all
          omega
        have hfuel' : 0 < fuel := by
          by_contra hc
          obtain rfl : fuel = 0 := by omega
          omega
        obtain ⟨total₂, stop₂, w, hret₂, stage₂⟩ :=
          ih (skip + taskLimit) hfuel' (by omega) stage.progress room₁
        refine ⟨total₂, stop₂, w, ?_, ?_⟩
        · refine page.bind (hret.bind ?_)
          simp only [Bool.false_eq_true, if_false, if_pos more]
          exact hret₂
        · rw [stage.kept, fewer] at stage₂
          have both := stage.append stage₂
          rw [sweep, if_pos more]
          exact both
      · refine ⟨total₁, false, v, ?_, ?_⟩
        · refine page.bind (hret.bind ?_)
          simp only [Bool.false_eq_true, if_false, if_neg more]
          exact Prog.returns_pure _ _
        · rw [sweep, if_neg more]
          exact stage

/-! All queues. -/

def shownIn (p : Purge) (s : Store) (queues : List String) : Nat :=
  ((queues.filter p.queueMatches).map (p.shown s)).sum

/-- The sweep over these queues, from u to v, with what it has shown. -/
structure Swept (p : Purge) (s : Store) (queues : List String) (u v : Store)
    (total total' : Nat) : Prop where
  progress : Progress p s total' v
  others : ∀ q, q ∉ queues → v.zset .error q = u.zset .error q
  ended : (∀ l ∈ p.limit, total' < l) ∧ total' = total + p.shownIn u queues ∧
      (∀ q ∈ queues, p.queueMatches q = true →
        (v.zset .error q).card + p.shown u q = (u.zset .error q).card ∧ p.kept v q = p.kept u q) ∨
    p.limit = some total' ∧ total' ≤ total + p.shownIn u queues

theorem shown_congr (hz : v.zset .error q = u.zset .error q) :
    p.shown v q = p.shown u q ∧ p.kept v q = p.kept u q := by
  have same : p.kept v q = p.kept u q := by
    unfold kept
    rw [hz]
  have counts : p.shown v q = p.shown u q := by
    rw [shown, shown, same, hz]
  exact ⟨counts, same⟩

theorem shownIn_congr {queues : List String}
    (hz : ∀ q ∈ queues, v.zset .error q = u.zset .error q) :
    p.shownIn v queues = p.shownIn u queues := by
  have each : (queues.filter p.queueMatches).map (p.shown v) =
      (queues.filter p.queueMatches).map (p.shown u) := by
    apply List.map_congr_left
    intro q hq
    exact (shown_congr (hz q (List.mem_filter.mp hq).1)).1
  rw [shownIn, shownIn, each]

theorem returns_purgeQueues (hd : ∀ q, ∀ e ∈ (s.zset .error q).entries, Dated e.1) {fuel : Nat}
    (queues : List String) (nodup : queues.Nodup)
    (enough : ∀ q ∈ queues, (u.zset .error q).card < taskLimit * fuel)
    (hp : Progress p s total u) (room : ∀ l ∈ p.limit, total < l) :
    ∃ total' v, Prog.Returns exec (p.purgeQueues h fuel queues total) u (some total') v ∧
      Swept p s queues u v total total' := by
  induction queues generalizing u total with
  | nil =>
    refine ⟨total, u, Prog.returns_pure _ _, hp, fun _ _ => rfl, Or.inl ⟨room, rfl, ?_⟩⟩
    intro q hq
    cases hq
  | cons queue queues ih =>
    obtain ⟨hfresh, nodup⟩ := List.nodup_cons.mp nodup
    cases hq : p.queueMatches queue with
    | false =>
      obtain ⟨total', v, hret, swept⟩ := ih nodup (fun q hm => enough q (by simp [hm])) hp room
      have same : p.shownIn u (queue :: queues) = p.shownIn u queues := by
        simp [shownIn, hq]
      refine ⟨total', v, ?_, swept.progress, ?_, ?_⟩
      · rw [purgeQueues, if_neg (by simp [hq])]
        exact hret
      · intro q hout
        exact swept.others q (fun hc => hout (by simp [hc]))
      · rw [same]
        apply swept.ended.imp_left
        rintro ⟨more, all, counts⟩
        refine ⟨more, all, ?_⟩
        intro q hm hmatch
        rcases List.mem_cons.mp hm with rfl | hm
        · rw [hq] at hmatch
          cases hmatch
        · exact counts q hm hmatch
    | true =>
      have within := enough queue (by simp)
      have hfuel : 0 < fuel := by
        by_contra hc
        obtain rfl : fuel = 0 := by omega
        simp at within
      obtain ⟨total₁, stop, v, hret, stage⟩ :=
        returns_purgeQueue (h := h) hd hq 0 hfuel (by omega) hp room
      rw [sweep_eq (show 0 < taskLimit by decide) (Nat.zero_le _) (dvd_zero _) (by omega)] at stage
      change Stage p s queue (p.shown u queue) u v total total₁ stop at stage
      have sum : p.shownIn u (queue :: queues) = p.shown u queue + p.shownIn u queues := by
        simp [shownIn, hq]
      cases stop with
      | true =>
        obtain ⟨hl, hle⟩ := stage.cut rfl
        refine ⟨total₁, v, ?_, stage.progress, ?_, Or.inr ⟨hl, by omega⟩⟩
        · rw [purgeQueues, if_pos hq]
          exact hret.bind (Prog.returns_pure _ _)
        · intro q hout
          exact stage.others q (fun hc => hout (by simp [hc]))
      | false =>
        obtain ⟨all₁, room₁⟩ := stage.whole rfl
        have frame : ∀ q ∈ queues, v.zset .error q = u.zset .error q := by
          intro q hm
          apply stage.others
          rintro rfl
          exact hfresh hm
        have enough₁ : ∀ q ∈ queues, (v.zset .error q).card < taskLimit * fuel := by
          intro q hm
          rw [frame q hm]
          exact enough q (by simp [hm])
        obtain ⟨total₂, w, hret₂, swept⟩ := ih nodup enough₁ stage.progress room₁
        have ended := swept.ended
        rw [shownIn_congr frame] at ended
        refine ⟨total₂, w, ?_, swept.progress, ?_, ?_⟩
        · rw [purgeQueues, if_pos hq]
          exact hret.bind hret₂
        · intro q hout
          obtain ⟨hne, hout⟩ : q ≠ queue ∧ q ∉ queues := by simpa using hout
          rw [swept.others q hout, stage.others q hne]
        · rw [sum]
          rcases ended with ⟨more, all₂, counts⟩ | ⟨hl, hle⟩
          · refine Or.inl ⟨more, by omega, ?_⟩
            intro q hm hmatch
            rcases List.mem_cons.mp hm with rfl | hm
            · have card := stage.card
              rw [(shown_congr (swept.others q hfresh)).2, swept.others q hfresh, stage.kept]
              exact ⟨by omega, rfl⟩
            · have counted := counts q hm hmatch
              rwa [(shown_congr (frame q hm)).1, (shown_congr (frame q hm)).2, frame q hm] at counted
          · exact Or.inr ⟨hl, by omega⟩

/-! The whole call. -/

/-- The call returns, and it does what it promises. -/
def PurgesAll (h : Host) (p : Purge) (fuel : Nat) (s : Store) : Prop :=
  ∃ n t, Prog.Returns exec (p.purgeErroredTasks h fuel) s (some n) t ∧ p.Purges s n t

theorem sum_shownIn (e : Enumeration) (F : Finset String) :
    p.shownIn s (e.order F) =
      ∑ q ∈ F.filter (fun q => p.queueMatches q = true), p.shown s q := by
  have nodup : ((e.order F).filter p.queueMatches).Nodup := (e.nodup F).filter _
  have same : F.filter (fun q => p.queueMatches q = true) =
      ((e.order F).filter p.queueMatches).toFinset := by
    ext q
    simp [e.mem]
  rw [same, List.sum_toFinset _ nodup]
  rfl

/-- No matching task is left in a queue exactly when only those that are too new are left. -/
theorem complete_iff {n : Nat} (hp : Progress p s n t) (hq : p.queueMatches q = true) :
    (∀ x, p.Matches s q x → x ∉ t.zset .error q) ↔ (t.zset .error q).card = p.kept t q := by
  rw [kept, eq_comm, ZSet.card, List.countP_eq_length]
  constructor
  · intro h e he
    by_contra old
    have after : t.score .error q e.2 = some e.1 := ZSet.score_eq_some.mpr he
    have matched : p.Matches s q e.2 := ⟨hq, e.1, hp.score_eq after, by simpa using old⟩
    exact h e.2 matched (ZSet.mem_iff.mpr ⟨e.1, after⟩)
  · rintro h x ⟨-, ts, hts, old⟩ hx
    obtain ⟨ts', after⟩ := ZSet.mem_iff.mp hx
    have before := hp.score_eq after
    obtain rfl : ts = ts' := by simpa [hts] using before
    have new := h (ts, x) (ZSet.score_eq_some.mp after)
    rw [old] at new
    cases new

theorem kept_le_card (p : Purge) (s : Store) (q : String) : p.kept s q ≤ (s.zset .error q).card :=
  List.countP_le_length

theorem returns_purgeErroredTasks {fuel : Nat} (sound : ErrorsSound s) (positive : p.limit ≠ some 0)
    (enough : ∀ q ∈ s.queues .error, (s.zset .error q).card < taskLimit * fuel) :
    ∃ total v, Prog.Returns exec (p.purgeErroredTasks h fuel) s (some total) v ∧
      Swept p s (h.smembers.order (s.queues .error)) s v 0 total := by
  have room : ∀ l ∈ p.limit, 0 < l := by
    intro l hl
    by_contra hc
    obtain rfl : l = 0 := by omega
    exact positive hl
  have within : ∀ q ∈ h.smembers.order (s.queues .error),
      (s.zset .error q).card < taskLimit * fuel :=
    fun q hq => enough q ((h.smembers.mem _ q).mp hq)
  obtain ⟨total, v, hret, swept⟩ := returns_purgeQueues (h := h) (p := p) sound.dated
    (h.smembers.order (s.queues .error)) (h.smembers.nodup _) within (progress_refl sound.keyed) room
  refine ⟨total, v, ?_, swept⟩
  rw [purgeErroredTasks, if_neg positive]
  exact (Prog.returns_ask (Command.smembers h.smembers .error) s).bind hret

theorem Swept.purges_iff {e : Enumeration} (sound : ErrorsSound s)
    (swept : Swept p s (e.order (s.queues .error)) s v 0 total) :
    p.Purges s total v ↔ p.WithinReach s := by
  have progress := swept.progress
  have ended := swept.ended
  rw [WithinReach, ← sum_shownIn e]
  rw [Nat.zero_add] at ended
  rcases ended with ⟨more, all, counts⟩ | ⟨hl, hle⟩
  · -- the limit has not been reached
    have fits : ∀ q ∈ s.queues .error, p.queueMatches q = true →
        ((∀ x, p.Matches s q x → x ∉ v.zset .error q) ↔
          (s.zset .error q).card ≤ pageEnd taskLimit (p.kept s q)) := by
      intro q hq hm
      obtain ⟨card, same⟩ := counts q ((e.mem _ q).mpr hq) hm
      have kept_le := p.kept_le_card s q
      have exact_size := deletable_eq_iff (P := taskLimit) (by decide) kept_le
      change p.shown s q = (s.zset .error q).card - p.kept s q ↔ _ at exact_size
      rw [complete_iff progress hm, same, ← exact_size]
      omega
    constructor
    · intro purges
      left
      intro q hq hm
      exact (fits q hq hm).mp (purges.complete more q)
    · rintro (hall | ⟨l, hl, hle⟩)
      · exact
          { only := progress.only
            count := progress.count
            limit := fun l hl => (more l hl).le
            complete := by
              intro _ q x matched
              obtain ⟨hm, ts, hts, -⟩ := id matched
              have hq := sound.listed.of_mem (ZSet.mem_iff.mpr ⟨ts, hts⟩)
              exact (fits q hq hm).mpr (hall q hq hm) x matched }
      · have less := more l hl
        omega
  · constructor
    · intro _
      exact Or.inr ⟨total, hl, hle⟩
    · intro _
      exact
        { only := progress.only
          count := progress.count
          limit := by
            intro l hl'
            obtain rfl : total = l := by simpa [hl] using hl'
            exact le_rfl
          complete := fun hlt => absurd (hlt total hl) (lt_irrefl _) }

/-- Alone on the server, the call does what it promises exactly when no queue is too long or the
limit is small enough. -/
theorem purgesAll_iff_withinReach (h : Host) (p : Purge) {fuel : Nat} {s : Store}
    (sound : ErrorsSound s) (positive : p.limit ≠ some 0)
    (enough : ∀ q ∈ s.queues .error, (s.zset .error q).card < taskLimit * fuel) :
    PurgesAll h p fuel s ↔ p.WithinReach s := by
  obtain ⟨total, v, hret, swept⟩ := returns_purgeErroredTasks (h := h) sound positive enough
  rw [← swept.purges_iff sound]
  constructor
  · rintro ⟨n, t, hret', purges⟩
    obtain ⟨hn, rfl⟩ := hret'.unique hret
    obtain rfl : n = total := by simpa using hn
    exact purges
  · intro purges
    exact ⟨total, v, hret, purges⟩

end Purge

end

/-! Failed tasks, all at one time. -/

/-- Tasks that have failed at one time. -/
def failedAt (ts : Time) (ids : List String) : Store where
  queues := fun st => if st = .error then {"default"} else ∅
  zset := fun st q => if st = .error ∧ q = "default" then
    ids.foldl (fun z id => z.add ts id) ZSet.empty else ZSet.empty
  task := fun id => if id ∈ ids then some { id := id, func := "tasks:exception_task" } else none
  executions := fun _ => []
  executionsCount := fun _ => none
  locks := fun _ => none
  activity := []

section

variable {ts : Time} {ids : List String}

theorem score_failedAt (ts : Time) (ids : List String) (q x : String) :
    (failedAt ts ids).score .error q x =
      if q = "default" ∧ x ∈ ids then some ts else none := by
  by_cases hq : q = "default"
  · subst hq
    change (ids.foldl (fun z id => z.add ts id) ZSet.empty).score x = _
    rw [score_foldl_add]
    simp
  · have empty : (failedAt ts ids).zset .error q = ZSet.empty := by simp [failedAt, hq]
    rw [Store.score, empty, if_neg (fun hc => hq hc.1)]
    rfl

theorem errorsSound_failedAt (hts : Dated ts) (ids : List String) :
    ErrorsSound (failedAt ts ids) where
  listed := by
    intro q hn
    obtain ⟨x, hx⟩ := ZSet.nonempty_iff.mp hn
    rw [Store.mem_iff_score, score_failedAt] at hx
    have hq : q = "default" := by
      by_contra hc
      exact hx (if_neg (fun h => hc h.1))
    simp [failedAt, hq]
  keyed := by
    intro id d hd
    simp only [failedAt] at hd
    split_ifs at hd
    obtain rfl : _ = d := by simpa using hd
    rfl
  dated := by
    intro q e he
    have hs : (failedAt ts ids).score .error q e.2 = some e.1 := ZSet.score_eq_some.mpr he
    rw [score_failedAt] at hs
    split_ifs at hs
    obtain rfl : ts = e.1 := by simpa using hs
    exact hts

theorem card_failedAt (ts : Time) (nodup : ids.Nodup) :
    ((failedAt ts ids).zset .error "default").card = ids.length := by
  have members : {m | m ∈ (failedAt ts ids).zset .error "default"} = (ids.toFinset : Set String) := by
    ext m
    rw [Set.mem_ofPred_eq, Store.mem_iff_score, score_failedAt]
    simp
  have count := ZSet.encard_members ((failedAt ts ids).zset .error "default")
  rw [members, Set.encard_coe_eq_coe_finsetCard, List.toFinset_card_of_nodup nodup] at count
  exact_mod_cast count.symm

end

/-- Everything is to be purged in one go. -/
def purgeAll : Purge := ⟨∅, ∅, none, none, ∅, ∅⟩

theorem enough_failedAt (ts : Time) {ids : List String} {fuel : Nat} (nodup : ids.Nodup)
    (h : ids.length < Purge.taskLimit * fuel) :
    ∀ q ∈ (failedAt ts ids).queues .error,
      ((failedAt ts ids).zset .error q).card < Purge.taskLimit * fuel := by
  intro q hq
  obtain rfl : q = "default" := by simpa [failedAt] using hq
  rw [card_failedAt ts nodup]
  exact h

/-- Tasks that have failed at several times in three queues. -/
def failedInThree : Store where
  queues := fun st => if st = .error then {"default", "reports.daily", "mail"} else ∅
  zset := fun st q =>
    if st = .error then
      if q = "default" then ((ZSet.empty.add 10 "a").add 20 "b").add 30 "c"
      else if q = "reports.daily" then ZSet.empty.add 15 "d"
      else if q = "mail" then ZSet.empty.add 10 "e"
      else ZSet.empty
    else ZSet.empty
  task := fun id =>
    if id ∈ ["a", "b", "c", "d", "e"] then some { id := id, func := "tasks:exception_task" } else none
  executions := fun _ => []
  executionsCount := fun _ => none
  locks := fun _ => none
  activity := []

/-- Those of the queues default and reports, but for the new ones. -/
def purgeOld (limit : Option Nat) : Purge := ⟨{"default", "reports"}, {"mail"}, some 25, limit, ∅, ∅⟩

theorem queues_failedInThree {q : String} (hq : q ∈ failedInThree.queues .error) :
    q = "default" ∨ q = "reports.daily" ∨ q = "mail" := by
  simpa [failedInThree] using hq

theorem zset_failedInThree {q : String} (hq : q ∉ failedInThree.queues .error) :
    failedInThree.zset .error q = ZSet.empty := by
  have away : q ≠ "default" ∧ q ≠ "reports.daily" ∧ q ≠ "mail" := by simpa [failedInThree] using hq
  simp [failedInThree, away]

theorem errorsSound_failedInThree : ErrorsSound failedInThree where
  listed := by
    intro q hn
    by_contra hq
    rw [zset_failedInThree hq] at hn
    cases hn
  keyed := by
    intro id d hd
    simp only [failedInThree] at hd
    split_ifs at hd
    obtain rfl : _ = d := by simpa using hd
    rfl
  dated := by
    intro q e he
    by_cases hq : q ∈ failedInThree.queues .error
    · have all : ∀ q ∈ ["default", "reports.daily", "mail"],
          ∀ e ∈ (failedInThree.zset .error q).entries, Dated e.1 := by decide +kernel
      exact all q (by simpa using queues_failedInThree hq) e he
    · rw [zset_failedInThree hq] at he
      cases he

/-- Up to two of the old tasks, and all of them. -/
theorem purgesAll_iff_withinReach_old :
    Purge.PurgesAll plainHost (purgeOld (some 2)) 1 failedInThree ∧
      Purge.PurgesAll plainHost (purgeOld none) 1 failedInThree := by
  have few : ∀ q ∈ failedInThree.queues .error, (failedInThree.zset .error q).card ≤ 3 := by
    intro q hq
    rcases queues_failedInThree hq with rfl | rfl | rfl <;> decide +kernel
  have within : ∀ limit, (purgeOld limit).WithinReach failedInThree := by
    intro limit
    left
    intro q hq _
    have page : Purge.taskLimit ≤ pageEnd Purge.taskLimit ((purgeOld limit).kept failedInThree q) :=
      Nat.le_mul_of_pos_right _ (Nat.succ_pos _)
    exact (few q hq).trans ((by decide : 3 ≤ Purge.taskLimit).trans page)
  have enough : ∀ q ∈ failedInThree.queues .error,
      (failedInThree.zset .error q).card < Purge.taskLimit * 1 :=
    fun q hq => (few q hq).trans_lt (by decide)
  exact ⟨(Purge.purgesAll_iff_withinReach plainHost (purgeOld (some 2)) errorsSound_failedInThree
      (by simp [purgeOld]) enough).mpr (within _),
    (Purge.purgesAll_iff_withinReach plainHost (purgeOld none) errorsSound_failedInThree
      (by simp [purgeOld]) enough).mpr (within _)⟩

/-- One failed task more than fits a page. -/
theorem not_purgesAll_twoPages : ¬∀ (h : Host) (p : Purge) (fuel : Nat) (s : Store),
    ErrorsSound s → p.limit ≠ some 0 →
      (∀ q ∈ s.queues .error, (s.zset .error q).card < Purge.taskLimit * fuel) →
        Purge.PurgesAll h p fuel s := by
  intro hall
  let ids := (List.range 5001).map digitsId
  have nodup : ids.Nodup := digitsIds_nodup (by norm_num)
  have length : ids.length = 5001 := by
    rw [List.length_map, List.length_range]
  have sound : ErrorsSound (failedAt 10 ids) := errorsSound_failedAt (by decide +kernel) ids
  have positive : purgeAll.limit ≠ some 0 := by simp [purgeAll]
  have enough := enough_failedAt 10 nodup (show ids.length < Purge.taskLimit * 2 by
    rw [length]
    decide)
  obtain ⟨total, v, hret, swept⟩ :=
    Purge.returns_purgeErroredTasks (h := plainHost) sound positive enough
  obtain ⟨n, t, hret', purges⟩ := hall plainHost purgeAll 2 (failedAt 10 ids) sound positive enough
  obtain ⟨hn, rfl⟩ := hret'.unique hret
  obtain rfl : n = total := by simpa using hn
  have kept : purgeAll.kept (failedAt 10 ids) "default" = 0 := by
    simp [Purge.kept, Purge.newer, purgeAll]
  rcases (swept.purges_iff sound).mp purges with hall' | ⟨l, hl, -⟩
  · have within := hall' "default" (by simp [failedAt]) (by decide +kernel)
    rw [card_failedAt 10 nodup, length, kept] at within
    exact absurd within (by decide)
  · cases hl

end TaskTiger
