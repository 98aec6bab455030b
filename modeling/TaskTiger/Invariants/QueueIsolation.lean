import TaskTiger.Framework.Isolation
import TaskTiger.Invariants.Index

namespace TaskTiger

open Redis Interleaving

/-! A queue by itself. -/

/-- What belongs to a queue alone: its ZSETs, its place in the sets of queues, and the messages
that name it. Task objects and executions belong to ids, which queues can share. -/
@[ext] structure QueueView where
  zset : TaskState → ZSet Time String
  listed : TaskState → Bool
  messages : List String

def Store.view (q : String) (s : Store) : QueueView where
  zset := fun st => s.zset st q
  listed := fun st => q ∈ s.queues st
  messages := s.activity.filter (· = q)

/-- The queue of a command, if it is about one. -/
def Command.queue? : Command → Option String
  | .delay queue _ _ _ _ | .pickup queue _ _ _ | .promote queue _ _ | .publish queue => some queue
  | .updateScheduledTime _ queue _ _ | .heartbeat queue _ _ | .fromId _ queue _ => some queue
  | .queueSizes queue | .zscores queue _ | .zrange _ queue _ _ => some queue
  | .move m => some m.queue
  | _ => none

/-- The reply of a command about a queue, without what it says of a task object. -/
def Command.answer : (c : Command) → Reply c → Σ c : Command, Reply c
  | .fromId state queue id, reply => ⟨.fromId state queue id, (none, reply.2)⟩
  | .updateScheduledTime number queue id ts, reply =>
      ⟨.updateScheduledTime number queue id ts,
        match reply with
        | .ok found => .ok found
        | .error _ => .ok true⟩
  | c, reply => ⟨c, reply⟩

section

variable {s t : Store} {q : String}

theorem view_eq (scores : ∀ st x, s.score st q x = t.score st q x)
    (listed : ∀ st, q ∈ s.queues st ↔ q ∈ t.queues st)
    (messages : s.activity.filter (· = q) = t.activity.filter (· = q)) : s.view q = t.view q := by
  refine QueueView.ext ?_ ?_ messages
  · funext st
    exact ZSet.ext_score (scores st)
  · funext st
    exact decide_eq_decide.mpr (listed st)

theorem zset_of_view (h : s.view q = t.view q) (st : TaskState) : s.zset st q = t.zset st q :=
  congrFun (congrArg QueueView.zset h) st

theorem score_of_view (h : s.view q = t.view q) (st : TaskState) (x : String) :
    s.score st q x = t.score st q x := by
  rw [Store.score, zset_of_view h]
  rfl

theorem listed_of_view (h : s.view q = t.view q) (st : TaskState) :
    q ∈ s.queues st ↔ q ∈ t.queues st :=
  decide_eq_decide.mp (congrFun (congrArg QueueView.listed h) st)

theorem messages_of_view (h : s.view q = t.view q) :
    s.activity.filter (· = q) = t.activity.filter (· = q) := congrArg QueueView.messages h

/-! zpoppush. -/

section Zpoppush

variable {a : Zpoppush}

theorem members_of_view (h : s.view a.queue = t.view a.queue) : a.members s = a.members t := by
  rw [Zpoppush.members, zset_of_view h]
  rfl

theorem moved_of_view (h : s.view a.queue = t.view a.queue) : a.moved s = a.moved t := by
  rw [Zpoppush.moved, members_of_view h, zset_of_view h]
  rfl

theorem existing_of_view (h : s.view a.queue = t.view a.queue) : a.existing s = a.existing t := by
  rw [Zpoppush.existing, members_of_view h, zset_of_view h]
  rfl

theorem popped_of_view (h : s.view a.queue = t.view a.queue) (st : TaskState) :
    (a.popped s).zset st a.queue = (a.popped t).zset st a.queue := by
  simp only [Zpoppush.popped, Store.zset_setZset, members_of_view h, zset_of_view h]

theorem added_of_view (h : s.view a.queue = t.view a.queue) (st : TaskState) :
    (a.added s).zset st a.queue = (a.added t).zset st a.queue := by
  simp only [Zpoppush.added, Store.zset_setZset, moved_of_view h, popped_of_view h]

theorem listed_zset_of_view (h : s.view a.queue = t.view a.queue) (st : TaskState) :
    (a.listed s).zset st a.queue = (a.listed t).zset st a.queue := by
  rw [Zpoppush.zset_listed, Zpoppush.zset_listed, Zpoppush.diverted, Zpoppush.diverted]
  cases a.ifExists with
  | none => exact added_of_view h st
  | some e => simp only [Store.zset_setZset, existing_of_view h, added_of_view h]

theorem zpoppushExists_of_view (h : s.view a.queue = t.view a.queue) :
    (zpoppushExists a s).1 = (zpoppushExists a t).1 ∧
      (zpoppushExists a s).2.view a.queue = (zpoppushExists a t).2.view a.queue := by
  have fits : a.Fits s ↔ a.Fits t := by rw [Zpoppush.Fits, Zpoppush.Fits, moved_of_view h]
  have messages : (zpoppushExists a s).2.activity.filter (· = a.queue) =
      (zpoppushExists a t).2.activity.filter (· = a.queue) := by
    rw [activity_zpoppushExists, activity_zpoppushExists, messages_of_view h]
  unfold zpoppushExists at messages ⊢
  simp only [members_of_view h, fits, moved_of_view h] at messages ⊢
  split_ifs at messages ⊢ with nothing
  · exact ⟨rfl, h⟩
  · refine ⟨rfl, view_eq ?_ ?_ messages⟩
    · intro st x
      rw [Store.score, listed_zset_of_view h]
      rfl
    · intro st
      simp only [Zpoppush.mem_queues_listed, listed_zset_of_view h, listed_of_view h]
  · have listed := listed_of_view h
    refine ⟨rfl, view_eq ?_ (fun st => listed st) messages⟩
    intro st x
    rw [Store.score, popped_of_view h]
    rfl

theorem zpoppushExists_apart (hq : q ≠ a.queue) : (zpoppushExists a s).2.view q = s.view q := by
  refine view_eq ?_ ?_ ?_
  · intro st x
    exact score_zpoppushExists_of_not_mem (fun h => hq h.1)
  · intro st
    unfold zpoppushExists
    split_ifs
    · rfl
    · simp [Zpoppush.mem_queues_listed, hq]
    · rfl
  · rw [activity_zpoppushExists]

end Zpoppush

/-! Task._move. -/

theorem view_move_of_view {m : Move} (h : s.view m.queue = t.view m.queue) :
    (exec (.move m) s).1 = (exec (.move m) t).1 ∧
      (exec (.move m) s).2.view m.queue = (exec (.move m) t).2.view m.queue := by
  have effective : m.Effective s ↔ m.Effective t := by
    rw [Move.Effective, Move.Effective, zset_of_view h]
  by_cases he : m.Effective s
  · have ht := effective.mp he
    have scores : ∀ st x, (exec (.move m) s).2.score st m.queue x =
        (exec (.move m) t).2.score st m.queue x := by
      intro st x
      simp only [score_move he, score_move ht, score_of_view h]
    refine ⟨(exec_move_ok he).trans (exec_move_ok ht).symm, view_eq scores ?_ ?_⟩
    · intro st
      have same : (exec (.move m) s).2.zset m.kind.fromState m.queue =
          (exec (.move m) t).2.zset m.kind.fromState m.queue := ZSet.ext_score (scores _)
      rw [mem_queues_move he, mem_queues_move ht, same, listed_of_view h]
    · rw [activity_move he, activity_move ht]
      split_ifs
      · rw [List.filter_append, List.filter_append, messages_of_view h]
      · exact messages_of_view h
  · have ht := fun hc => he (effective.mpr hc)
    rw [exec_move_of_not_effective he, exec_move_of_not_effective ht]
    exact ⟨rfl, h⟩

theorem view_move_apart {m : Move} (hq : q ≠ m.queue) :
    (exec (.move m) s).2.view q = s.view q := by
  by_cases he : m.Effective s
  · refine view_eq ?_ ?_ ?_
    · intro st x
      rw [score_move he, if_neg (fun h => hq h.1)]
    · intro st
      rw [mem_queues_move he]
      simp [hq]
    · rw [activity_move he]
      split_ifs
      · simp [Ne.symm hq]
      · rfl
  · rw [exec_move_of_not_effective he]

/-! The other commands. -/

/-- Commands that leave ZSETs, sets of queues and the channel alone. -/
theorem view_passive {c : Command} (hc : c.Passive) (hp : ∀ queue, c ≠ .publish queue) :
    (exec c s).2.view q = s.view q := by
  obtain ⟨zset, queues, -⟩ := exec_passive hc s
  refine view_eq ?_ ?_ ?_
  · intro st x
    rw [Store.score, zset]
    rfl
  · intro st
    rw [queues]
  · cases c with
    | publish queue => exact absurd rfl (hp queue)
    | acquireLock name token =>
      simp only [exec]
      cases s.locks name <;> rfl
    | releaseLock name token =>
      simp only [exec]
      split_ifs <;> rfl
    | delay => exact hc.elim
    | pickup => exact hc.elim
    | promote => exact hc.elim
    | move => exact hc.elim
    | updateScheduledTime => exact hc.elim
    | heartbeat => exact hc.elim
    | _ => rfl

theorem view_apart (c : Command) (hc : c.queue? ≠ some q) : (exec c s).2.view q = s.view q := by
  cases c with
  | delay queue data ts now publish =>
    have hq : q ≠ queue := fun h => hc (congrArg some h.symm)
    refine view_eq ?_ ?_ ?_
    · intro st x
      rw [score_delay, if_neg (fun h => hq h.2.1)]
    · intro st
      simp [mem_queues_delay, hq]
    · rw [activity_delay]
      split_ifs
      · simp [Ne.symm hq]
      · rfl
  | pickup queue count now later =>
    exact zpoppushExists_apart (fun h => hc (congrArg some h.symm))
  | promote queue count now =>
    exact zpoppushExists_apart (fun h => hc (congrArg some h.symm))
  | move m => exact view_move_apart (fun h => hc (congrArg some h.symm))
  | updateScheduledTime number queue id ts =>
    have hq : q ≠ queue := fun h => hc (congrArg some h.symm)
    refine view_eq ?_ ?_ ?_
    · intro st x
      rw [score_updateScheduledTime, if_neg (fun h => hq h.2.1)]
    · intro st
      rw [queues_updateScheduledTime]
    · rw [activity_updateScheduledTime]
  | heartbeat queue ids now =>
    have hq : q ≠ queue := fun h => hc (congrArg some h.symm)
    refine view_eq ?_ (fun st => Iff.rfl) rfl
    intro st x
    rw [score_heartbeat, if_neg (fun h => hq h.2.1)]
  | publish queue =>
    have hq : q ≠ queue := fun h => hc (congrArg some h.symm)
    refine view_eq (fun _ _ => rfl) (fun _ => Iff.rfl) ?_
    change List.filter _ (s.activity ++ [queue]) = _
    simp [Ne.symm hq]
  | _ => exact view_passive trivial (by simp)

theorem view_determined (c : Command) (hc : c.queue? = some q) (h : s.view q = t.view q) :
    (exec c s).2.view q = (exec c t).2.view q := by
  by_cases reads : c.Passive ∧ ∀ queue, c ≠ .publish queue
  · rw [view_passive reads.1 reads.2, view_passive reads.1 reads.2, h]
  · cases c with
    | delay queue data ts now publish =>
      obtain rfl : queue = q := Option.some.inj hc
      refine view_eq ?_ ?_ ?_
      · intro st x
        simp only [score_delay, score_of_view h]
      · intro st
        simp only [mem_queues_delay, listed_of_view h]
      · rw [activity_delay, activity_delay]
        split_ifs
        · rw [List.filter_append, List.filter_append, messages_of_view h]
        · exact messages_of_view h
    | pickup queue count now later =>
      obtain rfl : queue = q := Option.some.inj hc
      exact (zpoppushExists_of_view (a := pickupArgs queue count now later) h).2
    | promote queue count now =>
      obtain rfl : queue = q := Option.some.inj hc
      exact (zpoppushExists_of_view (a := promoteArgs queue count now) h).2
    | move m =>
      obtain rfl : m.queue = q := Option.some.inj hc
      exact (view_move_of_view h).2
    | updateScheduledTime number queue id ts =>
      obtain rfl : queue = q := Option.some.inj hc
      refine view_eq ?_ ?_ ?_
      · intro st x
        simp only [score_updateScheduledTime, score_of_view h, zset_of_view h]
      · intro st
        rw [queues_updateScheduledTime, queues_updateScheduledTime, listed_of_view h]
      · rw [activity_updateScheduledTime, activity_updateScheduledTime, messages_of_view h]
    | heartbeat queue ids now =>
      obtain rfl : queue = q := Option.some.inj hc
      have listed := listed_of_view h
      have messages := messages_of_view h
      refine view_eq ?_ (fun st => listed st) messages
      intro st x
      simp only [score_heartbeat, score_of_view h]
    | publish queue =>
      obtain rfl : queue = q := Option.some.inj hc
      have scores := score_of_view h
      have listed := listed_of_view h
      refine view_eq (fun st x => scores st x) (fun st => listed st) ?_
      change List.filter _ (s.activity ++ [queue]) = List.filter _ (t.activity ++ [queue])
      rw [List.filter_append, List.filter_append, messages_of_view h]
    | _ => exact absurd ⟨trivial, by simp⟩ reads

theorem answer_determined (c : Command) (hc : c.queue? = some q) (h : s.view q = t.view q) :
    c.answer (exec c s).1 = c.answer (exec c t).1 := by
  cases c with
  | pickup queue count now later =>
    obtain rfl : queue = q := Option.some.inj hc
    exact congrArg (Command.answer _)
      (zpoppushExists_of_view (a := pickupArgs queue count now later) h).1
  | promote queue count now =>
    obtain rfl : queue = q := Option.some.inj hc
    exact congrArg (Command.answer _)
      (zpoppushExists_of_view (a := promoteArgs queue count now) h).1
  | move m =>
    obtain rfl : m.queue = q := Option.some.inj hc
    exact congrArg (Command.answer _) (view_move_of_view h).1
  | updateScheduledTime number queue id ts =>
    obtain rfl : queue = q := Option.some.inj hc
    have found (u : Store) : Command.answer (.updateScheduledTime number queue id ts)
        (exec (.updateScheduledTime number queue id ts) u).1 =
          ⟨.updateScheduledTime number queue id ts,
            .ok (decide (id ∈ u.zset .scheduled queue))⟩ := by
      change Command.answer (.updateScheduledTime number queue id ts)
        (updateScheduledTime number queue id ts u).1 = _
      cases update_effect number queue id ts u with
      | absent out result =>
        rw [result]
        simp [Command.answer, out]
      | failed e within bad result =>
        rw [result]
        simp [Command.answer, within]
      | updated d within stored good result =>
        rw [result]
        simp [Command.answer, within]
    rw [found, found, zset_of_view h]
  | fromId state queue id =>
    obtain rfl : queue = q := Option.some.inj hc
    simp only [exec, Command.answer, score_of_view h]
  | queueSizes queue =>
    obtain rfl : queue = q := Option.some.inj hc
    simp only [exec, zset_of_view h]
  | zscores queue id =>
    obtain rfl : queue = q := Option.some.inj hc
    simp only [exec, score_of_view h]
  | zrange state queue start stop =>
    obtain rfl : queue = q := Option.some.inj hc
    simp only [exec, zset_of_view h]
  | delay => rfl
  | heartbeat => rfl
  | publish => rfl
  | _ => cases hc

end

theorem isolates_queue (q : String) :
    Isolates exec (Store.view q) Command.answer (fun c => c.queue? = some q) where
  apart := fun _ c hc => view_apart c hc
  determined := fun _ _ c hc h => view_determined c hc h
  answers := fun _ _ c hc h => answer_determined c hc h

/-- Queues do not interfere: for its ZSETs, its place in the sets of queues, its messages and the
replies of its commands, a queue sees no difference between a run of commands on any queues and its
own commands alone. -/
theorem queue_isolated (s : Store) (q : String) (l : List Command) :
    (runAll s l).view q = (runAll s (l.filter (fun c => c.queue? = some q))).view q ∧
      transcript exec Command.answer (fun c => c.queue? = some q) s l =
        transcript exec Command.answer (fun c => c.queue? = some q) s
          (l.filter (fun c => c.queue? = some q)) :=
  (isolates_queue q).run_filter l rfl

end TaskTiger
