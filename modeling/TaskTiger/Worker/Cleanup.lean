import TaskTiger.Worker.Races
import TaskTiger.Worker.Routines

namespace TaskTiger

open Redis Interleaving Interleaving.Prog

/-! What a removal of a missing task is. -/

/-- A cleanup move carries no data, and so not the flag of a unique task. -/
def Command.BareCleanup : Command → Prop
  | .move m => m.kind = .missing → m.unique = false
  | _ => True

variable (h : Host)

theorem bareCleanup_of_ofWorker {c : Command} (hc : c.OfWorker h) : c.BareCleanup := by
  cases c with
  | move m => exact hc.2
  | _ => trivial

/-! What it does to the objects. -/

/-- Every id that is in a ZSET of the queue after the move, and had an object before, has one
after it. -/
def KeepsObjects (s : Store) (m : Move) : Prop :=
  ∀ x, (∃ st, x ∈ (exec (.move m) s).2.zset st m.queue) → s.task x ≠ none →
    (exec (.move m) s).2.task x ≠ none

/-- The id is active and has an object after all, and it is in another state of the queue too. -/
def HitsLive (s : Store) (m : Move) : Prop :=
  m.id ∈ s.zset .active m.queue ∧ s.task m.id ≠ none ∧
    ∃ st, st ≠ .active ∧ m.id ∈ s.zset st m.queue

theorem keepsObjects_iff {s : Store} {m : Move} (hk : m.kind = .missing) (hu : m.unique = false) :
    KeepsObjects s m ↔ ¬HitsLive s m := by
  have hfrom : m.kind.fromState = .active := by rw [hk]; rfl
  have hto : m.kind.toState = none := by rw [hk]; rfl
  have effective : m.Effective s ↔ m.id ∈ s.zset .active m.queue := by
    unfold Move.Effective
    rw [hfrom]
  constructor
  · rintro hkeep ⟨hact, htask, st, hst, hin⟩
    have he := effective.mpr hact
    have hdel : m.Deletes s := ⟨he, hto, fun hc => by simp [hu] at hc⟩
    have stays : m.id ∈ (exec (.move m) s).2.zset st m.queue := by
      rw [Store.mem_iff_score, score_move he, hfrom, hto]
      simpa [hst] using Store.mem_iff_score.mp hin
    refine hkeep m.id ⟨st, stays⟩ htask ?_
    rw [task_move, if_pos ⟨hdel, rfl⟩]
  · intro hlive x hx htask
    rw [task_move]
    split_ifs with hdel
    · obtain ⟨hdel, rfl⟩ := hdel
      obtain ⟨st, hin⟩ := hx
      rw [Store.mem_iff_score, score_move hdel.1, hfrom, hto] at hin
      by_cases hst : st = .active
      · simp [hst] at hin
      · have hbefore : m.id ∈ s.zset st m.queue := by
          rw [Store.mem_iff_score]
          simpa [hst] using hin
        exact absurd ⟨effective.mp hdel.1, htask, st, hst, hbefore⟩ hlive
    · exact htask

/-- A cleanup keeps the objects of its queue exactly when it does not hit a live instance of a
task that has another one pending, in both routines and among any steps of others. -/
theorem cleanup_keepsObjects_iff (env : Nat → List Command) (n : Nat) (s : Store) :
    (∀ queue taskIds t m,
      (t, .move m) ∈ (go exec env (Worker.processQueueTasks h queue taskIds) n s).trace →
        m.kind = .missing → (KeepsObjects t m ↔ ¬HitsLive t m)) ∧
    (∀ t m, (t, .move m) ∈ (go exec env (Worker.workerQueueExpiredTasks h) n s).trace →
        m.kind = .missing → (KeepsObjects t m ↔ ¬HitsLive t m)) := by
  constructor
  · intro queue taskIds t m hin hk
    have bare := (Worker.ofWorker_processQueueTasks h queue taskIds).trace n s _ hin
    exact keepsObjects_iff hk (bareCleanup_of_ofWorker h bare hk)
  · intro t m hin hk
    have bare := (Worker.ofWorker_workerQueueExpiredTasks h).trace n s _ hin
    exact keepsObjects_iff hk (bareCleanup_of_ofWorker h bare hk)

/-- The object of u was deleted with its instance in another queue. The cleanup finds nothing to
keep. -/
def orphanedInQueueB : List Command :=
  [.delay "a" { id := "u", func := "tasks:unique_task", unique := true } none 1 true,
    .delay "b" { id := "u", func := "tasks:unique_task", unique := true } none 2 true,
    .pickup "a" 1 3 4,
    .move ⟨.done, "a", "u", true, 5, true⟩,
    .pickup "b" 1 6 7]

theorem cleanup_keepsObjects_orphaned :
    KeepsObjects (runAll Store.empty orphanedInQueueB) ⟨.missing, "b", "u", false, 101, true⟩ := by
  have found : (runAll Store.empty orphanedInQueueB).task "u" = none := by
    have hnone : ((runAll Store.empty orphanedInQueueB).task "u").isNone = true := by
      decide +kernel
    exact Option.isNone_iff_eq_none.mp hnone
  have hload : Worker.processQueueTasks plainHost "b" ["u"] =
      Prog.call (.mget ["u"]) (fun serialized =>
        Worker.loadTasks plainHost "b" (["u"].zip serialized) >>= fun tasks =>
          Worker.processGroups plainHost "b" (tasks.foldl Worker.addToGroup [])) := rfl
  refine ((cleanup_keepsObjects_iff plainHost (fun _ => []) 0
    (runAll Store.empty orphanedInQueueB)).1 "b" ["u"] _ _ ?_ rfl).mpr (fun hlive => hlive.2.1 found)
  rw [hload]
  simp only [go, exec, run_nil, List.map, found, List.zip, List.zipWith]
  exact List.Mem.tail _ (List.Mem.head _)

/-- While a worker looks for the object of an expired id, the id is finished, delayed again,
picked up and delayed once more. -/
def redelayedWhileExpiring : Nat → List Command
  | 2 => [.move ⟨.done, "default", "u", true, 99, true⟩]
  | 4 => [
    .delay "default" { id := "u", func := "tasks:unique_task", unique := true } none
      100 true,
    .pickup "default" 1 100 101,
    .delay "default" { id := "u", func := "tasks:unique_task", unique := true } none
      101 true]
  | _ => []

/-- The cleanup deletes the object of the queued instance. -/
theorem not_keepsObjects_redelayed : ¬∀ (h : Host) (env : Nat → List Command) (n : Nat) (s : Store),
    (∀ queue taskIds t m,
      (t, .move m) ∈ (go exec env (Worker.processQueueTasks h queue taskIds) n s).trace →
        m.kind = .missing → KeepsObjects t m) ∧
    (∀ t m, (t, .move m) ∈ (go exec env (Worker.workerQueueExpiredTasks h) n s).trace →
        m.kind = .missing → KeepsObjects t m) := by
  intro hall
  let s := runAll Store.empty [
    .delay "default" { id := "u", func := "tasks:unique_task", unique := true } none
      1 true,
    .pickup "default" 1 2 3]
  have destroyed : (go exec redelayedWhileExpiring (Worker.workerQueueExpiredTasks plainHost) 0
      s).trace.any (fun x => match x.2 with
        | .move m => decide (m.kind = .missing) &&
            decide ("u" ∈ (exec (.move m) x.1).2.zset .queued m.queue) &&
            (x.1.task "u").isSome && ((exec (.move m) x.1).2.task "u").isNone
        | _ => false) = true := by
    decide +kernel
  obtain ⟨⟨t, c⟩, hin, hx⟩ := List.any_eq_true.mp destroyed
  cases c with
  | move m =>
    simp only [Bool.and_eq_true, decide_eq_true_eq, Option.isNone_iff_eq_none,
      Option.isSome_iff_ne_none] at hx
    obtain ⟨⟨⟨hk, hqueued⟩, hbefore⟩, hafter⟩ := hx
    exact (hall plainHost redelayedWhileExpiring 0 s).2 t m hin hk "u" ⟨.queued, hqueued⟩ hbefore
      hafter
  | _ => simp at hx

end TaskTiger
