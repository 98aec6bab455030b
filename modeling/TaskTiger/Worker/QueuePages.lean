import TaskTiger.Framework.Paging
import TaskTiger.Worker.Pages

namespace TaskTiger

open Redis Rounding Interleaving Paging

/-! All pages of a queue. -/

/-- Task.id. -/
def LoadedTask.id (task : LoadedTask) : String :=
  match task.data with
  | .stored d => d.id
  | .idOnly id => id

/-- The ids of a queue in the order of its ZSET. -/
def queueIds (s : Store) (queue : String) (state : TaskState) : List String :=
  (s.zset state queue).entries.map Prod.snd

/-- Every task of the queue has its stored object. -/
def ObjectsStored (s : Store) (queue : String) (state : TaskState) : Prop :=
  ∀ id ∈ queueIds s queue state, (s.task id).map TaskData.id = some id

instance (s : Store) (queue : String) (state : TaskState) :
    Decidable (ObjectsStored s queue state) :=
  inferInstanceAs (Decidable (∀ id ∈ queueIds s queue state, (s.task id).map TaskData.id = some id))

/-- The order of the ZSET: by the scores, and by the ids where the scores are equal. -/
def RankedBefore (s : Store) (queue : String) (state : TaskState) (a b : String) : Prop :=
  ∃ t ∈ s.score state queue a, ∃ u ∈ s.score state queue b, Before (t, a) (u, b)

/-- While skip = 0, limit, 2 * limit, ... is below the number of entries, the calls return that
number and the pages that cut the queue into pieces. -/
def PagesPartition (s : Store) (queue : String) (state : TaskState) (includeNotFound : Bool)
    (loadExecutions limit : Nat) : Prop :=
  ∃ pages : PageOf (queueIds s queue state).length limit → List LoadedTask,
    (∀ k, Prog.Returns exec
      (tasksFromQueue queue state includeNotFound (k.1 * limit) limit loadExecutions) s
      ((queueIds s queue state).length, pages k) s) ∧
    Partition (RankedBefore s queue state) (queueIds s queue state) limit
      (fun k => (pages k).map LoadedTask.id)

section

variable {s : Store} {queue : String} {state : TaskState} {includeNotFound : Bool}
  {loadExecutions limit : Nat}

theorem length_queueIds : (queueIds s queue state).length = (s.zset state queue).card :=
  List.length_map _

theorem ids_slice (skip : Nat) : ((s.zset state queue).slice skip limit).map Prod.snd =
    page (queueIds s queue state) skip limit :=
  (page_map _ _ _ _).symm

theorem ids_ownTasks {items : List (Time × String)}
    (stored : ∀ e ∈ items, (s.task e.2).map TaskData.id = some e.2) :
    (items.filterMap (ownTask s queue state includeNotFound loadExecutions)).map LoadedTask.id =
      items.map Prod.snd := by
  induction items with
  | nil => rfl
  | cons e items ih =>
    have rest := ih (fun x hx => stored x (by simp [hx]))
    obtain ⟨d, hd, hid⟩ := Option.map_eq_some_iff.mp (stored e (by simp))
    have own : ownTask s queue state includeNotFound loadExecutions e =
        some ⟨queue, state, .stored d, toMultiple microsecond e.1,
          (s.executions e.2).rtake loadExecutions⟩ := by
      simp [ownTask, hd]
    rw [List.filterMap_cons, own, List.map_cons, List.map_cons, rest]
    exact congrArg (· :: _) hid

theorem rankedBefore_of_before {a b : Time × String} (ha : a ∈ (s.zset state queue).entries)
    (hb : b ∈ (s.zset state queue).entries) (h : Before a b) :
    RankedBefore s queue state a.2 b.2 :=
  ⟨a.1, ZSet.score_eq_some.mpr ha, b.1, ZSet.score_eq_some.mpr hb, h⟩

theorem pairwise_queueIds : (queueIds s queue state).Pairwise (RankedBefore s queue state) := by
  rw [queueIds, List.pairwise_map]
  exact (s.zset state queue).ranked.imp_of_mem rankedBefore_of_before

theorem dated_of_returns {skip total : Nat} {tasks : List LoadedTask} (hl : 0 < limit)
    (h : Prog.Returns exec
      (tasksFromQueue queue state includeNotFound skip limit loadExecutions) s (total, tasks) s) :
    ∀ e ∈ (s.zset state queue).slice skip limit, Dated e.1 := by
  have result := (h 0).1
  rw [result_tasksFromQueue queue state includeNotFound skip loadExecutions hl] at result
  cases loaded : (Prog.go exec (fun _ => []) (loadItems queue state includeNotFound loadExecutions
      ((s.zset state queue).slice skip limit)) 1 s).result with
  | error e =>
    have raised : Except.error e = Except.ok (total, tasks) := by
      rw [← result]
      exact (congrArg (Except.map _) loaded).symm
    cases raised
  | ok tasks => exact dated_of_result loaded

theorem returns_page (stored : ObjectsStored s queue state) (hl : 0 < limit)
    (dated : ∀ e ∈ (s.zset state queue).entries, Dated e.1) (skip : Nat) :
    Prog.Returns exec (tasksFromQueue queue state includeNotFound skip limit loadExecutions) s
      ((queueIds s queue state).length, ((s.zset state queue).slice skip limit).filterMap
        (ownTask s queue state includeNotFound loadExecutions)) s := by
  have within := page_sublist (s.zset state queue).entries skip limit
  rw [length_queueIds]
  apply returns_tasksFromQueue loadExecutions hl
  refine ⟨fun e he => dated e (within.subset he), Or.inr ?_⟩
  intro e he
  have here : e.2 ∈ queueIds s queue state := List.mem_map_of_mem (within.subset he)
  obtain ⟨d, hd, -⟩ := Option.map_eq_some_iff.mp (stored _ here)
  rw [hd]
  rfl

end

/-- The pages of a queue partition it exactly when all its scores are datetimes. -/
theorem pagesPartition_iff {s : Store} {queue : String} {state : TaskState} {limit : Nat}
    (includeNotFound : Bool) (loadExecutions : Nat) (stored : ObjectsStored s queue state)
    (hl : 0 < limit) : PagesPartition s queue state includeNotFound loadExecutions limit ↔
      ∀ e ∈ (s.zset state queue).entries, Dated e.1 := by
  constructor
  · intro h e he
    obtain ⟨pages, returns, -⟩ := h
    obtain ⟨⟨k, hk⟩, onPage⟩ := (mem_iff_page hl).mp he
    have begins : k * limit < (queueIds s queue state).length := by
      rw [length_queueIds]
      exact hk
    exact dated_of_returns hl (returns ⟨k, begins⟩) e onPage
  · intro dated
    refine ⟨fun k => ((s.zset state queue).slice (k.1 * limit) limit).filterMap
      (ownTask s queue state includeNotFound loadExecutions),
      fun k => returns_page stored hl dated _, ?_⟩
    have ids (k : PageOf (queueIds s queue state).length limit) :
        (((s.zset state queue).slice (k.1 * limit) limit).filterMap
          (ownTask s queue state includeNotFound loadExecutions)).map LoadedTask.id =
            page (queueIds s queue state) (k.1 * limit) limit := by
      rw [ids_ownTasks, ids_slice]
      intro e he
      have within := page_sublist (s.zset state queue).entries (k.1 * limit) limit
      exact stored _ (List.mem_map_of_mem (within.subset he))
    simp only [ids]
    exact partition_pages hl (s.zset state queue).unique pairwise_queueIds

def simpleData (id : String) : Option TaskData := some { id := id, func := "tasks:simple_task" }

/-- Three tasks, two of them with one score. -/
def threeQueued : Store :=
  ((((Store.empty.setZset .queued "default" (((ZSet.empty.add 10 "v").add 10 "u").add 20 "w")).sadd
    .queued "default").setTask "u" (simpleData "u")).setTask "v" (simpleData "v")).setTask "w"
      (simpleData "w")

theorem pagesPartition_iff_three : PagesPartition threeQueued "default" .queued false 0 2 := by
  refine (pagesPartition_iff false 0 ?_ (by norm_num)).mpr ?_
  · decide +kernel
  · decide +kernel

/-- A task whose retry method has asked for a delay of 10^12 seconds. -/
def beyondDates : Store :=
  ((Store.empty.setZset .scheduled "default" (ZSet.empty.add 1000000000000 "u")).sadd .scheduled
    "default").setTask "u" (simpleData "u")

theorem not_pagesPartition_beyondDates : ¬∀ (s : Store) (queue : String) (state : TaskState)
    (includeNotFound : Bool) (loadExecutions limit : Nat), ObjectsStored s queue state →
      0 < limit → PagesPartition s queue state includeNotFound loadExecutions limit := by
  intro hall
  have stored : ObjectsStored beyondDates "default" .scheduled := by decide +kernel
  obtain ⟨pages, returns, -⟩ := hall beyondDates "default" .scheduled false 0 1000 stored
    (by norm_num)
  have dated := dated_of_returns (by norm_num) (returns ⟨0, by decide +kernel⟩)
  revert dated
  decide +kernel

end TaskTiger
