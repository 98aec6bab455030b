import TaskTiger.Store.Scripts

namespace TaskTiger

open Redis

theorem score_foldl_add (l : List String) (score : Time) (z : ZSet Time String) (x : String) :
    (l.foldl (fun z m => z.add score m) z).score x = if x ∈ l then some score else z.score x := by
  induction l generalizing z with
  | nil => simp
  | cons m l ih =>
    rw [List.foldl_cons, ih, ZSet.score_add]
    by_cases hl : x ∈ l
    · simp [hl]
    · by_cases hx : x = m <;> simp [hl, hx]

theorem score_foldl_min (l : List String) (score : Time) (z : ZSet Time String) (x : String) :
    (l.foldl (fun z m => zaddUpdateMin z score m) z).score x =
      if x ∈ l then some (((z.score x).map (min · score)).getD score) else z.score x := by
  induction l generalizing z with
  | nil => simp
  | cons m l ih =>
    rw [List.foldl_cons, ih, score_zaddUpdateMin]
    by_cases hx : x = m
    · subst hx
      cases z.score x <;> simp
    · simp [hx]

namespace Zpoppush

variable (a : Zpoppush) (s : Store)

/-- The keys of the ZSETs are different ones. -/
structure Distinct : Prop where
  source : a.source ≠ a.destination
  ifExists : ∀ st score, a.ifExists = some (st, score) → st ≠ a.source ∧ st ≠ a.destination

variable {a s} {st : TaskState} {q x : String}

theorem mem_source_of_mem_members (h : x ∈ a.members s) : x ∈ s.zset a.source a.queue :=
  ZSet.mem_of_mem_range h

theorem mem_moved : x ∈ a.moved s ↔ x ∈ a.members s ∧ x ∉ s.zset a.destination a.queue := by
  simp [moved]

theorem mem_existing : x ∈ a.existing s ↔ x ∈ a.members s ∧ x ∈ s.zset a.destination a.queue := by
  simp [existing]

theorem score_popped : (a.popped s).score st q x =
    if st = a.source ∧ q = a.queue ∧ x ∈ a.members s then none else s.score st q x := by
  unfold popped Store.score
  rw [Store.zset_setZset]
  by_cases h : st = a.source ∧ q = a.queue
  · obtain ⟨rfl, rfl⟩ := h
    have hp := ZSet.rangeByScore_isPrefix (s.zset a.source a.queue) a.score a.count
    have hlen : (a.members s).length =
        ((s.zset a.source a.queue).rangeByScore none a.score a.count).length := by
      simp [members]
    rw [hlen, if_pos ⟨rfl, rfl⟩, ZSet.score_popFirst hp]
    simp only [members, true_and]
  · have h' : ¬(st = a.source ∧ q = a.queue ∧ x ∈ a.members s) := by tauto
    rw [if_neg h, if_neg h']

theorem score_added : (a.added s).score st q x =
    if st = a.destination ∧ q = a.queue ∧ x ∈ a.moved s then some a.newScore
    else (a.popped s).score st q x := by
  unfold added Store.score
  rw [Store.zset_setZset]
  by_cases h : st = a.destination ∧ q = a.queue
  · obtain ⟨rfl, rfl⟩ := h
    rw [if_pos ⟨rfl, rfl⟩, score_foldl_add]
    simp
  · have h' : ¬(st = a.destination ∧ q = a.queue ∧ x ∈ a.moved s) := by tauto
    rw [if_neg h, if_neg h']

theorem score_diverted_none (h : a.ifExists = none) :
    (a.diverted s).score st q x = (a.added s).score st q x := by
  simp [diverted, h]

theorem score_diverted_some {st' : TaskState} {score : Time} (h : a.ifExists = some (st', score)) :
    (a.diverted s).score st q x =
      if st = st' ∧ q = a.queue ∧ x ∈ a.existing s then
        some ((((a.added s).score st q x).map (min · score)).getD score)
      else (a.added s).score st q x := by
  unfold diverted Store.score
  simp only [h]
  rw [Store.zset_setZset]
  by_cases hk : st = st' ∧ q = a.queue
  · obtain ⟨rfl, rfl⟩ := hk
    rw [if_pos ⟨rfl, rfl⟩, score_foldl_min]
    simp
  · have hk' : ¬(st = st' ∧ q = a.queue ∧ x ∈ a.existing s) := by tauto
    rw [if_neg hk, if_neg hk']

theorem zset_listed : (a.listed s).zset = (a.diverted s).zset := by
  unfold listed
  cases h : a.ifExists with
  | none => simp
  | some p =>
    obtain ⟨st, score⟩ := p
    simp only
    split_ifs <;> simp

/-- The script touches ZSETs and the sets of queues only. -/
theorem listed_eq (a : Zpoppush) (s : Store) : a.listed s =
    { s with zset := (a.listed s).zset, queues := (a.listed s).queues } := by
  unfold listed sremIfNotExists diverted
  cases a.ifExists with
  | none =>
    simp only
    split_ifs <;> rfl
  | some p =>
    simp only
    split_ifs <;> rfl

end Zpoppush

section ZpoppushExists

variable {a : Zpoppush} {s : Store} {st : TaskState} {q x : String}

theorem zpoppushExists_eq (a : Zpoppush) (s : Store) : (zpoppushExists a s).2 =
    { s with zset := (zpoppushExists a s).2.zset, queues := (zpoppushExists a s).2.queues } := by
  unfold zpoppushExists
  split_ifs
  · rfl
  · exact Zpoppush.listed_eq a s
  · rfl

theorem task_zpoppushExists : (zpoppushExists a s).2.task = s.task := by
  rw [zpoppushExists_eq]

theorem activity_zpoppushExists : (zpoppushExists a s).2.activity = s.activity := by
  rw [zpoppushExists_eq]

theorem locks_zpoppushExists (a : Zpoppush) (s : Store) :
    (zpoppushExists a s).2.locks = s.locks := by
  rw [zpoppushExists_eq]

theorem executions_zpoppushExists (a : Zpoppush) (s : Store) :
    (zpoppushExists a s).2.executions = s.executions ∧
      (zpoppushExists a s).2.executionsCount = s.executionsCount := by
  rw [zpoppushExists_eq]
  exact ⟨rfl, rfl⟩

/-- Ids outside the popped batch keep their scores. -/
theorem score_zpoppushExists_of_not_mem (h : ¬(q = a.queue ∧ x ∈ a.members s)) :
    (zpoppushExists a s).2.score st q x = s.score st q x := by
  have hp : (a.popped s).score st q x = s.score st q x := by
    rw [Zpoppush.score_popped, if_neg (by tauto)]
  have hm : ¬(st = a.destination ∧ q = a.queue ∧ x ∈ a.moved s) := by
    rw [Zpoppush.mem_moved]; tauto
  have ha : (a.added s).score st q x = s.score st q x := by
    rw [Zpoppush.score_added, if_neg hm, hp]
  unfold zpoppushExists
  split_ifs with h1 h2
  · rfl
  · change ((a.listed s).zset st q).score x = _
    rw [Zpoppush.zset_listed]
    change (a.diverted s).score st q x = _
    cases hi : a.ifExists with
    | none => rw [Zpoppush.score_diverted_none hi, ha]
    | some p =>
      rw [Zpoppush.score_diverted_some hi, if_neg (by rw [Zpoppush.mem_existing]; tauto), ha]
  · exact hp

theorem members_ne_nil (h : x ∈ a.members s) : a.members s ≠ [] := by
  intro he
  simp [he] at h

/-- A popped id leaves the source, whether or not the script succeeds. -/
theorem score_zpoppushExists_source (hd : a.Distinct) (h : x ∈ a.members s) :
    (zpoppushExists a s).2.score a.source a.queue x = none := by
  have hp : (a.popped s).score a.source a.queue x = none := by
    rw [Zpoppush.score_popped, if_pos ⟨rfl, rfl, h⟩]
  have ha : (a.added s).score a.source a.queue x = none := by
    rw [Zpoppush.score_added, if_neg (fun hc => hd.source hc.1), hp]
  unfold zpoppushExists
  rw [if_neg (members_ne_nil h)]
  split_ifs with h2
  · change ((a.listed s).zset a.source a.queue).score x = _
    rw [Zpoppush.zset_listed]
    change (a.diverted s).score a.source a.queue x = _
    cases hi : a.ifExists with
    | none => rw [Zpoppush.score_diverted_none hi, ha]
    | some p =>
      have hne := (hd.ifExists p.1 p.2 hi).1
      rw [Zpoppush.score_diverted_some hi, if_neg (fun hc => hne hc.1.symm), ha]
  · exact hp

/-- A script that fails on unpack touches the source only. -/
theorem score_zpoppushExists_of_not_fits (hf : ¬a.Fits s) (hst : st ≠ a.source) :
    (zpoppushExists a s).2.score st q x = s.score st q x := by
  unfold zpoppushExists
  rw [if_neg hf]
  split_ifs
  · rfl
  · change (a.popped s).score st q x = _
    rw [Zpoppush.score_popped, if_neg (fun hc => hst hc.1)]

/-- A popped id that is not at the destination enters it with the new score. -/
theorem score_zpoppushExists_moved (hf : a.Fits s) (h : x ∈ a.members s)
    (hx : x ∉ s.zset a.destination a.queue) (hst : st ≠ a.source) :
    (zpoppushExists a s).2.score st a.queue x =
      if st = a.destination then some a.newScore else s.score st a.queue x := by
  have hm : x ∈ a.moved s := Zpoppush.mem_moved.mpr ⟨h, hx⟩
  have hn : x ∉ a.existing s := by rw [Zpoppush.mem_existing]; tauto
  have ha : (a.added s).score st a.queue x =
      if st = a.destination then some a.newScore else s.score st a.queue x := by
    rw [Zpoppush.score_added, Zpoppush.score_popped]
    simp [hm, hst]
  unfold zpoppushExists
  rw [if_neg (members_ne_nil h), if_pos hf]
  change ((a.listed s).zset st a.queue).score x = _
  rw [Zpoppush.zset_listed]
  change (a.diverted s).score st a.queue x = _
  cases hi : a.ifExists with
  | none => rw [Zpoppush.score_diverted_none hi, ha]
  | some p => rw [Zpoppush.score_diverted_some hi, if_neg (fun hc => hn hc.2.2), ha]

/-- A popped id that already is at the destination keeps its score there; with if_exists it
enters that ZSET with the smaller score. -/
theorem score_zpoppushExists_existing (hf : a.Fits s) (h : x ∈ a.members s)
    (hx : x ∈ s.zset a.destination a.queue) (hst : st ≠ a.source) :
    (zpoppushExists a s).2.score st a.queue x =
      match a.ifExists with
      | none => s.score st a.queue x
      | some (st', score) =>
          if st = st' then some (((s.score st a.queue x).map (min · score)).getD score)
          else s.score st a.queue x := by
  have hm : x ∉ a.moved s := by rw [Zpoppush.mem_moved]; tauto
  have he : x ∈ a.existing s := Zpoppush.mem_existing.mpr ⟨h, hx⟩
  have ha : (a.added s).score st a.queue x = s.score st a.queue x := by
    rw [Zpoppush.score_added, if_neg (fun hc => hm hc.2.2), Zpoppush.score_popped,
      if_neg (fun hc => hst hc.1)]
  unfold zpoppushExists
  rw [if_neg (members_ne_nil h), if_pos hf]
  change ((a.listed s).zset st a.queue).score x = _
  rw [Zpoppush.zset_listed]
  change (a.diverted s).score st a.queue x = _
  cases hi : a.ifExists with
  | none => rw [Zpoppush.score_diverted_none hi, ha]
  | some p =>
    obtain ⟨st', score⟩ := p
    rw [Zpoppush.score_diverted_some hi, ha]
    simp [he]

end ZpoppushExists

/-! move_task. -/

/-- The score a member gets, from its old one. -/
def Mode.newScore (mode : Mode) (old : Option Time) (score : Time) : Time :=
  match mode with
  | .nx => old.getD score
  | .min => (old.map (Min.min · score)).getD score
  | _ => score

@[simp] theorem Mode.newScore_none (mode : Mode) (score : Time) : mode.newScore none score = score := by
  cases mode <;> rfl

theorem score_zaddWMode {z z' : ZSet Time String} {score : Time} {m : String} {mode : Mode}
    (h : zaddWMode z score m mode = .ok z') (x : String) :
    z'.score x = if x = m then some (mode.newScore (z.score m) score) else z.score x := by
  cases mode with
  | always =>
    obtain rfl : z.add score m = z' := by simpa [zaddWMode] using h
    exact ZSet.score_add _ _ _ _
  | nx =>
    obtain rfl : zaddNoupdate z score m = z' := by simpa [zaddWMode] using h
    exact score_zaddNoupdate _ _ _ _
  | min =>
    obtain rfl : zaddUpdateMin z score m = z' := by simpa [zaddWMode] using h
    exact score_zaddUpdateMin _ _ _ _
  | other mode => simp [zaddWMode] at h

/-- Whether the removal branch deletes the object: always for a non-unique task, and for a
unique one when the id is in none of the other ZSETs of this queue. -/
def MoveTask.Deletes (a : MoveTask) (s : Store) : Prop :=
  a.unique = true → ∀ st, st ≠ a.fromState → a.id ∉ s.zset st a.queue

instance (a : MoveTask) (s : Store) : Decidable (a.Deletes s) :=
  inferInstanceAs (Decidable (a.unique = true → ∀ st, st ≠ a.fromState → a.id ∉ s.zset st a.queue))

section MoveTask

variable {a : MoveTask} {s : Store} {st : TaskState} {q x : String}

theorem score_leave : (leave a s).score st q x =
    if st = a.fromState ∧ q = a.queue ∧ x = a.id then none else s.score st q x := by
  unfold leave Store.score
  rw [Store.zset_setZset]
  by_cases h : st = a.fromState ∧ q = a.queue
  · obtain ⟨rfl, rfl⟩ := h
    rw [if_pos ⟨rfl, rfl⟩, ZSet.score_rem]
    simp
  · have h' : ¬(st = a.fromState ∧ q = a.queue ∧ x = a.id) := by tauto
    rw [if_neg h, if_neg h']

theorem zset_removeTask : (removeTask a s).zset = s.zset := by
  unfold removeTask removeObject removeExecutions
  split_ifs <;> rfl

theorem queues_removeTask : (removeTask a s).queues = s.queues := by
  unfold removeTask removeObject removeExecutions
  split_ifs <;> rfl

theorem activity_removeTask : (removeTask a s).activity = s.activity := by
  unfold removeTask removeObject removeExecutions
  split_ifs <;> rfl

theorem notInZsets_others : notInZsets s a.queue a.id
    ([TaskState.active, .queued, .error, .scheduled].filter (· ≠ a.fromState)) = true ↔
    ∀ st, st ≠ a.fromState → a.id ∉ s.zset st a.queue := by
  simp only [notInZsets, List.all_eq_true, List.mem_filter, decide_eq_true_eq, and_imp]
  constructor
  · intro h st hst
    exact h st (by cases st <;> simp) hst
  · intro h st _ hst
    exact h st hst

theorem task_removeTask : (removeTask a s).task x =
    if x = a.id ∧ a.Deletes s then none else s.task x := by
  have zsets : (removeExecutions a s).zset = s.zset := by
    unfold removeExecutions
    split_ifs <;> rfl
  have tasks : (removeExecutions a s).task = s.task := by
    unfold removeExecutions
    split_ifs <;> rfl
  unfold removeTask
  by_cases hu : a.unique = true
  · have hd : notInZsets (removeExecutions a s) a.queue a.id
        ([TaskState.active, .queued, .error, .scheduled].filter (· ≠ a.fromState)) = true ↔
        a.Deletes s := by
      rw [notInZsets_others, zsets]
      simp [MoveTask.Deletes, hu]
    rw [if_pos hu, removeObject]
    by_cases h : a.Deletes s
    · rw [if_pos (hd.mpr h)]
      simp [h, tasks]
    · rw [if_neg (fun hc => h (hd.mp hc))]
      simp [h, tasks]
  · have h : a.Deletes s := fun hc => absurd hc hu
    rw [if_neg hu]
    simp [h]

/-- The script raises and changes nothing when the id is not in from_state. -/
theorem moveTask_of_not_mem (h : a.id ∉ s.zset a.fromState a.queue) :
    moveTask a s = (.error .failIfNotInZset, s) := by
  rw [moveTask, if_pos h]

theorem moveTask_none (h : a.id ∈ s.zset a.fromState a.queue) (ht : a.toState = none) :
    moveTask a s =
      (.ok (), sremIfNotExists a.fromState a.queue (removeTask a (leave a s))) := by
  rw [moveTask, if_neg (not_not.mpr h)]
  simp only [ht]

/-- A supported mode always yields the new ZSET. -/
theorem zaddWMode_ok {z : ZSet Time String} {score : Time} {m : String} {mode : Mode}
    (h : ∀ name, mode ≠ .other name) : ∃ z', zaddWMode z score m mode = .ok z' := by
  cases mode with
  | other name => exact absurd rfl (h name)
  | always => exact ⟨_, rfl⟩
  | nx => exact ⟨_, rfl⟩
  | min => exact ⟨_, rfl⟩

theorem moveTask_some {dest : TaskState} {z : ZSet Time String}
    (h : a.id ∈ s.zset a.fromState a.queue) (ht : a.toState = some dest)
    (hz : zaddWMode (s.zset dest a.queue) a.when a.id a.mode = .ok z) :
    moveTask a s =
      let t := sremIfNotExists a.fromState a.queue
        (leave a ((s.setZset dest a.queue z).sadd dest a.queue))
      (.ok (), if dest = .queued ∧ a.publishQueuedTasks = true then t.publish a.queue else t) := by
  rw [moveTask, if_neg (not_not.mpr h)]
  simp only [ht, hz]

/-- What a move that takes effect does to the scores: the id leaves from_state and enters
to_state with the score of its mode. -/
theorem score_moveTask (h : a.id ∈ s.zset a.fromState a.queue)
    (hne : a.toState ≠ some a.fromState)
    (hm : a.toState ≠ none → ∀ name, a.mode ≠ .other name) :
    (moveTask a s).2.score st q x =
      if q = a.queue ∧ x = a.id then
        if st = a.fromState then none
        else if a.toState = some st then some (a.mode.newScore (s.score st q x) a.when)
        else s.score st q x
      else s.score st q x := by
  cases ht : a.toState with
  | none =>
    have hz : ((moveTask a s).2.zset st q).score x = (leave a s).score st q x := by
      rw [moveTask_none h ht]
      simp only [zset_sremIfNotExists, zset_removeTask]
      rfl
    change ((moveTask a s).2.zset st q).score x = _
    rw [hz, score_leave]
    by_cases hk : q = a.queue ∧ x = a.id
    · simp [hk]
    · have hk' : ¬(st = a.fromState ∧ q = a.queue ∧ x = a.id) := by tauto
      rw [if_neg hk, if_neg hk']
  | some dest =>
    have hd : dest ≠ a.fromState := by
      intro hc
      exact hne (by rw [ht, hc])
    obtain ⟨z, hz⟩ : ∃ z, zaddWMode (s.zset dest a.queue) a.when a.id a.mode = .ok z :=
      zaddWMode_ok (hm (by simp [ht]))
    have hs : ((moveTask a s).2.zset st q).score x =
        (leave a ((s.setZset dest a.queue z).sadd dest a.queue)).score st q x := by
      rw [moveTask_some h ht hz]
      simp only
      split_ifs <;> simp [Store.score]
    change ((moveTask a s).2.zset st q).score x = _
    rw [hs, score_leave]
    simp only [Store.score, Store.zset_sadd, Store.zset_setZset]
    by_cases hq : q = a.queue
    · subst hq
      by_cases hf : st = a.fromState
      · subst hf
        simp [Ne.symm hd]
      · by_cases hst : st = dest
        · subst hst
          have hsc := score_zaddWMode hz x
          by_cases hx : x = a.id
          · subst hx
            simp [hd, hsc]
          · simp [hx, hsc]
        · have hst' : dest ≠ st := Ne.symm hst
          simp [hf, hst, hst']
    · simp [hq]

theorem task_moveTask : (moveTask a s).2.task x =
    if a.id ∈ s.zset a.fromState a.queue ∧ a.toState = none ∧ a.Deletes s ∧ x = a.id then none
    else s.task x := by
  by_cases h : a.id ∈ s.zset a.fromState a.queue
  · cases ht : a.toState with
    | none =>
      rw [moveTask_none h ht]
      have others : ∀ st, st ≠ a.fromState → (leave a s).zset st a.queue = s.zset st a.queue := by
        intro st hst
        simp [leave, hst]
      have hdel : a.Deletes (leave a s) ↔ a.Deletes s := by
        unfold MoveTask.Deletes
        constructor
        · intro hd hu st hst
          rw [← others st hst]
          exact hd hu st hst
        · intro hd hu st hst
          rw [others st hst]
          exact hd hu st hst
      simp only [task_sremIfNotExists, task_removeTask, hdel, h, true_and]
      by_cases hd : a.Deletes s <;> simp [hd, leave]
    | some dest =>
      cases hz : zaddWMode (s.zset dest a.queue) a.when a.id a.mode with
      | error e => simp [moveTask, h, ht, hz]
      | ok z =>
        rw [moveTask_some h ht hz]
        simp only
        split_ifs <;> simp_all [leave]
  · rw [moveTask_of_not_mem h]
    simp [h]

end MoveTask

/-! UPDATE_SCHEDULED_TIME. -/

/-- The store after the ZADD of the script. -/
def rescored (queue id : String) (ts : Time) (s : Store) : Store :=
  s.setZset .scheduled queue ((s.zset .scheduled queue).add ts id)

/-- All the script can do. -/
inductive UpdateEffect (number : ℚ → ℚ) (queue id : String) (ts : Time) (s : Store) : Prop where
  | absent (out : id ∉ s.zset .scheduled queue)
      (result : updateScheduledTime number queue id ts s = (.ok false, s))
  | failed (e : ScriptError) (within : id ∈ s.zset .scheduled queue)
      (bad : ∀ d, s.task id = some d → d.recodable ts = false)
      (result : updateScheduledTime number queue id ts s = (.error e, rescored queue id ts s))
  | updated (d : TaskData) (within : id ∈ s.zset .scheduled queue) (stored : s.task id = some d)
      (good : d.recodable ts = true)
      (result : updateScheduledTime number queue id ts s = (.ok true,
        (rescored queue id ts s).setTask id
          (some { d.cjson number with scheduledAt := some (number ts) })))

theorem update_effect (number : ℚ → ℚ) (queue id : String) (ts : Time) (s : Store) :
    UpdateEffect number queue id ts s := by
  by_cases within : id ∈ s.zset .scheduled queue
  · have kept : (s.setZset .scheduled queue ((s.zset .scheduled queue).add ts id)).task = s.task :=
      rfl
    cases stored : s.task id with
    | none =>
      refine .failed .noObject within (by simp [stored]) ?_
      rw [updateScheduledTime, if_neg (not_not.mpr within)]
      simp only [kept, stored, rescored]
    | some d =>
      by_cases good : d.recodable ts = true
      · refine .updated d within stored good ?_
        rw [updateScheduledTime, if_neg (not_not.mpr within)]
        simp only [kept, stored, good, if_true, rescored]
      · refine .failed .notRecodable within ?_ ?_
        · intro d' hd'
          obtain rfl : d = d' := by simpa [stored] using hd'
          exact Bool.not_eq_true _ ▸ good
        · rw [updateScheduledTime, if_neg (not_not.mpr within)]
          simp only [kept, stored, good, if_false, Bool.false_eq_true, rescored]
  · refine .absent within ?_
    rw [updateScheduledTime, if_pos within]

end TaskTiger
