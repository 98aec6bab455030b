import TaskTiger.Store.Commands

namespace TaskTiger

open Redis Interleaving

/-- Commands that leave every ZSET, every queue set and every task object alone. -/
def Command.Passive : Command → Prop
  | .delay .. | .pickup .. | .promote .. | .move _ => False
  | .updateScheduledTime .. | .heartbeat .. => False
  | _ => True

/-- The command is a heartbeat that names x. -/
def Command.Beats (x : String) : Command → Prop
  | .heartbeat _ ids _ => x ∈ ids
  | _ => False

instance (x : String) (c : Command) : Decidable (c.Beats x) := by
  induction c using Command.casesOn with
  | heartbeat queue ids now => exact inferInstanceAs (Decidable (x ∈ ids))
  | _ => exact inferInstanceAs (Decidable False)

theorem exec_passive {c : Command} (h : c.Passive) (s : Store) :
    (exec c s).2.zset = s.zset ∧ (exec c s).2.queues = s.queues ∧ (exec c s).2.task = s.task := by
  cases c with
  | acquireLock name token =>
    simp only [exec]
    cases s.locks name <;> exact ⟨rfl, rfl, rfl⟩
  | releaseLock name token =>
    simp only [exec]
    split_ifs <;> exact ⟨rfl, rfl, rfl⟩
  | delay => exact h.elim
  | pickup => exact h.elim
  | promote => exact h.elim
  | move => exact h.elim
  | updateScheduledTime => exact h.elim
  | heartbeat => exact h.elim
  | _ => exact ⟨rfl, rfl, rfl⟩

variable {s : Store} {st : TaskState} {q x : String}

/-! Task.delay. -/

section Delay

variable {queue : String} {data : TaskData} {ts : Option Time} {now : Instant} {publish : Bool}

theorem zset_delay : (exec (.delay queue data ts now publish) s).2.zset st q =
    if st = (delayTarget ts now).1 ∧ q = queue then
      zaddNoupdate (s.zset st q) (delayTarget ts now).2 data.id
    else s.zset st q := by
  change (delayPipeline queue data ts now publish s).zset st q = _
  unfold delayPipeline
  simp only
  split_ifs with h1 h2 h2 <;> simp [h2]

theorem score_delay : (exec (.delay queue data ts now publish) s).2.score st q x =
    if st = (delayTarget ts now).1 ∧ q = queue ∧ x = data.id then
      some ((s.score st q x).getD (delayTarget ts now).2)
    else s.score st q x := by
  unfold Store.score
  rw [zset_delay]
  by_cases h : st = (delayTarget ts now).1 ∧ q = queue
  · rw [if_pos h, score_zaddNoupdate]
    by_cases hx : x = data.id
    · subst hx
      simp [h]
    · simp [hx]
  · have h' : ¬(st = (delayTarget ts now).1 ∧ q = queue ∧ x = data.id) := by tauto
    rw [if_neg h, if_neg h']

theorem task_delay : (exec (.delay queue data ts now publish) s).2.task x =
    if x = data.id then some (delayedData data ts now) else s.task x := by
  change (delayPipeline queue data ts now publish s).task x = _
  unfold delayPipeline
  simp only
  split_ifs <;> simp_all

theorem mem_queues_delay : q ∈ (exec (.delay queue data ts now publish) s).2.queues st ↔
    q ∈ s.queues st ∨ st = (delayTarget ts now).1 ∧ q = queue := by
  change q ∈ (delayPipeline queue data ts now publish s).queues st ↔ _
  unfold delayPipeline
  simp only
  split_ifs <;> simp

theorem delayTarget_state (ts : Option Time) (now : Instant) :
    (delayTarget ts now).1 = .queued ∨ (delayTarget ts now).1 = .scheduled := by
  unfold delayTarget
  cases ts with
  | none => exact Or.inl rfl
  | some t =>
    simp only
    split_ifs
    · exact Or.inl rfl
    · exact Or.inr rfl

end Delay

/-! zpoppush. -/

section Zpoppush

variable {queue : String} {count : Int} {now : Instant} {later : Time}

theorem pickupArgs_distinct : (pickupArgs queue count now later).Distinct where
  source := by simp [pickupArgs]
  ifExists := by
    intro st score h
    obtain ⟨rfl, rfl⟩ : TaskState.scheduled = st ∧ later = score := by simpa [pickupArgs] using h
    simp [pickupArgs]

theorem promoteArgs_distinct : (promoteArgs queue count now).Distinct where
  source := by simp [promoteArgs]
  ifExists := by
    intro st score h
    simp [promoteArgs] at h

/-- The pickup hands the id to its worker. -/
def Returned (queue : String) (count : Int) (now : Instant) (later : Time) (s : Store)
    (q x : String) : Prop :=
  q = queue ∧ ∃ ids, (exec (.pickup queue count now later) s).1 = .ok ids ∧ x ∈ ids

theorem returned_iff : Returned queue count now later s q x ↔
    q = queue ∧ x ∈ (pickupArgs queue count now later).moved s ∧
      (pickupArgs queue count now later).Fits s := by
  unfold Returned
  simp only [exec, zpoppushExists]
  by_cases hm : (pickupArgs queue count now later).members s = []
  · have hx : x ∉ (pickupArgs queue count now later).moved s := by
      rw [Zpoppush.mem_moved, hm]
      simp
    simp [hm, hx]
  · rw [if_neg hm]
    split_ifs with hf
    · simp [hf]
    · simp [hf]

instance (queue : String) (count : Int) (now : Instant) (later : Time) (s : Store)
    (q x : String) : Decidable (Returned queue count now later s q x) :=
  decidable_of_iff _ returned_iff.symm

/-- All a pickup can do with an id. -/
inductive PickupEffect (queue : String) (count : Int) (now : Instant) (later : Time) (s : Store)
    (q x : String) : Prop where
  | untouched (scores : ∀ st, (exec (.pickup queue count now later) s).2.score st q x = s.score st q x)
      (kept : ¬Returned queue count now later s q x)
  | picked (here : q = queue) (pending : x ∈ s.zset .queued q) (idle : x ∉ s.zset .active q)
      (scores : ∀ st, (exec (.pickup queue count now later) s).2.score st q x =
        match st with
        | .queued => none
        | .active => some now.time
        | _ => s.score st q x)
      (returned : Returned queue count now later s q x)
  | diverted (here : q = queue) (pending : x ∈ s.zset .queued q) (busy : x ∈ s.zset .active q)
      (scores : ∀ st, (exec (.pickup queue count now later) s).2.score st q x =
        match st with
        | .queued => none
        | .scheduled => some (((s.score .scheduled q x).map (min · later)).getD later)
        | _ => s.score st q x)
      (kept : ¬Returned queue count now later s q x)
  | lost (here : q = queue) (pending : x ∈ s.zset .queued q)
      (popped : x ∈ (pickupArgs queue count now later).members s)
      (failed : ¬(pickupArgs queue count now later).Fits s)
      (scores : ∀ st, (exec (.pickup queue count now later) s).2.score st q x =
        match st with
        | .queued => none
        | _ => s.score st q x)
      (kept : ¬Returned queue count now later s q x)

theorem pickup_effect (queue : String) (count : Int) (now : Instant) (later : Time) (s : Store)
    (q x : String) : PickupEffect queue count now later s q x := by
  let a := pickupArgs queue count now later
  have hd : a.Distinct := pickupArgs_distinct
  by_cases hm : q = queue ∧ x ∈ a.members s
  · obtain ⟨rfl, hx⟩ := hm
    have pending : x ∈ s.zset .queued q := Zpoppush.mem_source_of_mem_members hx
    have gone : (zpoppushExists a s).2.score .queued q x = none :=
      score_zpoppushExists_source hd hx
    by_cases hf : a.Fits s
    · by_cases busy : x ∈ s.zset .active q
      · refine .diverted rfl pending busy ?_ ?_
        · intro st
          by_cases hst : st = .queued
          · subst hst
            exact gone
          · have h := score_zpoppushExists_existing hf hx busy hst
            change (zpoppushExists a s).2.score st q x = _
            cases st with
            | queued => exact absurd rfl hst
            | _ => exact h
        · rw [returned_iff, Zpoppush.mem_moved]
          intro h
          exact h.2.1.2 busy
      · refine .picked rfl pending busy ?_ ?_
        · intro st
          by_cases hst : st = .queued
          · subst hst
            exact gone
          · have h := score_zpoppushExists_moved hf hx busy hst
            change (zpoppushExists a s).2.score st q x = _
            cases st with
            | queued => exact absurd rfl hst
            | _ => exact h
        · rw [returned_iff, Zpoppush.mem_moved]
          exact ⟨rfl, ⟨hx, busy⟩, hf⟩
    · refine .lost rfl pending hx hf ?_ ?_
      · intro st
        by_cases hst : st = .queued
        · subst hst
          exact gone
        · have h := score_zpoppushExists_of_not_fits (q := q) (x := x) hf hst
          change (zpoppushExists a s).2.score st q x = _
          cases st with
          | queued => exact absurd rfl hst
          | _ => exact h
      · rw [returned_iff]
        intro h
        exact hf h.2.2
  · refine .untouched (fun st => score_zpoppushExists_of_not_mem hm) ?_
    rw [returned_iff, Zpoppush.mem_moved]
    intro h
    exact hm ⟨h.1, h.2.1.1⟩

/-- All a promotion can do with an id. -/
inductive PromoteEffect (queue : String) (count : Int) (now : Instant) (s : Store)
    (q x : String) : Prop where
  | untouched (scores : ∀ st, (exec (.promote queue count now) s).2.score st q x = s.score st q x)
  | promoted (here : q = queue) (due : x ∈ s.zset .scheduled q)
      (scores : ∀ st, (exec (.promote queue count now) s).2.score st q x =
        match st with
        | .scheduled => none
        | .queued => some ((s.score .queued q x).getD now.time)
        | _ => s.score st q x)
  | lost (here : q = queue) (due : x ∈ s.zset .scheduled q)
      (popped : x ∈ (promoteArgs queue count now).members s)
      (failed : ¬(promoteArgs queue count now).Fits s)
      (scores : ∀ st, (exec (.promote queue count now) s).2.score st q x =
        match st with
        | .scheduled => none
        | _ => s.score st q x)

theorem promote_effect (queue : String) (count : Int) (now : Instant) (s : Store)
    (q x : String) : PromoteEffect queue count now s q x := by
  let a := promoteArgs queue count now
  have hd : a.Distinct := promoteArgs_distinct
  by_cases hm : q = queue ∧ x ∈ a.members s
  · obtain ⟨rfl, hx⟩ := hm
    have due : x ∈ s.zset .scheduled q := Zpoppush.mem_source_of_mem_members hx
    have gone : (zpoppushExists a s).2.score .scheduled q x = none :=
      score_zpoppushExists_source hd hx
    by_cases hf : a.Fits s
    · refine .promoted rfl due ?_
      intro st
      by_cases hst : st = .scheduled
      · subst hst
        exact gone
      · change (zpoppushExists a s).2.score st q x = _
        by_cases known : x ∈ s.zset .queued q
        · obtain ⟨old, ho⟩ := ZSet.mem_iff.mp known
          have hs : s.score .queued q x = some old := ho
          have h : (zpoppushExists a s).2.score st q x = s.score st q x :=
            score_zpoppushExists_existing hf hx known hst
          cases st with
          | scheduled => exact absurd rfl hst
          | queued => simp [h, hs]
          | _ => exact h
        · have hs : s.score .queued q x = none := ZSet.not_mem_iff.mp known
          have h : (zpoppushExists a s).2.score st q x =
              if st = .queued then some now.time else s.score st q x :=
            score_zpoppushExists_moved hf hx known hst
          cases st with
          | scheduled => exact absurd rfl hst
          | queued => simp [h, hs]
          | _ => exact h
    · refine .lost rfl due hx hf ?_
      intro st
      by_cases hst : st = .scheduled
      · subst hst
        exact gone
      · have h := score_zpoppushExists_of_not_fits (q := q) (x := x) hf hst
        change (zpoppushExists a s).2.score st q x = _
        cases st with
        | scheduled => exact absurd rfl hst
        | _ => exact h
  · exact .untouched (fun st => score_zpoppushExists_of_not_mem hm)

theorem task_pickup : (exec (.pickup queue count now later) s).2.task = s.task :=
  task_zpoppushExists

theorem task_promote : (exec (.promote queue count now) s).2.task = s.task :=
  task_zpoppushExists

end Zpoppush

/-! Task._move. -/

section Move

variable {m : Move}

theorem exec_move_of_not_effective (h : ¬m.Effective s) :
    exec (.move m) s = (.error .failIfNotInZset, s) := moveTask_of_not_mem h

theorem Move.Effective.not_raises (h : m.Effective s) : ¬m.args.Raises s := by
  rintro (hout | ⟨-, mode, hm⟩)
  · exact hout h
  · exact m.kind.mode_ne_other mode hm

/-- A move of the package that finds its id raises nothing. -/
theorem exec_move_ok (h : m.Effective s) : (exec (.move m) s).1 = .ok () := by
  change (moveTask m.args s).1 = _
  obtain ⟨-, ⟨-, hmove⟩ | ⟨dest, z, -, -, hmove⟩⟩ := moveTask_cases h.not_raises <;> rw [hmove]

theorem score_move (h : m.Effective s) : (exec (.move m) s).2.score st q x =
    if q = m.queue ∧ x = m.id then
      if st = m.kind.fromState then none
      else if m.kind.toState = some st then some (m.kind.mode.newScore (s.score st q x) m.when)
      else s.score st q x
    else s.score st q x :=
  score_moveTask h m.kind.toState_ne_fromState (fun _ => m.kind.mode_ne_other)

/-- The removing move deletes the object. -/
def Move.Deletes (m : Move) (s : Store) : Prop :=
  m.Effective s ∧ m.kind.toState = none ∧
    (m.unique = true → ∀ st, st ≠ m.kind.fromState → m.id ∉ s.zset st m.queue)

instance (m : Move) (s : Store) : Decidable (m.Deletes s) :=
  inferInstanceAs (Decidable (m.Effective s ∧ m.kind.toState = none ∧
    (m.unique = true → ∀ st, st ≠ m.kind.fromState → m.id ∉ s.zset st m.queue)))

theorem task_move : (exec (.move m) s).2.task x =
    if m.Deletes s ∧ x = m.id then none else s.task x := by
  have h : m.Deletes s ∧ x = m.id ↔ m.args.id ∈ s.zset m.args.fromState m.args.queue ∧
      m.args.toState = none ∧ m.args.Deletes s ∧ x = m.args.id := by
    unfold Move.Deletes Move.Effective MoveTask.Deletes
    simp only [Move.args]
    tauto
  simp only [h]
  exact task_moveTask

end Move

/-! The commands that only rescore. -/

theorem score_heartbeat {queue : String} {ids : List String} {now : Instant} :
    (exec (.heartbeat queue ids now) s).2.score st q x =
      if st = .active ∧ q = queue ∧ x ∈ ids then some now.time else s.score st q x := by
  change ((heartbeat queue ids now s).zset st q).score x = _
  unfold heartbeat
  rw [Store.zset_setZset]
  by_cases h : st = .active ∧ q = queue
  · obtain ⟨rfl, rfl⟩ := h
    rw [if_pos ⟨rfl, rfl⟩, score_foldl_add]
    simp only [true_and]
    rfl
  · have h' : ¬(st = .active ∧ q = queue ∧ x ∈ ids) := by tauto
    rw [if_neg h, if_neg h']
    rfl

theorem score_updateScheduledTime {number : ℚ → ℚ} {queue id : String} {ts : Time} :
    (exec (.updateScheduledTime number queue id ts) s).2.score st q x =
      if st = .scheduled ∧ q = queue ∧ x = id ∧ x ∈ s.zset st q then some ts
      else s.score st q x := by
  change (updateScheduledTime number queue id ts s).2.score st q x = _
  have rescore (within : id ∈ s.zset .scheduled queue) : (rescored queue id ts s).score st q x =
      if st = .scheduled ∧ q = queue ∧ x = id ∧ x ∈ s.zset st q then some ts
      else s.score st q x := by
    unfold rescored Store.score
    rw [Store.zset_setZset]
    by_cases h : st = .scheduled ∧ q = queue
    · obtain ⟨rfl, rfl⟩ := h
      rw [if_pos ⟨rfl, rfl⟩, ZSet.score_add]
      by_cases hx : x = id
      · subst hx
        simp [within]
      · simp [hx]
    · have h' : ¬(st = .scheduled ∧ q = queue ∧ x = id ∧ x ∈ s.zset st q) := by tauto
      rw [if_neg h, if_neg h']
  cases update_effect number queue id ts s with
  | absent out result =>
    rw [result, if_neg]
    rintro ⟨rfl, rfl, rfl, hx⟩
    exact out hx
  | failed e within bad result => rw [result, rescore within]
  | updated d within stored good result =>
    rw [result]
    exact rescore within

theorem task_updateScheduledTime_of_ne {number : ℚ → ℚ} {queue id : String} {ts : Time}
    (h : x ≠ id) : (exec (.updateScheduledTime number queue id ts) s).2.task x = s.task x := by
  change (updateScheduledTime number queue id ts s).2.task x = s.task x
  cases update_effect number queue id ts s with
  | absent out result => rw [result]
  | failed e within bad result =>
    rw [result]
    rfl
  | updated d within stored good result =>
    rw [result, Store.task_setTask, if_neg h]
    rfl

/-- The command can take an id out of a ZSET. -/
def Command.Takes : Command → Prop
  | .pickup .. | .promote .. | .move _ => True
  | _ => False

theorem mem_zset_exec {c : Command} {st : TaskState} (hc : ¬c.Takes) (hin : x ∈ s.zset st q) :
    x ∈ (exec c s).2.zset st q := by
  by_cases hp : c.Passive
  · rwa [(exec_passive hp s).1]
  · rw [Store.mem_iff_score] at hin ⊢
    cases c with
    | delay =>
      rw [score_delay]
      split_ifs
      · simp
      · exact hin
    | updateScheduledTime =>
      rw [score_updateScheduledTime]
      split_ifs
      · simp
      · exact hin
    | heartbeat =>
      rw [score_heartbeat]
      split_ifs
      · simp
      · exact hin
    | pickup => exact absurd trivial hc
    | promote => exact absurd trivial hc
    | move => exact absurd trivial hc
    | _ => exact absurd trivial hp

/-- Only a move can change what is in ERROR. -/
theorem score_error_exec {c : Command} (hc : ∀ m, c ≠ .move m) :
    (exec c s).2.score .error q x = s.score .error q x := by
  by_cases hp : c.Passive
  · rw [Store.score, (exec_passive hp s).1]
    rfl
  · cases c with
    | delay queue data ts now publish =>
      have hne : TaskState.error ≠ (delayTarget ts now).1 := by
        intro h
        rcases delayTarget_state ts now with hd | hd <;> rw [hd] at h <;> cases h
      rw [score_delay, if_neg (fun h => hne h.1)]
    | pickup queue count now later =>
      cases pickup_effect queue count now later s q x with
      | untouched scores => exact scores .error
      | picked here pending idle scores => exact scores .error
      | diverted here pending busy scores => exact scores .error
      | lost here pending popped failed scores => exact scores .error
    | promote queue count now =>
      cases promote_effect queue count now s q x with
      | untouched scores => exact scores .error
      | promoted here due scores => exact scores .error
      | lost here due popped failed scores => exact scores .error
    | move m => exact absurd rfl (hc m)
    | updateScheduledTime =>
      rw [score_updateScheduledTime, if_neg]
      rintro ⟨h, -⟩
      cases h
    | heartbeat =>
      rw [score_heartbeat, if_neg]
      rintro ⟨h, -⟩
      cases h
    | _ => exact absurd trivial hp

/-! The activity channel, and the queues of which it tells. -/

theorem activity_delay {queue : String} {data : TaskData} {ts : Option Time} {now : Instant}
    {publish : Bool} : (exec (.delay queue data ts now publish) s).2.activity =
      if (delayTarget ts now).1 = .queued ∧ publish = true then s.activity ++ [queue]
      else s.activity := by
  change (delayPipeline queue data ts now publish s).activity = _
  unfold delayPipeline
  simp only
  split_ifs <;> simp

theorem activity_move {m : Move} (h : m.Effective s) : (exec (.move m) s).2.activity =
    if m.kind.toState = some .queued ∧ m.publish = true then s.activity ++ [m.queue]
    else s.activity := activity_moveTask h.not_raises

theorem activity_updateScheduledTime {number : ℚ → ℚ} {queue id : String} {ts : Time} :
    (exec (.updateScheduledTime number queue id ts) s).2.activity = s.activity := by
  change (updateScheduledTime number queue id ts s).2.activity = s.activity
  cases update_effect number queue id ts s <;> rename_i result <;> rw [result] <;> rfl

/-- Messages stay in the order in which they were published. -/
theorem activity_prefix (c : Command) (s : Store) : s.activity <+: (exec c s).2.activity := by
  have sent (queue : String) : s.activity <+: s.activity ++ [queue] := List.prefix_append _ _
  cases c with
  | delay =>
    rw [activity_delay]
    split_ifs
    · exact sent _
    · exact List.prefix_rfl
  | pickup => exact (activity_zpoppushExists (s := s)).symm ▸ List.prefix_rfl
  | promote => exact (activity_zpoppushExists (s := s)).symm ▸ List.prefix_rfl
  | move m =>
    by_cases he : m.Effective s
    · rw [activity_move he]
      split_ifs
      · exact sent _
      · exact List.prefix_rfl
    · rw [exec_move_of_not_effective he]
  | updateScheduledTime => rw [activity_updateScheduledTime]
  | publish queue => exact sent queue
  | acquireLock name token =>
    simp only [exec]
    cases s.locks name <;> exact List.prefix_rfl
  | releaseLock name token =>
    simp only [exec]
    split_ifs <;> exact List.prefix_rfl
  | _ => exact List.prefix_rfl

end TaskTiger
