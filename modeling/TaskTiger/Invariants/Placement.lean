import TaskTiger.Store.CommandEffects

namespace TaskTiger

open Redis Interleaving

variable {s : Store} {st : TaskState} {q x : String} {c : Command}

/-! What a command can do with the places of one id. -/

namespace Command

/-- The command delays a task with this id. -/
def Delays (x : String) : Command → Prop
  | .delay _ data .. => data.id = x
  | _ => False

/-- The command delays a task with this id in this queue. -/
def DelaysIn (x q : String) : Command → Prop
  | .delay queue data .. => queue = q ∧ data.id = x
  | _ => False

theorem DelaysIn.delays (h : c.DelaysIn x q) : c.Delays x := by
  cases c with
  | delay => exact h.2
  | _ => exact h.elim

instance (x : String) (c : Command) : Decidable (c.Delays x) := by
  induction c using Command.casesOn with
  | delay queue data ts now publish => exact inferInstanceAs (Decidable (data.id = x))
  | _ => exact inferInstanceAs (Decidable False)

/-- The command removes the task: it takes x out of a state and puts it nowhere. -/
def Removes (s : Store) (x : String) : Command → Prop
  | .move m => m.id = x ∧ m.kind.toState = none ∧ m.Effective s
  | _ => False

instance (s : Store) (x : String) (c : Command) : Decidable (c.Removes s x) := by
  induction c using Command.casesOn with
  | move m =>
    exact inferInstanceAs (Decidable (m.id = x ∧ m.kind.toState = none ∧ m.Effective s))
  | _ => exact inferInstanceAs (Decidable False)

/-- A late heartbeat for x in this queue: it finds the id gone from ACTIVE. -/
def StraysIn (s : Store) (x q : String) : Command → Prop
  | .heartbeat queue ids _ => queue = q ∧ x ∈ ids ∧ x ∉ s.zset .active q
  | _ => False

instance (s : Store) (x q : String) (c : Command) : Decidable (c.StraysIn s x q) := by
  induction c using Command.casesOn with
  | heartbeat queue ids now =>
    exact inferInstanceAs (Decidable (queue = q ∧ x ∈ ids ∧ x ∉ s.zset .active q))
  | _ => exact inferInstanceAs (Decidable False)

/-- A late heartbeat for x. -/
def Strays (s : Store) (x : String) : Command → Prop
  | .heartbeat queue ids _ => x ∈ ids ∧ x ∉ s.zset .active queue
  | _ => False

instance (s : Store) (x : String) (c : Command) : Decidable (c.Strays s x) := by
  induction c using Command.casesOn with
  | heartbeat queue ids now => exact inferInstanceAs (Decidable (x ∈ ids ∧ x ∉ s.zset .active queue))
  | _ => exact inferInstanceAs (Decidable False)

theorem StraysIn.strays (h : c.StraysIn s x q) : c.Strays s x := by
  cases c with
  | heartbeat =>
    obtain ⟨rfl, late⟩ := h
    exact late
  | _ => exact h.elim

theorem Strays.beats (h : c.Strays s x) : c.Beats x := by
  cases c with
  | heartbeat => exact h.1
  | _ => exact h.elim

/-- A zpoppush that pops x does not abort. -/
def PopsSafely (s : Store) (x : String) : Command → Prop
  | .pickup queue count now later =>
      (pickupArgs queue count now later).Fits s ∨ x ∉ (pickupArgs queue count now later).members s
  | .promote queue count now =>
      (promoteArgs queue count now).Fits s ∨ x ∉ (promoteArgs queue count now).members s
  | _ => True

end Command

/-- The id is in no ZSET. -/
def Absent (s : Store) (x : String) : Prop := ∀ st q, x ∉ s.zset st q

/-- The id is in this ZSET and in no other one. -/
def SoleAt (s : Store) (x : String) (st : TaskState) (q : String) : Prop :=
  ∀ st' q', x ∈ s.zset st' q' ↔ st' = st ∧ q' = q

theorem absent_empty (x : String) : Absent Store.empty x := by
  intro st q
  simp

theorem SoleAt.mem (h : SoleAt s x st q) : x ∈ s.zset st q := (h st q).mpr ⟨rfl, rfl⟩

/-- Delays and late heartbeats apart, no command brings an id into a queue that does not hold it. -/
theorem score_of_absent_from (h : ∀ st, x ∉ s.zset st q) (hd : ¬c.DelaysIn x q)
    (hb : ¬c.StraysIn s x q) (st : TaskState) : (exec c s).2.score st q x = s.score st q x := by
  by_cases hp : c.Passive
  · rw [Store.score, (exec_passive hp s).1, Store.score]
  · cases c with
    | delay queue data ts now publish =>
      rw [score_delay, if_neg (fun hc => hd ⟨hc.2.1.symm, hc.2.2.symm⟩)]
    | pickup queue count now later =>
      cases pickup_effect queue count now later s q x with
      | untouched scores => exact scores st
      | picked here pending => exact absurd pending (h _)
      | diverted here pending => exact absurd pending (h _)
      | lost here pending => exact absurd pending (h _)
    | promote queue count now =>
      cases promote_effect queue count now s q x with
      | untouched scores => exact scores st
      | promoted here due => exact absurd due (h _)
      | lost here due => exact absurd due (h _)
    | move m =>
      by_cases he : m.Effective s
      · have hx : ¬(q = m.queue ∧ x = m.id) := by
          intro hc
          rw [hc.1, hc.2] at h
          exact h m.kind.fromState he
        rw [score_move he, if_neg hx]
      · rw [exec_move_of_not_effective he]
    | updateScheduledTime number queue id ts =>
      rw [score_updateScheduledTime, if_neg (fun hc => h _ hc.2.2.2)]
    | heartbeat queue ids now =>
      rw [score_heartbeat, if_neg]
      rintro ⟨-, rfl, hx⟩
      exact hb ⟨rfl, hx, h .active⟩
    | _ => exact absurd trivial hp

theorem absent_from_step (h : ∀ st, x ∉ s.zset st q) (hd : ¬c.DelaysIn x q) (hb : ¬c.StraysIn s x q)
    (st : TaskState) : x ∉ (exec c s).2.zset st q := by
  rw [Store.not_mem_iff_score, score_of_absent_from h hd hb, ← Store.not_mem_iff_score]
  exact h st

theorem Absent.step (h : Absent s x) (hd : ¬c.Delays x) (hb : ¬c.Strays s x) :
    Absent (exec c s).2 x :=
  fun st q => absent_from_step (fun st => h st q) (fun hc => hd hc.delays)
    (fun late => hb late.strays) st

/-- A new id is placed where its delay puts it. -/
theorem Absent.delay {queue : String} {data : TaskData} {ts : Option Time} {now : Instant}
    {publish : Bool} (h : Absent s data.id) :
    SoleAt (exec (.delay queue data ts now publish) s).2 data.id (delayTarget ts now).1 queue := by
  intro st q
  have nowhere : s.score st q data.id = none := Store.not_mem_iff_score.mp (h st q)
  rw [Store.mem_iff_score, score_delay, nowhere]
  by_cases hk : st = (delayTarget ts now).1 ∧ q = queue
  · simp [hk]
  · have hk' : ¬(st = (delayTarget ts now).1 ∧ q = queue ∧ data.id = data.id) := by tauto
    rw [if_neg hk']
    simp [hk]

section Change

variable {t : Store}

/-- The id goes from its only place to a place of the same queue, perhaps the same one. -/
theorem SoleAt.moved {dest : TaskState} (h : SoleAt s x st q)
    (others : ∀ st' q', q' ≠ q → t.score st' q' x = s.score st' q' x)
    (arrives : t.score dest q x ≠ none) (gone : st ≠ dest → t.score st q x = none)
    (rest : ∀ st', st' ≠ st → st' ≠ dest → t.score st' q x = s.score st' q x) :
    SoleAt t x dest q := by
  intro st' q'
  rw [Store.mem_iff_score]
  by_cases hq : q' = q
  · subst hq
    by_cases hdest : st' = dest
    · simp [hdest, arrives]
    · by_cases hst : st' = st
      · subst hst
        simp [gone hdest, hdest]
      · rw [rest st' hst hdest, ← Store.mem_iff_score, h st' q']
        simp [hst, hdest]
  · rw [others st' q' hq, ← Store.mem_iff_score, h st' q']
    simp [hq]

theorem SoleAt.kept (h : SoleAt s x st q)
    (others : ∀ st' q', q' ≠ q → t.score st' q' x = s.score st' q' x)
    (scores : ∀ st', t.score st' q x = s.score st' q x) : SoleAt t x st q :=
  h.moved others (by rw [scores]; exact Store.mem_iff_score.mp h.mem) (fun hne => absurd rfl hne)
    (fun st' _ _ => scores st')

/-- The id leaves its only place. -/
theorem SoleAt.vanished (h : SoleAt s x st q)
    (others : ∀ st' q', q' ≠ q → t.score st' q' x = s.score st' q' x)
    (gone : t.score st q x = none)
    (rest : ∀ st', st' ≠ st → t.score st' q x = s.score st' q x) : Absent t x := by
  intro st' q'
  rw [Store.not_mem_iff_score]
  by_cases hq : q' = q
  · subst hq
    by_cases hst : st' = st
    · rw [hst]
      exact gone
    · rw [rest st' hst, ← Store.not_mem_iff_score, h st' q']
      exact fun hc => hst hc.1
  · rw [others st' q' hq, ← Store.not_mem_iff_score, h st' q']
    exact fun hc => hq hc.2

end Change

/-- A pickup moves the id to ACTIVE, or drops it when it aborts. -/
theorem SoleAt.pickup {queue : String} {count : Int} {now : Instant} {later : Time}
    (h : SoleAt s x st q) (others : ∀ st' q', q' ≠ q →
      (exec (.pickup queue count now later) s).2.score st' q' x = s.score st' q' x) :
    (∃ st', SoleAt (exec (.pickup queue count now later) s).2 x st' q) ∨
      Absent (exec (.pickup queue count now later) s).2 x ∧
        ¬(Command.pickup queue count now later).PopsSafely s x := by
  cases pickup_effect queue count now later s q x with
  | untouched scores => exact Or.inl ⟨st, h.kept others scores⟩
  | picked here pending idle scores =>
    obtain rfl : TaskState.queued = st := ((h _ _).mp pending).1
    refine Or.inl ⟨.active, h.moved others (by simp [scores]) (by simp [scores]) ?_⟩
    intro st' h1 h2
    rw [scores]
    cases st' <;> simp at h1 h2 ⊢
  | diverted here pending busy =>
    obtain rfl : TaskState.queued = st := ((h _ _).mp pending).1
    exact absurd ((h _ _).mp busy).1 (by simp)
  | lost here pending popped failed scores =>
    obtain rfl : TaskState.queued = st := ((h _ _).mp pending).1
    refine Or.inr ⟨h.vanished others (by simp [scores]) ?_,
      by simp [Command.PopsSafely, popped, failed]⟩
    intro st' h1
    rw [scores]
    cases st' <;> simp at h1 ⊢

/-- A promotion moves the id to QUEUED, or drops it when it aborts. -/
theorem SoleAt.promote {queue : String} {count : Int} {now : Instant}
    (h : SoleAt s x st q) (others : ∀ st' q', q' ≠ q →
      (exec (.promote queue count now) s).2.score st' q' x = s.score st' q' x) :
    (∃ st', SoleAt (exec (.promote queue count now) s).2 x st' q) ∨
      Absent (exec (.promote queue count now) s).2 x ∧
        ¬(Command.promote queue count now).PopsSafely s x := by
  cases promote_effect queue count now s q x with
  | untouched scores => exact Or.inl ⟨st, h.kept others scores⟩
  | promoted here due scores =>
    obtain rfl : TaskState.scheduled = st := ((h _ _).mp due).1
    refine Or.inl ⟨.queued, h.moved others (by simp [scores]) (by simp [scores]) ?_⟩
    intro st' h1 h2
    rw [scores]
    cases st' <;> simp at h1 h2 ⊢
  | lost here due popped failed scores =>
    obtain rfl : TaskState.scheduled = st := ((h _ _).mp due).1
    refine Or.inr ⟨h.vanished others (by simp [scores]) ?_,
      by simp [Command.PopsSafely, popped, failed]⟩
    intro st' h1
    rw [scores]
    cases st' <;> simp at h1 ⊢

/-- A move takes the id to its new state, or removes it. -/
theorem SoleAt.move {m : Move} (h : SoleAt s x st q) (others : ∀ st' q', q' ≠ q →
      (exec (.move m) s).2.score st' q' x = s.score st' q' x) :
    (∃ st', SoleAt (exec (.move m) s).2 x st' q) ∧ ¬(Command.move m).Removes s x ∨
      Absent (exec (.move m) s).2 x ∧ (Command.move m).Removes s x := by
  by_cases hx : m.id = x ∧ m.Effective s
  · obtain ⟨rfl, he⟩ := hx
    obtain ⟨hst, hq⟩ := (h _ _).mp he
    have scores : ∀ st', (exec (.move m) s).2.score st' q m.id =
        if st' = st then none
        else if m.kind.toState = some st' then
          some (m.kind.mode.newScore (s.score st' q m.id) m.when)
        else s.score st' q m.id := by
      intro st'
      rw [score_move he, if_pos ⟨hq.symm, rfl⟩, hst]
    cases hto : m.kind.toState with
    | none =>
      refine Or.inr ⟨h.vanished others (by simp [scores]) ?_, rfl, hto, he⟩
      intro st' h1
      simp [scores, h1, hto]
    | some dest =>
      have hne : dest ≠ st := by
        intro hc
        exact m.kind.toState_ne_fromState (by rw [hto, hc, hst])
      refine Or.inl ⟨⟨dest, h.moved others (by simp [scores, hto, hne]) (by simp [scores]) ?_⟩, ?_⟩
      · intro st' h1 h2
        simp [scores, hto, h1, Ne.symm h2]
      · intro hr
        exact absurd (hto.symm.trans hr.2.1) (by simp)
  · refine Or.inl ⟨⟨st, h.kept others (fun st' => ?_)⟩, fun hr => hx ⟨hr.1, hr.2.2⟩⟩
    by_cases he : m.Effective s
    · rw [score_move he, if_neg (fun hc => hx ⟨hc.2.symm, he⟩)]
    · rw [exec_move_of_not_effective he]

/-- An id with one place keeps having one place in its queue, until it is removed, or is lost in
a zpoppush that aborts. -/
theorem SoleAt.step (h : SoleAt s x st q) (hd : ¬c.Delays x) (hb : ¬c.Strays s x) :
    (∃ st', SoleAt (exec c s).2 x st' q) ∧ ¬c.Removes s x ∨
      Absent (exec c s).2 x ∧ (c.Removes s x ∨ ¬c.PopsSafely s x) := by
  have others : ∀ st' q', q' ≠ q → (exec c s).2.score st' q' x = s.score st' q' x := by
    intro st' q' hq
    refine score_of_absent_from (fun st hin => hq ((h st q').mp hin).2) ?_
      (fun late => hb late.strays) st'
    exact fun hc => hd hc.delays
  by_cases hp : c.Passive
  · have hr : ¬c.Removes s x := by
      cases c with
      | move => exact hp.elim
      | _ => exact id
    refine Or.inl ⟨⟨st, h.kept others (fun st' => ?_)⟩, hr⟩
    rw [Store.score, (exec_passive hp s).1, Store.score]
  · cases c with
    | delay queue data ts now publish =>
      refine Or.inl ⟨⟨st, h.kept others (fun st' => ?_)⟩, id⟩
      rw [score_delay, if_neg (fun hc => hd hc.2.2.symm)]
    | pickup =>
      rcases h.pickup others with kept | lost
      · exact Or.inl ⟨kept, id⟩
      · exact Or.inr ⟨lost.1, Or.inr lost.2⟩
    | promote =>
      rcases h.promote others with kept | lost
      · exact Or.inl ⟨kept, id⟩
      · exact Or.inr ⟨lost.1, Or.inr lost.2⟩
    | move =>
      rcases h.move others with kept | removed
      · exact Or.inl kept
      · exact Or.inr ⟨removed.1, Or.inl removed.2⟩
    | updateScheduledTime number queue id ts =>
      refine Or.inl ⟨⟨st, h.moved others ?_ (fun hne => absurd rfl hne) ?_⟩, fun hr => hr⟩
      · rw [score_updateScheduledTime]
        split_ifs
        · simp
        · exact Store.mem_iff_score.mp h.mem
      · intro st' h1 _
        rw [score_updateScheduledTime, if_neg]
        exact fun hc => h1 ((h st' q).mp hc.2.2.2).1
    | heartbeat queue ids now =>
      refine Or.inl ⟨⟨st, h.moved others ?_ (fun hne => absurd rfl hne) ?_⟩, id⟩
      · rw [score_heartbeat]
        split_ifs
        · simp
        · exact Store.mem_iff_score.mp h.mem
      · intro st' hst _
        rw [score_heartbeat, if_neg]
        rintro ⟨rfl, rfl, hx⟩
        -- a heartbeat that does not stray finds the id in ACTIVE, which is its only place
        exact hb ⟨hx, fun active => hst ((h .active q).mp active).1⟩
    | _ => exact absurd trivial hp

/-! An id that waits in QUEUED or SCHEDULED of its queue. -/

def Pending (q x : String) (s : Store) : Prop :=
  x ∈ s.zset .queued q ∨ x ∈ s.zset .scheduled q

/-- The command hands the id to a worker, or cancels it. -/
def Command.TakesPending (q x : String) (s : Store) : Command → Prop
  | .pickup queue count now later => Returned queue count now later s q x
  | .move m => m.kind = .cancel ∧ m.queue = q ∧ m.id = x
  | _ => False

theorem Pending.of_same {t : Store} (h : Pending q x s)
    (scores : ∀ st, t.score st q x = s.score st q x) : Pending q x t := by
  unfold Pending at h ⊢
  simp only [Store.mem_iff_score, scores] at h ⊢
  exact h

theorem pending_delay {data : TaskData} {ts : Option Time} {now : Instant} {publish : Bool} :
    Pending q data.id (exec (.delay q data ts now publish) s).2 := by
  have target : data.id ∈
      (exec (.delay q data ts now publish) s).2.zset (delayTarget ts now).1 q := by
    rw [Store.mem_iff_score, score_delay, if_pos ⟨rfl, rfl, rfl⟩]
    simp
  rcases delayTarget_state ts now with hst | hst
  · exact Or.inl (hst ▸ target)
  · exact Or.inr (hst ▸ target)

theorem Pending.pickup {queue : String} {count : Int} {now : Instant} {later : Time}
    (h : Pending q x s) (hr : ¬Returned queue count now later s q x)
    (hsafe : (Command.pickup queue count now later).PopsSafely s x) :
    Pending q x (exec (.pickup queue count now later) s).2 := by
  cases pickup_effect queue count now later s q x with
  | untouched scores => exact h.of_same scores
  | picked here pending idle scores returned => exact absurd returned hr
  | diverted here pending busy scores =>
    right
    simp [Store.mem_iff_score, scores]
  | lost here pending popped failed => exact absurd hsafe (by simp [Command.PopsSafely, popped, failed])

theorem Pending.promote {queue : String} {count : Int} {now : Instant} (h : Pending q x s)
    (hsafe : (Command.promote queue count now).PopsSafely s x) :
    Pending q x (exec (.promote queue count now) s).2 := by
  cases promote_effect queue count now s q x with
  | untouched scores => exact h.of_same scores
  | promoted here due scores =>
    left
    simp [Store.mem_iff_score, scores]
  | lost here due popped failed => exact absurd hsafe (by simp [Command.PopsSafely, popped, failed])

/-- Only a cancel takes an id out of SCHEDULED, and no move takes one out of QUEUED. -/
theorem MoveKind.fromState_ne {k : MoveKind} (hk : k ≠ .cancel) :
    k.fromState ≠ .queued ∧ k.fromState ≠ .scheduled := by
  cases k <;> simp [MoveKind.fromState] at hk ⊢

theorem Pending.move {m : Move} (h : Pending q x s)
    (hk : ¬(m.kind = .cancel ∧ m.queue = q ∧ m.id = x)) : Pending q x (exec (.move m) s).2 := by
  by_cases he : m.Effective s
  · by_cases hx : q = m.queue ∧ x = m.id
    · have hfrom := MoveKind.fromState_ne (fun hc => hk ⟨hc, hx.1.symm, hx.2.symm⟩)
      have stays : ∀ st, st ≠ m.kind.fromState → x ∈ s.zset st q →
          x ∈ (exec (.move m) s).2.zset st q := by
        intro st hst hin
        rw [Store.mem_iff_score] at hin ⊢
        rw [score_move he, if_pos hx, if_neg hst]
        split_ifs
        · simp
        · exact hin
      exact h.imp (stays _ hfrom.1.symm) (stays _ hfrom.2.symm)
    · apply h.of_same
      intro st
      rw [score_move he, if_neg hx]
  · rwa [exec_move_of_not_effective he]

theorem Pending.step (h : Pending q x s) (hsafe : c.PopsSafely s x)
    (hc : ¬c.TakesPending q x s) : Pending q x (exec c s).2 := by
  by_cases ht : c.Takes
  · cases c with
    | pickup => exact h.pickup hc hsafe
    | promote => exact h.promote hsafe
    | move => exact h.move hc
    | _ => exact ht.elim
  · exact h.imp (mem_zset_exec ht) (mem_zset_exec ht)

end TaskTiger
