import TaskTiger.Invariants.Conservation

namespace TaskTiger

open Redis Interleaving

variable {s : Store} {st : TaskState} {q x : String} {c : Command} {due : Option Time}
  {clock : Time}

/-! Commands with the times at which Redis runs them. -/

/-- A command and its time. The clock readings among its arguments may be older. -/
abbrev Timed := Time × Command

def execAt (e : Timed) (s : Store) : Reply e.2 × Store := exec e.2 s

/-- The reading of the clock that the client or worker sends along. -/
def Command.reading : Command → Option Instant
  | .delay _ _ _ now _ | .pickup _ _ now _ | .promote _ _ now | .heartbeat _ _ now => some now
  | _ => none

/-- The clock was read before Redis runs the command. -/
def Timed.ReadBefore (e : Timed) : Prop := ∀ now ∈ e.2.reading, now.time ≤ e.1

instance (e : Timed) : Decidable e.ReadBefore :=
  inferInstanceAs (Decidable (∀ now ∈ e.2.reading, now.time ≤ e.1))

/-- The time for which the command asks that x is scheduled, when it takes effect: the requested
time of a delay, the updated time, or the time that comes with a retry or a lock miss. -/
def Command.schedules (s : Store) (x : String) : Command → Option Time
  | .delay _ data ts _ _ => if data.id = x then ts else none
  | .pickup queue count now later =>
      if x ∈ (pickupArgs queue count now later).existing s ∧
          (pickupArgs queue count now later).Fits s then
        some later
      else none
  | .move m =>
      if m.id = x ∧ m.Effective s ∧ m.kind.toState = some .scheduled then some m.when else none
  | .updateScheduledTime _ queue id ts =>
      if id = x ∧ x ∈ s.zset .scheduled queue then some ts else none
  | _ => none

/-- The command moves x to QUEUED from ERROR or, expired, from ACTIVE. -/
def Command.Requeues (s : Store) (x : String) : Command → Prop
  | .move m => m.id = x ∧ m.Effective s ∧ m.kind.toState = some .queued
  | _ => False

instance (s : Store) (x : String) (c : Command) : Decidable (c.Requeues s x) := by
  induction c using Command.casesOn with
  | move m =>
    exact inferInstanceAs (Decidable (m.id = x ∧ m.Effective s ∧ m.kind.toState = some .queued))
  | _ => exact inferInstanceAs (Decidable False)

/-- The time for which x was scheduled most recently, unless x was requeued since. -/
def dueTime (x : String) (due : Option Time) (s : Store) (e : Timed) : Option Time :=
  match e.2.schedules s x with
  | some t => some t
  | none => if e.2.Requeues s x then none else due

/-- A non-unique task that has been delayed. -/
structure Punctual (x : String) (s : Store) (due : Option Time) (clock : Time) : Prop where
  placed : Absent s x ∨ ∃ st q, SoleAt s x st q
  scheduled : ∀ q t, s.score .scheduled q x = some t → due = some t
  queued : ∀ q t, x ∈ s.zset .queued q → due = some t → t ≤ clock

/-- An id is not in two ZSETs. -/
theorem Punctual.place_unique (h : Punctual x s due clock) {st st' : TaskState} {q q' : String}
    (hin : x ∈ s.zset st q) (hin' : x ∈ s.zset st' q') : st = st' ∧ q = q' := by
  rcases h.placed with ha | ⟨st0, q0, hsole⟩
  · exact absurd hin (ha st q)
  · obtain ⟨hst, hq⟩ := (hsole st q).mp hin
    obtain ⟨hst', hq'⟩ := (hsole st' q').mp hin'
    exact ⟨hst.trans hst'.symm, hq.trans hq'.symm⟩

theorem placed_step (h : Absent s x ∨ ∃ st q, SoleAt s x st q) (hd : ¬c.Delays x)
    (hb : ¬c.Strays s x) : Absent (exec c s).2 x ∨ ∃ st q, SoleAt (exec c s).2 x st q := by
  rcases h with ha | ⟨st, q, hsole⟩
  · exact Or.inl (ha.step hd hb)
  · rcases hsole.step hd hb with ⟨⟨st', hs⟩, -⟩ | ⟨ha, -⟩
    · exact Or.inr ⟨st', q, hs⟩
    · exact Or.inl ha

/-- A promoted id was due at the worker's time. -/
theorem due_of_mem_members {queue : String} {count : Int} {now : Instant}
    (h : x ∈ (promoteArgs queue count now).members s) :
    ∃ t, s.score .scheduled queue x = some t ∧ t ≤ now.time := by
  obtain ⟨e, he, rfl⟩ := List.mem_map.mp h
  obtain ⟨hin, hrange⟩ := ZSet.mem_rangeByScore he
  refine ⟨e.1, ZSet.score_eq_some.mpr hin, ?_⟩
  simpa [ZSet.inRange, promoteArgs] using hrange

theorem dueTime_same {e : Timed} (hs : e.2.schedules s x = none) (hr : ¬e.2.Requeues s x) :
    dueTime x due s e = due := by
  simp [dueTime, hs, hr]

section Step

variable {τ : Time}

/-- Nothing happens to x in QUEUED and SCHEDULED. -/
theorem Punctual.same (h : Punctual x s due clock) (hclock : clock ≤ τ) (hd : ¬c.Delays x)
    (hb : ¬c.Strays s x) (hs : c.schedules s x = none) (hr : ¬c.Requeues s x)
    (scores : ∀ st q, st ≠ .active → (exec c s).2.score st q x = s.score st q x) :
    Punctual x (exec c s).2 (dueTime x due s (τ, c)) τ where
  placed := placed_step h.placed hd hb
  scheduled := by
    intro q t ht
    rw [scores .scheduled q (by simp)] at ht
    rw [dueTime_same hs hr]
    exact h.scheduled q t ht
  queued := by
    intro q t hin ht
    rw [Store.mem_iff_score, scores .queued q (by simp)] at hin
    rw [dueTime_same hs hr] at ht
    exact (h.queued q t (Store.mem_iff_score.mpr hin) ht).trans hclock

theorem Punctual.pickup {queue : String} {count : Int} {now : Instant} {later : Time}
    (h : Punctual x s due clock) (hclock : clock ≤ τ) :
    Punctual x (exec (.pickup queue count now later) s).2
      (dueTime x due s (τ, .pickup queue count now later)) τ := by
  have hs : (Command.pickup queue count now later).schedules s x = none := by
    have hn : x ∉ (pickupArgs queue count now later).existing s := by
      rw [Zpoppush.mem_existing]
      rintro ⟨hm, hact⟩
      have hq : x ∈ s.zset .queued queue := Zpoppush.mem_source_of_mem_members hm
      have hactive : x ∈ s.zset .active queue := hact
      exact absurd (h.place_unique hq hactive).1 (by simp)
    simp [Command.schedules, hn]
  have hdue : dueTime x due s (τ, .pickup queue count now later) = due := dueTime_same hs id
  refine ⟨placed_step h.placed id id, ?_, ?_⟩
  · intro q t ht
    rw [hdue]
    apply h.scheduled q t
    cases pickup_effect queue count now later s q x with
    | untouched scores => rwa [scores] at ht
    | picked here pending idle scores => rwa [scores] at ht
    | diverted here pending busy => exact absurd (h.place_unique pending busy).1 (by simp)
    | lost here pending popped failed scores => rwa [scores] at ht
  · intro q t hin ht
    rw [hdue] at ht
    have hbefore : x ∈ s.zset .queued q := by
      cases pickup_effect queue count now later s q x with
      | untouched scores =>
        rw [Store.mem_iff_score, scores] at hin
        exact Store.mem_iff_score.mpr hin
      | picked here pending => exact pending
      | diverted here pending => exact pending
      | lost here pending => exact pending
    exact (h.queued q t hbefore ht).trans hclock

/-- A promotion queues x only when it is due. -/
theorem Punctual.promote {queue : String} {count : Int} {now : Instant}
    (h : Punctual x s due clock) (hclock : clock ≤ τ) (hread : now.time ≤ τ) :
    Punctual x (exec (.promote queue count now) s).2
      (dueTime x due s (τ, .promote queue count now)) τ := by
  have hdue : dueTime x due s (τ, .promote queue count now) = due := dueTime_same rfl id
  refine ⟨placed_step h.placed id id, ?_, ?_⟩
  · intro q t ht
    rw [hdue]
    apply h.scheduled q t
    cases promote_effect queue count now s q x with
    | untouched scores => rwa [scores] at ht
    | promoted here pending scores => simp [scores] at ht
    | lost here pending popped failed scores => simp [scores] at ht
  · intro q t hin ht
    rw [hdue] at ht
    by_cases hm : q = queue ∧ x ∈ (promoteArgs queue count now).members s
    · obtain ⟨t', ht', hle⟩ := due_of_mem_members hm.2
      obtain rfl : t' = t := Option.some.inj ((h.scheduled queue t' ht').symm.trans ht)
      exact hle.trans hread
    · have same : (exec (.promote queue count now) s).2.score .queued q x = s.score .queued q x :=
        score_zpoppushExists_of_not_mem hm
      rw [Store.mem_iff_score, same] at hin
      exact (h.queued q t (Store.mem_iff_score.mpr hin) ht).trans hclock

theorem Punctual.move {m : Move} (h : Punctual x s due clock) (hclock : clock ≤ τ) :
    Punctual x (exec (.move m) s).2 (dueTime x due s (τ, .move m)) τ := by
  by_cases hx : m.id = x ∧ m.Effective s
  · obtain ⟨rfl, he⟩ := hx
    have only (st : TaskState) (q : String) :
        m.id ∈ s.zset st q → st = m.kind.fromState ∧ q = m.queue :=
      fun hin => h.place_unique hin he
    have arrived {st : TaskState} {q : String} (hin : (exec (.move m) s).2.score st q m.id ≠ none) :
        m.kind.toState = some st ∧ q = m.queue := by
      rw [score_move he] at hin
      split_ifs at hin with hq hst hto
      · exact absurd rfl hin
      · exact ⟨hto, hq.1⟩
      · exact absurd (only st q (Store.mem_iff_score.mpr hin)).1 hst
      · exact absurd ⟨(only st q (Store.mem_iff_score.mpr hin)).2, rfl⟩ hq
    refine ⟨placed_step h.placed id id, ?_, ?_⟩
    · intro q t ht
      obtain ⟨hto, rfl⟩ := arrived (by rw [ht]; simp)
      -- the id was in ACTIVE only, so that no older score is kept
      have fresh : s.score .scheduled m.queue m.id = none := by
        rw [← Store.not_mem_iff_score]
        intro hin
        exact m.kind.toState_ne_fromState (hto.trans (congrArg some (only _ _ hin).1))
      have written : t = m.when := by
        have score : (exec (.move m) s).2.score .scheduled m.queue m.id = _ := score_move he
        rw [ht, if_pos ⟨rfl, rfl⟩, if_neg (fun hc => m.kind.toState_ne_fromState (by rw [hto, hc])),
          if_pos hto, fresh] at score
        exact Option.some.inj (score.trans (congrArg some (m.kind.mode.newScore_none m.when)))
      simp [dueTime, Command.schedules, he, hto, written]
    · intro q t hin ht
      obtain ⟨hto, rfl⟩ := arrived (Store.mem_iff_score.mp hin)
      simp [dueTime, Command.schedules, Command.Requeues, he, hto] at ht
  · have hs : (Command.move m).schedules s x = none := by
      simp only [Command.schedules]
      rw [if_neg (fun hc => hx ⟨hc.1, hc.2.1⟩)]
    refine h.same hclock id id hs (fun hc => hx ⟨hc.1, hc.2.1⟩) ?_
    intro st q _
    by_cases he : m.Effective s
    · rw [score_move he, if_neg (fun hc => hx ⟨hc.2.symm, he⟩)]
    · rw [exec_move_of_not_effective he]

theorem Punctual.updateScheduledTime {number : ℚ → ℚ} {queue id : String} {ts : Time}
    (h : Punctual x s due clock) (hclock : clock ≤ τ) :
    Punctual x (exec (.updateScheduledTime number queue id ts) s).2
      (dueTime x due s (τ, .updateScheduledTime number queue id ts)) τ := by
  let c := Command.updateScheduledTime number queue id ts
  by_cases hx : id = x ∧ x ∈ s.zset .scheduled queue
  · obtain ⟨rfl, hin⟩ := hx
    have hs : c.schedules s id = some ts := by
      simp only [c, Command.schedules, hin, and_self, if_true]
    have hdue : dueTime id due s (τ, c) = some ts := by
      simp only [dueTime, hs]
    refine ⟨placed_step h.placed (fun hc => hc) (fun hc => hc), ?_, ?_⟩
    · intro q t ht
      rw [hdue, ← ht, score_updateScheduledTime]
      have hq : q = queue := by
        rw [score_updateScheduledTime] at ht
        split_ifs at ht with hk
        · exact hk.2.1
        · exact (h.place_unique (Store.mem_iff_score.mpr (by rw [ht]; simp)) hin).2
      rw [if_pos ⟨rfl, hq, rfl, hq ▸ hin⟩]
    · intro q t hq ht
      rw [Store.mem_iff_score, score_updateScheduledTime, if_neg (fun hc => by simp at hc)] at hq
      exact absurd (h.place_unique (Store.mem_iff_score.mpr hq) hin).1 (by simp)
  · have hs : c.schedules s x = none := by
      simp only [c, Command.schedules]
      rw [if_neg hx]
    refine h.same hclock (fun hc => hc) (fun hc => hc) hs (fun hc => hc) ?_
    intro st q _
    rw [score_updateScheduledTime, if_neg]
    rintro ⟨rfl, rfl, rfl, hin⟩
    exact hx ⟨rfl, hin⟩

theorem Punctual.step (h : Punctual x s due clock) (hclock : clock ≤ τ)
    (hread : Timed.ReadBefore (τ, c)) (hd : ¬c.Delays x) (hb : ¬c.Strays s x) :
    Punctual x (exec c s).2 (dueTime x due s (τ, c)) τ := by
  by_cases hp : c.Passive
  · refine h.same hclock hd hb ?_ ?_ (fun st q _ => ?_)
    · cases c with
      | delay => exact hp.elim
      | pickup => exact hp.elim
      | move => exact hp.elim
      | updateScheduledTime => exact hp.elim
      | _ => rfl
    · cases c with
      | move => exact hp.elim
      | _ => exact id
    · rw [Store.score, (exec_passive hp s).1, Store.score]
  · cases c with
    | delay queue data ts now publish =>
      have hx : data.id ≠ x := hd
      refine h.same hclock hd hb (by simp [Command.schedules, hx]) id (fun st q _ => ?_)
      rw [score_delay, if_neg (fun hc => hx hc.2.2.symm)]
    | pickup => exact h.pickup hclock
    | promote queue count now => exact h.promote hclock (hread now rfl)
    | move => exact h.move hclock
    | updateScheduledTime => exact h.updateScheduledTime hclock
    | heartbeat queue ids now =>
      refine h.same hclock hd hb rfl id (fun st q hst => ?_)
      rw [score_heartbeat, if_neg (fun hc => hst hc.1)]
    | _ => exact absurd trivial hp

/-- A task that is nowhere stays without a due time until it is delayed. -/
theorem dueTime_absent (ha : Absent s x) (hd : ¬c.Delays x) : dueTime x none s (τ, c) = none := by
  have hs : c.schedules s x = none := by
    cases c with
    | delay queue data ts now publish =>
      have hx : data.id ≠ x := hd
      simp [Command.schedules, hx]
    | pickup queue count now later =>
      have hn : x ∉ (pickupArgs queue count now later).existing s := by
        rw [Zpoppush.mem_existing]
        exact fun hc => ha _ _ hc.2
      simp [Command.schedules, hn]
    | move m =>
      have hn : ¬(m.id = x ∧ m.Effective s ∧ m.kind.toState = some .scheduled) := by
        rintro ⟨rfl, he, -⟩
        exact ha _ _ he
      simp only [Command.schedules, if_neg hn]
    | updateScheduledTime number queue id ts =>
      have hn := ha .scheduled queue
      simp [Command.schedules, hn]
    | _ => rfl
  simp [dueTime, hs]

/-- A task that is queued at once was due by then. -/
theorem delayTarget_queued {ts : Option Time} {now : Instant} {t : Time}
    (queued : (delayTarget ts now).1 = .queued) (ht : ts = some t) : t ≤ now.time := by
  subst ht
  by_contra later
  simp [delayTarget, later] at queued

theorem delayTarget_scheduled {ts : Option Time} {now : Instant}
    (scheduled : (delayTarget ts now).1 = .scheduled) : ts = some (delayTarget ts now).2 := by
  cases ts with
  | none => simp [delayTarget] at scheduled
  | some t =>
    by_cases past : t ≤ now.time
    · simp [delayTarget, past] at scheduled
    · simp [delayTarget, past]

theorem Punctual.delayed {queue : String} {data : TaskData} {ts : Option Time} {now : Instant}
    {publish : Bool} (ha : Absent s data.id) (hread : now.time ≤ τ) :
    Punctual data.id (exec (.delay queue data ts now publish) s).2
      (dueTime data.id none s (τ, .delay queue data ts now publish)) τ := by
  have hsole : SoleAt (exec (.delay queue data ts now publish) s).2 data.id
      (delayTarget ts now).1 queue := ha.delay
  have hdue : dueTime data.id none s (τ, .delay queue data ts now publish) = ts := by
    cases ts <;> simp [dueTime, Command.schedules, Command.Requeues]
  rw [hdue]
  refine ⟨Or.inr ⟨_, _, hsole⟩, ?_, ?_⟩
  · intro q t ht
    obtain ⟨hst, rfl⟩ := (hsole .scheduled q).mp (Store.mem_iff_score.mpr (by rw [ht]; simp))
    rw [score_delay, if_pos ⟨hst, rfl, rfl⟩, Store.not_mem_iff_score.mp (ha .scheduled q)] at ht
    rw [delayTarget_scheduled hst.symm]
    simpa using ht
  · intro q t hin ht
    obtain ⟨hst, -⟩ := (hsole .queued q).mp hin
    exact (delayTarget_queued hst.symm ht).trans hread

end Step

/-! Runs. -/

/-- What a run may still find: a task that is punctual and not delayed again, or one that is
nowhere and delayed at most once. -/
def Awaits (x : String) (s : Store) (due : Option Time) (clock : Time) (l : List Timed) : Prop :=
  Punctual x s due clock ∧ (∀ e ∈ l, ¬e.2.Delays x) ∨
    Absent s x ∧ due = none ∧ l.countP (fun e => decide (e.2.Delays x)) ≤ 1

theorem Awaits.step {e : Timed} {l : List Timed} (h : Awaits x s due clock (e :: l))
    (hclock : clock ≤ e.1) (hread : e.ReadBefore) (hb : ¬e.2.Strays s x) :
    Awaits x (execAt e s).2 (dueTime x due s e) e.1 l := by
  obtain ⟨τ, c⟩ := e
  rcases h with ⟨hpunctual, hd⟩ | ⟨ha, rfl, hcount⟩
  · refine Or.inl ⟨hpunctual.step hclock hread (hd _ (by simp)) hb, ?_⟩
    intro e he
    exact hd e (by simp [he])
  · rw [List.countP_cons] at hcount
    by_cases hd : c.Delays x
    · have hzero : l.countP (fun e => decide (e.2.Delays x)) = 0 := by
        simp only [hd, decide_true, if_true] at hcount
        omega
      have hrest : ∀ e ∈ l, ¬e.2.Delays x := by simpa using List.countP_eq_zero.mp hzero
      refine Or.inl ⟨?_, hrest⟩
      cases c with
      | delay queue data ts now publish =>
        obtain rfl : data.id = x := hd
        exact Punctual.delayed ha (hread now rfl)
      | _ => exact hd.elim
    · exact Or.inr ⟨ha.step hd hb, dueTime_absent ha hd, by omega⟩

/-- No pickup of a run returns a task before the time for which it was last scheduled. -/
theorem Awaits.not_early {l : List Timed} (h : Awaits x s due clock l)
    (hclock : ∀ e ∈ l, clock ≤ e.1) (hsorted : (l.map Prod.fst).Pairwise (· ≤ ·))
    (hread : ∀ e ∈ l, e.ReadBefore) (hb : Along execAt (fun s e => ¬e.2.Strays s x) s l)
    {pre post : List Timed} {τ : Time} {queue : String} {count : Int} {now : Instant}
    {later : Time} (hl : l = pre ++ (τ, .pickup queue count now later) :: post)
    (hret : Returned queue count now later (run execAt s pre) queue x) {t : Time}
    (ht : watch execAt (dueTime x) s due pre = some t) : t ≤ τ := by
  induction pre generalizing l s due clock with
  | nil =>
    subst hl
    rw [returned_iff, Zpoppush.mem_moved] at hret
    have hin : x ∈ s.zset .queued queue := Zpoppush.mem_source_of_mem_members hret.2.1.1
    rcases h with ⟨hpunctual, -⟩ | ⟨ha, -⟩
    · exact (hpunctual.queued queue t hin ht).trans (hclock _ List.mem_cons_self)
    · exact absurd hin (ha _ _)
  | cons f pre ih =>
    subst hl
    obtain ⟨hfirst, hrest⟩ := List.pairwise_cons.mp hsorted
    have hlater : ∀ e ∈ pre ++ (τ, .pickup queue count now later) :: post, f.1 ≤ e.1 :=
      fun e he => hfirst e.1 (List.mem_map_of_mem he)
    have hnext := h.step (hclock f List.mem_cons_self) (hread f List.mem_cons_self) hb.1
    exact ih hnext hlater hrest (fun e he => hread e (List.mem_cons_of_mem f he)) hb.2 rfl hret ht

/-- A task that is nowhere yet and is delayed once. -/
theorem not_early {l : List Timed} (ha : Absent s x) (hsorted : (l.map Prod.fst).Pairwise (· ≤ ·))
    (hread : ∀ e ∈ l, e.ReadBefore) (once : l.countP (fun e => decide (e.2.Delays x)) ≤ 1)
    (hb : Along execAt (fun s e => ¬e.2.Strays s x) s l)
    {pre post : List Timed} {τ : Time} {queue : String} {count : Int} {now : Instant}
    {later : Time} (hl : l = pre ++ (τ, .pickup queue count now later) :: post)
    (hret : Returned queue count now later (run execAt s pre) queue x) {t : Time}
    (ht : watch execAt (dueTime x) s none pre = some t) : t ≤ τ := by
  have start (clock : Time) : Awaits x s none clock l := Or.inr ⟨ha, rfl, once⟩
  cases l with
  | nil => simp at hl
  | cons f l =>
    have hfirst : ∀ e ∈ f :: l, f.1 ≤ e.1 := by
      intro e he
      rcases List.mem_cons.mp he with rfl | he
      · exact le_rfl
      · exact (List.pairwise_cons.mp hsorted).1 e.1 (List.mem_map_of_mem he)
    exact (start f.1).not_early hfirst hsorted hread hb hl hret ht

end TaskTiger
