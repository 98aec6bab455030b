import TaskTiger.Invariants.NoStarvation

namespace TaskTiger

open Redis Interleaving

/-! Every scheduled task is queued when it is due. -/

/-- What the command puts into SCHEDULED:q it puts there for a time later than t, and it neither
cancels x nor gives it another time. -/
def Command.SchedulesBehind (q x : String) (t : Time) (s : Store) : Command → Prop
  | .delay queue data ts now _ => queue = q → (delayTarget ts now).1 = .scheduled →
      data.id ∉ s.zset .scheduled q → t < (delayTarget ts now).2
  | .pickup queue count now later => queue = q →
      ∀ y ∈ (pickupArgs queue count now later).members s, y ∈ s.zset .active q → t < later
  | .updateScheduledTime _ queue id ts => queue = q → id ∈ s.zset .scheduled q → t < ts ∧ id ≠ x
  | .move m => m.queue = q → m.Effective s → (m.kind = .cancel → m.id ≠ x) ∧
      (m.kind.toState = some .scheduled → t < m.when ∧ (m.id = x → m.kind ≠ .retryLater))
  | _ => True

instance (q x : String) (t : Time) (s : Store) (c : Command) :
    Decidable (c.SchedulesBehind q x t s) := by
  induction c using Command.casesOn with
  | delay => exact inferInstanceAs (Decidable (_ → _ → _ → _))
  | pickup => exact inferInstanceAs (Decidable (_ → ∀ _ ∈ _, _ → _))
  | updateScheduledTime => exact inferInstanceAs (Decidable (_ → _ → _ ∧ _))
  | move => exact inferInstanceAs (Decidable (_ → _ → _ ∧ _))
  | _ => exact inferInstanceAs (Decidable True)

/-- How many ids that are due at t the command may take out of SCHEDULED:q. -/
def Command.promotions (q : String) (t : Time) : Command → Nat
  | .promote queue count now => if queue = q ∧ t ≤ now.time then count.toNat else 0
  | _ => 0

/-- A promotion takes x out of SCHEDULED:q. It puts it into QUEUED:q, unless its script raises. -/
def Command.Promotes (q x : String) (s : Store) : Command → Prop
  | .promote queue count now =>
      queue = q ∧ x ∈ (promoteArgs queue count now).members s ∧
        ((promoteArgs queue count now).Fits s →
          x ∈ (exec (.promote queue count now) s).2.zset .queued q)
  | _ => False

section

variable {s : Store} {q x y : String} {t u : Time} {queue : String} {count : Int} {now : Instant}

theorem score_scheduled_promote : (exec (.promote queue count now) s).2.score .scheduled q y =
    if q = queue ∧ y ∈ (promoteArgs queue count now).members s then none
    else s.score .scheduled q y :=
  Zpoppush.score_source promoteArgs_distinct

/-- What a pickup puts off it has popped. -/
theorem mem_members_of_diverted {later : Time} (pending : y ∈ s.zset .queued queue)
    (gone : (exec (.pickup queue count now later) s).2.score .queued queue y = none) :
    y ∈ (pickupArgs queue count now later).members s :=
  Zpoppush.mem_members_of_gone pickupArgs_distinct pending gone

/-- The smaller of two times that is not later than t, where the second one is. -/
theorem le_of_min {old : Option Time} {w : Time} (hw : t < w)
    (h : (old.map (min · w)).getD w ≤ t) : old = some ((old.map (min · w)).getD w) := by
  cases old with
  | none => exact absurd h (not_le.mpr hw)
  | some v =>
    simp only [Option.map_some, Option.getD_some] at h ⊢
    rcases min_choice v w with hm | hm
    · rw [hm]
    · rw [hm] at h
      exact absurd h (not_le.mpr hw)

/-- Except for promotions, a command writes no time into SCHEDULED:q that is not later than t. -/
theorem score_scheduled_exec {c : Command} (hc : c.SchedulesBehind q x t s) (hu : u ≤ t)
    (promote : ∀ queue count now, c ≠ .promote queue count now)
    (after : (exec c s).2.score .scheduled q y = some u) : s.score .scheduled q y = some u := by
  by_cases hp : c.Passive
  · rwa [Store.score, (exec_passive hp s).1] at after
  · cases c with
    | delay queue data ts now publish =>
      rw [score_delay] at after
      split_ifs at after with h
      · obtain ⟨target, rfl, rfl⟩ := h
        cases hy : s.score .scheduled q data.id with
        | some w => simpa [hy] using after
        | none =>
          have written : (delayTarget ts now).2 = u := by simpa [hy] using after
          have absent : data.id ∉ s.zset .scheduled q := by simp [Store.mem_iff_score, hy]
          exact absurd (hc rfl target.symm absent) (not_lt.mpr (written.trans_le hu))
      · exact after
    | pickup queue count now later =>
      cases pickup_effect queue count now later s q y with
      | untouched scores => rwa [scores] at after
      | picked same pending idle scores => rwa [scores] at after
      | lost same pending popped failed scores => rwa [scores] at after
      | diverted same pending busy scores =>
        have written := (scores .scheduled).symm.trans after
        simp only [Option.some.injEq] at written
        rw [← written] at hu ⊢
        obtain rfl := same
        have popped := mem_members_of_diverted pending (scores .queued)
        exact le_of_min (hc rfl y popped busy) hu
    | move m =>
      by_cases he : m.Effective s
      · rw [score_move he] at after
        split_ifs at after with here hfrom hto
        · obtain ⟨rfl, rfl⟩ := here
          obtain ⟨later, -⟩ := (hc rfl he).2 hto
          have written := Option.some.inj after
          cases hk : m.kind with
          | lockMiss =>
            rw [hk] at written
            change ((s.score .scheduled m.queue m.id).map (min · m.when)).getD m.when = u at written
            rw [← written] at hu ⊢
            exact le_of_min later hu
          | retryLater =>
            obtain rfl : m.when = u := by simpa [hk, MoveKind.mode, Mode.newScore] using written
            exact absurd later (not_lt.mpr hu)
          | _ => simp [hk, MoveKind.toState] at hto
        · exact after
        · exact after
      · rwa [exec_move_of_not_effective he] at after
    | updateScheduledTime number queue id ts =>
      rw [score_updateScheduledTime] at after
      split_ifs at after with h
      · obtain rfl := Option.some.inj after
        obtain ⟨-, rfl, rfl, present⟩ := h
        exact absurd (hc rfl present).1 (not_lt.mpr hu)
      · exact after
    | heartbeat =>
      rw [score_heartbeat, if_neg (by simp)] at after
      exact after
    | promote queue count now => exact absurd rfl (promote queue count now)
    | _ => exact absurd trivial hp

/-- Except for promotions, x keeps its time. -/
theorem stays_scheduled {c : Command} (hc : c.SchedulesBehind q x t s)
    (here : s.score .scheduled q x = some t)
    (promote : ∀ queue count now, c ≠ .promote queue count now) :
    (exec c s).2.score .scheduled q x = some t := by
  by_cases hp : c.Passive
  · rwa [Store.score, (exec_passive hp s).1]
  · cases c with
    | delay queue data ts now publish =>
      rw [score_delay]
      split_ifs with h
      · obtain ⟨-, rfl, rfl⟩ := h
        simp [here]
      · exact here
    | pickup queue count now later =>
      cases pickup_effect queue count now later s q x with
      | untouched scores => rwa [scores]
      | picked same pending idle scores => rwa [scores]
      | lost same pending popped failed scores => rwa [scores]
      | diverted same pending busy scores =>
        obtain rfl := same
        have popped := mem_members_of_diverted pending (scores .queued)
        have later : t < later := hc rfl x popped busy
        rw [scores]
        simp [here, min_eq_left later.le]
    | move m =>
      by_cases he : m.Effective s
      · rw [score_move he]
        split_ifs with same hfrom hto
        · obtain ⟨rfl, rfl⟩ := same
          obtain ⟨cancel, -⟩ := hc rfl he
          cases hk : m.kind with
          | cancel => exact absurd rfl (cancel hk)
          | _ => simp [hk, MoveKind.fromState] at hfrom
        · obtain ⟨rfl, rfl⟩ := same
          obtain ⟨later, kind⟩ := (hc rfl he).2 hto
          cases hk : m.kind with
          | lockMiss =>
            change some (((s.score .scheduled m.queue m.id).map (min · m.when)).getD m.when) = _
            simp [here, min_eq_left later.le]
          | retryLater => exact absurd hk (kind rfl)
          | _ => simp [hk, MoveKind.toState] at hto
        · exact here
        · exact here
      · rwa [exec_move_of_not_effective he]
    | updateScheduledTime number queue id ts =>
      rw [score_updateScheduledTime]
      split_ifs with h
      · obtain ⟨-, rfl, rfl, present⟩ := h
        exact absurd rfl (hc rfl present).2
      · exact here
    | heartbeat => rwa [score_heartbeat, if_neg (by simp)]
    | promote queue count now => exact absurd rfl (promote queue count now)
    | _ => exact absurd trivial hp

/-- The schedule is a line, which moves when t has come. -/
def scheduleLine (q x : String) (t : Time) :
    WaitingLine exec (fun s c => Command.SchedulesBehind q x t s c) where
  ahead := aheadOf .scheduled q x t
  gain := Command.promotions q t
  forward := by
    intro s c n m hc before after
    obtain ⟨here, hn⟩ := aheadOf_eq_some.mp before
    obtain ⟨here', hm⟩ := aheadOf_eq_some.mp after
    by_cases due : ∃ count now, c = .promote q count now ∧ t ≤ now.time
    · obtain ⟨count, now, rfl, hnow⟩ := due
      have forward : m + count.toNat ≤ n :=
        Zpoppush.rank_source (a := promoteArgs q count now) promoteArgs_distinct here
          (fun bound hb => by rwa [← Option.some.inj hb]) hn hm
      simpa [Command.promotions, hnow] using forward
    · have none_due : c.promotions q t = 0 := by
        cases c with
        | promote queue count now =>
          refine if_neg ?_
          rintro ⟨rfl, hnow⟩
          exact due ⟨count, now, rfl, hnow⟩
        | _ => rfl
      rw [none_due, Nat.add_zero]
      refine ZSet.rank_le hn hm here here' ?_
      intro y u hu before
      by_cases promote : ∃ queue count now, c = .promote queue count now
      · obtain ⟨queue, count, now, rfl⟩ := promote
        change (exec (.promote queue count now) s).2.score .scheduled q y = some u at hu
        rw [score_scheduled_promote] at hu
        split_ifs at hu
        exact hu
      · push Not at promote
        exact score_scheduled_exec hc before.score_le promote hu

end

/-- A scheduled task is queued in its turn: once promotions at or after its time may have taken more
ids than were due before it, one of them has promoted it. -/
theorem promotes_run {s : Store} {q x : String} {t : Time} {n : Nat} {l : List Command}
    (here : s.score .scheduled q x = some t) (ahead : (s.zset .scheduled q).rank x = some n)
    (behind : Along exec (fun s c => c.SchedulesBehind q x t s) s l)
    (turns : n < (l.map (Command.promotions q t)).sum) :
    ∃ pre c post, l = pre ++ c :: post ∧ c.Promotes q x (runAll s pre) := by
  have first : (scheduleLine q x t).ahead s = some n := aheadOf_eq_some.mpr ⟨here, ahead⟩
  obtain ⟨pre, c, post, rfl, ⟨m, waits⟩, left⟩ :=
    (scheduleLine q x t).leaves behind first turns
  refine ⟨pre, c, post, rfl, ?_⟩
  obtain ⟨still, -⟩ := aheadOf_eq_some.mp waits
  have gone : (exec c (runAll s pre)).2.score .scheduled q x ≠ some t :=
    fun stays => aheadOf_ne_none stays left
  by_cases promote : ∃ queue count now, c = .promote queue count now
  · obtain ⟨queue, count, now, rfl⟩ := promote
    rw [score_scheduled_promote] at gone
    split_ifs at gone with taken
    · obtain ⟨rfl, hx⟩ := taken
      refine ⟨rfl, hx, fun fits => ?_⟩
      cases promote_effect q count now (runAll s pre) q x with
      | untouched scores =>
        have out : (exec (.promote q count now) (runAll s pre)).2.score .scheduled q x = none := by
          rw [score_scheduled_promote, if_pos ⟨rfl, hx⟩]
        exact absurd ((scores .scheduled).symm.trans out) (by rw [still]; simp)
      | promoted same due scores => simp [Store.mem_iff_score, scores]
      | lost same due popped failed => exact absurd fits failed
    · exact absurd still gone
  · push Not at promote
    exact absurd (stays_scheduled (along_iff.mp behind pre c post rfl) still promote) gone

/-- Three tasks are scheduled, for 10, 20 and 30. -/
def threeScheduled : Store :=
  runAll Store.empty
    [.delay "default" (waitingTask "c") (some 30) 1 true,
      .delay "default" (waitingTask "a") (some 10) 2 true,
      .delay "default" (waitingTask "b") (some 20) 3 true]

/-- The schedule is looked at every ten seconds, for one task each time; a worker takes the first one,
and others come in. -/
def oneEachTime : List Command :=
  [.promote "default" 1 20, .pickup "default" 1 21 22, .promote "default" 1 30,
    .delay "default" (waitingTask "d") (some 31) 31 true,
    .delay "default" (waitingTask "e") (some 50) 32 true, .promote "default" 1 40,
    .promote "default" 1 50]

theorem promotes_run_third :
    threeScheduled.score .scheduled "default" "c" = some 30 ∧
      ∃ pre c post, oneEachTime = pre ++ c :: post ∧
        c.Promotes "default" "c" (runAll threeScheduled pre) := by
  have here : threeScheduled.score .scheduled "default" "c" = some 30 := by decide +kernel
  exact ⟨here, promotes_run (n := 2) here (by decide +kernel) (by decide +kernel) (by decide +kernel)⟩

end TaskTiger
