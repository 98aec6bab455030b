import TaskTiger.Framework.WaitingLine
import TaskTiger.Store.CommandEffects

namespace TaskTiger

open Redis Interleaving

/-! Every queued task gets its turn. -/

/-- What the command brings into QUEUED:q comes in later than the time t, and it is no manual
retry of x. -/
def Command.Behind (q x : String) (t : Time) (s : Store) : Command → Prop
  | .delay queue data ts now _ => queue = q → (delayTarget ts now).1 = .queued →
      data.id ∉ s.zset .queued q → t < now.time
  | .promote queue count now => queue = q → ∀ y ∈ (promoteArgs queue count now).members s,
      y ∉ s.zset .queued q → t < now.time
  | .move m => m.queue = q → m.Effective s → m.kind.toState = some .queued →
      (m.kind = .retry ∨ m.id ∉ s.zset .queued q → t < m.when) ∧ (m.id = x → m.kind ≠ .retry)
  | _ => True

instance (q x : String) (t : Time) (s : Store) (c : Command) : Decidable (c.Behind q x t s) := by
  induction c using Command.casesOn with
  | delay => exact inferInstanceAs (Decidable (_ → _ → _ → _))
  | promote => exact inferInstanceAs (Decidable (_ → ∀ _ ∈ _, _ → _))
  | move => exact inferInstanceAs (Decidable (_ → _ → _ → _ ∧ _))
  | _ => exact inferInstanceAs (Decidable True)

/-- How many ids the command may take out of QUEUED:q. -/
def Command.servings (q : String) : Command → Nat
  | .pickup queue count _ _ => if queue = q then count.toNat else 0
  | _ => 0

/-- A pickup takes x out of QUEUED:q. It hands x to its worker, or puts it off while x is active,
unless its script raises. -/
def Command.TakesUp (q x : String) (s : Store) : Command → Prop
  | .pickup queue count now later =>
      queue = q ∧ x ∈ (pickupArgs queue count now later).members s ∧
        ((pickupArgs queue count now later).Fits s → Returned queue count now later s q x ∨
          x ∈ s.zset .active q ∧ x ∈ (exec (.pickup queue count now later) s).2.zset .scheduled q)
  | _ => False

section

variable {s : Store} {q x y : String} {t : Time} {queue : String} {count : Int} {now : Instant}
  {later : Time}

/-! A ZSET that a zpoppush pops, as a line. -/

/-- How many are before x in the ZSET, while x waits there with its time t. -/
def aheadOf (st : TaskState) (q x : String) (t : Time) (s : Store) : Option Nat :=
  if s.score st q x = some t then (s.zset st q).rank x else none

theorem aheadOf_eq_some {st : TaskState} {n : Nat} : aheadOf st q x t s = some n ↔
    s.score st q x = some t ∧ (s.zset st q).rank x = some n := by
  simp [aheadOf]

theorem aheadOf_ne_none {st : TaskState} (here : s.score st q x = some t) :
    aheadOf st q x t s ≠ none := by
  have waits : x ∈ s.zset st q := ZSet.mem_iff.mpr ⟨t, here⟩
  obtain ⟨n, hn⟩ := ZSet.exists_rank waits
  rw [aheadOf_eq_some.mpr ⟨here, hn⟩]
  simp

namespace Zpoppush

variable {a : Zpoppush}

/-- The script changes nothing in the source for an id that it does not take. -/
theorem score_source (distinct : a.Distinct) : (zpoppushExists a s).2.score a.source q y =
    if q = a.queue ∧ y ∈ a.members s then none else s.score a.source q y := by
  split_ifs with h
  · obtain ⟨rfl, hy⟩ := h
    exact score_zpoppushExists_source distinct hy
  · exact score_zpoppushExists_of_not_mem h

theorem mem_members_of_gone (distinct : a.Distinct) (before : y ∈ s.zset a.source a.queue)
    (gone : (zpoppushExists a s).2.score a.source a.queue y = none) : y ∈ a.members s := by
  by_contra kept
  rw [score_source distinct, if_neg (fun h => kept h.2)] at gone
  exact Store.mem_iff_score.mp before gone

/-- The script pops its members. -/
theorem zset_source (distinct : a.Distinct) : (zpoppushExists a s).2.zset a.source a.queue =
    (s.zset a.source a.queue).popFirst (a.members s).length := by
  obtain ⟨p, hp, members⟩ : ∃ p, p <+: (s.zset a.source a.queue).entries ∧
      a.members s = p.map Prod.snd := ⟨_, ZSet.rangeByScore_isPrefix _ _ _, rfl⟩
  apply ZSet.ext_score
  intro y
  have popped := ZSet.score_popFirst hp y
  rw [← members] at popped
  have length : (a.members s).length = p.length := by rw [members, List.length_map]
  rw [length]
  refine Eq.trans (score_source distinct) (Eq.trans ?_ popped.symm)
  simp [Store.score]

/-- Whom the script leaves in the source, though its time is within the bound, was behind as many
others as the count says. -/
theorem count_le_members (here : s.score a.source a.queue x = some t)
    (within : ∀ bound ∈ a.score, t ≤ bound) (kept : x ∉ a.members s) :
    a.count.toNat ≤ (a.members s).length := by
  let due := (s.zset a.source a.queue).entries.filter (fun e => ZSet.inRange none a.score e.1)
  have hx : x ∈ due.map Prod.snd := by
    refine List.mem_map.mpr ⟨(t, x), List.mem_filter.mpr ⟨ZSet.score_eq_some.mp here, ?_⟩, rfl⟩
    cases hb : a.score with
    | none => rfl
    | some bound => simpa [ZSet.inRange] using within bound hb
  have members : a.members s = (ZSet.limit a.count due).map Prod.snd := rfl
  rw [members] at kept ⊢
  unfold ZSet.limit at kept ⊢
  split_ifs at kept ⊢ with negative
  · exact absurd hx kept
  · by_contra short
    have everything : due.take a.count.toNat = due := by
      refine List.take_of_length_le ?_
      rw [List.length_map, List.length_take] at short
      omega
    rw [everything] at kept
    exact kept hx

/-- The script brings whom it leaves in the source forward by its count. -/
theorem rank_source {n m : Nat} (distinct : a.Distinct)
    (here : s.score a.source a.queue x = some t) (within : ∀ bound ∈ a.score, t ≤ bound)
    (before : (s.zset a.source a.queue).rank x = some n)
    (after : ((zpoppushExists a s).2.zset a.source a.queue).rank x = some m) :
    m + a.count.toNat ≤ n := by
  have kept : x ∉ a.members s := by
    intro hx
    have stays : x ∈ (zpoppushExists a s).2.zset a.source a.queue := ZSet.mem_of_rank after
    rw [Store.mem_iff_score, score_source distinct, if_pos ⟨rfl, hx⟩] at stays
    exact stays rfl
  rw [zset_source distinct] at after
  have popped := (ZSet.rank_of_popFirst after).symm.trans before
  have taken := count_le_members here within kept
  simp only [Option.some.injEq] at popped
  omega

end Zpoppush

/-! QUEUED. -/

/-- Except for pickups, a command leaves a score of QUEUED:q as it is, or writes a later one, and
that not for x. -/
theorem score_queued_exec {c : Command} (hc : c.Behind q x t s) (here : s.score .queued q x = some t)
    (pickup : ∀ queue count now later, c ≠ .pickup queue count now later) :
    (exec c s).2.score .queued q y = s.score .queued q y ∨
      y ≠ x ∧ ∃ u, t < u ∧ (exec c s).2.score .queued q y = some u := by
  by_cases hp : c.Passive
  · left
    rw [Store.score, (exec_passive hp s).1]
    rfl
  · cases c with
    | delay queue data ts now publish =>
      rw [score_delay]
      split_ifs with h
      · obtain ⟨target, rfl, rfl⟩ := h
        have time : (delayTarget ts now).2 = now.time := by
          unfold delayTarget at target ⊢
          cases ts with
          | none => rfl
          | some w =>
            dsimp only at target ⊢
            split_ifs at target ⊢
            rfl
        cases hy : s.score .queued q data.id with
        | some u => exact Or.inl rfl
        | none =>
          have absent : data.id ∉ s.zset .queued q := by simp [Store.mem_iff_score, hy]
          refine Or.inr ⟨?_, now.time, hc rfl target.symm absent, by rw [time]; rfl⟩
          rintro rfl
          rw [here] at hy
          cases hy
      · exact Or.inl rfl
    | promote queue count now =>
      cases promote_effect queue count now s q y with
      | untouched scores => exact Or.inl (scores .queued)
      | promoted same due scores =>
        rw [scores]
        cases hy : s.score .queued q y with
        | some u => exact Or.inl rfl
        | none =>
          have popped : y ∈ (promoteArgs queue count now).members s := by
            refine Zpoppush.mem_members_of_gone promoteArgs_distinct (same ▸ due) ?_
            have gone := scores .scheduled
            rwa [same] at gone
          have absent : y ∉ s.zset .queued q := by simp [Store.mem_iff_score, hy]
          refine Or.inr ⟨?_, now.time, hc same.symm y popped absent, rfl⟩
          rintro rfl
          rw [here] at hy
          cases hy
      | lost same due popped failed scores => exact Or.inl (scores .queued)
    | move m =>
      by_cases he : m.Effective s
      · rw [score_move he]
        split_ifs with hid hfrom hto
        · -- nothing moves out of QUEUED
          cases hk : m.kind <;> simp [hk, MoveKind.fromState] at hfrom
        · obtain ⟨rfl, rfl⟩ := hid
          obtain ⟨after, again⟩ := hc rfl he hto
          cases hk : m.kind with
          | retry =>
            refine Or.inr ⟨fun hx => again hx hk, m.when, after (Or.inl hk), ?_⟩
            cases s.score .queued m.queue m.id <;> rfl
          | requeueExpired =>
            cases hy : s.score .queued m.queue m.id with
            | some u => exact Or.inl rfl
            | none =>
              have absent : m.id ∉ s.zset .queued m.queue := by simp [Store.mem_iff_score, hy]
              refine Or.inr ⟨?_, m.when, after (Or.inr absent), rfl⟩
              intro hx
              rw [hx, here] at hy
              cases hy
          | _ => simp [hk, MoveKind.toState] at hto
        · exact Or.inl rfl
        · exact Or.inl rfl
      · rw [exec_move_of_not_effective he]
        exact Or.inl rfl
    | updateScheduledTime =>
      rw [score_updateScheduledTime, if_neg (by simp)]
      exact Or.inl rfl
    | heartbeat =>
      rw [score_heartbeat, if_neg (by simp)]
      exact Or.inl rfl
    | pickup queue count now later => exact absurd rfl (pickup queue count now later)
    | _ => exact absurd trivial hp

/-- What becomes of an id that a pickup takes. -/
theorem takesUp_of_members (hx : x ∈ (pickupArgs queue count now later).members s) :
    Command.TakesUp queue x s (.pickup queue count now later) := by
  refine ⟨rfl, hx, ?_⟩
  intro fits
  have pending : x ∈ s.zset .queued queue := Zpoppush.mem_source_of_mem_members hx
  cases pickup_effect queue count now later s queue x with
  | untouched scores =>
    have gone : (exec (.pickup queue count now later) s).2.score .queued queue x = none :=
      score_zpoppushExists_source pickupArgs_distinct hx
    rw [scores] at gone
    exact absurd gone (Store.mem_iff_score.mp pending)
  | picked here pending idle scores returned => exact Or.inl returned
  | diverted here pending busy scores =>
    refine Or.inr ⟨busy, Store.mem_iff_score.mpr ?_⟩
    simp [scores]
  | lost here pending popped failed => exact absurd fits failed

theorem score_queued_pickup : (exec (.pickup queue count now later) s).2.score .queued q y =
    if q = queue ∧ y ∈ (pickupArgs queue count now later).members s then none
    else s.score .queued q y :=
  Zpoppush.score_source pickupArgs_distinct

/-- The queue is a line. -/
def queueLine (q x : String) (t : Time) :
    WaitingLine exec (fun s c => Command.Behind q x t s c) where
  ahead := aheadOf .queued q x t
  gain := Command.servings q
  forward := by
    intro s c n m hc before after
    obtain ⟨here, hn⟩ := aheadOf_eq_some.mp before
    obtain ⟨here', hm⟩ := aheadOf_eq_some.mp after
    by_cases pickup : ∃ count now later, c = .pickup q count now later
    · obtain ⟨count, now, later, rfl⟩ := pickup
      have forward : m + count.toNat ≤ n :=
        Zpoppush.rank_source (a := pickupArgs q count now later) pickupArgs_distinct here
          (fun bound hb => by cases hb) hn hm
      simpa [Command.servings] using forward
    · have none_served : c.servings q = 0 := by
        cases c with
        | pickup queue count now later =>
          refine if_neg ?_
          rintro rfl
          exact pickup ⟨count, now, later, rfl⟩
        | _ => rfl
      rw [none_served, Nat.add_zero]
      refine ZSet.rank_le hn hm here here' ?_
      intro y u hu before
      by_cases other : ∃ queue count now later, c = .pickup queue count now later
      · obtain ⟨queue, count, now, later, rfl⟩ := other
        have hq : q ≠ queue := by
          rintro rfl
          exact pickup ⟨count, now, later, rfl⟩
        change (exec (.pickup queue count now later) s).2.score .queued q y = some u at hu
        rwa [score_queued_pickup, if_neg (fun h => hq h.1)] at hu
      · push Not at other
        rcases score_queued_exec (y := y) hc here other with same | ⟨-, w, hw, new⟩
        · exact same.symm.trans hu
        · -- what has come in is not before x
          obtain rfl : w = u := by
            have := new.symm.trans hu
            simpa using this
          exact absurd before.score_le (not_le.mpr hw)

end

/-- No starvation: in every run in which nothing comes into the queue with an earlier time, x is
taken up once the pickups of the queue may have taken more ids than were before x. -/
theorem takesUp_run {s : Store} {q x : String} {t : Time} {n : Nat} {l : List Command}
    (here : s.score .queued q x = some t) (ahead : (s.zset .queued q).rank x = some n)
    (behind : Along exec (fun s c => c.Behind q x t s) s l)
    (turns : n < (l.map (Command.servings q)).sum) :
    ∃ pre c post, l = pre ++ c :: post ∧ c.TakesUp q x (runAll s pre) := by
  have first : (queueLine q x t).ahead s = some n := aheadOf_eq_some.mpr ⟨here, ahead⟩
  obtain ⟨pre, c, post, rfl, ⟨m, waits⟩, left⟩ :=
    (queueLine q x t).leaves behind first turns
  refine ⟨pre, c, post, rfl, ?_⟩
  obtain ⟨still, -⟩ := aheadOf_eq_some.mp waits
  have gone : (exec c (runAll s pre)).2.score .queued q x ≠ some t :=
    fun stays => aheadOf_ne_none stays left
  by_cases pickup : ∃ queue count now later, c = .pickup queue count now later
  · obtain ⟨queue, count, now, later, rfl⟩ := pickup
    rw [score_queued_pickup] at gone
    split_ifs at gone with taken
    · obtain ⟨rfl, hx⟩ := taken
      exact takesUp_of_members hx
    · exact absurd still gone
  · push Not at pickup
    rcases score_queued_exec (y := x) (along_iff.mp behind pre c post rfl) still pickup with
      same | ⟨hne, -⟩
    · exact absurd (same.trans still) gone
    · exact absurd rfl hne

def waitingTask (id : String) : TaskData := { id := id, func := "tasks:simple_task" }

/-- Three tasks wait, delayed one after the other. -/
def threeInLine : Store :=
  runAll Store.empty
    [.delay "default" (waitingTask "a") none 1 true, .delay "default" (waitingTask "b") none 2 true,
      .delay "default" (waitingTask "c") none 3 true]

/-- A worker takes one task at a time. Another comes in meanwhile, and by a lagging clock one is
scheduled. -/
def oneAtATime : List Command :=
  [.pickup "default" 1 5 6, .delay "default" (waitingTask "d") none 6 true,
    .delay "default" (waitingTask "e") (some 9) 2 true, .promote "default" 1 2,
    .pickup "default" 1 7 8, .pickup "default" 1 9 10]

theorem takesUp_run_third :
    threeInLine.score .queued "default" "c" = some 3 ∧
      ∃ pre c post, oneAtATime = pre ++ c :: post ∧
        c.TakesUp "default" "c" (runAll threeInLine pre) := by
  have here : threeInLine.score .queued "default" "c" = some 3 := by decide +kernel
  exact ⟨here, takesUp_run (n := 2) here (by decide +kernel) (by decide +kernel) (by decide +kernel)⟩

end TaskTiger
