import TaskTiger.Framework.Pool
import TaskTiger.Worker.Races

namespace TaskTiger

open Redis Interleaving Prog

/-! The size of a queue, by the places of its ids. -/

/-- TaskTiger.get_total_queue_size. -/
def Store.size (s : Store) (q : String) : Nat :=
  (s.zset .queued q).card + (s.zset .scheduled q).card + (s.zset .active q).card

/-- In how many of the three states the id is. -/
def Store.places (s : Store) (q x : String) : Nat :=
  (if x ∈ s.zset .queued q then 1 else 0) + (if x ∈ s.zset .scheduled q then 1 else 0) +
    (if x ∈ s.zset .active q then 1 else 0)

section

variable {s t : Store} {q x : String}

theorem size_eq_sum {l : Finset String} (h : ∀ st, (s.zset st q).members ⊆ l) :
    s.size q = ∑ x ∈ l, s.places q x := by
  simp only [Store.size, Store.places, Finset.sum_add_distrib]
  rw [ZSet.card_eq_sum (h .queued), ZSet.card_eq_sum (h .scheduled), ZSet.card_eq_sum (h .active)]

theorem size_le_of_places (h : ∀ x, t.places q x ≤ s.places q x) : t.size q ≤ s.size q := by
  let l := Finset.univ.biUnion (fun st => (s.zset st q).members ∪ (t.zset st q).members)
  have of_s : ∀ st, (s.zset st q).members ⊆ l := by
    intro st x hx
    exact Finset.mem_biUnion.mpr ⟨st, Finset.mem_univ st, Finset.mem_union_left _ hx⟩
  have of_t : ∀ st, (t.zset st q).members ⊆ l := by
    intro st x hx
    exact Finset.mem_biUnion.mpr ⟨st, Finset.mem_univ st, Finset.mem_union_right _ hx⟩
  rw [size_eq_sum of_s, size_eq_sum of_t]
  exact Finset.sum_le_sum (fun x _ => h x)

theorem places_congr (h : ∀ st, (x ∈ t.zset st q ↔ x ∈ s.zset st q)) :
    t.places q x = s.places q x := by
  simp only [Store.places, h]

/-! What workers and clients do to the size, insertions apart. -/

/-- The command adds no id to the queue: it is no Task.delay or Task.retry there, and no heartbeat,
which may be that of a task that has left ACTIVE. -/
def Command.AddsNothing (q : String) : Command → Prop
  | .delay queue _ _ _ _ => queue ≠ q
  | .heartbeat queue _ _ => queue ≠ q
  | .move m => m.kind ≠ .retry
  | _ => True

theorem places_move {m : Move} (hm : m.kind ≠ .retry) :
    (exec (.move m) s).2.places q x ≤ s.places q x := by
  by_cases he : m.Effective s
  · by_cases hx : q = m.queue ∧ x = m.id
    · have scores : ∀ st, (x ∈ (exec (.move m) s).2.zset st q ↔
          st ≠ m.kind.fromState ∧ (m.kind.toState = some st ∨ x ∈ s.zset st q)) := by
        intro st
        rw [Store.mem_iff_score, score_move he, if_pos hx, Store.mem_iff_score]
        by_cases from_ : st = m.kind.fromState
        · simp [from_]
        · by_cases to_ : m.kind.toState = some st
          · simp [from_, to_]
          · simp [from_, to_]
      have here : x ∈ s.zset m.kind.fromState q := by
        rw [hx.1, hx.2]
        exact he
      simp only [Store.places, scores]
      cases hk : m.kind <;> simp_all [MoveKind.fromState, MoveKind.toState]
      -- left is the move of an expired task to QUEUED, where it may be already
      split_ifs <;> omega
    · have same : ∀ st, (x ∈ (exec (.move m) s).2.zset st q ↔ x ∈ s.zset st q) := by
        intro st
        rw [Store.mem_iff_score, score_move he, if_neg hx, Store.mem_iff_score]
      exact (places_congr same).le
  · rw [exec_move_of_not_effective he]

theorem places_pickup {queue : String} {count : Int} {now : Instant} {later : Time} :
    (exec (.pickup queue count now later) s).2.places q x ≤ s.places q x := by
  cases pickup_effect queue count now later s q x with
  | untouched scores _ =>
    apply (places_congr _).le
    intro st
    rw [Store.mem_iff_score, scores st, Store.mem_iff_score]
  | picked _ pending idle scores _ =>
    rw [Store.mem_iff_score] at pending idle
    simp [Store.places, Store.mem_iff_score, scores, pending, idle]
  | diverted _ pending busy scores _ =>
    rw [Store.mem_iff_score] at pending busy
    simp [Store.places, Store.mem_iff_score, scores, pending, busy]
  | lost _ pending _ _ scores _ =>
    rw [Store.mem_iff_score] at pending
    simp [Store.places, Store.mem_iff_score, scores, pending]

theorem places_promote {queue : String} {count : Int} {now : Instant} :
    (exec (.promote queue count now) s).2.places q x ≤ s.places q x := by
  cases promote_effect queue count now s q x with
  | untouched scores =>
    apply (places_congr _).le
    intro st
    rw [Store.mem_iff_score, scores st, Store.mem_iff_score]
  | promoted _ due scores =>
    rw [Store.mem_iff_score] at due
    simp [Store.places, Store.mem_iff_score, scores, due]
  | lost _ due _ _ scores =>
    rw [Store.mem_iff_score] at due
    simp [Store.places, Store.mem_iff_score, scores, due]

theorem size_exec {c : Command} (hc : c.AddsNothing q) : (exec c s).2.size q ≤ s.size q := by
  by_cases hp : c.Passive
  · rw [Store.size, (exec_passive hp s).1]
    rfl
  · apply size_le_of_places
    intro x
    cases c with
    | delay queue data ts now publish =>
      apply (places_congr _).le
      intro st
      have away : ¬(st = (delayTarget ts now).1 ∧ q = queue) := fun h => hc h.2.symm
      rw [zset_delay, if_neg away]
    | pickup => exact places_pickup
    | promote => exact places_promote
    | move m => exact places_move hc
    | updateScheduledTime number queue id ts =>
      apply (places_congr _).le
      intro st
      rw [Store.mem_iff_score, score_updateScheduledTime]
      split_ifs with h
      · simp [h.2.2.2]
      · rw [Store.mem_iff_score]
    | heartbeat queue ids now =>
      apply (places_congr _).le
      intro st
      have away : ¬(st = .active ∧ q = queue ∧ x ∈ ids) := fun h => hc h.2.1.symm
      rw [Store.mem_iff_score, score_heartbeat, if_neg away, Store.mem_iff_score]
    | _ => exact absurd trivial hp

/-- The command is a Task.delay that adds a new entry to the queue. -/
def Command.Inserts (q : String) (s : Store) : Command → Prop
  | .delay queue data ts now _ => queue = q ∧ data.id ∉ s.zset (delayTarget ts now).1 q
  | _ => False

instance (q : String) (s : Store) (c : Command) : Decidable (c.Inserts q s) := by
  induction c using Command.casesOn with
  | delay => exact inferInstanceAs (Decidable (_ ∧ _))
  | _ => exact inferInstanceAs (Decidable False)

theorem size_delay {queue : String} {data : TaskData} {ts : Option Time} {now : Instant}
    {publish : Bool} : (exec (.delay queue data ts now publish) s).2.size q =
      s.size q + if (Command.delay queue data ts now publish).Inserts q s then 1 else 0 := by
  have cards : ∀ st, ((exec (.delay queue data ts now publish) s).2.zset st q).card =
      (s.zset st q).card + if st = (delayTarget ts now).1 ∧ queue = q ∧ data.id ∉ s.zset st q
        then 1 else 0 := by
    intro st
    rw [zset_delay]
    by_cases target : st = (delayTarget ts now).1 ∧ q = queue
    · rw [if_pos target]
      unfold zaddNoupdate
      by_cases known : data.id ∈ s.zset st q
      · simp [known]
      · rw [if_neg known, ZSet.card_add_of_not_mem known, if_pos ⟨target.1, target.2.symm, known⟩]
    · rw [if_neg target, if_neg (fun h => target ⟨h.1, h.2.1.symm⟩)]
      rfl
  have away : (delayTarget ts now).1 ≠ .active := by
    rcases delayTarget_state ts now with h | h <;> simp [h]
  simp only [Store.size, cards, Command.Inserts]
  rcases delayTarget_state ts now with h | h <;> simp [h] <;> omega

end

/-! Any number of calls of Task.delay. -/

/-- A call, with the arguments `when` and `max_queue_size`, by a client with its own clock. -/
structure DelayCall where
  host : Host
  task : Task
  ts : Option Time
  now : Instant
  maxQueueSize : Option Int

namespace DelayCall

def routine (d : DelayCall) : Routine Unit := d.task.delay d.host d.ts d.now d.maxQueueSize

/-- The limit that the call checks. -/
def limit (d : DelayCall) : Option Int := d.maxQueueSize <|> d.task.data.maxQueueSize

def insertion (d : DelayCall) : Command :=
  .delay d.task.queue d.task.data d.ts d.now d.host.publishQueuedTasks

/-- Where a call with the limit n is: before its check, failed, between the check and the
insertion, or at its end. -/
inductive At (d : DelayCall) (n : Nat) : List (Store × Command) → Routine Unit → Prop where
  | checking (k : Nat → Routine Unit) : At d n [] (.call (.queueSizes d.task.queue) k)
  | full (s : Store) (reached : n ≤ s.size d.task.queue) :
      At d n [(s, .queueSizes d.task.queue)] (.raise .queueFull)
  | executed (s : Store) : At d n [(s, .queueSizes d.task.queue)] (.ret ())
  | failed (s : Store) (name : String) :
      At d n [(s, .queueSizes d.task.queue)] (.raise (.raised name))
  | inserting (s : Store) (room : s.size d.task.queue < n) :
      At d n [(s, .queueSizes d.task.queue)] (.call d.insertion .ret)
  | inserted (s t : Store) :
      At d n [(s, .queueSizes d.task.queue), (t, d.insertion)] (.ret ())

theorem at_of_reaches {d : DelayCall} {n : Nat} {tr : List (Store × Command)} {r : Routine Unit}
    (limited : d.limit = some (n : Int)) (positive : 1 ≤ n) (h : Reaches exec d.routine tr r) :
    d.At n tr r := by
  let insert : Routine Unit :=
    if d.host.alwaysEager = true ∧ (delayTarget d.ts d.now).1 = .queued then
      Host.call (d.host.executeEagerly d.task)
    else redis d.insertion
  let check (size : Nat) : Routine Unit :=
    if (n : Int) ≤ size then Prog.raise .queueFull else pure ()
  have checks : d.task.checkQueueSize d.maxQueueSize =
      redis (.queueSizes d.task.queue) >>= check := by
    have enabled : ¬(n : Int) = 0 := by omega
    unfold Task.checkQueueSize
    rw [show (d.maxQueueSize <|> d.task.data.maxQueueSize) = some (n : Int) from limited]
    exact if_neg enabled
  have routine : d.routine =
      redis (.queueSizes d.task.queue) >>= fun size => check size >>= fun _ => insert := by
    rw [← bind_assoc, ← checks]
    rfl
  rw [routine] at h
  rcases reaches_ask_bind h with ⟨rfl, rfl⟩ | ⟨s, rest, rfl, checked⟩
  · exact .checking _
  · clear h
    change Reaches exec (check (s.size d.task.queue) >>= fun _ => insert) rest r at checked
    by_cases full : (n : Int) ≤ s.size d.task.queue
    · simp only [check, if_pos full] at checked
      obtain ⟨rfl, rfl⟩ := reaches_raise checked
      exact .full s (by omega)
    · simp only [check, if_neg full] at checked
      change Reaches exec insert rest r at checked
      by_cases eager : d.host.alwaysEager = true ∧ (delayTarget d.ts d.now).1 = .queued
      · rw [show insert = Host.call (d.host.executeEagerly d.task) from if_pos eager] at checked
        cases he : d.host.executeEagerly d.task with
        | ok u =>
          rw [he] at checked
          obtain ⟨rfl, rfl⟩ := reaches_ret checked
          exact .executed s
        | error name =>
          rw [he] at checked
          obtain ⟨rfl, rfl⟩ := reaches_raise checked
          exact .failed s name
      · rw [show insert = redis d.insertion from if_neg eager] at checked
        rcases reaches_call checked with ⟨rfl, rfl⟩ | ⟨t, last, rfl, ended⟩
        · exact .inserting s (by omega)
        · obtain ⟨rfl, rfl⟩ := reaches_ret ended
          exact .inserted s t

end DelayCall

/-- The command is the check of Task.delay. -/
def Command.Checks (q : String) : Command → Prop
  | .queueSizes queue => queue = q
  | _ => False

instance (q : String) (c : Command) : Decidable (c.Checks q) := by
  induction c using Command.casesOn with
  | queueSizes queue => exact inferInstanceAs (Decidable (_ = _))
  | _ => exact inferInstanceAs (Decidable False)

section Pool

variable {C : Type} [DecidableEq C]

abbrev DelayPool (C : Type) := Pool C Store Command Reply Exn Unit

def delaysAfter (calls : C → DelayCall) (s : Store) (l : List (PoolEvent C Command)) :
    DelayPool C :=
  run (Pool.exec exec) (Pool.start s (fun c => (calls c).routine)) l

/-- The call is about to add a new entry to the queue, which has been filled up since its check. -/
def Stale (q : String) (n : Nat) (pool : DelayPool C) (c : C) : Prop :=
  (∃ i ∈ pool.next (.step c), i.Inserts q pool.state) ∧
    (∃ y ∈ pool.trace c, y.2.Checks q ∧ y.1.size q < n) ∧ n ≤ pool.state.size q

/-- The event is no stale insertion. -/
def Fresh (q : String) (n : Nat) (pool : DelayPool C) : PoolEvent C Command → Prop
  | .step c => ¬Stale q n pool c
  | .other _ => True

instance (q : String) (n : Nat) (pool : DelayPool C) (ev : PoolEvent C Command) :
    Decidable (Fresh q n pool ev) := by
  cases ev with
  | step c => exact inferInstanceAs (Decidable ¬(_ ∧ _ ∧ _))
  | other i => exact inferInstanceAs (Decidable True)

/-- The size of the queue is within the limit at every point of the run, and a call that has raised
QueueFullException has left the store as it was. -/
def QueueBounded (calls : C → DelayCall) (s : Store) (q : String) (n : Nat)
    (l : List (PoolEvent C Command)) : Prop :=
  ∀ pre, pre <+: l →
    (delaysAfter calls s pre).state.size q ≤ n ∧
    ∀ c, (delaysAfter calls s pre).client c = .raise .queueFull →
      ∀ y ∈ (delaysAfter calls s pre).trace c, (exec y.2 y.1).2 = y.1

variable {calls : C → DelayCall} {q : String} {n : Nat} {pool : DelayPool C}

omit [DecidableEq C] in
/-- What a call runs next: nothing, its check, or its insertion after a check with room. -/
theorem next_delay {c : C} (limited : (calls c).task.queue = q ∧ (calls c).limit = some (n : Int))
    (positive : 1 ≤ n) (reached : pool.Reached exec (fun c => (calls c).routine)) :
    pool.next (.step c) = none ∨ pool.next (.step c) = some (.queueSizes q) ∨
      pool.next (.step c) = some (calls c).insertion ∧
        ∃ y ∈ pool.trace c, y.2.Checks q ∧ y.1.size q < n := by
  obtain ⟨rfl, limit⟩ := limited
  have here := DelayCall.at_of_reaches limit positive (reached c)
  rw [Pool.next_step]
  generalize pool.trace c = tr at here ⊢
  generalize pool.client c = r at here ⊢
  cases here with
  | checking k => exact Or.inr (Or.inl rfl)
  | inserting s room => exact Or.inr (Or.inr ⟨rfl, _, List.mem_singleton.mpr rfl, rfl, room⟩)
  | full s _ => exact Or.inl rfl
  | executed s => exact Or.inl rfl
  | failed s name => exact Or.inl rfl
  | inserted s t => exact Or.inl rfl

omit [DecidableEq C] in
theorem unchanged_of_full {c : C} (limited : (calls c).limit = some (n : Int)) (positive : 1 ≤ n)
    (reached : pool.Reached exec (fun c => (calls c).routine))
    (full : pool.client c = .raise .queueFull) : ∀ y ∈ pool.trace c, (exec y.2 y.1).2 = y.1 := by
  have here := DelayCall.at_of_reaches limited positive (reached c)
  rw [full] at here
  generalize pool.trace c = tr at here ⊢
  cases here with
  | full s _ =>
    intro y hy
    obtain rfl := List.mem_singleton.mp hy
    rfl

theorem size_step (positive : 1 ≤ n)
    (limited : ∀ c, (calls c).task.queue = q ∧ (calls c).limit = some (n : Int))
    (reached : pool.Reached exec (fun c => (calls c).routine)) {ev : PoolEvent C Command}
    (others : ∀ i, ev = .other i → i.AddsNothing q) (fits : pool.state.size q ≤ n) :
    (step (Pool.exec exec) pool ev).state.size q ≤ n ↔ Fresh q n pool ev := by
  cases ev with
  | other i =>
    apply iff_of_true _ trivial
    exact (size_exec (others i rfl)).trans fits
  | step c =>
    rw [Pool.state_step]
    rcases next_delay (limited c) positive reached with hnext | hnext | ⟨hnext, checked⟩
    · rw [hnext]
      apply iff_of_true fits
      rintro ⟨⟨i, hi, -⟩, -⟩
      simp [hnext] at hi
    · rw [hnext]
      apply iff_of_true fits
      rintro ⟨⟨i, hi, inserts⟩, -⟩
      obtain rfl : _ = i := Option.some.inj (hnext.symm.trans hi)
      exact inserts
    · have stale : Stale q n pool c ↔
          (calls c).insertion.Inserts q pool.state ∧ n ≤ pool.state.size q := by
        constructor
        · rintro ⟨⟨i, hi, inserts⟩, -, filled⟩
          obtain rfl : _ = i := Option.some.inj (hnext.symm.trans hi)
          exact ⟨inserts, filled⟩
        · rintro ⟨inserts, filled⟩
          exact ⟨⟨_, hnext, inserts⟩, checked, filled⟩
      rw [hnext, show Fresh q n pool (.step c) ↔ ¬Stale q n pool c from Iff.rfl, stale]
      show (exec (calls c).insertion pool.state).2.size q ≤ n ↔ _
      rw [DelayCall.insertion, size_delay]
      split_ifs with inserts
      · simp only [inserts, true_and]
        omega
      · simpa [inserts] using fits

/-- The size of the queue exceeds the limit exactly when a call adds a new entry after others have
filled the queue up since its check. -/
theorem queueBounded_iff {s : Store} {l : List (PoolEvent C Command)} (positive : 1 ≤ n)
    (limited : ∀ c, (calls c).task.queue = q ∧ (calls c).limit = some (n : Int))
    (others : ∀ i, .other i ∈ l → i.AddsNothing q) (fits : s.size q ≤ n) :
    QueueBounded calls s q n l ↔
      Along (Pool.exec exec) (Fresh q n) (Pool.start s (fun c => (calls c).routine)) l := by
  let start := Pool.start (I := Command) s (fun c => (calls c).routine)
  let Inv (pool : DelayPool C) : Prop :=
    pool.state.size q ≤ n ∧ pool.Reached exec (fun c => (calls c).routine)
  have keep : ∀ pool, ∀ ev ∈ l, Inv pool → (Inv (step (Pool.exec exec) pool ev) ↔ Fresh q n pool ev) := by
    intro pool ev hev ⟨fits, reached⟩
    have size := size_step positive limited reached (fun i hi => others i (hi ▸ hev)) fits
    constructor
    · intro inv
      exact size.mp inv.1
    · intro fresh
      exact ⟨size.mpr fresh, Pool.reached_step reached ev⟩
  rw [← run_invariant_iff keep ⟨fits, fun c => .start _⟩]
  constructor
  · intro bounded pre hpre
    exact ⟨(bounded pre hpre).1, Pool.reaches_run s _ pre⟩
  · intro inv pre hpre
    refine ⟨(inv pre hpre).1, ?_⟩
    intro c full
    exact unchanged_of_full (limited c).2 positive (inv pre hpre).2 full

end Pool

/-! Two calls with the limit 1. -/

def limitedCall (first : Bool) : DelayCall where
  host := plainHost
  task := ⟨"a", { id := if first then "1" else "2", func := "tasks:simple_task" }⟩
  ts := none
  now := 100
  maxQueueSize := some 1

theorem limited_limitedCall :
    ∀ c, (limitedCall c).task.queue = "a" ∧ (limitedCall c).limit = some ((1 : Nat) : Int) :=
  fun _ => ⟨rfl, rfl⟩

/-- The first call has ended when the second one starts, which fails. -/
theorem queueBounded_iff_sequential :
    QueueBounded limitedCall Store.empty "a" 1
      ([true, true, false].map .step) := by
  have fresh : Along (Pool.exec exec) (Fresh "a" 1)
      (Pool.start Store.empty (fun c => (limitedCall c).routine))
      ([true, true, false].map .step) := by
    decide +kernel
  exact (queueBounded_iff (by decide) limited_limitedCall (by simp) (by decide +kernel)).mpr fresh

/-- Both calls check before either inserts. -/
theorem not_queueBounded_race : ¬∀ (calls : Bool → DelayCall) (s : Store) (q : String) (n : Nat)
    (l : List (PoolEvent Bool Command)), 1 ≤ n →
      (∀ c, (calls c).task.queue = q ∧ (calls c).limit = some (n : Int)) →
      (∀ i, .other i ∈ l → i.AddsNothing q) → s.size q ≤ n → QueueBounded calls s q n l := by
  intro hall
  have exceeded : ¬(delaysAfter limitedCall Store.empty
      ([true, false, true, false].map .step)).state.size "a" ≤ 1 := by
    decide +kernel
  have bounded := hall limitedCall Store.empty "a" 1 ([true, false, true, false].map .step)
    (by decide) limited_limitedCall (by simp) (by decide +kernel)
  exact exceeded (bounded _ List.prefix_rfl).1

end TaskTiger
