import TaskTiger.Semaphore.Counting
import TaskTiger.Worker.QueueNames

namespace TaskTiger

open Redis Interleaving Lease

/-! Worker._get_queue_lock, and the workers that limit how many of them work on a queue. -/

/-- A worker, as far as the locks of its queues are concerned. -/
structure QueueWorker where
  id : String
  singleWorkerQueues : Finset String
  maxWorkersPerQueue : Option Int
  atLeastOne : ∀ n ∈ maxWorkersPerQueue, 1 ≤ n
  activeTaskUpdateTimeout : Time

namespace QueueWorker

variable (self : QueueWorker)

/-- A queue is a single worker queue through any of its parts. -/
def maxWorkers (queue : String) : Option Int :=
  if (dottedParts queue).any (fun part => part ∈ self.singleWorkerQueues) then some 1
  else self.maxWorkersPerQueue

/-- The semaphore that limits the workers of the queue. -/
def semaphore (maxWorkers : Int) : Semaphore := ⟨self.id, self.activeTaskUpdateTimeout, maxWorkers⟩

/-- The lock of a max worker queue if it is acquired, and whether it failed to acquire the lock. -/
def getQueueLock (queue : String) (now : Time) (key : SemaphoreKey) :
    (Option Semaphore × Bool) × SemaphoreKey :=
  match self.maxWorkers queue with
  | none => ((none, false), key)
  | some n =>
    let (acquired, key) := (self.semaphore n).acquire now key
    if acquired.1 then ((some (self.semaphore n), false), key) else ((none, true), key)

end QueueWorker

/-- What a worker is in the middle of: the queue it processes, the lock it got for that, and when
it got the lock or tried to renew it, the last time first. -/
structure Shift where
  queue : String
  queueLock : Option Semaphore
  attempts : List Time

/-- The keys qslock:<queue>, what each worker does, and the time of the last event. -/
structure Fleet (C : Type) where
  clock : Time
  keys : String → SemaphoreKey
  shift : C → Option Shift

inductive FleetEvent (C : Type) where
  | enter (c : C) (queue : String) (now : Instant)  -- _process_from_queue, up to the lock
  | heartbeat (c : C) (now : Instant)               -- Executor.heartbeat
  | leave (c : C) (now : Instant)                   -- the end of _process_from_queue
  | die (c : C) (now : Instant)                     -- an exception, or the end of the process
  | setSystemLock (queue : String) (timeout : Int) (now : Instant)

def FleetEvent.now {C : Type} : FleetEvent C → Instant
  | enter _ _ now | heartbeat _ now | leave _ now | die _ now | setSystemLock _ _ now => now

namespace Fleet

variable {C : Type} [DecidableEq C] (worker : C → QueueWorker)

def initial : Fleet C := ⟨0, fun _ => .missing, fun _ => none⟩

def enter (f : Fleet C) (c : C) (queue : String) (now : Time) : Fleet C :=
  let ((queueLock, failed), key) := (worker c).getQueueLock queue now (f.keys queue)
  { f with
    keys := Function.update f.keys queue key
    shift := if failed then f.shift
      else Function.update f.shift c (some ⟨queue, queueLock, [now]⟩) }

/-- A renewal that fails is only logged. -/
def renew (f : Fleet C) (c : C) (now : Time) (sh : Shift) : Fleet C :=
  { f with
    keys := match sh.queueLock with
      | some s => Function.update f.keys sh.queue (s.renew now (f.keys sh.queue)).2
      | none => f.keys
    shift := Function.update f.shift c (some { sh with attempts := now :: sh.attempts }) }

def leave (f : Fleet C) (c : C) (now : Time) (sh : Shift) : Fleet C :=
  { f with
    keys := match sh.queueLock with
      | some s => Function.update f.keys sh.queue (s.release now (f.keys sh.queue))
      | none => f.keys
    shift := Function.update f.shift c none }

/-- A worker processes one queue at a time, and has heartbeats and an end only while it does. -/
def exec (e : FleetEvent C) (f : Fleet C) : Unit × Fleet C :=
  let f := { f with clock := e.now.time }
  match e with
  | .enter c queue now => ((), if (f.shift c).isNone then f.enter worker c queue now.time else f)
  | .heartbeat c now => ((), match f.shift c with
    | some sh => f.renew c now.time sh
    | none => f)
  | .leave c now => ((), match f.shift c with
    | some sh => f.leave c now.time sh
    | none => f)
  | .die c _ => ((), { f with shift := Function.update f.shift c none })
  | .setSystemLock queue timeout now =>
    let key := Semaphore.setSystemLock timeout now.time (f.keys queue)
    ((), { f with keys := Function.update f.keys queue key })

end Fleet

/-! The leases of one semaphore, without a system lock. -/

/-- The key holds the leases that run, and outlives them. -/
structure Leased (max : Nat) (timeout now : Time) (key : SemaphoreKey) (m : String → Option Time) :
    Prop where
  tracks : Tracks max timeout now key.value m
  plain : Plain key

section

variable {max : Nat} {timeout : Time} {now : Instant} {key : SemaphoreKey}
  {m : String → Option Time} {id : String}

theorem leased_missing (now : Time) : Leased max timeout now .missing (fun _ => none) :=
  ⟨tracks_init, plain_missing⟩

theorem Leased.later {before after : Time} (h : Leased max timeout before key m)
    (hle : before ≤ after) : Leased max timeout after key m := ⟨h.tracks.later hle, h.plain⟩

/-- An id whose lease runs gets it again; else the lease is taken if there is room. -/
theorem Leased.acquire (h : Leased max timeout now.time key m) (ht : 0 < timeout)
    (hid : id ≠ SYSTEM_LOCK_ID) {s : Semaphore} (hs : s = ⟨id, timeout, max⟩) :
    Leased max timeout now.time (s.acquire now.time key).2
        (if (s.acquire now.time key).1.1 then Function.update m id (some now.time) else m) ∧
      ((s.acquire now.time key).1.1 = true ↔
        id ∈ live timeout m now.time ∨ (live timeout m now.time).encard < max) := by
  subst hs
  let s : Semaphore := ⟨id, timeout, max⟩
  let e : TimedCall := ⟨now, .acquire s⟩
  have attempt : e.attempt = some s := rfl
  have common : e.Common max timeout := by
    intro r hr
    obtain rfl : s = r := Option.some.inj hr
    exact ⟨rfl, rfl, hid⟩
  have tracked := h.tracks.attempt ht (h.plain.keepsLeases _) common attempt
  have plain := h.plain.attempt ht h.tracks common attempt
  obtain ⟨acquired, count, answer, iff, -⟩ := h.plain.answer ht h.tracks common attempt rfl rfl
  have reply : (s.acquire now.time key).1 = (acquired, (count : Int)) := Option.some.inj answer
  refine ⟨⟨tracked, plain⟩, ?_⟩
  rw [show (s.acquire now.time key).1.1 = acquired by rw [reply]]
  exact iff

theorem Leased.release (h : Leased max timeout now.time key m) (s : Semaphore) :
    Leased max timeout now.time (s.release now.time key) (Function.update m s.lockId none) :=
  ⟨(h.tracks.found (h.plain.keepsLeases _)).release s.lockId, h.plain.release now.time⟩

end

/-! At most so many workers work on a queue. -/

/-- Each attempt comes before the lease of the one before it ends. -/
def Steady (timeout : Time) (attempts : List Time) : Prop :=
  attempts.IsChain (fun later earlier => later < earlier + timeout)

instance (timeout : Time) (attempts : List Time) : Decidable (Steady timeout attempts) :=
  inferInstanceAs (Decidable (List.IsChain _ _))

/-- The workers that process the queue and have never been late for a heartbeat, up to now. -/
def Fleet.atWork {C : Type} (f : Fleet C) (queue : String) (timeout now : Time) : Set C :=
  {c | ∃ sh, f.shift c = some sh ∧ sh.queue = queue ∧ Steady timeout (now :: sh.attempts)}

/-- When each id last got the lock of the queue or renewed it, unless it has released it since. -/
def leases {C : Type} (worker : C → QueueWorker) (queue : String) (m : String → Option Time)
    (f : Fleet C) : FleetEvent C → String → Option Time
  | .enter c q now =>
    let failed := ((worker c).getQueueLock q now.time (f.keys q)).1.2
    if q = queue ∧ f.shift c = none ∧ failed = false then
      Function.update m (worker c).id (some now.time)
    else m
  | .heartbeat c now =>
    match f.shift c with
    | some sh =>
      match sh.queueLock with
      | some s =>
        if sh.queue = queue ∧ (s.renew now.time (f.keys sh.queue)).1.1 = true then
          Function.update m s.lockId (some now.time)
        else m
      | none => m
    | none => m
  | .leave c _ =>
    match f.shift c with
    | some sh =>
      match sh.queueLock with
      | some s => if sh.queue = queue then Function.update m s.lockId none else m
      | none => m
    | none => m
  | .die .. | .setSystemLock .. => m

/-- All workers agree on the limit and the timeout for the queue, and have ids of their own. -/
structure Agree {C : Type} (worker : C → QueueWorker) (queue : String) (max : Nat)
    (timeout : Time) : Prop where
  limit : ∀ c, (worker c).maxWorkers queue = some (max : Int)
  lease : ∀ c, (worker c).activeTaskUpdateTimeout = timeout
  positive : 0 < timeout
  distinct : Function.Injective (fun c => (worker c).id)
  proper : ∀ c, (worker c).id ≠ SYSTEM_LOCK_ID

/-- No event is before the one before it. -/
def InOrder {C : Type} (f : Fleet C) (e : FleetEvent C) : Prop := f.clock ≤ e.now.time

instance {C : Type} (f : Fleet C) (e : FleetEvent C) : Decidable (InOrder f e) :=
  inferInstanceAs (Decidable (_ ≤ _))

/-- The event is no system lock on the queue. -/
def FleetEvent.Unpaused {C : Type} (queue : String) : FleetEvent C → Prop
  | .setSystemLock q _ _ => q ≠ queue
  | _ => True

/-- A shift on the queue is under its lock, and has the lease of its last attempt unless it has been
late. -/
structure Attends (w : QueueWorker) (max : Nat) (timeout : Time) (m : String → Option Time)
    (sh : Shift) : Prop where
  locked : sh.queueLock = some ⟨w.id, timeout, max⟩
  held : Steady timeout sh.attempts → ∃ t rest, sh.attempts = t :: rest ∧ m w.id = some t

/-- What the semaphore of the queue knows of the workers. -/
structure Counted {C : Type} (worker : C → QueueWorker) (queue : String) (max : Nat)
    (timeout : Time) (f : Fleet C) (m : String → Option Time) : Prop where
  leased : Leased max timeout f.clock (f.keys queue) m
  attends : ∀ c sh, f.shift c = some sh → sh.queue = queue →
    Attends (worker c) max timeout m sh

section

variable {C : Type} {worker : C → QueueWorker} {queue q : String} {max : Nat}
  {timeout : Time} {f g : Fleet C} {m m' : String → Option Time} {c : C} {now : Instant} {sh : Shift}

theorem getQueueLock_limited {n : Int} {self : QueueWorker} (h : self.maxWorkers q = some n)
    (now : Time) (key : SemaphoreKey) : self.getQueueLock q now key =
      if ((self.semaphore n).acquire now key).1.1 then
        ((some (self.semaphore n), false), ((self.semaphore n).acquire now key).2)
      else ((none, true), ((self.semaphore n).acquire now key).2) := by
  simp only [QueueWorker.getQueueLock, h]

theorem Agree.semaphore (agree : Agree worker queue max timeout) (c : C) :
    (worker c).semaphore max = ⟨(worker c).id, timeout, max⟩ := by
  rw [QueueWorker.semaphore, agree.lease]

theorem Counted.later (h : Counted worker queue max timeout f m) {now : Time}
    (hle : f.clock ≤ now) : Counted worker queue max timeout { f with clock := now } m :=
  ⟨h.leased.later hle, h.attends⟩

/-- What one worker does matters to the others only through the leases. -/
theorem Counted.replace (agree : Agree worker queue max timeout)
    (h : Counted worker queue max timeout f m)
    (leased : Leased max timeout g.clock (g.keys queue) m')
    (others : ∀ d, d ≠ c → g.shift d = f.shift d)
    (same : ∀ id, id ≠ (worker c).id → m' id = m id)
    (own : ∀ sh, g.shift c = some sh → sh.queue = queue →
      Attends (worker c) max timeout m' sh) :
    Counted worker queue max timeout g m' := by
  refine ⟨leased, ?_⟩
  intro d sh hsh hq
  by_cases hd : d = c
  · subst hd
    exact own sh hsh hq
  · rw [others d hd] at hsh
    obtain ⟨locked, held⟩ := h.attends d sh hsh hq
    refine ⟨locked, ?_⟩
    rwa [same _ (fun hid => hd (agree.distinct hid))]

/-- A worker on another queue does not matter. -/
theorem Counted.elsewhere (agree : Agree worker queue max timeout)
    (h : Counted worker queue max timeout f m) (clock : g.clock = f.clock)
    (key : g.keys queue = f.keys queue) (others : ∀ d, d ≠ c → g.shift d = f.shift d)
    (own : ∀ sh, g.shift c = some sh → sh.queue = queue → f.shift c = some sh) :
    Counted worker queue max timeout g m := by
  apply h.replace agree (c := c) _ others (fun _ _ => rfl)
  · intro sh hsh hq
    exact h.attends c sh (own sh hsh hq) hq
  · rw [clock, key]
    exact h.leased

variable [DecidableEq C]

theorem Counted.enter (agree : Agree worker queue max timeout)
    (h : Counted worker queue max timeout f m) (clock : f.clock = now.time)
    (idle : f.shift c = none) (q : String) :
    Counted worker queue max timeout (f.enter worker c q now.time)
      (leases worker queue m f (.enter c q now)) := by
  have others : ∀ d, d ≠ c → (f.enter worker c q now.time).shift d = f.shift d := by
    intro d hd
    simp only [Fleet.enter]
    split_ifs
    · rfl
    · rw [Function.update_of_ne hd]
  by_cases hq : q = queue
  · subst hq
    let s : Semaphore := ⟨(worker c).id, timeout, max⟩
    have leased := h.leased
    rw [clock] at leased
    obtain ⟨leased, -⟩ := leased.acquire agree.positive (agree.proper c) (s := s) rfl
    have lock := getQueueLock_limited (agree.limit c) now.time (f.keys q)
    rw [agree.semaphore] at lock
    by_cases acquired : (s.acquire now.time (f.keys q)).1.1 = true
    · rw [if_pos acquired] at lock leased
      have key : (f.enter worker c q now.time).keys q = (s.acquire now.time (f.keys q)).2 := by
        simp [Fleet.enter, lock, s]
      have shift : (f.enter worker c q now.time).shift c = some ⟨q, some s, [now.time]⟩ := by
        simp [Fleet.enter, lock, s]
      simp only [leases, lock, idle, true_and, if_true]
      apply h.replace agree (c := c) _ others
      · intro id hid
        exact Function.update_of_ne hid _ _
      · intro sh hsh _
        obtain rfl := Option.some.inj (shift.symm.trans hsh)
        exact ⟨rfl, fun _ => ⟨now.time, [], rfl, Function.update_self ..⟩⟩
      · rw [key]
        exact clock ▸ leased
    · rw [if_neg acquired] at lock leased
      have key : (f.enter worker c q now.time).keys q = (s.acquire now.time (f.keys q)).2 := by
        simp [Fleet.enter, lock, s]
      have shift : (f.enter worker c q now.time).shift c = none := by
        simpa [Fleet.enter, lock] using idle
      simp only [leases, lock, idle, true_and, reduceCtorEq, if_false]
      apply h.replace agree (c := c) _ others (fun _ _ => rfl)
      · intro sh hsh _
        rw [shift] at hsh
        cases hsh
      · rw [key]
        exact clock ▸ leased
  · have unchanged : leases worker queue m f (.enter c q now) = m := if_neg (fun here => hq here.1)
    rw [unchanged]
    refine h.elsewhere agree (c := c) rfl ?_ others ?_
    · exact Function.update_of_ne (Ne.symm hq) _ _
    · intro sh hsh here
      simp only [Fleet.enter] at hsh
      split_ifs at hsh
      · exact hsh
      · rw [Function.update_self] at hsh
        obtain rfl := Option.some.inj hsh
        exact absurd here hq

theorem Counted.renew (agree : Agree worker queue max timeout)
    (h : Counted worker queue max timeout f m) (clock : f.clock = now.time)
    (shift : f.shift c = some sh) :
    Counted worker queue max timeout (f.renew c now.time sh)
      (leases worker queue m f (.heartbeat c now)) := by
  have others : ∀ d, d ≠ c → (f.renew c now.time sh).shift d = f.shift d :=
    fun d hd => Function.update_of_ne hd _ _
  have renewed : (f.renew c now.time sh).shift c =
      some { sh with attempts := now.time :: sh.attempts } := Function.update_self ..
  by_cases hq : sh.queue = queue
  · obtain ⟨locked, held⟩ := h.attends c sh shift hq
    let s : Semaphore := ⟨(worker c).id, timeout, max⟩
    have leased := h.leased
    rw [clock] at leased
    obtain ⟨leased, iff⟩ := leased.acquire agree.positive (agree.proper c) (s := s) rfl
    have key : (f.renew c now.time sh).keys queue = (s.acquire now.time (f.keys queue)).2 := by
      simp only [Fleet.renew, locked, hq, Function.update_self]
      rfl
    have table : leases worker queue m f (.heartbeat c now) =
        if (s.acquire now.time (f.keys queue)).1.1 then Function.update m s.lockId (some now.time)
        else m := by
      simp only [leases, shift, locked, hq, true_and]
      rfl
    rw [table]
    apply h.replace agree (c := c) _ others
    · intro id hid
      split_ifs
      · exact Function.update_of_ne hid _ _
      · rfl
    · intro sh' hsh _
      rw [renewed] at hsh
      obtain rfl := Option.some.inj hsh
      refine ⟨locked, ?_⟩
      intro steady
      -- a worker that has not been late gets its lease again
      have before : Steady timeout sh.attempts := List.IsChain.tail steady
      obtain ⟨t, rest, attempts, lease⟩ := held before
      have intime : now.time < t + timeout := by
        rw [attempts] at steady
        exact (List.isChain_cons_cons.mp steady).1
      have acquired := iff.mpr (Or.inl ⟨t, lease, intime⟩)
      rw [if_pos acquired]
      exact ⟨now.time, sh.attempts, rfl, Function.update_self ..⟩
    · rw [key]
      exact clock ▸ leased
  · have key : (f.renew c now.time sh).keys queue = f.keys queue := by
      simp only [Fleet.renew]
      cases sh.queueLock with
      | none => rfl
      | some s => exact Function.update_of_ne (Ne.symm hq) _ _
    have unchanged : leases worker queue m f (.heartbeat c now) = m := by
      simp only [leases, shift]
      cases sh.queueLock with
      | none => rfl
      | some s => exact if_neg (fun here => hq here.1)
    rw [unchanged]
    refine h.elsewhere agree (c := c) rfl key others ?_
    intro sh' hsh here
    rw [renewed] at hsh
    obtain rfl := Option.some.inj hsh
    exact absurd here hq

theorem Counted.leave (agree : Agree worker queue max timeout)
    (h : Counted worker queue max timeout f m) (clock : f.clock = now.time)
    (shift : f.shift c = some sh) :
    Counted worker queue max timeout (f.leave c now.time sh)
      (leases worker queue m f (.leave c now)) := by
  have others : ∀ d, d ≠ c → (f.leave c now.time sh).shift d = f.shift d :=
    fun d hd => Function.update_of_ne hd _ _
  have gone : (f.leave c now.time sh).shift c = none := Function.update_self ..
  have idle : ∀ sh', (f.leave c now.time sh).shift c ≠ some sh' := by
    simp [gone]
  by_cases hq : sh.queue = queue
  · obtain ⟨locked, -⟩ := h.attends c sh shift hq
    let s : Semaphore := ⟨(worker c).id, timeout, max⟩
    have leased := h.leased
    rw [clock] at leased
    have key : (f.leave c now.time sh).keys queue = s.release now.time (f.keys queue) := by
      simp only [Fleet.leave, locked, hq, Function.update_self, s]
    have table : leases worker queue m f (.leave c now) = Function.update m s.lockId none := by
      simp only [leases, shift, locked, hq, if_true, s]
    rw [table]
    apply h.replace agree (c := c) _ others
    · intro id hid
      exact Function.update_of_ne hid _ _
    · intro sh' hsh
      exact absurd hsh (idle sh')
    · rw [key]
      exact clock ▸ leased.release s
  · have key : (f.leave c now.time sh).keys queue = f.keys queue := by
      simp only [Fleet.leave]
      cases sh.queueLock with
      | none => rfl
      | some s => exact Function.update_of_ne (Ne.symm hq) _ _
    have unchanged : leases worker queue m f (.leave c now) = m := by
      simp only [leases, shift]
      cases sh.queueLock with
      | none => rfl
      | some s => exact if_neg hq
    rw [unchanged]
    refine h.elsewhere agree (c := c) rfl key others ?_
    intro sh' hsh
    exact absurd hsh (idle sh')

theorem counted_step (agree : Agree worker queue max timeout)
    (h : Counted worker queue max timeout f m) {e : FleetEvent C} (order : InOrder f e)
    (unpaused : e.Unpaused queue) :
    Counted worker queue max timeout (step (Fleet.exec worker) f e) (leases worker queue m f e) := by
  have later := h.later order
  cases e with
  | enter c q now =>
    by_cases idle : f.shift c = none
    · simp only [step, Fleet.exec, idle, Option.isNone_none, if_true]
      exact later.enter agree rfl idle q
    · have busy : (f.shift c).isNone = false := by simpa [Option.isSome_iff_ne_none] using idle
      have unchanged : leases worker queue m f (.enter c q now) = m :=
        if_neg (fun here => idle here.2.1)
      simp only [step, Fleet.exec, busy, unchanged]
      exact later
  | heartbeat c now =>
    cases shift : f.shift c with
    | none =>
      simp only [step, Fleet.exec, leases, shift]
      exact later
    | some sh =>
      simp only [step, Fleet.exec, shift]
      exact later.renew agree rfl shift
  | leave c now =>
    cases shift : f.shift c with
    | none =>
      simp only [step, Fleet.exec, leases, shift]
      exact later
    | some sh =>
      simp only [step, Fleet.exec, shift]
      exact later.leave agree rfl shift
  | die c now =>
    have gone : (step (Fleet.exec worker) f (.die c now)).shift c = none := Function.update_self ..
    refine later.elsewhere agree (c := c) rfl rfl ?_ ?_
    · intro d hd
      exact Function.update_of_ne hd _ _
    · intro sh hsh
      rw [gone] at hsh
      cases hsh
  | setSystemLock q T now =>
    have key : (step (Fleet.exec worker) f (.setSystemLock q T now)).keys queue = f.keys queue :=
      Function.update_of_ne (Ne.symm unpaused) _ _
    refine ⟨?_, later.attends⟩
    rw [key]
    exact later.leased

/-- The fleet after the events, and the leases of the queue then. -/
def fleetAfter (worker : C → QueueWorker) (l : List (FleetEvent C)) : Fleet C :=
  run (Fleet.exec worker) Fleet.initial l

def leasesAfter (worker : C → QueueWorker) (queue : String) (l : List (FleetEvent C)) :
    String → Option Time :=
  watch (Fleet.exec worker) (leases worker queue) Fleet.initial (fun _ => none) l

theorem counted_run (agree : Agree worker queue max timeout) {l : List (FleetEvent C)}
    (order : Along (Fleet.exec worker) InOrder Fleet.initial l)
    (unpaused : ∀ e ∈ l, e.Unpaused queue) :
    Counted worker queue max timeout (fleetAfter worker l) (leasesAfter worker queue l) := by
  have start : Counted worker queue max timeout (Fleet.initial : Fleet C) (fun _ => none) :=
    ⟨leased_missing 0, fun c sh hsh => by simp [Fleet.initial] at hsh⟩
  have keep : ∀ f m e, Counted worker queue max timeout f m → InOrder f e ∧ e.Unpaused queue →
      Counted worker queue max timeout (step (Fleet.exec worker) f e)
        (leases worker queue m f e) :=
    fun f m e counted happens => counted_step agree counted happens.1 happens.2
  exact watch_invariant keep start (order.and (along_of_forall unpaused))

/-- Whatever the workers do and whichever of them die, at most so many are at work on the queue. -/
theorem atWork_run (agree : Agree worker queue max timeout) (l : List (FleetEvent C))
    (order : Along (Fleet.exec worker) InOrder Fleet.initial l)
    (unpaused : ∀ e ∈ l, e.Unpaused queue) {now : Time}
    (hnow : (fleetAfter worker l).clock ≤ now) :
    ((fleetAfter worker l).atWork queue timeout now).encard ≤ max := by
  have counted := counted_run agree order unpaused
  have running : (fun c => (worker c).id) '' ((fleetAfter worker l).atWork queue timeout now) ⊆
      live timeout (leasesAfter worker queue l) now := by
    rintro id ⟨c, ⟨sh, shift, hq, steady⟩, rfl⟩
    have before : Steady timeout sh.attempts := List.IsChain.tail steady
    obtain ⟨t, rest, attempts, held⟩ := (counted.attends c sh shift hq).held before
    rw [attempts] at steady
    exact ⟨t, held, (List.isChain_cons_cons.mp steady).1⟩
  rw [← agree.distinct.encard_image]
  exact (Set.encard_le_encard running).trans (counted.leased.later hnow).tracks.encard_live_le

/-- A worker fails to acquire the lock of the queue exactly when so many leases of others run: those
of workers that work on the queue, and those that the dead have left, until they end. -/
theorem getQueueLock_run (agree : Agree worker queue max timeout) (l : List (FleetEvent C))
    (order : Along (Fleet.exec worker) InOrder Fleet.initial l)
    (unpaused : ∀ e ∈ l, e.Unpaused queue) (c : C) {now : Instant}
    (hnow : (fleetAfter worker l).clock ≤ now.time) :
    ((worker c).getQueueLock queue now.time ((fleetAfter worker l).keys queue)).1.2 = true ↔
      (worker c).id ∉ live timeout (leasesAfter worker queue l) now.time ∧
        (live timeout (leasesAfter worker queue l) now.time).encard = max := by
  have leased := (counted_run agree order unpaused).leased.later hnow
  have bounded := leased.tracks.encard_live_le
  obtain ⟨-, iff⟩ := leased.acquire agree.positive (agree.proper c)
    (s := ⟨(worker c).id, timeout, max⟩) rfl
  have failed : ∀ acquired : Bool, acquired = false ↔ ¬acquired = true := by simp
  rw [getQueueLock_limited (agree.limit c), agree.semaphore]
  rw [show ((live timeout (leasesAfter worker queue l) now.time).encard = max) ↔
    ¬(live timeout (leasesAfter worker queue l) now.time).encard < max from
      ⟨fun full => full ▸ lt_irrefl _, fun full => le_antisymm bounded (not_lt.mp full)⟩,
    ← not_or, ← iff]
  split_ifs with acquired <;> simp [acquired]

end

/-! Two workers for one place, the first of which dies. -/

def singleWorker (id : Bool) : QueueWorker where
  id := if id then "w1" else "w2"
  singleWorkerQueues := {"swq"}
  maxWorkersPerQueue := none
  atLeastOne := by simp
  activeTaskUpdateTimeout := 60

theorem agree_singleWorker : Agree singleWorker "swq.a" 1 60 where
  limit := by decide +kernel
  lease := fun _ => rfl
  positive := by norm_num
  distinct := by decide +kernel
  proper := by decide +kernel

def diesAtWork : List (FleetEvent Bool) :=
  [.enter true "swq.a" 1, .enter false "swq.a" 2, .heartbeat true 30, .die true 40,
    .enter false "swq.a" 95]

theorem atWork_run_dies :
    ((fleetAfter singleWorker diesAtWork).atWork "swq.a" 60 96).encard ≤ (1 : ℕ) :=
  atWork_run agree_singleWorker diesAtWork (by decide +kernel) (by simp [diesAtWork, FleetEvent.Unpaused])
    (by decide +kernel)

theorem getQueueLock_run_dies :
    ((singleWorker false).getQueueLock "swq.a" (2 : Instant).time
      ((fleetAfter singleWorker (diesAtWork.take 1)).keys "swq.a")).1.2 = true ↔
      (singleWorker false).id ∉
          live 60 (leasesAfter singleWorker "swq.a" (diesAtWork.take 1)) (2 : Instant).time ∧
        (live 60 (leasesAfter singleWorker "swq.a" (diesAtWork.take 1)) (2 : Instant).time).encard =
          (1 : ℕ) :=
  getQueueLock_run agree_singleWorker (diesAtWork.take 1) (by decide +kernel)
    (by simp [diesAtWork, FleetEvent.Unpaused]) false (by decide +kernel)

end TaskTiger
