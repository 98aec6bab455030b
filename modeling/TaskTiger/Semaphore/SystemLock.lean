import TaskTiger.Semaphore.Leases

namespace TaskTiger

open Redis Interleaving

/-- The calls of clients while a system lock is set: it is not set again, and no client releases
it. -/
def TimedCall.Client (e : TimedCall) : Prop :=
  match e.call with
  | .acquire _ | .renew _ => True
  | .release s => s.lockId ≠ SYSTEM_LOCK_ID
  | .setSystemLock _ => False

instance (e : TimedCall) : Decidable e.Client := by
  unfold TimedCall.Client
  cases e.call <;> infer_instance

/-- The locks of other ids that the script leaves in the semaphore. -/
def others (s : Semaphore) (now : Time) (key : SemaphoreKey) : Set String :=
  {x | x ≠ s.lockId ∧ ∃ d, (key.found now).value.score x = some d ∧ ¬(0 ≤ d ∧ d ≤ now)}

/-- Free capacity: there is room for one more lock beside those of the other ids. -/
def HasRoom (s : Semaphore) (now : Time) (key : SemaphoreKey) : Prop :=
  (others s now key).encard < s.maxLocks.toNat

/-- The system lock is set until `finish`, its key stays ten seconds longer, and the other locks
are among those that were in `start`. -/
structure Paused (finish : Time) (start key : SemaphoreKey) : Prop where
  locked : key.value.score SYSTEM_LOCK_ID = some finish
  deadline : key.deadline = some (finish + 10)
  removed : ∀ x d, key.value.score x = some d → start.value.score x = some d

section Step

variable {finish now : Time} {start key : SemaphoreKey} {e : TimedCall} {s : Semaphore}

theorem paused_set {T : Int} (hT : 0 < T) (now : Time) (key : SemaphoreKey) :
    Paused (now + T) (Semaphore.setSystemLock T now key) (Semaphore.setSystemLock T now key) := by
  have hpos : 0 < T + 10 := by omega
  have hscore : (Semaphore.setSystemLock T now key).value.score SYSTEM_LOCK_ID =
      some (now + T) := by
    rw [Semaphore.setSystemLock, ExpiringKey.value_expire hpos]
    exact ZSet.score_add_self ..
  have hmem : SYSTEM_LOCK_ID ∈ ((key.found now).zadd (now + T) SYSTEM_LOCK_ID).value := by simp
  refine ⟨hscore, ?_, fun x d hd => hd⟩
  rw [Semaphore.setSystemLock, ExpiringKey.deadline_expire hpos hmem]
  push_cast
  ring_nf

theorem Paused.found_eq (h : Paused finish start key) (hnow : now < finish) :
    key.found now = key := by
  apply ExpiringKey.found_of_not_expired
  rintro ⟨D, hD, hle⟩
  obtain rfl : finish + 10 = D := Option.some.inj (h.deadline.symm.trans hD)
  linarith

/-- Removing other locks keeps the pause. -/
theorem Paused.remove (h : Paused finish start key) {z : ZSet Time String}
    (locked : z.score SYSTEM_LOCK_ID = some finish)
    (sub : ∀ x d, z.score x = some d → key.value.score x = some d) :
    Paused finish start (ExpiringKey.write z key.deadline) where
  locked := locked
  deadline := by
    have hmem : SYSTEM_LOCK_ID ∈ z := ZSet.mem_iff.mpr ⟨finish, locked⟩
    rw [ExpiringKey.deadline_write hmem, h.deadline]
  removed x d hd := h.removed x d (sub x d hd)

theorem Paused.current (h : Paused finish start key) (hnow : now < finish) :
    Paused finish start (key.current now) := by
  have hfound := h.found_eq hnow
  have hlock : (key.current now).value.score SYSTEM_LOCK_ID = some finish := by
    rw [score_current, hfound]
    exact ⟨h.locked, fun hin => absurd hin.2 (not_le.mpr hnow)⟩
  have sub : ∀ x d, (key.current now).value.score x = some d → key.value.score x = some d :=
    fun x d hd => score_of_current hd
  have paused := h.remove hlock sub
  rwa [SemaphoreKey.current, hfound] at paused ⊢

/-- While the queue is paused every attempt is refused. -/
theorem Paused.refused (h : Paused finish start key) (hnow : now < finish) :
    s.acquire now key = ((false, -1), key.current now) :=
  acquire_of_system (ZSet.mem_iff.mpr ⟨finish, (h.current hnow).locked⟩)

theorem Paused.step (h : Paused finish start key) (hnow : e.now.time < finish) (hc : e.Client) :
    Paused finish start (step TimedCall.exec key e) := by
  cases e using TimedCall.attemptCases with
  | attempt e s ha =>
    rw [(step_of_attempt ha).1, h.refused hnow]
    exact h.current hnow
  | release now r =>
    have hne : r.lockId ≠ SYSTEM_LOCK_ID := hc
    have hlock : (key.value.rem r.lockId).score SYSTEM_LOCK_ID = some finish := by
      rw [ZSet.score_rem, if_neg hne.symm]
      exact h.locked
    have paused := h.remove hlock fun x d hd => by
      rw [ZSet.score_rem] at hd
      split_ifs at hd
      exact hd
    change Paused finish start ((key.found now.time).zrem r.lockId)
    rw [h.found_eq hnow]
    exact paused
  | setSystemLock now T => exact absurd hc (by simp [TimedCall.Client])

/-- The script compares max_locks with one more than the locks of other ids. -/
theorem lockCount_eq_encard (s : Semaphore) (now : Time) (key : SemaphoreKey) :
    ∃ n : ℕ, s.lockCount now key = n + 1 ∧
      ({x | x ∈ (s.counted now key).value} \ {s.lockId}).encard = n := by
  have hcard := ZSet.encard_members (s.counted now key).value
  unfold Semaphore.lockCount
  split_ifs with hin
  · have hmem : s.lockId ∈ {x | x ∈ (s.counted now key).value} := hin
    have hsucc := Set.encard_sdiff_singleton_add_one hmem
    have hfin : ({x | x ∈ (s.counted now key).value} \ {s.lockId}).encard ≠ ⊤ := by
      intro htop
      rw [htop, hcard] at hsucc
      exact absurd hsucc (by simp)
    obtain ⟨n, hn⟩ := ENat.ne_top_iff_exists.mp hfin
    rw [← hn, hcard] at hsucc
    have hnat : n + 1 = (s.counted now key).value.card := by exact_mod_cast hsucc
    exact ⟨n, by omega, hn.symm⟩
  · have hout : s.lockId ∉ {x | x ∈ (s.counted now key).value} := hin
    rw [Set.sdiff_singleton_eq_self hout, hcard]
    exact ⟨_, rfl, rfl⟩

theorem acquire_of_hasRoom (hs : SYSTEM_LOCK_ID ∉ (key.current now).value)
    (room : HasRoom s now key) : (s.acquire now key).1.1 = true := by
  obtain ⟨n, hn, hcard⟩ := lockCount_eq_encard s now key
  have sub : {x | x ∈ (s.counted now key).value} \ {s.lockId} ⊆ others s now key := by
    rintro x ⟨hx, hne⟩
    obtain ⟨d, hd⟩ := ZSet.mem_iff.mp hx
    exact ⟨hne, d, score_current.mp (score_of_counted hd)⟩
  have hlt : n < s.maxLocks.toNat := by
    have hle := (Set.encard_le_encard sub).trans_lt room
    rw [hcard] at hle
    exact_mod_cast hle
  have hfit : s.lockCount now key ≤ s.maxLocks := by omega
  rw [acquire_of_room hs hfit]

/-- No system lock outlasts `finish`. -/
def Ended (finish : Time) (key : SemaphoreKey) : Prop :=
  ∀ d, key.value.score SYSTEM_LOCK_ID = some d → d = finish

/-- A later call: the system lock is not set again. -/
def TimedCall.Ordinary (e : TimedCall) : Prop :=
  e.systemTimeout = none ∧ ∀ s ∈ e.attempt, s.lockId ≠ SYSTEM_LOCK_ID

theorem Ended.step (h : Ended finish key) (hc : e.Ordinary) :
    Ended finish (step TimedCall.exec key e) := by
  intro d hd
  apply h d
  cases e using TimedCall.attemptCases with
  | attempt e s ha =>
    rw [(step_of_attempt ha).1] at hd
    exact score_of_acquire (hc.2 s ha).symm hd
  | release now r =>
    change ((key.found now.time).zrem r.lockId).value.score SYSTEM_LOCK_ID = some d at hd
    rw [ExpiringKey.value_zrem, ZSet.score_rem] at hd
    split_ifs at hd
    exact ExpiringKey.score_of_found hd
  | setSystemLock now T => exact absurd hc.1 (by simp [TimedCall.systemTimeout])

theorem Ended.no_system (h : Ended finish key) (hpos : 0 ≤ finish) (hnow : finish ≤ now) :
    SYSTEM_LOCK_ID ∉ (key.current now).value := by
  intro hin
  obtain ⟨d, hd⟩ := ZSet.mem_iff.mp hin
  obtain rfl := h d (score_of_current hd)
  exact (score_current.mp hd).2 ⟨hpos, hnow⟩

end Step

section Run

variable {finish : Time} {start key : SemaphoreKey} {l : List TimedCall}

theorem paused_run (h : Paused finish start key) (window : ∀ e ∈ l, e.now.time < finish)
    (calls : ∀ e ∈ l, e.Client) : Paused finish start (run TimedCall.exec key l) := by
  have allowed : Along TimedCall.exec (fun _ e => e.now.time < finish ∧ e.Client) key l :=
    along_of_forall fun e he => ⟨window e he, calls e he⟩
  exact run_invariant (fun _ _ held he => held.step he.1 he.2) h allowed

theorem ended_run (h : Ended finish key) (calls : ∀ e ∈ l, e.Ordinary) :
    Ended finish (run TimedCall.exec key l) :=
  run_invariant (fun _ _ => Ended.step) h (along_of_forall calls)

/-- A system lock pauses the queue until its end: every acquire and renew is refused, no lock is
added or extended, and the system lock stays; then an acquire that finds room succeeds. -/
theorem system_lock_pauses (key : SemaphoreKey) (set : Instant) {T : Int} (hT : 0 < T)
    (window : ∀ e ∈ l, e.now.time < set.time + T) (calls : ∀ e ∈ l, e.Client)
    (hstart : start = Semaphore.setSystemLock T set.time key) :
    (∀ pre e post s, l = pre ++ e :: post → e.attempt = some s →
      e.answer (run TimedCall.exec start pre) = some (false, -1)) ∧
    (∀ pre, pre <+: l →
      (∀ x d, (run TimedCall.exec start pre).value.score x = some d →
        start.value.score x = some d) ∧
      ∀ now, now < set.time + T →
        Semaphore.getSystemLock now (run TimedCall.exec start pre) = some (set.time + T)) ∧
    ∀ later, (∀ e ∈ later, e.Ordinary) → ∀ s now, set.time + T ≤ now →
      HasRoom s now (run TimedCall.exec start (l ++ later)) →
        (s.acquire now (run TimedCall.exec start (l ++ later))).1.1 = true := by
  have paused : ∀ pre, pre <+: l →
      Paused (set.time + T) start (run TimedCall.exec start pre) := by
    rintro pre ⟨post, rfl⟩
    have first : Paused (set.time + T) start start := hstart ▸ paused_set hT set.time key
    apply paused_run first
    · intro e he
      exact window e (by simp [he])
    · intro e he
      exact calls e (by simp [he])
  refine ⟨?_, ?_, ?_⟩
  · rintro pre e post s rfl ha
    have hnow : e.now.time < set.time + T := window e (by simp)
    rw [(step_of_attempt ha).2, (paused pre (List.prefix_append pre _)).refused hnow]
  · intro pre hpre
    refine ⟨(paused pre hpre).removed, fun now hnow => ?_⟩
    rw [Semaphore.getSystemLock, (paused pre hpre).found_eq hnow]
    exact (paused pre hpre).locked
  · intro later hlater s now hnow room
    have ended : Ended (set.time + T) (run TimedCall.exec start l) := by
      intro d hd
      exact Option.some.inj (hd.symm.trans (paused l List.prefix_rfl).locked)
    have finished := ended_run ended hlater
    rw [← run_append] at finished
    have hpos : 0 ≤ set.time + T := by
      have hset := set.pos
      have hcast : (0 : Time) < T := by exact_mod_cast hT
      linarith
    exact acquire_of_hasRoom (finished.no_system hpos hnow) room

/-- The holder of a lock cannot renew it during the pause. -/
def heldKey : SemaphoreKey := ((⟨"id_1", 60, 1⟩ : Semaphore).acquire 1 .missing).2

def pauseStart : Instant := 2

def pausedKey : SemaphoreKey := Semaphore.setSystemLock 10 pauseStart.time heldKey

def pausedRenewal : TimedCall := ⟨5, .renew ⟨"id_1", 60, 1⟩⟩

theorem system_lock_pauses_holder :
    pausedRenewal.answer (run TimedCall.exec pausedKey []) = some (false, -1) := by
  have hstart : pausedKey = Semaphore.setSystemLock 10 pauseStart.time heldKey := rfl
  have hT : (0 : Int) < 10 := by decide
  have window : ∀ e ∈ [pausedRenewal], e.now.time < pauseStart.time + (10 : Int) := by
    decide +kernel
  have calls : ∀ e ∈ [pausedRenewal], e.Client := by decide +kernel
  have attempt : pausedRenewal.attempt = some ⟨"id_1", 60, 1⟩ := rfl
  exact (system_lock_pauses heldKey pauseStart hT window calls hstart).1 [] pausedRenewal [] _
    rfl attempt

/-- A release by the reserved id ends the pause. -/
def reservedRelease : TimedCall := ⟨2, .release ⟨SYSTEM_LOCK_ID, 60, 1⟩⟩

def earlyAcquire : TimedCall := ⟨3, .acquire ⟨"id_1", 60, 1⟩⟩

theorem answer_earlyAcquire :
    earlyAcquire.answer (run TimedCall.exec (Semaphore.setSystemLock 10 1 .missing)
      [reservedRelease]) = some (true, 1) := by
  decide +kernel

theorem not_paused_released : ¬∀ (key : SemaphoreKey) (set : Instant) (T : Int)
    (l : List TimedCall), 0 < T → Chronological l →
      (∀ e ∈ l, set.time ≤ e.now.time ∧ e.now.time < set.time + T) →
      (∀ e ∈ l, e.systemTimeout = none) →
      ∀ pre e post s, l = pre ++ e :: post → e.attempt = some s →
        e.answer (run TimedCall.exec (Semaphore.setSystemLock T set.time key) pre) =
          some (false, -1) := by
  intro h
  have refused := h .missing 1 10 [reservedRelease, earlyAcquire] (by decide)
    (by decide +kernel) (by decide +kernel) (by decide +kernel) [reservedRelease] earlyAcquire []
    ⟨"id_1", 60, 1⟩ rfl rfl
  exact absurd (answer_earlyAcquire.symm.trans refused) (by decide)

end Run

end TaskTiger
