import TaskTiger.Semaphore.Leases

namespace TaskTiger

open Redis Interleaving Lease

/-- No lock ends after the time to live of its key, where it has one, and there is no system
lock. -/
structure Plain (key : SemaphoreKey) : Prop where
  noSystem : SYSTEM_LOCK_ID ∉ key.value
  covered : ∀ D, key.deadline = some D → ∀ x d, key.value.score x = some d → d ≤ D

section Step

variable {max : Nat} {timeout now : Time} {key : SemaphoreKey} {m : String → Option Time}
  {e : TimedCall} {s : Semaphore}

theorem plain_missing : Plain .missing where
  noSystem := by simp
  covered := by simp

theorem Plain.keepsLeases (h : Plain key) (now : Time) : KeepsLeases key now := by
  rintro ⟨D, hD, hle⟩ x d _ hd
  exact (h.covered D hD x d hd).trans hle

theorem Plain.found (h : Plain key) (now : Time) : Plain (key.found now) := by
  by_cases he : key.Expired now
  · rw [ExpiringKey.found_of_expired he]
    exact plain_missing
  · rwa [ExpiringKey.found_of_not_expired he]

/-- Removing locks leaves the key plain. -/
theorem Plain.remove {key' : SemaphoreKey} (h : Plain key)
    (sub : ∀ x d, key'.value.score x = some d → key.value.score x = some d)
    (deadline : ∀ D, key'.deadline = some D → key.deadline = some D) : Plain key' where
  noSystem hin := by
    obtain ⟨d, hd⟩ := ZSet.mem_iff.mp hin
    exact h.noSystem (ZSet.mem_iff.mpr ⟨d, sub _ d hd⟩)
  covered D hD x d hd := h.covered D (deadline D hD) x d (sub x d hd)

theorem Plain.current (h : Plain key) (now : Time) : Plain (key.current now) := by
  apply (h.found now).remove
  · intro x d hd
    exact (score_current.mp hd).1
  · intro D hD
    exact ExpiringKey.of_deadline_zremrangebyscore hD

theorem Plain.release (h : Plain key) (now : Time) : Plain (s.release now key) := by
  apply (h.found now).remove
  · intro x d hd
    rw [Semaphore.release, ExpiringKey.value_zrem, ZSet.score_rem] at hd
    split_ifs at hd
    exact hd
  · intro D hD
    exact ExpiringKey.of_deadline_zrem hD

/-- Twice the timeout covers every lease, the new one included. -/
theorem Plain.counted (h : Plain key) (ht : 0 < s.timeout)
    (tracked : Tracks max s.timeout now (key.current now).value m) :
    Plain (s.counted now key) where
  noSystem := by
    rw [value_counted ht]
    exact (h.current now).noSystem
  covered D hD x d hd := by
    have hlate := deadline_counted hD
    rw [value_counted ht] at hd
    have hne : x ≠ SYSTEM_LOCK_ID := by
      rintro rfl
      exact (h.current now).noSystem (ZSet.mem_iff.mpr ⟨d, hd⟩)
    obtain ⟨t, hm, rfl⟩ := tracked.taken x d hne hd
    have hpast := (tracked.past x t hm).2
    linarith

theorem Plain.attempt (h : Plain key) (ht : 0 < timeout)
    (tracked : Tracks max timeout e.now.time key.value m) (hc : e.Common max timeout)
    (ha : e.attempt = some s) : Plain (step TimedCall.exec key e) := by
  obtain ⟨-, rfl, hid⟩ := hc s ha
  have hs := (h.current e.now.time).noSystem
  have counted : Plain (s.counted e.now.time key) :=
    h.counted ht (tracked.current (h.keepsLeases _))
  rw [(step_of_attempt ha).1]
  by_cases hr : s.lockCount e.now.time key ≤ s.maxLocks
  · rw [acquire_of_room hs hr]
    constructor
    · rw [ExpiringKey.value_zadd, ZSet.mem_add]
      rintro (heq | hin)
      · exact hid heq.symm
      · exact counted.noSystem hin
    · intro D hD x d hd
      rw [ExpiringKey.deadline_zadd] at hD
      rw [ExpiringKey.value_zadd, ZSet.score_add] at hd
      split_ifs at hd
      · have hlate := deadline_counted hD
        have hd' := Option.some.inj hd
        linarith
      · exact counted.covered D hD x d hd
  · rw [acquire_of_full hs (not_le.mp hr)]
    exact counted

theorem Plain.step (h : Plain key) (ht : 0 < timeout)
    (tracked : Tracks max timeout e.now.time key.value m) (hc : e.Common max timeout)
    (hs : e.systemTimeout = none) : Plain (Interleaving.step TimedCall.exec key e) := by
  cases e using TimedCall.attemptCases with
  | attempt e s ha => exact h.attempt ht tracked hc ha
  | release now r => exact h.release now.time
  | setSystemLock now T => simp [TimedCall.systemTimeout] at hs

/-- What an acquire or a renew does to the leases, where no system lock is set: `before` are those
that run when it is called, `after` those that run then with its own counted in. -/
theorem Plain.answer (h : Plain key) (ht : 0 < timeout)
    (tracked : Tracks max timeout e.now.time key.value m) (hc : e.Common max timeout)
    (ha : e.attempt = some s) {before after : Set String}
    (hbefore : before = live timeout m e.now.time)
    (hafter : after = live timeout (acquisitions m key e) e.now.time) :
    ∃ acquired : Bool, ∃ count : ℕ, e.answer key = some (acquired, (count : Int)) ∧
      (acquired = true ↔ s.lockId ∈ before ∨ before.encard < max) ∧ after.encard = count := by
  obtain ⟨hmax, rfl, hid⟩ := hc s ha
  have hs := (h.current e.now.time).noSystem
  have counted : (s.counted e.now.time key).value = (key.current e.now.time).value :=
    value_counted ht
  have hlive : before = clients (s.counted e.now.time key).value := by
    rw [hbefore, counted]
    exact tracked.live_eq ht (h.keepsLeases e.now.time)
  have hcard : before.encard = ((s.counted e.now.time key).value.card : ℕ∞) := by
    rw [hlive]
    exact encard_clients (counted ▸ hs)
  have hmem : s.lockId ∈ before ↔ s.lockId ∈ (s.counted e.now.time key).value := by
    rw [hlive]
    exact ⟨fun hin => hin.1, fun hin => ⟨hin, hid⟩⟩
  have hle : (s.counted e.now.time key).value.card ≤ max := by
    have hb := tracked.encard_live_le
    rw [← hbefore, hcard] at hb
    exact_mod_cast hb
  rw [(step_of_attempt ha).2]
  rw [acquisitions_of_attempt ha] at hafter
  by_cases hr : s.lockCount e.now.time key ≤ s.maxLocks
  · rw [acquire_of_room hs hr] at hafter ⊢
    obtain ⟨n, hn, hsize⟩ := encard_clients_lockCount (d := e.now.time + s.timeout) hs hid ht
    refine ⟨true, n, by rw [hn], ?_, ?_⟩
    · rw [hmem, hcard]
      refine ⟨fun _ => ?_, fun _ => rfl⟩
      by_cases hin : s.lockId ∈ (s.counted e.now.time key).value
      · exact Or.inl hin
      · rw [Semaphore.lockCount, if_neg hin] at hr
        have hlt : (s.counted e.now.time key).value.card < max := by omega
        exact Or.inr (by exact_mod_cast hlt)
    · have hnow : e.now.time < e.now.time + s.timeout := by linarith
      rw [hafter, if_pos rfl, live_take hnow, ← hbefore, hlive, ← clients_add hid, hsize]
  · rw [acquire_of_full hs (not_le.mp hr)] at hafter ⊢
    refine ⟨false, _, rfl, ?_, ?_⟩
    · rw [hmem, hcard]
      refine ⟨fun hf => absurd hf (by simp), fun hor => absurd hor ?_⟩
      rw [Semaphore.lockCount] at hr
      rintro (hin | hlt)
      · rw [if_pos hin] at hr
        omega
      · have hlt' : (s.counted e.now.time key).value.card < max := by exact_mod_cast hlt
        split_ifs at hr <;> omega
    · rw [hafter, if_neg (by simp), ← hbefore, hcard]

end Step

section Run

variable {max : Nat} {timeout : Time}

/-- Without a system lock every key is plain, so it never expires with a running lease in it. -/
theorem plain_run {l : List TimedCall} (ht : 0 < timeout) (chron : Chronological l)
    (common : ∀ e ∈ l, e.Common max timeout) (noSystem : ∀ e ∈ l, e.systemTimeout = none) :
    Plain (semaphoreAfter l) ∧
      Along TimedCall.exec (fun key e => KeepsLeases key e.now.time) .missing l := by
  induction l using List.reverseRecOn with
  | nil => exact ⟨plain_missing, trivial⟩
  | append_singleton l e ih =>
    have chron' : Chronological l := chron.initial (List.prefix_append l [e])
    have common' : ∀ a ∈ l, a.Common max timeout := fun a ha => common a (by simp [ha])
    have noSystem' : ∀ a ∈ l, a.systemTimeout = none := fun a ha => noSystem a (by simp [ha])
    obtain ⟨plain, keep⟩ := ih chron' common' noSystem'
    have system : SystemTimeouts l := by
      intro a ha T hT
      rw [noSystem' a ha] at hT
      cases hT
    have tracked : Tracks max timeout e.now.time (semaphoreAfter l).value (acquiredAt l) :=
      tracks_run ht chron' common' system keep fun a ha => Chronological.before chron ha
    have last := noSystem e (by simp)
    rw [semaphoreAfter_concat]
    refine ⟨plain.step ht tracked (common e (by simp)) last, along_append.mpr ⟨keep, ?_⟩⟩
    exact ⟨plain.keepsLeases _, trivial⟩

/-- The semaphore is a counting semaphore with leases: at most max_locks of them run, an acquire
succeeds exactly where the id has one or there is room, and the count it returns is the number
that run then. -/
theorem semaphore_counts_leases {l : List TimedCall} (ht : 0 < timeout)
    (chron : Chronological l) (common : ∀ e ∈ l, e.Common max timeout)
    (noSystem : ∀ e ∈ l, e.systemTimeout = none) :
    LeasesBounded max timeout l ∧
      ∀ pre e post s, l = pre ++ e :: post → e.attempt = some s →
        ∃ acquired : Bool, ∃ count : ℕ,
          e.answer (semaphoreAfter pre) = some (acquired, (count : Int)) ∧
          (s.lockId ∈ live timeout (acquiredAt pre) e.now.time → acquired = true) ∧
          (s.lockId ∉ live timeout (acquiredAt pre) e.now.time →
            (acquired = true ↔ (live timeout (acquiredAt pre) e.now.time).encard < max)) ∧
          (live timeout (acquiredAt (pre ++ [e])) e.now.time).encard = count := by
  have system : SystemTimeouts l := by
    intro a ha T hT
    rw [noSystem a ha] at hT
    cases hT
  refine ⟨leasesBounded_run chron common system (plain_run ht chron common noSystem).2, ?_⟩
  rintro pre e post s rfl ha
  have chron' : Chronological pre := chron.initial (List.prefix_append pre _)
  have common' : ∀ a ∈ pre, a.Common max timeout := fun a ha => common a (by simp [ha])
  have noSystem' : ∀ a ∈ pre, a.systemTimeout = none := fun a ha => noSystem a (by simp [ha])
  have system' : SystemTimeouts pre := fun a ha => system a (by simp [ha])
  obtain ⟨plain, keep⟩ := plain_run ht chron' common' noSystem'
  have tracked : Tracks max timeout e.now.time (semaphoreAfter pre).value (acquiredAt pre) :=
    tracks_run ht chron' common' system' keep fun a ha => Chronological.before chron ha
  obtain ⟨acquired, count, hanswer, hiff, hcount⟩ :=
    plain.answer ht tracked (common e (by simp)) ha rfl rfl
  refine ⟨acquired, count, hanswer, fun hin => hiff.mpr (Or.inl hin), fun hout => ?_, ?_⟩
  · rw [hiff]
    exact or_iff_right hout
  · rw [acquiredAt_concat]
    exact hcount

/-- Two of two locks are taken, the first is renewed, a third is refused and gets the lock that
runs out. -/
def contendedCalls : List TimedCall :=
  [⟨1, .acquire ⟨"id_1", 60, 2⟩⟩, ⟨2, .acquire ⟨"id_2", 60, 2⟩⟩,
    ⟨30, .renew ⟨"id_1", 60, 2⟩⟩, ⟨31, .acquire ⟨"id_3", 60, 2⟩⟩,
    ⟨62, .acquire ⟨"id_3", 60, 2⟩⟩]

theorem semaphore_counts_leases_contended : LeasesBounded 2 60 contendedCalls :=
  (semaphore_counts_leases (by decide) (by decide +kernel) (by decide +kernel)
    (by decide +kernel)).1

end Run

end TaskTiger
