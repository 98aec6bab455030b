import TaskTiger.Framework.Lease
import TaskTiger.Semaphore.Semaphore

namespace TaskTiger

open Redis Interleaving Lease

/-- The time of each id's last acquire that succeeded and that it has not released since. -/
def acquisitions (m : String → Option Time) (key : SemaphoreKey) (e : TimedCall) :
    String → Option Time :=
  match e.call with
  | .acquire s | .renew s =>
    if (s.acquire e.now.time key).1.1 then Function.update m s.lockId (some e.now.time) else m
  | .release s => Function.update m s.lockId none
  | .setSystemLock _ => m

/-- The semaphore after the calls, and what each id holds then. -/
def semaphoreAfter (l : List TimedCall) : SemaphoreKey := run TimedCall.exec .missing l

def acquiredAt (l : List TimedCall) : String → Option Time :=
  watch TimedCall.exec acquisitions .missing (fun _ => none) l

/-- The calls use one max_locks and one timeout, and no client takes the system lock's id. -/
def TimedCall.Common (max : Nat) (timeout : Time) (e : TimedCall) : Prop :=
  ∀ s ∈ e.attempt, s.maxLocks = max ∧ s.timeout = timeout ∧ s.lockId ≠ SYSTEM_LOCK_ID

instance (max : Nat) (timeout : Time) (e : TimedCall) : Decidable (e.Common max timeout) :=
  inferInstanceAs (Decidable (∀ s ∈ e.attempt,
    s.maxLocks = max ∧ s.timeout = timeout ∧ s.lockId ≠ SYSTEM_LOCK_ID))

/-- The timeout the call sets the system lock with. -/
def TimedCall.systemTimeout (e : TimedCall) : Option Int :=
  match e.call with
  | .setSystemLock timeout => some timeout
  | .acquire _ | .renew _ | .release _ => none

/-- No lock that still runs is in a key whose time to live has elapsed. -/
def KeepsLeases (key : SemaphoreKey) (now : Time) : Prop :=
  key.Expired now → ∀ x d, x ≠ SYSTEM_LOCK_ID → key.value.score x = some d → d ≤ now

instance (key : SemaphoreKey) (now : Time) : Decidable (KeepsLeases key now) :=
  decidable_of_iff
    (key.Expired now → ∀ p ∈ key.value.entries, p.2 ≠ SYSTEM_LOCK_ID → p.1 ≤ now) (by
      simp only [KeepsLeases, ZSet.score_eq_some, Prod.forall]
      constructor
      · intro h he x d hne hd
        exact h he d x hd hne
      · intro h he d x hd hne
        exact h he x d hne hd)

/-- The ids of clients in the set. -/
def clients (z : ZSet Time String) : Set String := {x | x ∈ z ∧ x ≠ SYSTEM_LOCK_ID}

/-- The set holds the leases taken up to `now`: none that was not taken, and each that still runs,
with the time it ends as its score. -/
structure Tracks (max : Nat) (timeout now : Time) (z : ZSet Time String)
    (m : String → Option Time) : Prop where
  past : ∀ x t, m x = some t → 0 < t ∧ t ≤ now
  taken : ∀ x d, x ≠ SYSTEM_LOCK_ID → z.score x = some d → ∃ t, m x = some t ∧ d = t + timeout
  stored : ∀ x t, m x = some t → now < t + timeout →
    x ≠ SYSTEM_LOCK_ID ∧ z.score x = some (t + timeout)
  bounded : (clients z).encard ≤ max

section Tracks

variable {max : Nat} {timeout now : Time} {z : ZSet Time String} {m : String → Option Time}

theorem tracks_init : Tracks max timeout now ZSet.empty (fun _ => none) where
  past := by simp
  taken := by simp
  stored := by simp
  bounded := by simp [clients]

theorem Tracks.later {later : Time} (h : Tracks max timeout now z m) (hl : now ≤ later) :
    Tracks max timeout later z m where
  past x t hm := ⟨(h.past x t hm).1, (h.past x t hm).2.trans hl⟩
  taken := h.taken
  stored x t hm hlt := h.stored x t hm (hl.trans_lt hlt)
  bounded := h.bounded

theorem clients_mono {z' : ZSet Time String}
    (sub : ∀ x d, z'.score x = some d → z.score x = some d) : clients z' ⊆ clients z := by
  rintro x ⟨hx, hne⟩
  obtain ⟨d, hd⟩ := ZSet.mem_iff.mp hx
  exact ⟨ZSet.mem_iff.mpr ⟨d, sub x d hd⟩, hne⟩

/-- Removing what no longer runs. -/
theorem Tracks.remove {z' : ZSet Time String} (h : Tracks max timeout now z m)
    (sub : ∀ x d, z'.score x = some d → z.score x = some d)
    (keep : ∀ x d, x ≠ SYSTEM_LOCK_ID → now < d → z.score x = some d → z'.score x = some d) :
    Tracks max timeout now z' m where
  past := h.past
  taken x d hne hd := h.taken x d hne (sub x d hd)
  stored x t hm hlt := by
    obtain ⟨hne, hd⟩ := h.stored x t hm hlt
    exact ⟨hne, keep x _ hne hlt hd⟩
  bounded := (Set.encard_le_encard (clients_mono sub)).trans h.bounded

theorem Tracks.live_subset (h : Tracks max timeout now z m) : live timeout m now ⊆ clients z := by
  rintro x ⟨t, hm, hlt⟩
  obtain ⟨hne, hd⟩ := h.stored x t hm hlt
  exact ⟨ZSet.mem_iff.mpr ⟨_, hd⟩, hne⟩

theorem Tracks.encard_live_le (h : Tracks max timeout now z m) :
    (live timeout m now).encard ≤ max :=
  (Set.encard_le_encard h.live_subset).trans h.bounded

theorem Tracks.release (h : Tracks max timeout now z m) (x : String) :
    Tracks max timeout now (z.rem x) (Function.update m x none) where
  past y t hm := by
    by_cases hy : y = x
    · subst hy
      simp at hm
    · rw [Function.update_of_ne hy] at hm
      exact h.past y t hm
  taken y d hne hd := by
    rw [ZSet.score_rem] at hd
    split_ifs at hd with hy
    rw [Function.update_of_ne hy]
    exact h.taken y d hne hd
  stored y t hm hlt := by
    by_cases hy : y = x
    · subst hy
      simp at hm
    · rw [Function.update_of_ne hy] at hm
      rw [ZSet.score_rem, if_neg hy]
      exact h.stored y t hm hlt
  bounded := by
    refine (Set.encard_le_encard ?_).trans h.bounded
    rintro y ⟨hy, hne⟩
    exact ⟨(ZSet.mem_rem.mp hy).2, hne⟩

/-- The system lock is nobody's lease. -/
theorem Tracks.system (h : Tracks max timeout now z m) (s : Time) :
    Tracks max timeout now (z.add s SYSTEM_LOCK_ID) m where
  past := h.past
  taken x d hne hd := by
    rw [ZSet.score_add, if_neg hne] at hd
    exact h.taken x d hne hd
  stored x t hm hlt := by
    obtain ⟨hne, hd⟩ := h.stored x t hm hlt
    exact ⟨hne, by rw [ZSet.score_add, if_neg hne, hd]⟩
  bounded := by
    refine (Set.encard_le_encard ?_).trans h.bounded
    rintro x ⟨hx, hne⟩
    exact ⟨(ZSet.mem_add.mp hx).resolve_left hne, hne⟩

theorem clients_add {s : Time} {x : String} (hx : x ≠ SYSTEM_LOCK_ID) :
    clients (z.add s x) = insert x (clients z) := by
  ext y
  simp only [clients, ZSet.mem_add, Set.mem_ofPred_eq, Set.mem_insert_iff]
  constructor
  · rintro ⟨rfl | hy, hne⟩
    · exact Or.inl rfl
    · exact Or.inr ⟨hy, hne⟩
  · rintro (rfl | ⟨hy, hne⟩)
    · exact ⟨Or.inl rfl, hx⟩
    · exact ⟨Or.inr hy, hne⟩

theorem encard_clients (hs : SYSTEM_LOCK_ID ∉ z) : (clients z).encard = z.card := by
  have all : clients z = {y | y ∈ z} := by
    ext y
    refine ⟨fun h => h.1, fun h => ⟨h, ?_⟩⟩
    rintro rfl
    exact hs h
  rw [all, ZSet.encard_members]

/-- The number of locks with the lock of `x` added. -/
theorem encard_clients_add {s : Time} {x : String} (hs : SYSTEM_LOCK_ID ∉ z)
    (hx : x ≠ SYSTEM_LOCK_ID) :
    (clients (z.add s x)).encard = if x ∈ z then (z.card : ℕ∞) else z.card + 1 := by
  rw [clients_add hx, ← encard_clients hs]
  split_ifs with hz
  · have hin : x ∈ clients z := ⟨hz, hx⟩
    rw [Set.insert_eq_of_mem hin]
  · have hout : x ∉ clients z := fun h => hz h.1
    rw [Set.encard_insert_of_notMem hout]

theorem Tracks.take {t : Time} {x : String} (h : Tracks max timeout t z m) (ht : 0 < t)
    (hx : x ≠ SYSTEM_LOCK_ID) (hb : (clients (z.add (t + timeout) x)).encard ≤ max) :
    Tracks max timeout t (z.add (t + timeout) x) (Function.update m x (some t)) where
  past y u hm := by
    by_cases hy : y = x
    · subst hy
      simp only [Function.update_self, Option.some.injEq] at hm
      subst hm
      exact ⟨ht, le_rfl⟩
    · rw [Function.update_of_ne hy] at hm
      exact h.past y u hm
  taken y d hne hd := by
    by_cases hy : y = x
    · subst hy
      rw [ZSet.score_add_self] at hd
      exact ⟨t, Function.update_self .., (Option.some.inj hd).symm⟩
    · rw [ZSet.score_add, if_neg hy] at hd
      rw [Function.update_of_ne hy]
      exact h.taken y d hne hd
  stored y u hm hlt := by
    by_cases hy : y = x
    · subst hy
      simp only [Function.update_self, Option.some.injEq] at hm
      subst hm
      exact ⟨hx, ZSet.score_add_self ..⟩
    · rw [Function.update_of_ne hy] at hm
      rw [ZSet.score_add, if_neg hy]
      exact h.stored y u hm hlt
  bounded := hb

end Tracks

section Step

variable {max : Nat} {timeout now : Time} {key : SemaphoreKey} {m : String → Option Time}
  {e : TimedCall} {s : Semaphore}

theorem Tracks.found (h : Tracks max timeout now key.value m) (keep : KeepsLeases key now) :
    Tracks max timeout now (key.found now).value m := by
  apply h.remove
  · intro x d hd
    exact ExpiringKey.score_of_found hd
  · intro x d hne hlt hd
    have alive : ¬key.Expired now := fun he => absurd (keep he x d hne hd) (not_le.mpr hlt)
    rwa [ExpiringKey.found_of_not_expired alive]

theorem Tracks.current (h : Tracks max timeout now key.value m) (keep : KeepsLeases key now) :
    Tracks max timeout now (key.current now).value m := by
  apply (h.found keep).remove
  · intro x d hd
    exact (score_current.mp hd).1
  · intro x d _ hlt hd
    exact score_current.mpr ⟨hd, fun hin => absurd hin.2 (not_le.mpr hlt)⟩

/-- The locks the script finds are the leases that still run. -/
theorem Tracks.live_eq (h : Tracks max timeout now key.value m) (ht : 0 < timeout)
    (keep : KeepsLeases key now) : live timeout m now = clients (key.current now).value := by
  apply Set.Subset.antisymm (h.current keep).live_subset
  rintro x ⟨hx, hne⟩
  obtain ⟨d, hd⟩ := ZSet.mem_iff.mp hx
  obtain ⟨t, hm, rfl⟩ := (h.current keep).taken x d hne hd
  have hpos := (h.past x t hm).1
  refine ⟨t, hm, not_le.mp fun hle => (score_current.mp hd).2 ⟨?_, hle⟩⟩
  linarith

theorem acquisitions_of_attempt (ha : e.attempt = some s) : acquisitions m key e =
    if (s.acquire e.now.time key).1.1 then Function.update m s.lockId (some e.now.time) else m := by
  obtain ⟨now, call⟩ := e
  cases call with
  | acquire r =>
    obtain rfl : r = s := Option.some.inj ha
    rfl
  | renew r =>
    obtain rfl : r = s := Option.some.inj ha
    rfl
  | release r => simp [TimedCall.attempt] at ha
  | setSystemLock T => simp [TimedCall.attempt] at ha

/-- The number the script compares with max_locks, and returns when it takes the lock. -/
theorem encard_clients_lockCount {d : Time} (hs : SYSTEM_LOCK_ID ∉ (key.current now).value)
    (hx : s.lockId ≠ SYSTEM_LOCK_ID) (ht : 0 < s.timeout) :
    ∃ n : ℕ, s.lockCount now key = n ∧
      (clients ((s.counted now key).value.add d s.lockId)).encard = n := by
  have counted : (s.counted now key).value = (key.current now).value := value_counted ht
  rw [← counted] at hs
  rw [encard_clients_add hs hx, Semaphore.lockCount]
  split_ifs
  · exact ⟨_, rfl, rfl⟩
  · exact ⟨(s.counted now key).value.card + 1, by push_cast; rfl, by push_cast; rfl⟩

theorem Tracks.attempt (h : Tracks max timeout e.now.time key.value m) (ht : 0 < timeout)
    (keep : KeepsLeases key e.now.time) (hc : e.Common max timeout) (ha : e.attempt = some s) :
    Tracks max timeout e.now.time (step TimedCall.exec key e).value (acquisitions m key e) := by
  obtain ⟨hmax, rfl, hid⟩ := hc s ha
  have current := h.current keep
  rw [(step_of_attempt ha).1, acquisitions_of_attempt ha]
  by_cases hs : SYSTEM_LOCK_ID ∈ (key.current e.now.time).value
  · rw [acquire_of_system hs]
    exact current
  have counted : (s.counted e.now.time key).value = (key.current e.now.time).value :=
    value_counted ht
  rw [← counted] at current
  by_cases hr : s.lockCount e.now.time key ≤ s.maxLocks
  · rw [acquire_of_room hs hr]
    obtain ⟨n, hn, hcard⟩ := encard_clients_lockCount (d := e.now.time + s.timeout) hs hid ht
    apply current.take e.now.pos hid
    rw [hcard]
    have hle : n ≤ max := by omega
    exact_mod_cast hle
  · rw [acquire_of_full hs (not_le.mp hr)]
    exact current

theorem Tracks.step (h : Tracks max timeout e.now.time key.value m) (ht : 0 < timeout)
    (keep : KeepsLeases key e.now.time) (hc : e.Common max timeout)
    (hT : ∀ T ∈ e.systemTimeout, 0 < T) :
    Tracks max timeout e.now.time (Interleaving.step TimedCall.exec key e).value
      (acquisitions m key e) := by
  cases e using TimedCall.attemptCases with
  | attempt e s ha => exact h.attempt ht keep hc ha
  | release now r => exact (h.found keep).release r.lockId
  | setSystemLock now T =>
    have hpos : 0 < T + 10 := by linarith [hT T rfl]
    have hv : (Semaphore.setSystemLock T now.time key).value =
        (key.found now.time).value.add (now.time + T) SYSTEM_LOCK_ID :=
      ExpiringKey.value_expire hpos
    have tracked := (h.found keep).system (now.time + T)
    rw [← hv] at tracked
    exact tracked

end Step

section Run

variable {max : Nat} {timeout : Time}

theorem semaphoreAfter_concat (l : List TimedCall) (e : TimedCall) :
    semaphoreAfter (l ++ [e]) = step TimedCall.exec (semaphoreAfter l) e := run_append ..

theorem acquiredAt_concat (l : List TimedCall) (e : TimedCall) :
    acquiredAt (l ++ [e]) = acquisitions (acquiredAt l) (semaphoreAfter l) e := watch_append

/-- A set_system_lock is made with a positive number of seconds. -/
def SystemTimeouts (l : List TimedCall) : Prop := ∀ e ∈ l, ∀ T ∈ e.systemTimeout, 0 < T

instance (l : List TimedCall) : Decidable (SystemTimeouts l) :=
  inferInstanceAs (Decidable (∀ e ∈ l, ∀ T ∈ e.systemTimeout, 0 < T))

theorem tracks_run {l : List TimedCall} (ht : 0 < timeout) (chron : Chronological l)
    (common : ∀ e ∈ l, e.Common max timeout) (system : SystemTimeouts l)
    (keep : Along TimedCall.exec (fun key e => KeepsLeases key e.now.time) .missing l)
    {now : Time} (hnow : ∀ e ∈ l, e.now.time ≤ now) :
    Tracks max timeout now (semaphoreAfter l).value (acquiredAt l) := by
  induction l using List.reverseRecOn generalizing now with
  | nil => exact tracks_init
  | append_singleton l e ih =>
    obtain ⟨kept, keepNow, -⟩ := along_append.mp keep
    have before : Tracks max timeout e.now.time (semaphoreAfter l).value (acquiredAt l) := by
      apply ih (chron.initial (List.prefix_append l [e]))
      · intro a ha
        exact common a (by simp [ha])
      · intro a ha
        exact system a (by simp [ha])
      · exact kept
      · intro a ha
        exact Chronological.before chron ha
    have after := before.step ht keepNow (common e (by simp)) (system e (by simp))
    rw [semaphoreAfter_concat, acquiredAt_concat]
    exact after.later (hnow e (by simp))

/-- No lease is taken in the future. -/
theorem acquiredAt_past {l : List TimedCall} (chron : Chronological l) {now : Time}
    (hnow : ∀ e ∈ l, e.now.time ≤ now) {x : String} {t : Time} (h : acquiredAt l x = some t) :
    t ≤ now := by
  induction l using List.reverseRecOn generalizing now with
  | nil => simp [acquiredAt, watch] at h
  | append_singleton l e ih =>
    have hle : ∀ a ∈ l, a.now.time ≤ now := fun a ha => hnow a (by simp [ha])
    have earlier := ih (chron.initial (List.prefix_append l [e])) hle
    rw [acquiredAt_concat] at h
    cases e using TimedCall.attemptCases with
    | attempt e s ha =>
      rw [acquisitions_of_attempt ha] at h
      split_ifs at h
      · by_cases hx : x = s.lockId
        · rw [hx, Function.update_self] at h
          exact (Option.some.inj h) ▸ hnow e (by simp)
        · rw [Function.update_of_ne hx] at h
          exact earlier h
      · exact earlier h
    | release u r =>
      by_cases hx : x = r.lockId
      · simp [acquisitions, hx] at h
      · have hm : acquiredAt l x = some t := by simpa [acquisitions, hx] using h
        exact earlier hm
    | setSystemLock u T => exact earlier h

/-- At every moment at most max_locks leases run. -/
def LeasesBounded (max : Nat) (timeout : Time) (l : List TimedCall) : Prop :=
  ∀ pre, pre <+: l → ∀ now, (∀ e ∈ pre, e.now.time ≤ now) →
    (live timeout (acquiredAt pre) now).encard ≤ max

/-- The leases stay bounded as long as the key never expires with a running lease in it. -/
theorem leasesBounded_run {l : List TimedCall} (chron : Chronological l)
    (common : ∀ e ∈ l, e.Common max timeout) (system : SystemTimeouts l)
    (keep : Along TimedCall.exec (fun key e => KeepsLeases key e.now.time) .missing l) :
    LeasesBounded max timeout l := by
  rintro pre ⟨post, rfl⟩ now hnow
  have chron' : Chronological pre := chron.initial (List.prefix_append pre post)
  by_cases ht : 0 < timeout
  · have tracked : Tracks max timeout now (semaphoreAfter pre).value (acquiredAt pre) := by
      apply tracks_run ht chron'
      · intro e he
        exact common e (by simp [he])
      · intro e he
        exact system e (by simp [he])
      · exact (along_append.mp keep).1
      · exact hnow
    exact tracked.encard_live_le
  · -- a lease that is not for a positive time never runs
    have none_live : live timeout (acquiredAt pre) now = ∅ := by
      rw [Set.eq_empty_iff_forall_notMem]
      rintro x ⟨t, hm, hlt⟩
      have hle := acquiredAt_past chron' hnow hm
      linarith
    simp [none_live]

/-- The system lock holds the queue while a lease runs out, and the key outlives both. -/
def pausedCalls : List TimedCall :=
  [⟨1, .acquire ⟨"id_1", 60, 1⟩⟩, ⟨2, .setSystemLock 90⟩,
    ⟨50, .renew ⟨"id_1", 60, 1⟩⟩, ⟨93, .acquire ⟨"id_2", 60, 1⟩⟩]

theorem leasesBounded_run_paused : LeasesBounded 1 60 pausedCalls :=
  leasesBounded_run (by decide +kernel) (by decide +kernel) (by decide +kernel) (by decide +kernel)

/-- A system lock of one second cuts the time to live of the key to eleven seconds, with a lease
of sixty seconds in it. -/
def curtailedCalls : List TimedCall :=
  [⟨1, .acquire ⟨"id_1", 60, 1⟩⟩, ⟨2, .setSystemLock 1⟩,
    ⟨14, .acquire ⟨"id_2", 60, 1⟩⟩]

theorem not_leasesBounded_curtailed : ¬∀ (max : Nat) (timeout : Time) (l : List TimedCall),
    Chronological l → (∀ e ∈ l, e.Common max timeout) → SystemTimeouts l →
      LeasesBounded max timeout l := by
  intro h
  have bounded := h 1 60 curtailedCalls (by decide +kernel) (by decide +kernel) (by decide +kernel)
    curtailedCalls List.prefix_rfl 14 (by decide +kernel)
  have first : acquiredAt curtailedCalls "id_1" = some 1 := by decide +kernel
  have second : acquiredAt curtailedCalls "id_2" = some 14 := by decide +kernel
  have both : ({"id_1", "id_2"} : Set String) ⊆ live 60 (acquiredAt curtailedCalls) 14 := by
    rintro x (rfl | rfl)
    · exact ⟨1, first, by norm_num⟩
    · exact ⟨14, second, by norm_num⟩
  have two : ({"id_1", "id_2"} : Set String).encard = 2 := Set.encard_pair (by decide)
  have le := (Set.encard_le_encard both).trans bounded
  rw [two] at le
  exact absurd le (by decide)

end Run

end TaskTiger
