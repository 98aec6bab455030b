import TaskTiger.Framework.ExpiringKey
import TaskTiger.Framework.Machine
import TaskTiger.Store.Data

namespace TaskTiger

open Redis Interleaving

def SYSTEM_LOCK_ID : String := "SYSTEM_LOCK"

/-- The ZSET of a semaphore: lock ids, scored with the time their lock expires. -/
abbrev SemaphoreKey := ExpiringKey Time String

/-- What the script goes on with: the key found at `now`, less the expired locks. -/
def SemaphoreKey.current (key : SemaphoreKey) (now : Time) : SemaphoreKey :=
  (key.found now).zremrangebyscore (some 0) (some now)

/-- lua/semaphore.lua: whether the lock was acquired, and the number of locks in the semaphore. -/
def semaphoreScript (lockId : String) (semaphoreSize : Int) (timeout now : Time)
    (key : SemaphoreKey) : (Bool × Int) × SemaphoreKey :=
  let key := key.current now
  if SYSTEM_LOCK_ID ∈ key.value then ((false, -1), key)
  else
    let key := key.expire ⌈timeout * 2⌉ now
    let currentLockCount : Int := key.value.card
    let lockCount := if lockId ∈ key.value then currentLockCount else currentLockCount + 1
    if lockCount > semaphoreSize then ((false, currentLockCount), key)
    else ((true, lockCount), key.zadd (now + timeout) lockId)

/-- A Semaphore object, less its connection and its key. -/
structure Semaphore where
  lockId : String
  timeout : Time
  maxLocks : Int := 1

namespace Semaphore

variable (self : Semaphore)

def acquire (now : Time) (key : SemaphoreKey) : (Bool × Int) × SemaphoreKey :=
  semaphoreScript self.lockId self.maxLocks self.timeout now key

def renew (now : Time) (key : SemaphoreKey) : (Bool × Int) × SemaphoreKey := self.acquire now key

def release (now : Time) (key : SemaphoreKey) : SemaphoreKey := (key.found now).zrem self.lockId

/-- get_system_lock: when the system lock expires. -/
def getSystemLock (now : Time) (key : SemaphoreKey) : Option Time :=
  (key.found now).value.score SYSTEM_LOCK_ID

/-- set_system_lock; its pipeline is one transaction. -/
def setSystemLock (timeout : Int) (now : Time) (key : SemaphoreKey) : SemaphoreKey :=
  ((key.found now).zadd (now + timeout) SYSTEM_LOCK_ID).expire (timeout + 10) now

end Semaphore

inductive SemaphoreCall where
  | acquire (s : Semaphore)
  | renew (s : Semaphore)
  | release (s : Semaphore)
  | setSystemLock (timeout : Int)

def SemaphoreCall.Reply : SemaphoreCall → Type
  | .acquire _ | .renew _ => Bool × Int
  | .release _ | .setSystemLock _ => Unit

/-- A call of some client at some time. -/
structure TimedCall where
  now : Instant
  call : SemaphoreCall

namespace TimedCall

def exec (e : TimedCall) (key : SemaphoreKey) : e.call.Reply × SemaphoreKey :=
  match e.call with
  | .acquire s => s.acquire e.now.time key
  | .renew s => s.renew e.now.time key
  | .release s => ((), s.release e.now.time key)
  | .setSystemLock timeout => ((), Semaphore.setSystemLock timeout e.now.time key)

/-- The semaphore an acquire or a renew is called on. -/
def attempt (e : TimedCall) : Option Semaphore :=
  match e.call with
  | .acquire s | .renew s => some s
  | .release _ | .setSystemLock _ => none

/-- What an acquire or a renew returns. -/
def answer (e : TimedCall) (key : SemaphoreKey) : Option (Bool × Int) :=
  match e.call with
  | .acquire s => some (s.acquire e.now.time key).1
  | .renew s => some (s.renew e.now.time key).1
  | .release _ | .setSystemLock _ => none

/-- Acquire and renew are treated alike. -/
@[elab_as_elim] theorem attemptCases {motive : TimedCall → Prop}
    (attempt : ∀ e s, e.attempt = some s → motive e)
    (release : ∀ now s, motive ⟨now, .release s⟩)
    (setSystemLock : ∀ now timeout, motive ⟨now, .setSystemLock timeout⟩) (e : TimedCall) :
    motive e := by
  obtain ⟨now, call⟩ := e
  cases call with
  | acquire s => exact attempt _ s rfl
  | renew s => exact attempt _ s rfl
  | release s => exact release now s
  | setSystemLock timeout => exact setSystemLock now timeout

end TimedCall

/-- Calls in the order the server runs them, at times that do not decrease. -/
def Chronological (l : List TimedCall) : Prop :=
  l.Pairwise (fun a b => a.now.time ≤ b.now.time)

instance (l : List TimedCall) : Decidable (Chronological l) :=
  inferInstanceAs (Decidable (l.Pairwise _))

theorem Chronological.before {pre post : List TimedCall} {e : TimedCall}
    (h : Chronological (pre ++ e :: post)) {a : TimedCall} (ha : a ∈ pre) :
    a.now.time ≤ e.now.time :=
  (List.pairwise_append.mp h).2.2 a ha e (by simp)

theorem Chronological.initial {l pre : List TimedCall} (h : Chronological l) (hp : pre <+: l) :
    Chronological pre := h.sublist hp.sublist

/-! What the script reads and writes, in terms of the locks that are left. -/

section Script

variable {key : SemaphoreKey} {now : Time} {self : Semaphore} {x : String} {d : Time}

theorem score_current : (key.current now).value.score x = some d ↔
    (key.found now).value.score x = some d ∧ ¬(0 ≤ d ∧ d ≤ now) := by
  rw [SemaphoreKey.current, ExpiringKey.value_zremrangebyscore, ZSet.score_remRangeByScore,
    Option.filter_eq_some_iff]
  simp only [ZSet.inRange, Bool.not_eq_true', Bool.and_eq_false_iff, decide_eq_false_iff_not,
    not_and_or]

theorem score_of_current (h : (key.current now).value.score x = some d) :
    key.value.score x = some d := ExpiringKey.score_of_found (score_current.mp h).1

theorem acquire_of_system (h : SYSTEM_LOCK_ID ∈ (key.current now).value) :
    self.acquire now key = ((false, -1), key.current now) := by
  rw [Semaphore.acquire, semaphoreScript]
  exact if_pos h

/-- The locks the script counts: those left when the key has its new time to live. -/
def Semaphore.counted (self : Semaphore) (now : Time) (key : SemaphoreKey) : SemaphoreKey :=
  (key.current now).expire ⌈self.timeout * 2⌉ now

/-- The number of locks there would be with this one. -/
def Semaphore.lockCount (self : Semaphore) (now : Time) (key : SemaphoreKey) : Int :=
  if self.lockId ∈ (self.counted now key).value then (self.counted now key).value.card
  else (self.counted now key).value.card + 1

theorem acquire_of_room (h : SYSTEM_LOCK_ID ∉ (key.current now).value)
    (room : self.lockCount now key ≤ self.maxLocks) :
    self.acquire now key = ((true, self.lockCount now key),
      (self.counted now key).zadd (now + self.timeout) self.lockId) := by
  rw [Semaphore.acquire, semaphoreScript, if_neg h]
  exact if_neg (not_lt.mpr room)

theorem acquire_of_full (h : SYSTEM_LOCK_ID ∉ (key.current now).value)
    (full : self.maxLocks < self.lockCount now key) :
    self.acquire now key =
      ((false, ((self.counted now key).value.card : Int)), self.counted now key) := by
  rw [Semaphore.acquire, semaphoreScript, if_neg h]
  exact if_pos full

/-- The new time to live leaves the locks, or deletes the key. -/
theorem score_of_counted (h : (self.counted now key).value.score x = some d) :
    (key.current now).value.score x = some d := by
  unfold Semaphore.counted ExpiringKey.expire at h
  split_ifs at h
  · simp at h
  · exact h

/-- The script adds no other lock than the caller's and extends none. -/
theorem score_of_acquire (hx : x ≠ self.lockId)
    (h : (self.acquire now key).2.value.score x = some d) : key.value.score x = some d := by
  by_cases hs : SYSTEM_LOCK_ID ∈ (key.current now).value
  · rw [acquire_of_system hs] at h
    exact score_of_current h
  by_cases hr : self.lockCount now key ≤ self.maxLocks
  · rw [acquire_of_room hs hr, ExpiringKey.value_zadd, ZSet.score_add, if_neg hx] at h
    exact score_of_current (score_of_counted h)
  · rw [acquire_of_full hs (not_le.mp hr)] at h
    exact score_of_current (score_of_counted h)

theorem ceil_timeout_pos (h : 0 < self.timeout) : 0 < ⌈self.timeout * 2⌉ :=
  Int.ceil_pos.mpr (by linarith)

theorem value_counted (h : 0 < self.timeout) :
    (self.counted now key).value = (key.current now).value :=
  ExpiringKey.value_expire (ceil_timeout_pos h)

theorem deadline_counted {D : Time} (h : (self.counted now key).deadline = some D) :
    now + self.timeout * 2 ≤ D := by
  have hD : D = now + ⌈self.timeout * 2⌉ := ExpiringKey.of_deadline_expire h
  have hceil := Int.le_ceil (self.timeout * 2)
  linarith

/-- Acquire and renew are one step. -/
theorem step_of_attempt {e : TimedCall} (h : e.attempt = some self) :
    step TimedCall.exec key e = (self.acquire e.now.time key).2 ∧
      e.answer key = some (self.acquire e.now.time key).1 := by
  obtain ⟨now, call⟩ := e
  cases call with
  | acquire s =>
    obtain rfl : s = self := Option.some.inj h
    exact ⟨rfl, rfl⟩
  | renew s =>
    obtain rfl : s = self := Option.some.inj h
    exact ⟨rfl, rfl⟩
  | release s => simp [TimedCall.attempt] at h
  | setSystemLock timeout => simp [TimedCall.attempt] at h

end Script

end TaskTiger
