import TaskTiger.Framework.SortedSet

namespace Redis

variable {σ α : Type} [LinearOrder σ] [LinearOrder α]

/-- A sorted-set key with a time to live: the server deletes it once its deadline has come. A key
that does not exist has no members and no deadline. -/
structure ExpiringKey (σ α : Type) [LinearOrder σ] [LinearOrder α] where
  value : ZSet σ α
  deadline : Option σ
  deadline_of_missing : value.nonempty = false → deadline = none

namespace ExpiringKey

def missing : ExpiringKey σ α := ⟨ZSet.empty, none, fun _ => rfl⟩

/-- The key after a write: a sorted set that has become empty is deleted with its deadline. -/
def write (z : ZSet σ α) (deadline : Option σ) : ExpiringKey σ α where
  value := z
  deadline := if z.nonempty then deadline else none
  deadline_of_missing := by intro h; simp [h]

/-- Whether the time to live has elapsed. -/
def Expired (k : ExpiringKey σ α) (now : σ) : Prop := ∃ d, k.deadline = some d ∧ d ≤ now

instance (k : ExpiringKey σ α) (now : σ) : Decidable (k.Expired now) :=
  decidable_of_iff (∃ d ∈ k.deadline, d ≤ now) Iff.rfl

/-- The key a command finds. -/
def found (k : ExpiringKey σ α) (now : σ) : ExpiringKey σ α :=
  if k.Expired now then missing else k

/-! The commands; ZADD, ZREM and ZREMRANGEBYSCORE keep the deadline of a key that stays. -/

def zadd (k : ExpiringKey σ α) (s : σ) (m : α) : ExpiringKey σ α :=
  write (k.value.add s m) k.deadline

def zrem (k : ExpiringKey σ α) (m : α) : ExpiringKey σ α := write (k.value.rem m) k.deadline

def zremrangebyscore (k : ExpiringKey σ α) (lo hi : Option σ) : ExpiringKey σ α :=
  write (k.value.remRangeByScore lo hi) k.deadline

/-- EXPIRE: a number of seconds that is not positive deletes the key. -/
def expire [Add σ] [IntCast σ] (k : ExpiringKey σ α) (seconds : Int) (now : σ) :
    ExpiringKey σ α :=
  if seconds ≤ 0 then missing else write k.value (some (now + seconds))

/-! What each command leaves. -/

@[simp] theorem value_missing : (missing : ExpiringKey σ α).value = ZSet.empty := rfl

@[simp] theorem deadline_missing : (missing : ExpiringKey σ α).deadline = none := rfl

@[simp] theorem value_write (z : ZSet σ α) (d : Option σ) : (write z d).value = z := rfl

theorem deadline_write {z : ZSet σ α} {m : α} (h : m ∈ z) (d : Option σ) :
    (write z d).deadline = d := by
  have hz : z.nonempty = true := ZSet.nonempty_iff.mpr ⟨m, h⟩
  simp [write, hz]

theorem of_deadline_write {z : ZSet σ α} {d : Option σ} {e : σ}
    (h : (write z d).deadline = some e) : d = some e := by
  unfold write at h
  split_ifs at h
  exact h

@[simp] theorem value_zadd (k : ExpiringKey σ α) (s : σ) (m : α) :
    (k.zadd s m).value = k.value.add s m := rfl

/-- ZADD on a key that did not exist creates it without a deadline. -/
@[simp] theorem deadline_zadd (k : ExpiringKey σ α) (s : σ) (m : α) :
    (k.zadd s m).deadline = k.deadline := deadline_write (m := m) (by simp) _

@[simp] theorem value_zrem (k : ExpiringKey σ α) (m : α) : (k.zrem m).value = k.value.rem m := rfl

theorem of_deadline_zrem {k : ExpiringKey σ α} {m : α} {d : σ}
    (h : (k.zrem m).deadline = some d) : k.deadline = some d := of_deadline_write h

@[simp] theorem value_zremrangebyscore (k : ExpiringKey σ α) (lo hi : Option σ) :
    (k.zremrangebyscore lo hi).value = k.value.remRangeByScore lo hi := rfl

theorem of_deadline_zremrangebyscore {k : ExpiringKey σ α} {lo hi : Option σ} {d : σ}
    (h : (k.zremrangebyscore lo hi).deadline = some d) : k.deadline = some d :=
  of_deadline_write h

theorem found_of_not_expired {k : ExpiringKey σ α} {now : σ} (h : ¬k.Expired now) :
    k.found now = k := if_neg h

theorem found_of_expired {k : ExpiringKey σ α} {now : σ} (h : k.Expired now) :
    k.found now = missing := if_pos h

@[simp] theorem found_missing (now : σ) : (missing : ExpiringKey σ α).found now = missing := by
  unfold found
  split_ifs <;> rfl

/-- What a command finds was there before. -/
theorem score_of_found {k : ExpiringKey σ α} {now s : σ} {m : α}
    (h : (k.found now).value.score m = some s) : k.value.score m = some s := by
  by_cases he : k.Expired now
  · rw [found_of_expired he] at h
    simp at h
  · rwa [found_of_not_expired he] at h

section Expire

variable [Add σ] [IntCast σ] {k : ExpiringKey σ α} {seconds : Int} {now : σ}

theorem value_expire (h : 0 < seconds) : (k.expire seconds now).value = k.value := by
  rw [expire, if_neg (not_le.mpr h), value_write]

theorem deadline_expire {m : α} (h : 0 < seconds) (hm : m ∈ k.value) :
    (k.expire seconds now).deadline = some (now + seconds) := by
  rw [expire, if_neg (not_le.mpr h), deadline_write hm]

theorem of_deadline_expire {d : σ} (h : (k.expire seconds now).deadline = some d) :
    d = now + seconds := by
  unfold expire at h
  split_ifs at h
  · simp at h
  · exact (Option.some.inj (of_deadline_write h)).symm

end Expire

end ExpiringKey

end Redis
