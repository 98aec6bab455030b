import TaskTiger.Store.Backlog
import TaskTiger.Store.Zpoppush

namespace TaskTiger

open Redis Interleaving

/-- A script that raises has changed no ZSET and no set. -/
def AllOrNothing (k : ZpoppushScript) (a : Zpoppush) (s : Store) : Prop :=
  ∀ e, (k.run a s).1 = .error e → (k.run a s).2.zset = s.zset ∧ (k.run a s).2.queues = s.queues

variable {k : ZpoppushScript} {a : Zpoppush} {s : Store}

theorem members_ne_nil_of_not_fits (h : ¬k.Fits a s) : a.members s ≠ [] := by
  intro hm
  have hu : k.unpacked a s = [] := by
    cases k <;> simp [ZpoppushScript.unpacked, Zpoppush.moved, hm]
  apply h
  rw [ZpoppushScript.Fits, hu]
  decide

/-- By then the members have left the source. -/
theorem run_of_not_fits (h : ¬k.Fits a s) :
    k.run a s = (.error .tooManyResults, a.popped s) := by
  have hm := members_ne_nil_of_not_fits h
  cases k with
  | plain =>
    have hf : ¬unpackFits (2 * (a.members s).length) := h
    simp only [ZpoppushScript.run, zpoppush, if_neg hm, if_neg hf, Except.map]
  | updateSets =>
    have hf : ¬unpackFits (2 * (a.members s).length) := h
    simp only [ZpoppushScript.run, zpoppushUpdateSets, if_neg hm, if_neg hf, Except.map]
  | withscores =>
    have hf : ¬unpackFits (2 * (a.members s).length) := h
    simp only [ZpoppushScript.run, zpoppushWithscores, if_neg hm, if_neg hf, Except.map]
  | ifExists =>
    have hf : ¬a.Fits s := h
    simp only [ZpoppushScript.run, zpoppushExists, if_neg hm, if_neg hf, Except.map]

theorem zset_popped_ne (h : a.members s ≠ []) : (a.popped s).zset ≠ s.zset := by
  intro hc
  obtain ⟨m, hm⟩ := List.exists_mem_of_ne_nil _ h
  have before : m ∈ s.zset a.source a.queue := Zpoppush.mem_source_of_mem_members hm
  have gone : (a.popped s).score a.source a.queue m = none := by
    rw [Zpoppush.score_popped, if_pos ⟨rfl, rfl, hm⟩]
  rw [← hc] at before
  exact Store.not_mem_iff_score.mpr gone before

theorem not_allOrNothing_of_not_fits (h : ¬k.Fits a s) : ¬AllOrNothing k a s := by
  intro hall
  have hrun := run_of_not_fits h
  have same := hall .tooManyResults (by rw [hrun])
  rw [hrun] at same
  exact zset_popped_ne (members_ne_nil_of_not_fits h) same.1

/-- Each of the scripts is all-or-nothing exactly when it unpacks fewer than 4000 members. -/
theorem allOrNothing_iff_fits (k : ZpoppushScript) (a : Zpoppush) (s : Store) :
    AllOrNothing k a s ↔ k.Fits a s := by
  constructor
  · intro hall
    by_contra h
    exact not_allOrNothing_of_not_fits h hall
  · intro h e he
    rw [ZpoppushScript.run_ok_of_fits h] at he
    cases he

/-- A pickup of 4000 tasks takes them out of QUEUED and raises. -/
theorem not_allOrNothing_overflow : ¬∀ k a s, AllOrNothing k a s := by
  intro hall
  obtain ⟨n, hn⟩ : ∃ n, n = 4000 := ⟨_, rfl⟩
  let now : Instant := 2
  let s := runAll Store.empty (backlog false n)
  have hcard : (s.zset .queued "batch").card = n := card_backlog (by omega)
  have hf : ¬(pickupArgs "batch" 5000 now 3).Fits s :=
    not_fits_overflow now 3 (idle_backlog false n) (by omega) (by omega)
  exact not_allOrNothing_of_not_fits (k := .ifExists) hf (hall _ _ s)

end TaskTiger
