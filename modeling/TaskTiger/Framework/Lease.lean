import Mathlib

namespace Lease

variable {σ α : Type} [LinearOrder σ] [Add σ]

/-- The holders whose lease still runs: each took it last at the time the table gives, for the
same duration. -/
def live (duration : σ) (m : α → Option σ) (now : σ) : Set α :=
  {x | ∃ t, m x = some t ∧ now < t + duration}

variable {duration : σ} {m : α → Option σ} {now : σ} {x : α} [DecidableEq α]

theorem live_take {t : σ} (h : now < t + duration) :
    live duration (Function.update m x (some t)) now = insert x (live duration m now) := by
  ext y
  by_cases hy : y = x
  · subst hy
    simp [live, h]
  · simp [live, hy]

end Lease
