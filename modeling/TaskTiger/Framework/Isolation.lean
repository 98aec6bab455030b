import TaskTiger.Framework.Machine

namespace Interleaving

variable {σ I V A : Type} {R : I → Type}

/-- A part of the machine that only some inputs concern: the others leave it as it is, and what
these do to it and answer depends on nothing else. -/
structure Isolates (exec : (i : I) → σ → R i × σ) (view : σ → V) (answer : (i : I) → R i → A)
    (concerns : I → Prop) : Prop where
  apart : ∀ s i, ¬concerns i → view (step exec s i) = view s
  determined : ∀ s t i, concerns i → view s = view t → view (step exec s i) = view (step exec t i)
  answers : ∀ s t i, concerns i → view s = view t →
    answer i (exec i s).1 = answer i (exec i t).1

/-- The answers to the inputs that concern the part, in their order. -/
def transcript (exec : (i : I) → σ → R i × σ) (answer : (i : I) → R i → A) (concerns : I → Prop)
    [DecidablePred concerns] : σ → List I → List A
  | _, [] => []
  | s, i :: l =>
      if concerns i then answer i (exec i s).1 :: transcript exec answer concerns (step exec s i) l
      else transcript exec answer concerns (step exec s i) l

variable {exec : (i : I) → σ → R i × σ} {view : σ → V} {answer : (i : I) → R i → A}
  {concerns : I → Prop} [DecidablePred concerns]

/-- The unwinding rule: such a part sees no difference between a run and the inputs of the run that
concern it. -/
theorem Isolates.run_filter (h : Isolates exec view answer concerns) {s t : σ} (l : List I)
    (same : view s = view t) :
    view (run exec s l) = view (run exec t (l.filter concerns)) ∧
      transcript exec answer concerns s l =
        transcript exec answer concerns t (l.filter concerns) := by
  induction l generalizing s t with
  | nil => exact ⟨same, rfl⟩
  | cons i l ih =>
    by_cases hi : concerns i
    · obtain ⟨views, answers⟩ := ih (h.determined s t i hi same)
      rw [List.filter_cons_of_pos (by simpa using hi)]
      refine ⟨views, ?_⟩
      rw [transcript, transcript, if_pos hi, if_pos hi, h.answers s t i hi same, answers]
    · obtain ⟨views, answers⟩ := ih ((h.apart s i hi).trans same)
      rw [List.filter_cons_of_neg (by simpa using hi)]
      refine ⟨views, ?_⟩
      rw [transcript, if_neg hi, answers]

end Interleaving
