import Mathlib

namespace Interleaving

variable {σ I : Type} {R : I → Type}

/-- One input of a shared machine: it runs atomically and answers with a reply. -/
def step (exec : (i : I) → σ → R i × σ) (s : σ) (i : I) : σ := (exec i s).2

/-- The state after a sequence of inputs. Clients are interleaved in the sequence. -/
def run (exec : (i : I) → σ → R i × σ) (s : σ) (l : List I) : σ := l.foldl (step exec) s

variable {exec : (i : I) → σ → R i × σ}

@[simp] theorem run_nil (s : σ) : run exec s [] = s := rfl

@[simp] theorem run_cons (s : σ) (i : I) (l : List I) :
    run exec s (i :: l) = run exec (step exec s i) l := rfl

theorem run_append (s : σ) (l k : List I) : run exec s (l ++ k) = run exec (run exec s l) k :=
  List.foldl_append

/-- Every input of the sequence meets P in the state it is run in. -/
def Along (exec : (i : I) → σ → R i × σ) (P : σ → I → Prop) : σ → List I → Prop
  | _, [] => True
  | s, i :: l => P s i ∧ Along exec P (step exec s i) l

instance Along.decidable {P : σ → I → Prop} [∀ s i, Decidable (P s i)] :
    ∀ s l, Decidable (Along exec P s l)
  | _, [] => isTrue trivial
  | s, i :: l =>
      have := Along.decidable (P := P) (step exec s i) l
      inferInstanceAs (Decidable (P s i ∧ Along exec P (step exec s i) l))

theorem along_append {P : σ → I → Prop} {s : σ} {l k : List I} :
    Along exec P s (l ++ k) ↔ Along exec P s l ∧ Along exec P (run exec s l) k := by
  induction l generalizing s with
  | nil => simp [Along]
  | cons i l ih => simp [Along, ih, and_assoc]

/-- The transparent form: the state before each input is the run of the inputs before it. -/
theorem along_iff {P : σ → I → Prop} {s : σ} {l : List I} :
    Along exec P s l ↔ ∀ pre i post, l = pre ++ i :: post → P (run exec s pre) i := by
  constructor
  · rintro h pre i post rfl
    exact (along_append.mp h).2.1
  · intro h
    induction l generalizing s with
    | nil => trivial
    | cons i l ih =>
      refine ⟨h [] i l rfl, ih ?_⟩
      rintro pre j post rfl
      exact h (i :: pre) j post rfl

theorem along_congr {P Q : σ → I → Prop} {s : σ} {l : List I}
    (h : ∀ s, ∀ i ∈ l, (P s i ↔ Q s i)) : Along exec P s l ↔ Along exec Q s l := by
  induction l generalizing s with
  | nil => rfl
  | cons i l ih =>
    have first := h s i (by simp)
    have rest := ih (s := step exec s i) (fun t j hj => h t j (by simp [hj]))
    exact and_congr first rest

theorem Along.and {P Q : σ → I → Prop} {s : σ} {l : List I} (hp : Along exec P s l)
    (hq : Along exec Q s l) : Along exec (fun s i => P s i ∧ Q s i) s l := by
  induction l generalizing s with
  | nil => trivial
  | cons i l ih => exact ⟨⟨hp.1, hq.1⟩, ih hp.2 hq.2⟩

/-- A condition on the inputs alone holds along every run. -/
theorem along_of_forall {P : I → Prop} {s : σ} {l : List I} (h : ∀ i ∈ l, P i) :
    Along exec (fun _ i => P i) s l := by
  induction l generalizing s with
  | nil => trivial
  | cons i l ih => exact ⟨h i (by simp), ih (fun j hj => h j (by simp [hj]))⟩

/-- The invariant rule: what every admissible input keeps holds after every admissible run. -/
theorem run_invariant {Inv : σ → Prop} {P : σ → I → Prop}
    (keep : ∀ s i, Inv s → P s i → Inv (step exec s i)) {s : σ} {l : List I}
    (h0 : Inv s) (hl : Along exec P s l) : Inv (run exec s l) := by
  induction l generalizing s with
  | nil => exact h0
  | cons i l ih => exact ih (keep s i h0 hl.1) hl.2

/-- The exact form of the rule: where P says when an input keeps the invariant, the invariant
holds at every point of a run exactly when every input of the run meets P. -/
theorem run_invariant_iff {Inv : σ → Prop} {P : σ → I → Prop} {s : σ} {l : List I}
    (keep : ∀ s, ∀ i ∈ l, Inv s → (Inv (step exec s i) ↔ P s i)) (h0 : Inv s) :
    (∀ pre, pre <+: l → Inv (run exec s pre)) ↔ Along exec P s l := by
  induction l generalizing s with
  | nil =>
    constructor
    · intro _
      trivial
    · intro _ pre hpre
      obtain rfl := List.prefix_nil.mp hpre
      exact h0
  | cons i l ih =>
    have first := keep s i (by simp) h0
    have rest (hi : Inv (step exec s i)) :=
      ih (fun t j hj => keep t j (by simp [hj])) hi
    constructor
    · intro h
      have hi : Inv (step exec s i) := h [i] (by simp)
      refine ⟨first.mp hi, (rest hi).mp ?_⟩
      intro pre hpre
      exact h (i :: pre) (List.cons_prefix_cons.mpr ⟨rfl, hpre⟩)
    · intro h pre hpre
      have hi : Inv (step exec s i) := first.mpr h.1
      cases pre with
      | nil => exact h0
      | cons j pre =>
        obtain ⟨rfl, htail⟩ := List.cons_prefix_cons.mp hpre
        exact (rest hi).mpr h.2 pre htail

/-- A monitor: a value updated with each input and the state the input is run in. -/
def watch {μ : Type} (exec : (i : I) → σ → R i × σ) (f : μ → σ → I → μ) : σ → μ → List I → μ
  | _, m, [] => m
  | s, m, i :: l => watch exec f (step exec s i) (f m s i) l

theorem watch_append {μ : Type} {f : μ → σ → I → μ} {s : σ} {m : μ} {l k : List I} :
    watch exec f s m (l ++ k) = watch exec f (run exec s l) (watch exec f s m l) k := by
  induction l generalizing s m with
  | nil => rfl
  | cons i l ih => exact ih

/-- The invariant rule for a state together with a monitor of its history. -/
theorem watch_invariant {μ : Type} {f : μ → σ → I → μ} {Inv : σ → μ → Prop} {P : σ → I → Prop}
    (keep : ∀ s m i, Inv s m → P s i → Inv (step exec s i) (f m s i)) {s : σ} {m : μ}
    {l : List I} (h0 : Inv s m) (hl : Along exec P s l) :
    Inv (run exec s l) (watch exec f s m l) := by
  induction l generalizing s m with
  | nil => exact h0
  | cons i l ih => exact ih (keep s m i h0 hl.1) hl.2

end Interleaving
