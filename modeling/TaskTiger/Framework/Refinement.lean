import TaskTiger.Framework.Machine

namespace Interleaving

variable {σ I A L : Type} {R : I → Type}

/-- The labels of the inputs of a run, in their order. An input without one is silent. -/
def labels (exec : (i : I) → σ → R i × σ) (label : σ → I → Option L) : σ → List I → List L
  | _, [] => []
  | s, i :: l => (label s i).toList ++ labels exec label (step exec s i) l

/-- Where an abstract system is after a sequence of labels, none if it does not allow them. -/
def follow (spec : A → L → Option A) : A → List L → Option A
  | a, [] => some a
  | a, e :: es => (spec a e).bind (fun b => follow spec b es)

variable {exec : (i : I) → σ → R i × σ} {label : σ → I → Option L} {spec : A → L → Option A}
  {P : σ → I → Prop} {shows : σ → A → Prop}

/-- The machine does what the abstract system allows: a silent input changes nothing that the
abstract state shows, the others take the step of their label. -/
structure Simulates (exec : (i : I) → σ → R i × σ) (P : σ → I → Prop)
    (label : σ → I → Option L) (spec : A → L → Option A) (shows : σ → A → Prop) : Prop where
  silent : ∀ s i a, shows s a → P s i → label s i = none → shows (step exec s i) a
  visible : ∀ s i a e, shows s a → P s i → label s i = some e →
    ∃ b, spec a e = some b ∧ shows (step exec s i) b

/-- The abstract system follows every admissible run. -/
theorem Simulates.run (h : Simulates exec P label spec shows) {s : σ} {a : A} {l : List I}
    (hl : Along exec P s l) (start : shows s a) :
    ∃ b, follow spec a (labels exec label s l) = some b ∧ shows (run exec s l) b := by
  induction l generalizing s a with
  | nil => exact ⟨a, rfl, start⟩
  | cons i l ih =>
    cases hi : label s i with
    | none =>
      obtain ⟨b, follows, ends⟩ := ih hl.2 (h.silent s i a start hl.1 hi)
      refine ⟨b, ?_, ends⟩
      rw [labels, hi]
      exact follows
    | some e =>
      obtain ⟨b, allowed, next⟩ := h.visible s i a e start hl.1 hi
      obtain ⟨c, follows, ends⟩ := ih hl.2 next
      refine ⟨c, ?_, ends⟩
      rw [labels, hi]
      change (spec a e).bind _ = some c
      rw [allowed]
      exact follows

/-- What each label adds to a quantity of the abstract state, a sequence adds in sum. -/
theorem follow_balance {M : Type} [AddCommMonoid M] {level : A → M} {intake outflow : L → M}
    (balanced : ∀ a e b, spec a e = some b → level b + outflow e = level a + intake e) {a b : A}
    {es : List L} (h : follow spec a es = some b) :
    level b + (es.map outflow).sum = level a + (es.map intake).sum := by
  induction es generalizing a with
  | nil =>
    obtain rfl : a = b := by simpa [follow] using h
    simp
  | cons e es ih =>
    obtain ⟨c, hc, rest⟩ := Option.bind_eq_some_iff.mp h
    rw [List.map_cons, List.sum_cons, List.map_cons, List.sum_cons]
    calc level b + (outflow e + (es.map outflow).sum)
        = (level b + (es.map outflow).sum) + outflow e := by ac_rfl
      _ = (level c + outflow e) + (es.map intake).sum := by rw [ih rest]; ac_rfl
      _ = level a + (intake e + (es.map intake).sum) := by rw [balanced a e c hc]; ac_rfl

end Interleaving
