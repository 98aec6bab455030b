import Mathlib

namespace KeySort

variable {α β γ : Type}

/-- Two lists whose elements a function tells apart are equal where their images are. -/
theorem eq_of_map_eq {f : α → β} {s : Set α} (hf : Set.InjOn f s) {l k : List α}
    (hl : ∀ a ∈ l, a ∈ s) (hk : ∀ a ∈ k, a ∈ s) (h : l.map f = k.map f) : l = k := by
  induction l generalizing k with
  | nil =>
    have hnil : k.map f = [] := h.symm
    exact (List.map_eq_nil_iff.mp hnil).symm
  | cons a l ih =>
    cases k with
    | nil => simp at h
    | cons b k =>
      obtain ⟨hab, hrest⟩ := List.cons.inj h
      have head : a = b := hf (hl a (by simp)) (hk b (by simp)) hab
      have tail : l = k := by
        apply ih
        · intro x hx
          exact hl x (by simp [hx])
        · intro x hx
          exact hk x (by simp [hx])
        · exact hrest
      rw [head, tail]

variable {r s : α → α → Prop} [DecidableRel r] [DecidableRel s] [Std.Total r] [IsTrans α r]
  [Std.Total s] [IsTrans α s] {l : List α}

/-- Sorting by r and by s gives one list exactly when r implies s, where neither relation holds
both ways between different elements. -/
theorem insertionSort_eq_iff (hr : ∀ a ∈ l, ∀ b ∈ l, r a b → r b a → a = b)
    (hs : ∀ a ∈ l, ∀ b ∈ l, s a b → s b a → a = b) :
    l.insertionSort r = l.insertionSort s ↔ ∀ a ∈ l, ∀ b ∈ l, r a b → s a b := by
  have byR := List.pairwise_insertionSort r l
  have byS := List.pairwise_insertionSort s l
  constructor
  · intro h a ha b hb hab
    rw [← h] at byS
    have hain : a ∈ l.insertionSort r := (List.mem_insertionSort r).mpr ha
    have hbin : b ∈ l.insertionSort r := (List.mem_insertionSort r).mpr hb
    have refl : s a a := (total_of s a a).elim id id
    have diagonal : ∀ x ∈ l.insertionSort r, x = a ∧ x = b → s a b := by
      rintro x _ ⟨rfl, rfl⟩
      exact refl
    have inOrder : (l.insertionSort r).Pairwise (fun x y => x = a ∧ y = b → s a b) := by
      apply byS.imp
      rintro x y hxy ⟨rfl, rfl⟩
      exact hxy
    -- where b stands before a, r holds both ways
    have outOfOrder : (l.insertionSort r).Pairwise (fun x y => y = a ∧ x = b → s a b) := by
      apply byR.imp
      rintro x y hxy ⟨rfl, rfl⟩
      obtain rfl := hr y ha x hb hab hxy
      exact refl
    exact inOrder.forall_of_forall_of_flip diagonal outOfOrder hain hbin ⟨rfl, rfl⟩
  · intro h
    have same : (l.insertionSort r).Pairwise s := by
      refine List.Pairwise.imp_of_mem ?_ byR
      intro a b ha hb hab
      exact h a ((List.mem_insertionSort r).mp ha) b ((List.mem_insertionSort r).mp hb) hab
    have perm : (l.insertionSort r).Perm (l.insertionSort s) :=
      (List.perm_insertionSort r l).trans (List.perm_insertionSort s l).symm
    apply perm.eq_of_pairwise _ same byS
    intro a b ha hb hab hba
    exact hs a ((List.mem_insertionSort r).mp ha) b ((List.mem_insertionSort s).mp hb) hab hba

end KeySort
