import TaskTiger.Framework.Recorder

namespace Interleaving

/-- The assume-guarantee rule: inputs that meet P keep the invariant, and meet G under it. -/
theorem Along.guarantee {σ I : Type} {R : I → Type} {exec : (i : I) → σ → R i × σ} {Inv : σ → Prop}
    {P G : σ → I → Prop} (keep : ∀ s i, Inv s → P s i → G s i ∧ Inv (step exec s i)) {s : σ}
    {l : List I} (hl : Along exec P s l) (h0 : Inv s) : Along exec G s l ∧ Inv (run exec s l) := by
  induction l generalizing s with
  | nil => exact ⟨trivial, h0⟩
  | cons i l ih =>
    obtain ⟨first, kept⟩ := keep s i h0 hl.1
    obtain ⟨rest, after⟩ := ih hl.2 kept
    exact ⟨⟨first, rest⟩, after⟩

namespace Prog

variable {σ I ε α β : Type} {R : I → Type}

/-! Clients that rely on the states their commands find. -/

/-- As long as its commands find states that meet Ok, the commands of the client meet Q, and what it
returns meets post. -/
def Assuming (exec : (i : I) → σ → R i × σ) (Ok : σ → I → Prop) (Q : I → Prop) :
    Prog I R ε α → (α → Prop) → Prop
  | ret a, post => post a
  | raise _, _ => True
  | call i k, post => Q i ∧ ∀ s, Ok s i → Assuming exec Ok Q (k (exec i s).1) post

variable {exec : (i : I) → σ → R i × σ} {Ok : σ → I → Prop} {Q : I → Prop}

theorem Assuming.imp {p : Prog I R ε α} {post post' : α → Prop} (hp : Assuming exec Ok Q p post)
    (h : ∀ a, post a → post' a) : Assuming exec Ok Q p post' := by
  induction p with
  | ret a => exact h a hp
  | raise e => trivial
  | call i k ih => exact ⟨hp.1, fun s hs => ih _ (hp.2 s hs)⟩

theorem Assuming.weaken {Q' : I → Prop} {p : Prog I R ε α} {post : α → Prop}
    (hp : Assuming exec Ok Q p post) (h : ∀ i, Q i → Q' i) : Assuming exec Ok Q' p post := by
  induction p with
  | ret a => exact hp
  | raise e => trivial
  | call i k ih => exact ⟨h i hp.1, fun s hs => ih _ (hp.2 s hs)⟩

theorem Assuming.bind {p : Prog I R ε α} {k : α → Prog I R ε β} {m : α → Prop} {post : β → Prop}
    (hp : Assuming exec Ok Q p m) (hk : ∀ a, m a → Assuming exec Ok Q (k a) post) :
    Assuming exec Ok Q (p >>= k) post := by
  change Assuming exec Ok Q (Prog.bind p k) post
  induction p with
  | ret a => exact hk a hp
  | raise e => trivial
  | call i c ih => exact ⟨hp.1, fun s hs => ih _ (hp.2 s hs)⟩

theorem Assuming.attempt {p : Prog I R ε α} {c : ε → Prog I R ε α} {post : α → Prop}
    (hp : Assuming exec Ok Q p post) (hc : ∀ e, Assuming exec Ok Q (c e) post) :
    Assuming exec Ok Q (attempt p c) post := by
  induction p with
  | ret a => exact hp
  | raise e => exact hc e
  | call i k ih => exact ⟨hp.1, fun s hs => ih _ (hp.2 s hs)⟩

theorem assuming_ask_bind {i : I} {k : R i → Prog I R ε α} {post : α → Prop} (hi : Q i)
    (hk : ∀ s, Ok s i → Assuming exec Ok Q (k (exec i s).1) post) :
    Assuming exec Ok Q (ask i >>= k) post := ⟨hi, hk⟩

theorem assuming_ite {c : Prop} [Decidable c] {p q : Prog I R ε α} {post : α → Prop}
    (hp : c → Assuming exec Ok Q p post) (hq : ¬c → Assuming exec Ok Q q post) :
    Assuming exec Ok Q (if c then p else q) post := by
  split_ifs with hc
  · exact hp hc
  · exact hq hc

theorem assuming_forM {l : List α} {f : α → Prog I R ε PUnit}
    (hf : ∀ a ∈ l, Assuming exec Ok Q (f a) (fun _ => True)) :
    Assuming exec Ok Q (l.forM f) (fun _ => True) := by
  induction l with
  | nil => trivial
  | cons a l ih => exact (hf a (by simp)).bind (fun _ _ => ih (fun b hb => hf b (by simp [hb])))

theorem Assuming.trace {p : Prog I R ε α} {post : α → Prop} {env : Nat → List I} {n : Nat} {s : σ}
    (hp : Assuming exec Ok Q p post) (ok : ∀ y ∈ (go exec env p n s).trace, Ok y.1 y.2) :
    ∀ y ∈ (go exec env p n s).trace, Q y.2 := by
  induction p generalizing n s with
  | ret a => simp
  | raise e => simp
  | call i k ih =>
    have here := ok _ List.mem_cons_self
    intro y hy
    rcases List.mem_cons.mp hy with rfl | hy
    · exact hp.1
    · exact ih _ (hp.2 _ here) (fun z hz => ok z (List.mem_cons_of_mem _ hz)) y hy

/-- A client whose commands meet Q keeps what such commands and the others keep. -/
theorem Assuming.besides {p : Prog I R ε α} {post : α → Prop} {E : I → Prop} {Inv : σ → Prop}
    (hp : Assuming exec (fun _ _ => True) Q p post) (stable : ∀ i s, E i → Inv s → Inv (exec i s).2)
    (keep : ∀ i s, Q i → Inv s → Inv (exec i s).2) :
    Besides exec E Inv p (fun a s => post a ∧ Inv s) := by
  induction p with
  | ret a => exact besides_pure (fun s hs => ⟨hp, hs⟩)
  | raise e => exact besides_raise e
  | call i k ih =>
    intro env others n s a hs ended
    have found := stable_run stable (others n) hs
    exact ih _ (hp.2 _ trivial) env others (n + 1) _ a (keep i _ hp.1 found) ended

/-- A client whose commands meet Q anyway relies on nothing. -/
theorem Issues.assuming {p : Prog I R ε α} (hp : Issues Q p) :
    Assuming exec Ok Q p (fun _ => True) := by
  induction p with
  | ret a => trivial
  | raise e => trivial
  | call i k ih => exact ⟨hp.1, fun s _ => ih _ (hp.2 _)⟩

theorem Issues.assuming_yields {p : Prog I R ε α} {post : α → Prop} (hp : Issues Q p)
    (hy : Yields post p) : Assuming exec Ok Q p post := by
  induction p with
  | ret a => exact hy
  | raise e => trivial
  | call i k ih => exact ⟨hp.1, fun s _ => ih _ (hp.2 _) (hy _)⟩

/-- What is left of a client whose commands have found what it relies on. -/
theorem Assuming.reaches {p q : Prog I R ε α} {post : α → Prop} {tr : List (σ × I)}
    (hp : Assuming exec Ok Q p post) (h : Reaches exec p tr q) (ok : ∀ y ∈ tr, Ok y.1 y.2) :
    Assuming exec Ok Q q post := by
  induction h with
  | start p => exact hp
  | call s h ih =>
    rw [List.forall_mem_cons] at ok
    exact ih (hp.2 s ok.1) ok.2

/-- What a client that relies on nothing has come to. -/
theorem Assuming.returned {p : Prog I R ε α} {post : α → Prop} {tr : List (σ × I)} {a : α}
    (hp : Assuming exec (fun _ _ => True) Q p post) (h : Reaches exec p tr (.ret a)) : post a :=
  hp.reaches h (fun _ _ => trivial)

end Prog

namespace Pool

variable {C σ I ε α : Type} {R : I → Type} [DecidableEq C] {e : (i : I) → σ → R i × σ}
  {pool : Pool C σ I R ε α} {Ok : σ → I → Prop} {Q : I → Prop} {post : α → Prop} {c : C}

/-- The clients keep what they do under the assumption when each finds a state that meets it. -/
theorem assuming_step (h : Prog.Assuming e Ok Q (pool.client c) post) {ev : PoolEvent C I}
    (ok : ev = .step c → ∀ i, pool.next ev = some i → Ok pool.state i) :
    Prog.Assuming e Ok Q ((step (Pool.exec e) pool ev).client c) post := by
  cases ev with
  | other i => exact h
  | step d =>
    by_cases hrun : pool.Running d
    · obtain ⟨i, k, hd⟩ := hrun
      rw [step_running hd]
      by_cases hcd : d = c
      · subst hcd
        rw [hd] at h
        have found : Ok pool.state i := ok rfl i (by rw [next_step, hd]; rfl)
        simpa [advance] using h.2 _ found
      · simpa [advance, Ne.symm hcd] using h
    · rwa [step_idle hrun]

omit [DecidableEq C] in
theorem assuming_next (h : Prog.Assuming e Ok Q (pool.client c) post) {i : I}
    (hi : pool.next (.step c) = some i) : Q i := by
  rw [next_step] at hi
  cases hc : pool.client c with
  | ret a => simp [hc, Prog.next] at hi
  | raise x => simp [hc, Prog.next] at hi
  | call j k =>
    rw [hc] at h hi
    obtain rfl : j = i := by simpa [Prog.next] using hi
    exact h.1

end Pool

end Interleaving
