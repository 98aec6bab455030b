import TaskTiger.Framework.Pool

namespace Interleaving

/-- Watches the commands of one client: which states are expected after the commands before, which
commands are allowed there, and what is remembered of them. -/
structure Monitor (σ I μ : Type) where
  Expected : μ → σ → Prop
  Allowed : μ → σ → I → Prop
  update : μ → σ → I → μ

namespace Monitor

/-- What is remembered after the commands of a trace. -/
def after {σ I μ : Type} (M : Monitor σ I μ) (m : μ) (tr : List (σ × I)) : μ :=
  tr.foldl (fun m y => M.update m y.1 y.2) m

theorem after_concat {σ I μ : Type} (M : Monitor σ I μ) (m : μ) (tr : List (σ × I)) (y : σ × I) :
    M.after m (tr ++ [y]) = M.update (M.after m tr) y.1 y.2 := by
  simp [after]

/-- The command is allowed under the invariant and keeps it. -/
def Keeps {σ I μ : Type} (M : Monitor σ I μ) (inv : μ → Prop) (i : I) : Prop :=
  ∀ m s, inv m → M.Expected m s → M.Allowed m s i ∧ inv (M.update m s i)

end Monitor

namespace Prog

variable {σ I ε α β μ : Type} {R : I → Type}

/-! What a client can return and raise. -/

/-- Whatever the replies are, the client returns only values that meet P. -/
def Yields (P : α → Prop) : Prog I R ε α → Prop
  | ret a => P a
  | raise _ => True
  | call _ k => ∀ r, Yields P (k r)

theorem yields_any (p : Prog I R ε α) : Yields (fun _ => True) p := by
  induction p with
  | ret a => trivial
  | raise e => trivial
  | call i k ih => exact ih

theorem Yields.mono {P P' : α → Prop} {p : Prog I R ε α} (hp : Yields P p)
    (h : ∀ a, P a → P' a) : Yields P' p := by
  induction p with
  | ret a => exact h a hp
  | raise e => trivial
  | call i k ih => exact fun r => ih r (hp r)

theorem Yields.and {P P' : α → Prop} {p : Prog I R ε α} (hp : Yields P p) (hp' : Yields P' p) :
    Yields (fun a => P a ∧ P' a) p := by
  induction p with
  | ret a => exact ⟨hp, hp'⟩
  | raise e => trivial
  | call i k ih => exact fun r => ih r (hp r) (hp' r)

theorem Yields.bind {P : α → Prop} {P' : β → Prop} {p : Prog I R ε α} {k : α → Prog I R ε β}
    (hp : Yields P p) (hk : ∀ a, P a → Yields P' (k a)) : Yields P' (p >>= k) := by
  change Yields P' (Prog.bind p k)
  induction p with
  | ret a => exact hk a hp
  | raise e => trivial
  | call i c ih => exact fun r => ih r (hp r)

theorem yields_ite {P : α → Prop} {c : Prop} [Decidable c] {p q : Prog I R ε α}
    (hp : Yields P p) (hq : Yields P q) : Yields P (if c then p else q) := by
  split_ifs
  · exact hp
  · exact hq

/-- Whatever the replies are, the client raises only exceptions that meet P. -/
def Raises (P : ε → Prop) : Prog I R ε α → Prop
  | ret _ => True
  | raise e => P e
  | call _ k => ∀ r, Raises P (k r)

section

variable {P : ε → Prop}

theorem raises_of_forall (h : ∀ e, P e) (p : Prog I R ε α) : Raises P p := by
  induction p with
  | ret a => trivial
  | raise e => exact h e
  | call i k ih => exact ih

theorem raises_bind {p : Prog I R ε α} {k : α → Prog I R ε β} (hp : Raises P p)
    (hk : ∀ a, Raises P (k a)) : Raises P (p >>= k) := by
  change Raises P (Prog.bind p k)
  induction p with
  | ret a => exact hk a
  | raise e => exact hp
  | call i c ih => exact fun r => ih r (hp r)

theorem raises_ite {c : Prop} [Decidable c] {p q : Prog I R ε α} (hp : Raises P p)
    (hq : Raises P q) : Raises P (if c then p else q) := by
  split_ifs
  · exact hp
  · exact hq

theorem raises_forM {l : List α} {f : α → Prog I R ε PUnit} (hf : ∀ a, Raises P (f a)) :
    Raises P (l.forM f) := by
  induction l with
  | nil => trivial
  | cons a l ih => exact raises_bind (hf a) (fun _ => ih)

end

/-! Preconditions. -/

/-- The weakest precondition of a client under a monitor, for values and for exceptions: post holds
of what it returns, and quit of what it raises. -/
def Concludes (exec : (i : I) → σ → R i × σ) (M : Monitor σ I μ) (quit : ε → μ → Prop) :
    Prog I R ε α → μ → (α → μ → Prop) → Prop
  | ret a, m, post => post a m
  | raise e, m, _ => quit e m
  | call i k, m, post => ∀ s, M.Expected m s →
      M.Allowed m s i ∧ Concludes exec M quit (k (exec i s).1) (M.update m s i) post

section

variable {exec : (i : I) → σ → R i × σ} {M : Monitor σ I μ} {quit quit' : ε → μ → Prop} {m : μ}
  {P : ε → Prop}

theorem Concludes.mono {p : Prog I R ε α} {post post' : α → μ → Prop}
    (hp : Concludes exec M quit p m post) (hquit : ∀ e m, quit e m → quit' e m)
    (hpost : ∀ a m, post a m → post' a m) : Concludes exec M quit' p m post' := by
  induction p generalizing m with
  | ret a => exact hpost a m hp
  | raise e => exact hquit e m hp
  | call i k ih =>
    intro s hs
    obtain ⟨allowed, rest⟩ := hp s hs
    exact ⟨allowed, ih _ rest⟩

theorem Concludes.imp {p : Prog I R ε α} {post post' : α → μ → Prop}
    (hp : Concludes exec M quit p m post) (hpost : ∀ a m, post a m → post' a m) :
    Concludes exec M quit p m post' :=
  hp.mono (fun _ _ hq => hq) hpost

theorem Concludes.bind {p : Prog I R ε α} {k : α → Prog I R ε β} {Q : α → μ → Prop}
    {post : β → μ → Prop} (hp : Concludes exec M quit p m Q)
    (hk : ∀ a m, Q a m → Concludes exec M quit (k a) m post) :
    Concludes exec M quit (p >>= k) m post := by
  change Concludes exec M quit (Prog.bind p k) m post
  induction p generalizing m with
  | ret a => exact hk a m hp
  | raise e => exact hp
  | call i c ih =>
    intro s hs
    obtain ⟨allowed, rest⟩ := hp s hs
    exact ⟨allowed, ih _ rest⟩

theorem Concludes.attempt {p : Prog I R ε α} {c : ε → Prog I R ε α} {post : α → μ → Prop}
    {raised : ε → μ → Prop} (hp : Concludes exec M raised p m post)
    (hc : ∀ e m, raised e m → Concludes exec M quit (c e) m post) :
    Concludes exec M quit (attempt p c) m post := by
  induction p generalizing m with
  | ret a => exact hp
  | raise e => exact hc e m hp
  | call i k ih =>
    intro s hs
    obtain ⟨allowed, rest⟩ := hp s hs
    exact ⟨allowed, ih _ rest⟩

/-- A client returns only what it yields. -/
theorem Concludes.yields {p : Prog I R ε α} {Y : α → Prop} {post : α → μ → Prop}
    (hp : Concludes exec M quit p m post) (hy : Yields Y p) :
    Concludes exec M quit p m (fun a m => Y a ∧ post a m) := by
  induction p generalizing m with
  | ret a => exact ⟨hy, hp⟩
  | raise e => exact hp
  | call i k ih =>
    intro s hs
    obtain ⟨allowed, rest⟩ := hp s hs
    exact ⟨allowed, ih _ rest (hy _)⟩

theorem concludes_ask_bind {i : I} {k : R i → Prog I R ε α} {post : α → μ → Prop}
    (h : ∀ s, M.Expected m s →
      M.Allowed m s i ∧ Concludes exec M quit (k (exec i s).1) (M.update m s i) post) :
    Concludes exec M quit (ask i >>= k) m post := h

/-- The rule for a loop: the invariant knows what is still to do. -/
theorem concludes_forM (inv : List α → μ → Prop) {l : List α} {f : α → Prog I R ε PUnit}
    (hf : ∀ a l m, inv (a :: l) m → Concludes exec M quit (f a) m (fun _ m => inv l m))
    (h0 : inv l m) : Concludes exec M quit (l.forM f) m (fun _ m => inv [] m) := by
  induction l generalizing m with
  | nil => exact h0
  | cons a l ih =>
    apply (hf a l m h0).bind
    intro _ m hm
    exact ih hm

/-- A client whose commands all keep the invariant keeps it, whatever it raises. -/
theorem Issues.concludes {p : Prog I R ε α} {inv : μ → Prop} (hp : Issues (M.Keeps inv) p)
    (hr : Raises P p) (h0 : inv m) :
    Concludes exec M (fun e m => P e ∧ inv m) p m (fun _ => inv) := by
  induction p generalizing m with
  | ret a => exact h0
  | raise e => exact ⟨hr, h0⟩
  | call i k ih =>
    intro s hs
    obtain ⟨allowed, kept⟩ := hp.1 m s h0 hs
    exact ⟨allowed, ih _ (hp.2 _) (hr _) kept⟩

/-- What a run of the client brings: it keeps to what is allowed, and ends as it must. -/
theorem Concludes.outcome {p : Prog I R ε α} {post : α → μ → Prop} {env : Nat → List I} {n : Nat}
    {s : σ} (hp : Concludes exec M quit p m post)
    (expected : ∀ pre y rest, (go exec env p n s).trace = pre ++ y :: rest →
      M.Expected (M.after m pre) y.1) :
    (∀ pre y rest, (go exec env p n s).trace = pre ++ y :: rest →
      M.Allowed (M.after m pre) y.1 y.2) ∧
    (∀ a, (go exec env p n s).result = .ok a → post a (M.after m (go exec env p n s).trace)) ∧
    (∀ e, (go exec env p n s).result = .error e → quit e (M.after m (go exec env p n s).trace)) := by
  induction p generalizing m n s with
  | ret a =>
    refine ⟨?_, ?_, ?_⟩
    · intro pre y rest h
      simp at h
    · intro b hb
      obtain rfl : a = b := by simpa using hb
      exact hp
    · intro e he
      simp at he
  | raise e =>
    refine ⟨?_, ?_, ?_⟩
    · intro pre y rest h
      simp at h
    · intro b hb
      simp at hb
    · intro x hx
      obtain rfl : e = x := by simpa using hx
      exact hp
  | call i k ih =>
    obtain ⟨allowed, rest⟩ := hp (run exec s (env n)) (expected [] _ _ rfl)
    have later := ih _ (n := n + 1) (s := (exec i (run exec s (env n))).2) rest (by
      intro pre y post h
      exact expected ((_, i) :: pre) y post (congrArg (List.cons _) h))
    refine ⟨?_, later.2.1, later.2.2⟩
    intro pre y post h
    cases pre with
    | nil =>
      obtain ⟨rfl, -⟩ := List.cons.inj h
      exact allowed
    | cons z pre =>
      obtain ⟨rfl, tail⟩ := List.cons.inj h
      exact later.1 pre y post tail

end

/-- The weakest precondition of a client under a monitor: in expected states all its commands are
allowed, post holds if it returns, and quit if it raises. -/
def Wp (exec : (i : I) → σ → R i × σ) (M : Monitor σ I μ) (quit : μ → Prop) :
    Prog I R ε α → μ → (α → μ → Prop) → Prop
  | ret a, m, post => post a m
  | raise _, m, _ => quit m
  | call i k, m, post => ∀ s, M.Expected m s →
      M.Allowed m s i ∧ Wp exec M quit (k (exec i s).1) (M.update m s i) post

variable {exec : (i : I) → σ → R i × σ} {M : Monitor σ I μ} {quit : μ → Prop} {m : μ}

/-- It is the precondition that does not tell the exceptions apart. -/
theorem wp_iff {p : Prog I R ε α} {post : α → μ → Prop} :
    Wp exec M quit p m post ↔ Concludes exec M (fun _ => quit) p m post := by
  induction p generalizing m with
  | ret a => rfl
  | raise e => rfl
  | call i k ih => simp only [Wp, Concludes, ih]

theorem Wp.mono {p : Prog I R ε α} {post post' : α → μ → Prop} (hp : Wp exec M quit p m post)
    (h : ∀ a m, post a m → post' a m) : Wp exec M quit p m post' := by
  rw [wp_iff] at hp ⊢
  exact hp.imp h

theorem Wp.bind {p : Prog I R ε α} {k : α → Prog I R ε β} {Q : α → μ → Prop}
    {post : β → μ → Prop} (hp : Wp exec M quit p m Q)
    (hk : ∀ a m, Q a m → Wp exec M quit (k a) m post) : Wp exec M quit (p >>= k) m post := by
  simp only [wp_iff] at hp hk ⊢
  exact hp.bind hk

theorem Wp.attempt {p : Prog I R ε α} {c : ε → Prog I R ε α} {post : α → μ → Prop}
    (hp : Wp exec M quit p m post) (hc : ∀ e m, quit m → Wp exec M quit (c e) m post) :
    Wp exec M quit (attempt p c) m post := by
  simp only [wp_iff] at hp hc ⊢
  exact hp.attempt hc

theorem wp_ask_bind {i : I} {k : R i → Prog I R ε α} {post : α → μ → Prop}
    (h : ∀ s, M.Expected m s →
      M.Allowed m s i ∧ Wp exec M quit (k (exec i s).1) (M.update m s i) post) :
    Wp exec M quit (ask i >>= k) m post := h

theorem wp_forM {l : List α} {f : α → Prog I R ε PUnit} {inv : μ → Prop}
    (hf : ∀ a ∈ l, ∀ m, inv m → Wp exec M quit (f a) m (fun _ => inv)) (h0 : inv m) :
    Wp exec M quit (l.forM f) m (fun _ => inv) := by
  induction l generalizing m with
  | nil => exact h0
  | cons a l ih =>
    refine (hf a (by simp) m h0).bind (fun _ m hm => ?_)
    exact ih (fun b hb => hf b (by simp [hb])) hm

/-- A client whose commands all keep the invariant keeps it, and returns what it yields. -/
theorem Issues.wp_yields {p : Prog I R ε α} {inv : μ → Prop} {P : α → Prop}
    (hp : Issues (M.Keeps inv) p) (hy : Yields P p) (h0 : inv m) :
    Wp exec M inv p m (fun a m => P a ∧ inv m) := by
  have always : Raises (fun _ => True) p := raises_of_forall (fun _ => trivial) p
  rw [wp_iff]
  apply ((hp.concludes always h0).yields hy).mono
  · intro _ _ h
    exact h.2
  · intro _ _ h
    exact h

theorem Issues.wp {p : Prog I R ε α} {inv : μ → Prop} (hp : Issues (M.Keeps inv) p)
    (h0 : inv m) : Wp exec M inv p m (fun _ => inv) :=
  (hp.wp_yields (yields_any p) h0).mono (fun _ _ h => h.2)

/-- The precondition is that of what is left to do, wherever the client is. -/
theorem Wp.reaches {p q : Prog I R ε α} {tr : List (σ × I)} {post : α → μ → Prop}
    (hp : Wp exec M quit p m post) (h : Reaches exec p tr q)
    (expected : ∀ y ∈ tr, ∀ m, M.Expected m y.1) :
    (∀ pre y rest, tr = pre ++ y :: rest → M.Allowed (M.after m pre) y.1 y.2) ∧
      Wp exec M quit q (M.after m tr) post := by
  induction h generalizing m with
  | start p =>
    refine ⟨?_, hp⟩
    intro pre y rest hnil
    simp at hnil
  | call s h ih =>
    obtain ⟨allowed, rest⟩ := hp s (expected _ List.mem_cons_self m)
    obtain ⟨before, left⟩ := ih rest (fun y hy => expected y (by simp [hy]))
    refine ⟨?_, left⟩
    intro pre y post hsplit
    cases pre with
    | nil =>
      obtain ⟨rfl, -⟩ := List.cons.inj hsplit
      exact allowed
    | cons z pre =>
      obtain ⟨rfl, htail⟩ := List.cons.inj hsplit
      exact before pre y post htail

/-! A client among others that keep to some inputs. -/

/-- Remembers the state that the client has left, from which the others go on. -/
def rely (exec : (i : I) → σ → R i × σ) (Q : I → Prop) : Monitor σ I σ where
  Expected s t := ∃ l, (∀ i ∈ l, Q i) ∧ t = run exec s l
  Allowed _ _ _ := True
  update _ t i := (exec i t).2

/-- What the client returns and leaves, or leaves when it raises. -/
theorem Wp.go {Q : I → Prop} {quit : σ → Prop} {p : Prog I R ε α} {s : σ} {post : α → σ → Prop}
    {env : Nat → List I} (hp : Wp exec (rely exec Q) quit p s post) (others : ∀ n, ∀ i ∈ env n, Q i)
    (n : Nat) :
    (∃ a, (go exec env p n s).result = .ok a ∧ post a (go exec env p n s).state) ∨
      quit (go exec env p n s).state := by
  induction p generalizing n s with
  | ret a => exact Or.inl ⟨a, rfl, hp⟩
  | raise e => exact Or.inr hp
  | call i k ih => exact ih _ (hp _ ⟨env n, others n, rfl⟩).2 (n + 1)

end Prog

namespace Pool

variable {C σ I ε α μ : Type} {R : I → Type} [DecidableEq C] {e : (i : I) → σ → R i × σ}
  {M : Monitor σ I μ} {quit : μ → Prop} {m : μ} {post : α → μ → Prop}
  {pool : Pool C σ I R ε α} {c : C}

omit [DecidableEq C] in
/-- A client that meets its precondition runs only what is allowed. -/
theorem wp_next (h : Prog.Wp e M quit (pool.client c) (M.after m (pool.trace c)) post)
    (expected : M.Expected (M.after m (pool.trace c)) pool.state) {i : I}
    (hi : pool.next (.step c) = some i) : M.Allowed (M.after m (pool.trace c)) pool.state i := by
  cases hc : pool.client c with
  | ret a => simp [next, hc] at hi
  | raise x => simp [next, hc] at hi
  | call j k =>
    obtain rfl : j = i := by simpa [next, hc] using hi
    rw [hc] at h
    exact (h _ expected).1

/-- A step of the client itself updates its monitor. -/
theorem after_step_own {i : I} (hi : pool.next (.step c) = some i) :
    M.after m ((step (Pool.exec e) pool (.step c)).trace c) =
      M.update (M.after m (pool.trace c)) pool.state i := by
  cases hc : pool.client c with
  | ret a => simp [next, hc] at hi
  | raise x => simp [next, hc] at hi
  | call j k =>
    obtain rfl : j = i := by simpa [next, hc] using hi
    rw [step_running hc]
    simp only [advance, Function.update_self, Monitor.after_concat]

/-- Nothing else changes it. -/
theorem after_step (ev : PoolEvent C I) :
    (∃ i, ev = .step c ∧ pool.next (.step c) = some i) ∨
      M.after m ((step (Pool.exec e) pool ev).trace c) = M.after m (pool.trace c) := by
  cases ev with
  | other i => exact Or.inr rfl
  | step d =>
    by_cases hrun : pool.Running d
    · obtain ⟨i, k, hd⟩ := hrun
      by_cases hcd : c = d
      · subst hcd
        exact Or.inl ⟨i, rfl, by simp [next, hd]⟩
      · right
        rw [step_running hd]
        simp [advance, hcd]
    · right
      rw [step_idle hrun]

/-- The clients of a pool that finds expected states keep their preconditions. -/
theorem wp_step (h : Prog.Wp e M quit (pool.client c) (M.after m (pool.trace c)) post)
    (expected : M.Expected (M.after m (pool.trace c)) pool.state) (ev : PoolEvent C I) :
    Prog.Wp e M quit ((step (Pool.exec e) pool ev).client c)
      (M.after m ((step (Pool.exec e) pool ev).trace c)) post := by
  cases ev with
  | other i => exact h
  | step d =>
    by_cases hrun : pool.Running d
    · obtain ⟨i, k, hd⟩ := hrun
      rw [step_running hd]
      by_cases hcd : c = d
      · subst hcd
        rw [hd] at h
        simpa [advance, Monitor.after_concat] using (h _ expected).2
      · simpa [advance, hcd] using h
    · rwa [step_idle hrun]

/-- A client has found each of its commands' states at some point of the run. -/
theorem exists_prefix_of_mem_trace {s : σ} {p : C → Prog I R ε α} {l : List (PoolEvent C I)}
    {c : C} {y : σ × I} (hy : y ∈ (run (Pool.exec e) (start s p) l).trace c) :
    ∃ pre, pre <+: l ∧ y.1 = (run (Pool.exec e) (start s p) pre).state := by
  induction l using List.reverseRecOn with
  | nil => simp [start] at hy
  | append_singleton l ev ih =>
    have earlier : y ∈ (run (Pool.exec e) (start s p) l).trace c →
        ∃ pre, pre <+: l ++ [ev] ∧ y.1 = (run (Pool.exec e) (start s p) pre).state := by
      intro hl
      obtain ⟨pre, hpre, hstate⟩ := ih hl
      exact ⟨pre, hpre.trans (List.prefix_append _ _), hstate⟩
    rw [run_append, run_cons, run_nil] at hy
    cases ev with
    | other i => exact earlier hy
    | step d =>
      by_cases hrun : (run (Pool.exec e) (start s p) l).Running d
      · obtain ⟨i, k, hd⟩ := hrun
        rw [step_running hd] at hy
        by_cases hcd : c = d
        · subst hcd
          simp only [advance, Function.update_self, List.mem_append, List.mem_singleton] at hy
          rcases hy with hy | rfl
          · exact earlier hy
          · exact ⟨l, List.prefix_append _ _, rfl⟩
        · simp only [advance, Function.update_of_ne hcd] at hy
          exact earlier hy
      · rw [step_idle hrun] at hy
        exact earlier hy

end Pool

end Interleaving
