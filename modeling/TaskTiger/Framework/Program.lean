import TaskTiger.Framework.Machine

namespace Interleaving

/-- A client: atomic commands on the shared machine, with exceptions between them. -/
inductive Prog (I : Type) (R : I → Type) (ε α : Type) where
  | ret (a : α)
  | raise (e : ε)
  | call (i : I) (k : R i → Prog I R ε α)

namespace Prog

variable {σ I ε α β : Type} {R : I → Type}

def bind : Prog I R ε α → (α → Prog I R ε β) → Prog I R ε β
  | ret a, k => k a
  | raise e, _ => raise e
  | call i c, k => call i (fun r => bind (c r) k)

instance : Monad (Prog I R ε) where
  pure := ret
  bind := bind

/-- try/except: the handler sees every exception and may raise it again. -/
def attempt : Prog I R ε α → (ε → Prog I R ε α) → Prog I R ε α
  | ret a, _ => ret a
  | raise e, h => h e
  | call i c, h => call i (fun r => attempt (c r) h)

/-- One command whose reply is the value. -/
def ask (i : I) : Prog I R ε (R i) := call i ret

/-- What a client did: its result, the state it left, and each of its commands with the
state the command found. -/
structure Outcome (σ I ε α : Type) where
  result : Except ε α
  state : σ
  trace : List (σ × I)

variable (exec : (i : I) → σ → R i × σ) (env : Nat → List I)

/-- Runs a client against an environment: before its n-th command the other clients
run the inputs env n. -/
def go : Prog I R ε α → Nat → σ → Outcome σ I ε α
  | ret a, _, s => ⟨.ok a, s, []⟩
  | raise e, _, s => ⟨.error e, s, []⟩
  | call i k, n, s =>
      let t := run exec s (env n)
      let o := go (k (exec i t).1) (n+1) (exec i t).2
      ⟨o.result, o.state, (t, i) :: o.trace⟩

variable {exec env}

@[simp] theorem go_ret (a : α) (n : Nat) (s : σ) :
    go exec env (ret a : Prog I R ε α) n s = ⟨.ok a, s, []⟩ := rfl

@[simp] theorem go_pure (a : α) (n : Nat) (s : σ) :
    go exec env (pure a : Prog I R ε α) n s = ⟨.ok a, s, []⟩ := rfl

@[simp] theorem go_raise (e : ε) (n : Nat) (s : σ) :
    go exec env (raise e : Prog I R ε α) n s = ⟨.error e, s, []⟩ := rfl

theorem go_ask (i : I) (n : Nat) (s : σ) :
    go exec env (ask i : Prog I R ε (R i)) n s =
      ⟨.ok (exec i (run exec s (env n))).1, (exec i (run exec s (env n))).2,
        [(run exec s (env n), i)]⟩ := rfl

theorem go_ask_bind (i : I) (k : R i → Prog I R ε α) (n : Nat) (s : σ) :
    go exec env (ask i >>= k) n s =
      let t := run exec s (env n)
      let o := go exec env (k (exec i t).1) (n + 1) (exec i t).2
      ⟨o.result, o.state, (t, i) :: o.trace⟩ := rfl

theorem go_bind_error {p : Prog I R ε α} (k : α → Prog I R ε β) {n : Nat} {s : σ} {e : ε}
    (h : (go exec env p n s).result = .error e) :
    go exec env (p >>= k) n s = ⟨.error e, (go exec env p n s).state, (go exec env p n s).trace⟩ := by
  change go exec env (bind p k) n s = _
  induction p generalizing n s with
  | ret a => simp at h
  | raise x =>
    obtain rfl : x = e := by simpa using h
    rfl
  | call i c ih => simp only [bind, go, ih _ h]

theorem go_bind_ok {p : Prog I R ε α} (k : α → Prog I R ε β) {n : Nat} {s : σ} {a : α}
    (h : (go exec env p n s).result = .ok a) :
    go exec env (p >>= k) n s =
      let o := go exec env p n s
      let q := go exec env (k a) (n + o.trace.length) o.state
      ⟨q.result, q.state, o.trace ++ q.trace⟩ := by
  change go exec env (bind p k) n s = _
  induction p generalizing n s with
  | ret b =>
    obtain rfl : b = a := by simpa using h
    rfl
  | raise x => simp at h
  | call i c ih => simp [bind, go, ih _ h, Nat.add_assoc, Nat.add_comm 1]

/-- A result computed from that of p. -/
theorem result_bind_pure {p : Prog I R ε α} {f : α → β} {n : Nat} {s : σ} :
    (go exec env (p >>= fun a => pure (f a)) n s).result = (go exec env p n s).result.map f := by
  cases hr : (go exec env p n s).result with
  | error e =>
    rw [go_bind_error _ hr]
    rfl
  | ok a =>
    rw [go_bind_ok _ hr]
    rfl

theorem exists_of_go_bind_pure {p : Prog I R ε α} {f : α → β} {n : Nat} {s : σ} {b : β}
    (h : (go exec env (p >>= fun a => pure (f a)) n s).result = .ok b) :
    ∃ a, (go exec env p n s).result = .ok a ∧ f a = b := by
  rw [result_bind_pure] at h
  cases hr : (go exec env p n s).result with
  | error e =>
    rw [hr] at h
    cases h
  | ok a =>
    rw [hr] at h
    exact ⟨a, rfl, by simpa [Except.map] using h⟩

theorem go_attempt_ok {p : Prog I R ε α} (c : ε → Prog I R ε α) {n : Nat} {s : σ} {a : α}
    (h : (go exec env p n s).result = .ok a) :
    go exec env (attempt p c) n s = ⟨.ok a, (go exec env p n s).state, (go exec env p n s).trace⟩ := by
  induction p generalizing n s with
  | ret b =>
    obtain rfl : b = a := by simpa using h
    rfl
  | raise x => simp at h
  | call i k ih => simp only [attempt, go, ih _ h]

theorem go_attempt_error {p : Prog I R ε α} (c : ε → Prog I R ε α) {n : Nat} {s : σ} {e : ε}
    (h : (go exec env p n s).result = .error e) :
    go exec env (attempt p c) n s =
      let o := go exec env p n s
      let q := go exec env (c e) (n + o.trace.length) o.state
      ⟨q.result, q.state, o.trace ++ q.trace⟩ := by
  induction p generalizing n s with
  | ret b => simp at h
  | raise x =>
    obtain rfl : x = e := by simpa using h
    rfl
  | call i k ih => simp [attempt, go, ih _ h, Nat.add_assoc, Nat.add_comm 1]

/-- The exception e leaves p exactly when one of p's own commands is bad in the state it
finds, whatever the other clients do in between. -/
def EscapesIff (exec : (i : I) → σ → R i × σ) (e : ε) (Bad : σ → I → Prop)
    (p : Prog I R ε α) : Prop :=
  ∀ env n s, (go exec env p n s).result = .error e ↔
    ∃ x ∈ (go exec env p n s).trace, Bad x.1 x.2

variable {e : ε} {Bad : σ → I → Prop}

theorem escapesIff_pure (a : α) : EscapesIff exec e Bad (pure a : Prog I R ε α) := by
  intro env n s
  simp

theorem escapesIff_raise {x : ε} (h : x ≠ e) : EscapesIff exec e Bad (raise x : Prog I R ε α) := by
  intro env n s
  simp [h]

/-- A command that is bad exactly when its client raises e at the reply. -/
theorem escapesIff_call {i : I} {k : R i → Prog I R ε α}
    (bad : ∀ s, Bad s i → k (exec i s).1 = raise e)
    (good : ∀ s, ¬Bad s i → EscapesIff exec e Bad (k (exec i s).1)) :
    EscapesIff exec e Bad (call i k) := by
  intro env n s
  by_cases hb : Bad (run exec s (env n)) i
  · simp [go, bad _ hb, hb]
  · have rest := good _ hb env (n+1) (exec i (run exec s (env n))).2
    simp [go, rest, hb]

/-- A harmless command raises nothing itself. -/
theorem escapesIff_ask {i : I} (h : ∀ s, ¬Bad s i) :
    EscapesIff exec e Bad (ask i : Prog I R ε (R i)) :=
  escapesIff_call (fun s hb => absurd hb (h s)) (fun _ _ => escapesIff_pure _)

theorem escapesIff_bind {p : Prog I R ε α} {k : α → Prog I R ε β}
    (hp : EscapesIff exec e Bad p) (hk : ∀ a, EscapesIff exec e Bad (k a)) :
    EscapesIff exec e Bad (p >>= k) := by
  intro env n s
  have first := hp env n s
  cases hr : (go exec env p n s).result with
  | error x =>
    rw [hr] at first
    rw [go_bind_error k hr]
    simpa using first
  | ok a =>
    rw [hr] at first
    have none_bad : ¬∃ x ∈ (go exec env p n s).trace, Bad x.1 x.2 :=
      fun hb => by simpa using first.mpr hb
    have second := hk a env (n + (go exec env p n s).trace.length) (go exec env p n s).state
    rw [go_bind_ok k hr]
    simp only [List.mem_append, second]
    constructor
    · rintro ⟨x, hx, hb⟩
      exact ⟨x, Or.inr hx, hb⟩
    · rintro ⟨x, hx | hx, hb⟩
      · exact absurd ⟨x, hx, hb⟩ none_bad
      · exact ⟨x, hx, hb⟩

theorem escapesIff_ite {c : Prop} [Decidable c] {p q : Prog I R ε α}
    (hp : EscapesIff exec e Bad p) (hq : EscapesIff exec e Bad q) :
    EscapesIff exec e Bad (if c then p else q) := by
  split_ifs
  · exact hp
  · exact hq

theorem escapesIff_forM {l : List α} {f : α → Prog I R ε PUnit}
    (hf : ∀ a, EscapesIff exec e Bad (f a)) : EscapesIff exec e Bad (l.forM f) := by
  induction l with
  | nil => exact escapesIff_pure _
  | cons a l ih => exact escapesIff_bind (hf a) (fun _ => ih)

/-! The commands a client can issue. -/

/-- Whatever the replies are, all commands of the client meet Q. -/
def Issues (Q : I → Prop) : Prog I R ε α → Prop
  | ret _ => True
  | raise _ => True
  | call i k => Q i ∧ ∀ r, Issues Q (k r)

variable {Q : I → Prop}

theorem issues_ask {i : I} (h : Q i) : Issues Q (ask i : Prog I R ε (R i)) :=
  ⟨h, fun _ => trivial⟩

theorem issues_bind {p : Prog I R ε α} {k : α → Prog I R ε β} (hp : Issues Q p)
    (hk : ∀ a, Issues Q (k a)) : Issues Q (p >>= k) := by
  change Issues Q (bind p k)
  induction p with
  | ret a => exact hk a
  | raise e => trivial
  | call i c ih => exact ⟨hp.1, fun r => ih r (hp.2 r)⟩

theorem issues_attempt {p : Prog I R ε α} {c : ε → Prog I R ε α} (hp : Issues Q p)
    (hc : ∀ e, Issues Q (c e)) : Issues Q (attempt p c) := by
  induction p with
  | ret a => trivial
  | raise e => exact hc e
  | call i k ih => exact ⟨hp.1, fun r => ih r (hp.2 r)⟩

theorem issues_ite {c : Prop} [Decidable c] {p q : Prog I R ε α} (hp : Issues Q p)
    (hq : Issues Q q) : Issues Q (if c then p else q) := by
  split_ifs
  · exact hp
  · exact hq

theorem issues_forM {l : List α} {f : α → Prog I R ε PUnit} (hf : ∀ a, Issues Q (f a)) :
    Issues Q (l.forM f) := by
  induction l with
  | nil => trivial
  | cons a l ih => exact issues_bind (hf a) (fun _ => ih)

theorem Issues.mono {Q' : I → Prop} {p : Prog I R ε α} (hp : Issues Q p) (h : ∀ i, Q i → Q' i) :
    Issues Q' p := by
  induction p with
  | ret a => trivial
  | raise e => trivial
  | call i k ih => exact ⟨h i hp.1, fun r => ih r (hp.2 r)⟩

theorem Issues.trace {p : Prog I R ε α} (hp : Issues Q p) (n : Nat) (s : σ) :
    ∀ x ∈ (go exec env p n s).trace, Q x.2 := by
  induction p generalizing n s with
  | ret a => simp
  | raise e => simp
  | call i k ih =>
    intro x hx
    rcases List.mem_cons.mp hx with rfl | hx
    · exact hp.1
    · exact ih _ (hp.2 _) _ _ x hx

/-- try/except around harmless commands, with a handler for e alone. -/
theorem escapesIff_attempt {p : Prog I R ε α} {c : ε → Prog I R ε α}
    (hp : Issues (fun i => ∀ s, ¬Bad s i) p) (hc : EscapesIff exec e Bad (c e))
    (other : ∀ x, x ≠ e → c x = raise x) : EscapesIff exec e Bad (attempt p c) := by
  intro env n s
  have harmless : ∀ x ∈ (go exec env p n s).trace, ¬Bad x.1 x.2 :=
    fun x hx => hp.trace n s x hx x.1
  cases hr : (go exec env p n s).result with
  | ok a =>
    rw [go_attempt_ok c hr]
    simpa using harmless
  | error x =>
    rw [go_attempt_error c hr]
    by_cases hx : x = e
    · subst hx
      have handler := hc env (n + (go exec env p n s).trace.length) (go exec env p n s).state
      simp only [List.mem_append, handler]
      constructor
      · rintro ⟨y, hy, hb⟩
        exact ⟨y, Or.inr hy, hb⟩
      · rintro ⟨y, hy | hy, hb⟩
        · exact absurd hb (harmless y hy)
        · exact ⟨y, hy, hb⟩
    · rw [other x hx]
      simpa [hx] using harmless

/-! A client alone on the machine. -/

/-- What the client does when nobody else runs a command: it returns a and leaves t. -/
def Returns (exec : (i : I) → σ → R i × σ) (p : Prog I R ε α) (s : σ) (a : α) (t : σ) : Prop :=
  ∀ n, (go exec (fun _ => []) p n s).result = .ok a ∧ (go exec (fun _ => []) p n s).state = t

theorem returns_pure (a : α) (s : σ) : Returns exec (pure a : Prog I R ε α) s a s :=
  fun _ => ⟨rfl, rfl⟩

theorem returns_ask (i : I) (s : σ) :
    Returns exec (ask i : Prog I R ε (R i)) s (exec i s).1 (exec i s).2 :=
  fun _ => ⟨rfl, rfl⟩

theorem Returns.bind {p : Prog I R ε α} {k : α → Prog I R ε β} {s t u : σ} {a : α} {b : β}
    (hp : Returns exec p s a t) (hk : Returns exec (k a) t b u) :
    Returns exec (p >>= k) s b u := by
  intro n
  rw [go_bind_ok k (hp n).1]
  have rest := hk (n + (go exec (fun _ => []) p n s).trace.length)
  rwa [← (hp n).2] at rest

theorem returns_call {i : I} {k : R i → Prog I R ε α} {s t : σ} {a : α}
    (hk : Returns exec (k (exec i s).1) (exec i s).2 a t) : Returns exec (call i k) s a t :=
  fun n => hk (n + 1)

theorem Returns.attempt {p : Prog I R ε α} {c : ε → Prog I R ε α} {s t : σ} {a : α}
    (hp : Returns exec p s a t) : Returns exec (attempt p c) s a t := by
  intro n
  rw [go_attempt_ok c (hp n).1]
  exact ⟨rfl, (hp n).2⟩

theorem Returns.unique {p : Prog I R ε α} {s t u : σ} {a b : α} (h₁ : Returns exec p s a t)
    (h₂ : Returns exec p s b u) : a = b ∧ t = u := by
  have results := (h₁ 0).1.symm.trans (h₂ 0).1
  exact ⟨by simpa using results, (h₁ 0).2.symm.trans (h₂ 0).2⟩

/-- A client whose commands only read leaves the state as it was. -/
theorem Issues.state_eq {p : Prog I R ε α} (hp : Issues Q p) (reads : ∀ i, Q i → ∀ s, (exec i s).2 = s)
    (n : Nat) (s : σ) : (go exec (fun _ => []) p n s).state = s := by
  induction p generalizing n with
  | ret a => rfl
  | raise e => rfl
  | call i k ih =>
    have same : (exec i s).2 = s := reads i hp.1 s
    change (go exec (fun _ => []) (k (exec i s).1) (n + 1) (exec i s).2).state = s
    rw [same]
    exact ih _ (hp.2 _) (n + 1)

end Prog

end Interleaving
