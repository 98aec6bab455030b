import TaskTiger.Framework.Program

namespace Interleaving

namespace Prog

variable {σ I ε α β γ : Type} {R : I → Type} {exec : (i : I) → σ → R i × σ}

theorem bind_assoc (p : Prog I R ε α) (k : α → Prog I R ε β) (l : β → Prog I R ε γ) :
    (p >>= k) >>= l = p >>= fun a => k a >>= l := by
  change bind (bind p k) l = bind p (fun a => bind (k a) l)
  induction p with
  | ret a => rfl
  | raise e => rfl
  | call i c ih => exact congrArg (call i) (funext ih)

theorem bind_ret (p : Prog I R ε α) : p >>= ret = p := by
  change bind p ret = p
  induction p with
  | ret a => rfl
  | raise e => rfl
  | call i c ih => exact congrArg (call i) (funext ih)

/-- The client p has run the commands of the trace, each in the state it is listed with, and has
q left to do. -/
inductive Reaches (exec : (i : I) → σ → R i × σ) :
    Prog I R ε α → List (σ × I) → Prog I R ε α → Prop where
  | start (p : Prog I R ε α) : Reaches exec p [] p
  | call {i : I} {k : R i → Prog I R ε α} (s : σ) {tr : List (σ × I)} {q : Prog I R ε α}
      (h : Reaches exec (k (exec i s).1) tr q) : Reaches exec (.call i k) ((s, i) :: tr) q

variable {p q : Prog I R ε α} {tr : List (σ × I)}

/-- One more command. -/
theorem Reaches.concat {i : I} {k : R i → Prog I R ε α} (h : Reaches exec p tr (.call i k)) (s : σ) :
    Reaches exec p (tr ++ [(s, i)]) (k (exec i s).1) := by
  generalize hr : Prog.call i k = r at h
  induction h with
  | start p =>
    subst hr
    exact .call s (.start _)
  | call t h ih => exact .call t (ih hr)

/-- What a client has left to do is determined by what it has done. -/
theorem Reaches.unique {r : Prog I R ε α} (hq : Reaches exec p tr q) (hr : Reaches exec p tr r) :
    q = r := by
  induction hq with
  | start p =>
    cases hr
    rfl
  | call s h ih =>
    cases hr with
    | call _ h' => exact ih h'

theorem Reaches.append {tr' : List (σ × I)} {r : Prog I R ε α} (hq : Reaches exec p tr q)
    (hr : Reaches exec q tr' r) : Reaches exec p (tr ++ tr') r := by
  induction hq with
  | start p => exact hr
  | call s h ih => exact .call s (ih hr)

theorem Reaches.bind {k : α → Prog I R ε β} (h : Reaches exec p tr q) :
    Reaches exec (p >>= k) tr (q >>= k) := by
  induction h with
  | start p => exact .start _
  | call s h ih => exact .call s ih

/-- A sequence of two clients is in the first, or past it. -/
theorem reaches_bind {k : α → Prog I R ε β} {r : Prog I R ε β} (h : Reaches exec (p >>= k) tr r) :
    (∃ q, Reaches exec p tr q ∧ r = q >>= k) ∨
      ∃ first rest a, tr = first ++ rest ∧ Reaches exec p first (.ret a) ∧
        Reaches exec (k a) rest r := by
  change Reaches exec (Prog.bind p k) tr r at h
  induction p generalizing tr with
  | ret a => exact Or.inr ⟨[], tr, a, rfl, .start _, h⟩
  | raise e =>
    cases h
    exact Or.inl ⟨.raise e, .start _, rfl⟩
  | call i c ih =>
    cases h with
    | start => exact Or.inl ⟨.call i c, .start _, rfl⟩
    | call s h =>
      rcases ih _ h with ⟨q, hq, hr⟩ | ⟨first, rest, a, rfl, hfirst, hrest⟩
      · exact Or.inl ⟨q, .call s hq, hr⟩
      · exact Or.inr ⟨(s, i) :: first, rest, a, rfl, .call s hfirst, hrest⟩

/-- A sequence that has ended has ended in its second part. -/
theorem reaches_bind_ret {k : α → Prog I R ε β} {b : β} (h : Reaches exec (p >>= k) tr (.ret b)) :
    ∃ first rest a, tr = first ++ rest ∧ Reaches exec p first (.ret a) ∧
      Reaches exec (k a) rest (.ret b) := by
  rcases reaches_bind h with ⟨q, hq, hr⟩ | past
  · cases q with
    | ret a => exact ⟨tr, [], a, by simp, hq, hr ▸ .start _⟩
    | raise e => cases hr
    | call i c => cases hr
  · exact past

theorem reaches_ret {a : α} (h : Reaches exec (.ret a) tr q) : tr = [] ∧ q = .ret a := by
  cases h
  exact ⟨rfl, rfl⟩

theorem reaches_raise {x : ε} (h : Reaches exec (.raise x) tr q) : tr = [] ∧ q = .raise x := by
  cases h
  exact ⟨rfl, rfl⟩

theorem reaches_call {i : I} {k : R i → Prog I R ε α} (h : Reaches exec (.call i k) tr q) :
    (tr = [] ∧ q = .call i k) ∨
      ∃ s rest, tr = (s, i) :: rest ∧ Reaches exec (k (exec i s).1) rest q := by
  cases h with
  | start => exact Or.inl ⟨rfl, rfl⟩
  | call s h => exact Or.inr ⟨s, _, rfl, h⟩

theorem reaches_ask_bind {i : I} {k : R i → Prog I R ε α} (h : Reaches exec (ask i >>= k) tr q) :
    (tr = [] ∧ q = ask i >>= k) ∨
      ∃ s rest, tr = (s, i) :: rest ∧ Reaches exec (k (exec i s).1) rest q := reaches_call h

/-- The commands at the front of the trace that the client has run itself, and those of what follows
it. -/
def consume (exec : (i : I) → σ → R i × σ) : Prog I R ε α → List (σ × I) → List (σ × I) × List (σ × I)
  | .call i k, y :: tr =>
      let rest := consume exec (k (exec i y.1).1) tr
      (y :: rest.1, rest.2)
  | _, tr => ([], tr)

theorem Reaches.consume (h : Reaches exec p tr q) : Prog.consume exec p tr = (tr, []) := by
  induction h with
  | start p => cases p <;> rfl
  | call s h ih => simp [Prog.consume, ih]

theorem Reaches.consume_append {a : α} (h : Reaches exec p tr (.ret a)) (rest : List (σ × I)) :
    Prog.consume exec p (tr ++ rest) = (tr, rest) := by
  generalize hq : Prog.ret a = q at h
  induction h with
  | start p =>
    subst hq
    rfl
  | call s h ih => simp [Prog.consume, ih hq]

theorem Issues.reaches {Q : I → Prop} (hp : Issues Q p) (h : Reaches exec p tr q) :
    (∀ x ∈ tr, Q x.2) ∧ Issues Q q := by
  induction h with
  | start p => exact ⟨by simp, hp⟩
  | call s h ih =>
    obtain ⟨htr, hq⟩ := ih (hp.2 _)
    refine ⟨?_, hq⟩
    intro x hx
    rcases List.mem_cons.mp hx with rfl | hx
    · exact hp.1
    · exact htr x hx

/-- The input that a client runs next. -/
def next : Prog I R ε α → Option I
  | ret _ | raise _ => none
  | call i _ => some i

/-- A sequence of two clients runs the next command of the first, or is past it. -/
theorem reaches_bind_next {k : α → Prog I R ε β} {r : Prog I R ε β}
    (h : Reaches exec (p >>= k) tr r) :
    (∃ q, Reaches exec p tr q ∧ r.next = q.next) ∨
      ∃ first rest a, tr = first ++ rest ∧ Reaches exec p first (.ret a) ∧
        Reaches exec (k a) rest r := by
  rcases reaches_bind h with ⟨q, hq, rfl⟩ | past
  · cases q with
    | ret a => exact Or.inr ⟨tr, [], a, by simp, hq, .start _⟩
    | raise e => exact Or.inl ⟨.raise e, hq, rfl⟩
    | call i c => exact Or.inl ⟨.call i c, hq, rfl⟩
  · exact Or.inr past

end Prog

/-! A pool of clients that run concurrently on one machine. -/

/-- The state of the machine, what each client has left to do, and what it has done so far. -/
structure Pool (C σ I : Type) (R : I → Type) (ε α : Type) where
  state : σ
  client : C → Prog I R ε α
  trace : C → List (σ × I)

/-- A client of the pool runs its next command, or anyone else runs one. -/
inductive PoolEvent (C I : Type) where
  | step (c : C)
  | other (i : I)

namespace Pool

variable {C σ I ε α : Type} {R : I → Type} [DecidableEq C]

def start (s : σ) (p : C → Prog I R ε α) : Pool C σ I R ε α := ⟨s, p, fun _ => []⟩

/-- The pool after a client has run the command i and goes on with k. -/
def advance (exec : (i : I) → σ → R i × σ) (pool : Pool C σ I R ε α) (c : C) (i : I)
    (k : R i → Prog I R ε α) : Pool C σ I R ε α where
  state := (exec i pool.state).2
  client := Function.update pool.client c (k (exec i pool.state).1)
  trace := Function.update pool.trace c (pool.trace c ++ [(pool.state, i)])

def exec (exec : (i : I) → σ → R i × σ) :
    (e : PoolEvent C I) → Pool C σ I R ε α → Unit × Pool C σ I R ε α
  | .step c, pool =>
    match pool.client c with
    | .call i k => ((), pool.advance exec c i k)
    | .ret _ | .raise _ => ((), pool)
  | .other i, pool => ((), { pool with state := (exec i pool.state).2 })

/-- The client has commands left to run. -/
def Running (pool : Pool C σ I R ε α) (c : C) : Prop := ∃ i k, pool.client c = .call i k

variable {e : (i : I) → σ → R i × σ} {pool : Pool C σ I R ε α} {c : C}

theorem step_running {i : I} {k : R i → Prog I R ε α} (h : pool.client c = .call i k) :
    step (Pool.exec e) pool (.step c) = pool.advance e c i k := by
  simp only [step, Pool.exec, h]

theorem step_idle (h : ¬pool.Running c) : step (Pool.exec e) pool (.step c) = pool := by
  cases hc : pool.client c with
  | ret a => simp only [step, Pool.exec, hc]
  | raise x => simp only [step, Pool.exec, hc]
  | call i k => exact absurd ⟨i, k, hc⟩ h

/-- The input that the event runs. -/
def next (pool : Pool C σ I R ε α) : PoolEvent C I → Option I
  | .step c =>
    match pool.client c with
    | .call i _ => some i
    | .ret _ | .raise _ => none
  | .other i => some i

omit [DecidableEq C] in
theorem next_step (c : C) : pool.next (.step c) = (pool.client c).next := by
  cases h : pool.client c <;> simp only [next, Prog.next, h]

/-- The input that the event runs meets P in the state it finds. -/
def Meets (P : σ → I → Prop) (pool : Pool C σ I R ε α) (ev : PoolEvent C I) : Prop :=
  ∀ i, pool.next ev = some i → P pool.state i

instance {P : σ → I → Prop} [∀ s i, Decidable (P s i)] (pool : Pool C σ I R ε α)
    (ev : PoolEvent C I) : Decidable (pool.Meets P ev) :=
  match h : pool.next ev with
  | none => isTrue (by simp [Meets, h])
  | some i => decidable_of_iff (P pool.state i) (by simp [Meets, h])

theorem state_step (ev : PoolEvent C I) : (step (Pool.exec e) pool ev).state =
    match pool.next ev with
    | some i => step e pool.state i
    | none => pool.state := by
  cases ev with
  | other i => rfl
  | step c => cases hc : pool.client c <;> simp only [next, step, Pool.exec, hc, advance]

/-- A client is where its own commands have brought it. -/
def Reached (e : (i : I) → σ → R i × σ) (p : C → Prog I R ε α) (pool : Pool C σ I R ε α) : Prop :=
  ∀ c, Prog.Reaches e (p c) (pool.trace c) (pool.client c)

theorem reached_step {p : C → Prog I R ε α} (h : pool.Reached e p) (ev : PoolEvent C I) :
    (step (Pool.exec e) pool ev).Reached e p := by
  cases ev with
  | other i => exact h
  | step d =>
    by_cases hrun : pool.Running d
    · obtain ⟨i, k, hd⟩ := hrun
      rw [step_running hd]
      intro c
      by_cases hcd : c = d
      · subst hcd
        have here := h c
        rw [hd] at here
        simpa [advance] using here.concat pool.state
      · simpa [advance, hcd] using h c
    · rwa [step_idle hrun]

theorem reaches_run (s : σ) (p : C → Prog I R ε α) (l : List (PoolEvent C I)) (c : C) :
    Prog.Reaches e (p c) ((run (Pool.exec e) (start s p) l).trace c)
      ((run (Pool.exec e) (start s p) l).client c) := by
  have keep : ∀ (pool : Pool C σ I R ε α) (ev : PoolEvent C I), pool.Reached e p → True →
      (step (Pool.exec e) pool ev).Reached e p := fun _ ev h _ => reached_step h ev
  have always : Along (Pool.exec e) (fun _ _ => True) (start s p) l := along_of_forall (by simp)
  have first : (start s p).Reached e p := fun c => .start (p c)
  exact run_invariant keep first always c

end Pool

end Interleaving
