import TaskTiger.Framework.Pool

namespace Interleaving

namespace Prog

variable {σ I ε α β γ : Type} {R : I → Type}

/-! Programs that do the same but for silent inputs. -/

def visible (silent : I → Bool) (tr : List (σ × I)) : List (σ × I) := tr.filter (fun y => !silent y.2)

/-- If the first program has ended, so has the second, with the same exception if there was one. -/
def EndsAlike : Prog I R ε α → Prog I R ε β → Prop
  | .ret _, q => ∃ b, q = .ret b
  | .raise e, q => q = .raise e
  | .call _ _, _ => True

/-- Whatever p does, but for silent inputs one of the programs of Q may do too. -/
def Emulates (exec : (i : I) → σ → R i × σ) (silent : I → Bool) (p : Prog I R ε α)
    (Q : Prog I R ε β → Prop) : Prop :=
  ∀ tr q, Reaches exec p tr q →
    ∃ p', Q p' ∧ ∃ q', Reaches exec p' (visible silent tr) q' ∧ EndsAlike q q'

section

variable {exec : (i : I) → σ → R i × σ} {silent : I → Bool} {tr tr' : List (σ × I)}

theorem reaches_cons {p q : Prog I R ε α} {s : σ} {i : I} (h : Reaches exec p ((s, i) :: tr) q) :
    ∃ k, p = .call i k ∧ Reaches exec (k (exec i s).1) tr q := by
  cases h with
  | call s h => exact ⟨_, rfl, h⟩

theorem Reaches.rest {p q r : Prog I R ε α} (hr : Reaches exec p tr r)
    (hq : Reaches exec p (tr ++ tr') q) : Reaches exec r tr' q := by
  induction hr with
  | start p => exact hq
  | call s h ih =>
    obtain ⟨k, same, rest⟩ := reaches_cons hq
    cases same
    exact ih rest

theorem visible_append : visible silent (tr ++ tr') = visible silent tr ++ visible silent tr' :=
  List.filter_append tr tr'

theorem visible_of_silent {s : σ} {i : I} (hi : silent i = true) :
    visible silent ((s, i) :: tr) = visible silent tr := List.filter_cons_of_neg (by simp [hi])

theorem visible_of_visible {s : σ} {i : I} (hi : silent i = false) :
    visible silent ((s, i) :: tr) = (s, i) :: visible silent tr := List.filter_cons_of_pos (by simp [hi])

theorem visible_eq_self (h : ∀ y ∈ tr, silent y.2 = false) : visible silent tr = tr :=
  List.filter_eq_self.mpr (fun y hy => by simp [h y hy])

theorem Emulates.imp {p : Prog I R ε α} {Q Q' : Prog I R ε β → Prop} (hp : Emulates exec silent p Q)
    (h : ∀ p', Q p' → Q' p') : Emulates exec silent p Q' := by
  intro tr q reached
  obtain ⟨p', hp', rest⟩ := hp tr q reached
  exact ⟨p', h p' hp', rest⟩

theorem emulates_pure {Q : Prog I R ε β → Prop} {b : β} (h : Q (pure b)) (a : α) :
    Emulates exec silent (pure a : Prog I R ε α) Q := by
  intro tr q reached
  obtain ⟨rfl, rfl⟩ := reaches_ret reached
  exact ⟨pure b, h, pure b, .start _, b, rfl⟩

/-- A program without silent inputs does what it does. -/
theorem emulates_forget {p : Prog I R ε α} (hp : Issues (fun i => silent i = false) p) :
    Emulates exec silent p (fun p' => p' = p >>= fun _ => (pure () : Prog I R ε Unit)) := by
  intro tr q reached
  refine ⟨_, rfl, q >>= fun _ => pure (), ?_, ?_⟩
  · rw [visible_eq_self (hp.reaches reached).1]
    exact reached.bind
  · cases q with
    | ret a => exact ⟨(), rfl⟩
    | raise e => rfl
    | call i k => trivial

theorem emulates_self {p : Prog I R ε α} (hp : Issues (fun i => silent i = false) p) :
    Emulates exec silent p (fun p' => p' = p) := by
  intro tr q reached
  refine ⟨p, rfl, q, ?_, ?_⟩
  · rwa [visible_eq_self (hp.reaches reached).1]
  · cases q with
    | ret a => exact ⟨a, rfl⟩
    | raise e => rfl
    | call i k => trivial

theorem Emulates.bind {p : Prog I R ε α} {k : α → Prog I R ε γ} {Q Q' Q'' : Prog I R ε Unit → Prop}
    {m : α → Prop} (hp : Emulates exec silent p Q) (post : ∀ tr a, Reaches exec p tr (.ret a) → m a)
    (hk : ∀ a, m a → Emulates exec silent (k a) Q') (some : ∃ p', Q' p')
    (seq : ∀ p q, Q p → Q' q → Q'' (p >>= fun _ => q)) : Emulates exec silent (p >>= k) Q'' := by
  intro tr r reached
  have passed : ∀ first rest a, Reaches exec p first (.ret a) → Reaches exec (k a) rest r →
      ∃ p', Q'' p' ∧ ∃ q', Reaches exec p' (visible silent (first ++ rest)) q' ∧ EndsAlike r q' := by
    intro first rest a ended reached
    obtain ⟨p1, hp1, q1, reached1, b, rfl⟩ := hp first _ ended
    obtain ⟨p2, hp2, q2, reached2, alike⟩ := hk a (post first a ended) rest r reached
    refine ⟨p1 >>= fun _ => p2, seq p1 p2 hp1 hp2, q2, ?_, alike⟩
    rw [visible_append]
    exact reached1.bind.append reached2
  rcases reaches_bind reached with ⟨q, within, rfl⟩ | ⟨first, rest, a, rfl, ended, reached⟩
  · cases q with
    | ret a =>
      have here := passed tr [] a within (.start _)
      rwa [List.append_nil] at here
    | raise e =>
      obtain ⟨p1, hp1, q1, reached1, alike⟩ := hp tr _ within
      obtain rfl : q1 = .raise e := alike
      obtain ⟨p2, hp2⟩ := some
      exact ⟨p1 >>= fun _ => p2, seq p1 p2 hp1 hp2, _, reached1.bind, rfl⟩
    | call i c =>
      obtain ⟨p1, hp1, q1, reached1, -⟩ := hp tr _ within
      obtain ⟨p2, hp2⟩ := some
      exact ⟨p1 >>= fun _ => p2, seq p1 p2 hp1 hp2, _, reached1.bind, trivial⟩
  · exact passed first rest a ended reached

/-- A silent input, whatever the reply to it leads to. -/
theorem emulates_silent {i : I} {k : R i → Prog I R ε α} {Q : Prog I R ε β → Prop}
    (hi : silent i = true) (hk : ∀ r, Emulates exec silent (k r) Q) (some : ∃ p', Q p') :
    Emulates exec silent (ask i >>= k) Q := by
  intro tr q reached
  rcases reaches_ask_bind reached with ⟨rfl, rfl⟩ | ⟨s, rest, rfl, later⟩
  · obtain ⟨p', hp'⟩ := some
    exact ⟨p', hp', p', .start p', trivial⟩
  · rw [visible_of_silent hi]
    exact hk _ rest q later

/-- A visible input, after which the program that emulates may depend on the reply. -/
theorem emulates_ask {i : I} {k : R i → Prog I R ε α} {Q : Prog I R ε β → Prop}
    (hi : silent i = false)
    (hk : ∀ r, Emulates exec silent (k r) (fun p' => ∃ k', Q (ask i >>= k') ∧ k' r = p'))
    (some : ∃ p', Q p') : Emulates exec silent (ask i >>= k) Q := by
  intro tr q reached
  rcases reaches_ask_bind reached with ⟨rfl, rfl⟩ | ⟨s, rest, rfl, later⟩
  · obtain ⟨p', hp'⟩ := some
    exact ⟨p', hp', p', .start p', trivial⟩
  · obtain ⟨-, ⟨k', hk', rfl⟩, q', reached', alike⟩ := hk _ rest q later
    refine ⟨ask i >>= k', hk', q', ?_, alike⟩
    rw [visible_of_visible hi]
    exact .call s reached'

end

end Prog

/-! Pools of such programs. -/

namespace Pool

variable {C σ I ε α β : Type} {R : I → Type} [DecidableEq C] {e : (i : I) → σ → R i × σ}
  {pool : Pool C σ I R ε α} {pool' : Pool C σ I R ε β} {silent : I → Bool} {c : C}

/-- All inputs of a run, each with the state it finds. -/
def history (e : (i : I) → σ → R i × σ) :
    Pool C σ I R ε α → List (PoolEvent C I) → List (σ × I)
  | _, [] => []
  | pool, ev :: l =>
    (pool.next ev).toList.map (fun i => (pool.state, i)) ++ history e (step (Pool.exec e) pool ev) l

/-- The inputs of one client in a run. -/
def ranBy (e : (i : I) → σ → R i × σ) (c : C) :
    Pool C σ I R ε α → List (PoolEvent C I) → List (σ × I)
  | _, [] => []
  | pool, .other i :: l => ranBy e c (step (Pool.exec e) pool (.other i)) l
  | pool, .step d :: l =>
    (if c = d then (pool.next (.step d)).toList.map (fun i => (pool.state, i)) else []) ++
      ranBy e c (step (Pool.exec e) pool (.step d)) l

/-- What the event is for a client. -/
def runs (pool : Pool C σ I R ε α) (c : C) : PoolEvent C I → List (σ × I)
  | .other _ => []
  | .step d => if c = d then (pool.next (.step d)).toList.map (fun i => (pool.state, i)) else []

theorem ranBy_cons (ev : PoolEvent C I) (l : List (PoolEvent C I)) :
    ranBy e c pool (ev :: l) = pool.runs c ev ++ ranBy e c (step (Pool.exec e) pool ev) l := by
  cases ev with
  | other i => rfl
  | step d => rfl

omit [DecidableEq C] in
theorem next_idle (idle : ¬pool.Running c) : pool.next (.step c) = none := by
  cases hc : pool.client c with
  | call i k => exact absurd ⟨i, k, hc⟩ idle
  | ret a => simp only [next, hc]
  | raise x => simp only [next, hc]

omit [DecidableEq C] in
theorem next_running {i : I} {k : R i → Prog I R ε α} (h : pool.client c = .call i k) :
    pool.next (.step c) = some i := by simp only [next, h]

theorem runs_of_next {d : C} {i : I} (h : pool.next (.step d) = some i) :
    pool.runs c (.step d) = if c = d then [(pool.state, i)] else [] := by
  rw [runs, h]
  rfl

/-- An event brings each client as far as what it is for that client. -/
theorem reaches_runs (ev : PoolEvent C I) :
    Prog.Reaches e (pool.client c) (pool.runs c ev) ((step (Pool.exec e) pool ev).client c) := by
  cases ev with
  | other i => exact .start _
  | step d =>
    by_cases running : pool.Running d
    · obtain ⟨i, k, hd⟩ := running
      rw [runs_of_next (next_running hd), step_running hd]
      by_cases same : c = d
      · subst same
        rw [if_pos rfl, hd]
        simpa [advance] using Prog.Reaches.call pool.state (.start (k (e i pool.state).1))
      · simpa [advance, same] using Prog.Reaches.start (pool.client c)
    · rw [step_idle running, runs, next_idle running]
      simpa using Prog.Reaches.start (pool.client c)

theorem trace_step (ev : PoolEvent C I) :
    (step (Pool.exec e) pool ev).trace c = pool.trace c ++ pool.runs c ev := by
  cases ev with
  | other i => exact (List.append_nil _).symm
  | step d =>
    by_cases running : pool.Running d
    · obtain ⟨i, k, hd⟩ := running
      rw [runs_of_next (next_running hd), step_running hd]
      by_cases same : c = d
      · subst same
        simp [advance]
      · simp [advance, same]
    · rw [step_idle running, runs, next_idle running]
      simp

theorem trace_run (l : List (PoolEvent C I)) :
    (run (Pool.exec e) pool l).trace c = pool.trace c ++ ranBy e c pool l := by
  induction l generalizing pool with
  | nil => exact (List.append_nil _).symm
  | cons ev l ih => rw [run_cons, ih, trace_step, ranBy_cons, List.append_assoc]

/-- The second pool ends where its clients get with the visible inputs of those of the first. -/
structure Retraces (e : (i : I) → σ → R i × σ) (silent : I → Bool) (pool : Pool C σ I R ε α)
    (l : List (PoolEvent C I)) (pool' : Pool C σ I R ε β) (l' : List (PoolEvent C I)) : Prop where
  history : history e pool' l' = history e pool l
  state : (run (Pool.exec e) pool' l').state = (run (Pool.exec e) pool l).state
  clients : ∀ c q, Prog.Reaches e (pool'.client c) (Prog.visible silent (ranBy e c pool l)) q →
    (run (Pool.exec e) pool' l').client c = q
  ranBy : ∀ c, ranBy e c pool' l' = Prog.visible silent (ranBy e c pool l)

/-- The event of the second pool runs the same input, and is for each client what is visible of the
event of the first. -/
def Follows (silent : I → Bool) (pool : Pool C σ I R ε α) (ev : PoolEvent C I)
    (pool' : Pool C σ I R ε β) (ev' : PoolEvent C I) : Prop :=
  pool'.next ev' = pool.next ev ∧ ∀ c, pool'.runs c ev' = Prog.visible silent (pool.runs c ev)

section

variable {ev ev' : PoolEvent C I} {l l' : List (PoolEvent C I)}

theorem Follows.state_eq (follows : Follows silent pool ev pool' ev') (same : pool'.state = pool.state) :
    (step (Pool.exec e) pool' ev').state = (step (Pool.exec e) pool ev).state := by
  rw [state_step, state_step, follows.1, same]

/-- What is left for a client of the second pool. -/
theorem Follows.rest (follows : Follows silent pool ev pool' ev') {q : Prog I R ε β}
    (reached : Prog.Reaches e (pool'.client c) (Prog.visible silent (ranBy e c pool (ev :: l))) q) :
    Prog.Reaches e ((step (Pool.exec e) pool' ev').client c)
      (Prog.visible silent (ranBy e c (step (Pool.exec e) pool ev) l)) q := by
  rw [ranBy_cons, Prog.visible_append, ← follows.2] at reached
  exact (reaches_runs ev').rest reached

theorem Retraces.cons (follows : Follows silent pool ev pool' ev') (same : pool'.state = pool.state)
    (rest : Retraces e silent (step (Pool.exec e) pool ev) l (step (Pool.exec e) pool' ev') l') :
    Retraces e silent pool (ev :: l) pool' (ev' :: l') := by
  refine ⟨?_, rest.state, fun c q reached => rest.clients c q (follows.rest reached), fun c => ?_⟩
  · rw [Pool.history, Pool.history, rest.history, follows.1, same]
  · rw [ranBy_cons, ranBy_cons, Prog.visible_append, follows.2, rest.ranBy]

/-- An event that runs an input is followed by one of the same client, or by one of anyone else if
the input is silent. -/
theorem exists_follows {i : I} (input : pool.next ev = some i) (same : pool'.state = pool.state)
    (follow : ∀ c, ∃ q, Prog.Reaches e (pool'.client c) (Prog.visible silent (ranBy e c pool (ev :: l))) q) :
    ∃ ev', Follows silent pool ev pool' ev' := by
  cases ev with
  | other j => exact ⟨.other j, rfl, fun c => rfl⟩
  | step d =>
    have runs : ∀ c, pool.runs c (.step d) = if c = d then [(pool.state, i)] else [] :=
      fun c => runs_of_next input
    cases hi : silent i with
    | true =>
      refine ⟨.other i, input.symm, fun c => ?_⟩
      rw [runs]
      split_ifs with own
      · rw [Prog.visible_of_silent hi]
        rfl
      · rfl
    | false =>
      have first : ∀ tr, Prog.visible silent ((pool.state, i) :: tr) =
          (pool.state, i) :: Prog.visible silent tr := fun tr => Prog.visible_of_visible hi
      obtain ⟨q, reached⟩ := follow d
      rw [ranBy_cons, runs, if_pos rfl, List.singleton_append, first] at reached
      obtain ⟨k, hd, -⟩ := Prog.reaches_cons reached
      refine ⟨.step d, (next_running hd).trans input.symm, fun c => ?_⟩
      rw [runs_of_next (next_running hd), runs, same]
      split_ifs with own
      · exact (first []).symm
      · rfl

theorem exists_retraces (same : pool'.state = pool.state)
    (follow : ∀ c, ∃ q, Prog.Reaches e (pool'.client c) (Prog.visible silent (ranBy e c pool l)) q) :
    ∃ l', Retraces e silent pool l pool' l' := by
  induction l generalizing pool pool' with
  | nil => exact ⟨[], rfl, same, fun c q reached => (Prog.Reaches.start _).unique reached, fun _ => rfl⟩
  | cons ev l ih =>
    cases input : pool.next ev with
    | none =>
      -- the client has ended, and the second pool does nothing
      cases ev with
      | other i => cases input
      | step d =>
        have idle : ¬pool.Running d := by
          rintro ⟨i, k, hd⟩
          rw [next_running hd] at input
          cases input
        have stays : ∀ c, ranBy e c pool (.step d :: l) = ranBy e c pool l := by
          intro c
          rw [ranBy_cons, step_idle idle, runs, input]
          simp
        simp only [stays] at follow
        obtain ⟨l', retraced⟩ := ih same follow
        refine ⟨l', ?_, ?_, by simpa only [stays] using retraced.clients,
          by simpa only [stays] using retraced.ranBy⟩
        · rw [retraced.history, history, input, step_idle idle]
          rfl
        · rw [retraced.state, run_cons, step_idle idle]
    | some i =>
      obtain ⟨ev', follows⟩ := exists_follows input same follow
      have later : ∀ c, ∃ q, Prog.Reaches e ((step (Pool.exec e) pool' ev').client c)
          (Prog.visible silent (ranBy e c (step (Pool.exec e) pool ev) l)) q :=
        fun c => (follow c).imp (fun q reached => follows.rest reached)
      obtain ⟨l', retraced⟩ := ih (follows.state_eq same) later
      exact ⟨ev' :: l', Retraces.cons follows same retraced⟩

end

/-- The second pool comes to the same state by the same inputs. Each of its clients has run the
visible inputs of the client of the first, and has ended if that one has. -/
structure Mirrors (e : (i : I) → σ → R i × σ) (silent : I → Bool) (pool : Pool C σ I R ε α)
    (l : List (PoolEvent C I)) (pool' : Pool C σ I R ε β) (l' : List (PoolEvent C I)) : Prop where
  history : history e pool' l' = history e pool l
  state : (run (Pool.exec e) pool' l').state = (run (Pool.exec e) pool l).state
  trace : ∀ c, (run (Pool.exec e) pool' l').trace c =
    Prog.visible silent ((run (Pool.exec e) pool l).trace c)
  ends : ∀ c, Prog.EndsAlike ((run (Pool.exec e) pool l).client c)
    ((run (Pool.exec e) pool' l').client c)

/-- Where each client emulates one of a kind, every run of a pool is mirrored by one of a pool of
these. -/
theorem exists_mirrors {p : C → Prog I R ε α} {Q : C → Prog I R ε β → Prop}
    (emulates : ∀ c, Prog.Emulates e silent (p c) (Q c)) (s : σ) (l : List (PoolEvent C I)) :
    ∃ p' : C → Prog I R ε β, (∀ c, Q c (p' c)) ∧ ∃ l', Mirrors e silent (start s p) l (start s p') l' := by
  have ran : ∀ c, (run (Pool.exec e) (start s p) l).trace c = ranBy e c (start s p) l :=
    fun c => trace_run l
  have each : ∀ c, ∃ p', Q c p' ∧ ∃ q', Prog.Reaches e p' (Prog.visible silent
      (ranBy e c (start s p) l)) q' ∧ Prog.EndsAlike ((run (Pool.exec e) (start s p) l).client c) q' :=
    fun c => emulates c _ _ (ran c ▸ reaches_run s p l c)
  choose p' kind q' reached alike using each
  obtain ⟨l', retraced⟩ : ∃ l', Retraces e silent (start s p) l (start s p') l' :=
    exists_retraces rfl (fun c => ⟨q' c, reached c⟩)
  refine ⟨p', kind, l', retraced.history, retraced.state, fun c => ?_, fun c => ?_⟩
  · rw [trace_run, ran, retraced.ranBy]
    rfl
  · rw [retraced.clients c _ (reached c)]
    exact alike c

end Pool

end Interleaving
