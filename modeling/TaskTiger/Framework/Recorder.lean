import TaskTiger.Framework.Monitor

namespace Interleaving

namespace Prog

variable {σ I ε α : Type} {R : I → Type} {exec : (i : I) → σ → R i × σ}

/-! A client whose commands are all recorded. -/

/-- The state after the last command of a trace that has started in s. -/
def endState (exec : (i : I) → σ → R i × σ) (s : σ) (tr : List (σ × I)) : σ :=
  tr.foldl (fun _ y => (exec y.2 y.1).2) s

@[simp] theorem endState_nil (s : σ) : endState exec s [] = s := rfl

theorem endState_cons (s : σ) (y : σ × I) (tr : List (σ × I)) :
    endState exec s (y :: tr) = endState exec (exec y.2 y.1).2 tr := rfl

@[simp] theorem endState_concat (s : σ) (tr : List (σ × I)) (y : σ × I) :
    endState exec s (tr ++ [y]) = (exec y.2 y.1).2 := by
  simp [endState]

theorem state_go (p : Prog I R ε α) (env : Nat → List I) (n : Nat) (s : σ) :
    (go exec env p n s).state = endState exec s (go exec env p n s).trace := by
  induction p generalizing n s with
  | ret a => rfl
  | raise e => rfl
  | call i k ih =>
    change (go exec env _ (n + 1) _).state = endState exec s (_ :: (go exec env _ (n + 1) _).trace)
    rw [ih, endState_cons]

/-- Between two commands of the client, the others only lead to related states. -/
def Undisturbed (exec : (i : I) → σ → R i × σ) (rel : σ → σ → Prop) (s : σ)
    (tr : List (σ × I)) : Prop :=
  ∀ pre y rest, tr = pre ++ y :: rest → rel (endState exec s pre) y.1

theorem Undisturbed.mono {rel rel' : σ → σ → Prop} {s : σ} {tr : List (σ × I)}
    (h : Undisturbed exec rel s tr) (hrel : ∀ s t, rel s t → rel' s t) :
    Undisturbed exec rel' s tr :=
  fun pre y rest split => hrel _ _ (h pre y rest split)

/-- Nobody else runs a command. -/
theorem undisturbed_alone (p : Prog I R ε α) (n : Nat) (s : σ) :
    Undisturbed exec (fun s t => t = s) s (go exec (fun _ => []) p n s).trace := by
  induction p generalizing n s with
  | ret a =>
    intro pre y rest h
    simp at h
  | raise e =>
    intro pre y rest h
    simp at h
  | call i k ih =>
    intro pre y rest h
    cases pre with
    | nil =>
      obtain ⟨rfl, -⟩ := List.cons.inj h
      rfl
    | cons z pre =>
      obtain ⟨rfl, tail⟩ := List.cons.inj h
      rw [endState_cons]
      exact ih _ (n + 1) _ pre y rest tail

/-- Remembers the trace of a client that has started in s. -/
def recorder (exec : (i : I) → σ → R i × σ) (rel : σ → σ → Prop) (s : σ)
    (allowed : List (σ × I) → σ → I → Prop) : Monitor σ I (List (σ × I)) where
  Expected tr t := rel (endState exec s tr) t
  Allowed := allowed
  update tr t i := tr ++ [(t, i)]

theorem after_recorder {rel : σ → σ → Prop} {s : σ} {allowed : List (σ × I) → σ → I → Prop}
    (tr tr' : List (σ × I)) : (recorder exec rel s allowed).after tr tr' = tr ++ tr' := by
  induction tr' generalizing tr with
  | nil => simp [Monitor.after]
  | cons y tr' ih =>
    have rest := ih (tr ++ [y])
    rw [List.append_assoc] at rest
    exact rest

/-- A recorded run that is not disturbed. -/
theorem Concludes.recorded {rel : σ → σ → Prop} {s : σ} {allowed : List (σ × I) → σ → I → Prop}
    {p : Prog I R ε α} {quit : ε → List (σ × I) → Prop} {post : α → List (σ × I) → Prop}
    {env : Nat → List I} {n : Nat} (hp : Concludes exec (recorder exec rel s allowed) quit p [] post)
    (undisturbed : Undisturbed exec rel s (go exec env p n s).trace) :
    (∀ pre y rest, (go exec env p n s).trace = pre ++ y :: rest → allowed pre y.1 y.2) ∧
    (∀ a, (go exec env p n s).result = .ok a → post a (go exec env p n s).trace) ∧
    (∀ e, (go exec env p n s).result = .error e → quit e (go exec env p n s).trace) := by
  have expected : ∀ pre y rest, (go exec env p n s).trace = pre ++ y :: rest →
      (recorder exec rel s allowed).Expected ((recorder exec rel s allowed).after [] pre) y.1 := by
    intro pre y rest h
    rw [after_recorder]
    exact undisturbed pre y rest h
  have run := hp.outcome expected
  simp only [after_recorder, List.nil_append] at run
  exact run

/-! A client among others, whatever they do. -/

/-- If the client returns, post holds of what it returns and of its trace. -/
def Traces (exec : (i : I) → σ → R i × σ) (p : Prog I R ε α) (post : α → List (σ × I) → Prop) : Prop :=
  ∀ env n s a, (go exec env p n s).result = .ok a → post a (go exec env p n s).trace

section

variable {β : Type} {post : α → List (σ × I) → Prop}

theorem traces_any (p : Prog I R ε α) : Traces exec p (fun _ _ => True) := fun _ _ _ _ _ => trivial

theorem traces_pure {a : α} (h : post a []) : Traces exec (pure a : Prog I R ε α) post := by
  intro env n s b hb
  obtain rfl : a = b := by simpa using hb
  exact h

theorem traces_raise (e : ε) : Traces exec (raise e : Prog I R ε α) post := by
  intro env n s a h
  simp at h

theorem Traces.imp {p : Prog I R ε α} {post' : α → List (σ × I) → Prop} (hp : Traces exec p post)
    (h : ∀ a tr, post a tr → post' a tr) : Traces exec p post' :=
  fun env n s a ended => h a _ (hp env n s a ended)

theorem Traces.and {p : Prog I R ε α} {post' : α → List (σ × I) → Prop} (hp : Traces exec p post)
    (hp' : Traces exec p post') : Traces exec p (fun a tr => post a tr ∧ post' a tr) :=
  fun env n s a ended => ⟨hp env n s a ended, hp' env n s a ended⟩

theorem Issues.traces {Q : I → Prop} {p : Prog I R ε α} (hp : Issues Q p) :
    Traces exec p (fun _ tr => ∀ y ∈ tr, Q y.2) := fun _ n s _ _ => hp.trace n s

theorem Traces.bind {p : Prog I R ε α} {k : α → Prog I R ε β} {post' : β → List (σ × I) → Prop}
    (hp : Traces exec p post)
    (hk : ∀ a tr, post a tr → Traces exec (k a) (fun b tr' => post' b (tr ++ tr'))) :
    Traces exec (p >>= k) post' := by
  intro env n s b ended
  cases first : (go exec env p n s).result with
  | error e =>
    rw [go_bind_error k first] at ended
    simp at ended
  | ok a =>
    rw [go_bind_ok k first] at ended ⊢
    exact hk a _ (hp env n s a first) env _ _ b ended

theorem traces_ask_bind {i : I} {k : R i → Prog I R ε α}
    (hk : ∀ t, Traces exec (k (exec i t).1) (fun a tr => post a ((t, i) :: tr))) :
    Traces exec (ask i >>= k) post := by
  intro env n s a ended
  rw [go_ask_bind] at ended ⊢
  exact hk _ env _ _ a ended

end

/-! A client that runs alone. -/

def alone (exec : (i : I) → σ → R i × σ) (s : σ) : Monitor σ I (List (σ × I)) :=
  recorder exec (fun s t => t = s) s (fun _ _ _ => True)

theorem concludes_ask_alone {i : I} {k : R i → Prog I R ε α} {s t : σ} {tr : List (σ × I)}
    {quit : ε → List (σ × I) → Prop} {post : α → List (σ × I) → Prop}
    (here : endState exec s tr = t)
    (h : Concludes exec (alone exec s) quit (k (exec i t).1) (tr ++ [(t, i)]) post) :
    Concludes exec (alone exec s) quit (ask i >>= k) tr post := by
  apply concludes_ask_bind
  intro u hu
  obtain rfl : u = t := Eq.trans hu here
  exact ⟨trivial, h⟩

theorem Concludes.alone {s : σ} {p : Prog I R ε α} {quit : ε → List (σ × I) → Prop}
    {post : α → List (σ × I) → Prop} (hp : Concludes exec (alone exec s) quit p [] post) (n : Nat) :
    (∀ a, (go exec (fun _ => []) p n s).result = .ok a →
      post a (go exec (fun _ => []) p n s).trace) ∧
    (∀ e, (go exec (fun _ => []) p n s).result = .error e →
      quit e (go exec (fun _ => []) p n s).trace) :=
  (hp.recorded (undisturbed_alone p n s)).2

/-! A client besides others, of whose inputs it is known that they meet E. -/

/-- Between two commands of the client, the others only run such inputs. -/
theorem undisturbed_besides {E : I → Prop} {env : Nat → List I} (others : ∀ n, ∀ i ∈ env n, E i)
    (p : Prog I R ε α) (n : Nat) (s : σ) :
    Undisturbed exec (fun s t => ∃ l, (∀ i ∈ l, E i) ∧ t = run exec s l) s
      (go exec env p n s).trace := by
  induction p generalizing n s with
  | ret a =>
    intro pre y rest h
    simp at h
  | raise e =>
    intro pre y rest h
    simp at h
  | call i k ih =>
    intro pre y rest h
    cases pre with
    | nil =>
      obtain ⟨rfl, -⟩ := List.cons.inj h
      exact ⟨env n, others n, rfl⟩
    | cons z pre =>
      obtain ⟨rfl, tail⟩ := List.cons.inj h
      rw [endState_cons]
      exact ih _ (n + 1) _ pre y rest tail

/-- From a state that meets P, the client ends in a state that meets post, if it returns. -/
def Besides (exec : (i : I) → σ → R i × σ) (E : I → Prop) (P : σ → Prop) (p : Prog I R ε α)
    (post : α → σ → Prop) : Prop :=
  ∀ env, (∀ n, ∀ i ∈ env n, E i) → ∀ n s a, P s → (go exec env p n s).result = .ok a →
    post a (go exec env p n s).state

section

variable {β : Type} {E : I → Prop} {P Inv : σ → Prop} {post : α → σ → Prop}

theorem besides_pure {a : α} (h : ∀ s, P s → post a s) :
    Besides exec E P (pure a : Prog I R ε α) post := by
  intro env others n s b hs hb
  obtain rfl : a = b := by simpa using hb
  exact h s hs

theorem besides_raise (e : ε) : Besides exec E P (raise e : Prog I R ε α) post := by
  intro env others n s a hs h
  simp at h

theorem Besides.bind {p : Prog I R ε α} {k : α → Prog I R ε β} {post' : β → σ → Prop}
    (hp : Besides exec E P p post) (hk : ∀ a, Besides exec E (post a) (k a) post') :
    Besides exec E P (p >>= k) post' := by
  intro env others n s b hs ended
  cases first : (go exec env p n s).result with
  | error e =>
    rw [go_bind_error k first] at ended
    simp at ended
  | ok a =>
    rw [go_bind_ok k first] at ended ⊢
    exact hk a env others _ _ b (hp env others n s a hs first) ended

theorem stable_run (stable : ∀ i s, E i → P s → P (exec i s).2) {l : List I} (hl : ∀ i ∈ l, E i)
    {s : σ} (hs : P s) : P (run exec s l) := by
  induction l generalizing s with
  | nil => exact hs
  | cons i l ih =>
    exact ih (fun j hj => hl j (List.mem_cons_of_mem i hj)) (stable i s (hl i List.mem_cons_self) hs)

theorem besides_ask_bind {i : I} {k : R i → Prog I R ε α}
    (stable : ∀ i s, E i → P s → P (exec i s).2)
    (hk : ∀ s, P s → Besides exec E (fun t => t = (exec i s).2) (k (exec i s).1) post) :
    Besides exec E P (ask i >>= k) post := by
  intro env others n s a hs ended
  rw [go_ask_bind] at ended ⊢
  exact hk _ (stable_run stable (others n) hs) env others _ _ a rfl ended

theorem besides_ite {c : Prop} [Decidable c] {p q : Prog I R ε α} (hp : c → Besides exec E P p post)
    (hq : ¬c → Besides exec E P q post) : Besides exec E P (if c then p else q) post := by
  split_ifs with hc
  · exact hp hc
  · exact hq hc

/-- What every command keeps holds of all states that a client finds. -/
theorem trace_keeps (keep : ∀ i s, Inv s → Inv (exec i s).2) (p : Prog I R ε α) (env : Nat → List I)
    (n : Nat) {s : σ} (hs : Inv s) : ∀ y ∈ (go exec env p n s).trace, Inv y.1 := by
  have found (n : Nat) {s : σ} (hs : Inv s) : Inv (run exec s (env n)) :=
    stable_run (E := fun _ => True) (fun i s _ => keep i s) (fun _ _ => trivial) hs
  induction p generalizing n s with
  | ret a => simp
  | raise e => simp
  | call i k ih =>
    intro y hy
    rcases List.mem_cons.mp hy with rfl | hy
    · exact found n hs
    · exact ih _ (n + 1) (keep i _ (found n hs)) y hy

end

end Prog

end Interleaving
