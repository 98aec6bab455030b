import Mathlib

namespace Simulation

/-! Computations on a concrete state that do what is said in terms of an abstract one. -/

variable {σ τ ε α β : Type} {R : σ → τ → Prop}

/-- From any concrete state that stands for t the computation does not get stuck; what it returns,
and the abstract state that its end stands for, meet post. -/
def Runs (R : σ → τ → Prop) (p : StateT σ Option α) (t : τ) (post : α → τ → Prop) : Prop :=
  ∀ s, R s t → ∃ a s' t', p s = some (a, s') ∧ R s' t' ∧ post a t'

theorem runs_pure {a : α} {t : τ} {post : α → τ → Prop} (h : post a t) :
    Runs R (pure a : StateT σ Option α) t post :=
  fun s hs => ⟨a, s, t, rfl, hs, h⟩

theorem Runs.imp {p : StateT σ Option α} {t : τ} {post post' : α → τ → Prop} (hp : Runs R p t post)
    (h : ∀ a t, post a t → post' a t) : Runs R p t post' := by
  intro s hs
  obtain ⟨a, s', t', ran, stands, ha⟩ := hp s hs
  exact ⟨a, s', t', ran, stands, h a t' ha⟩

theorem Runs.bind {p : StateT σ Option α} {k : α → StateT σ Option β} {t : τ}
    {mid : α → τ → Prop} {post : β → τ → Prop} (hp : Runs R p t mid)
    (hk : ∀ a t, mid a t → Runs R (k a) t post) : Runs R (p >>= k) t post := by
  intro s hs
  obtain ⟨a, s', t', ran, stands, ha⟩ := hp s hs
  obtain ⟨b, s'', t'', ran', stands', hb⟩ := hk a t' ha s' stands
  refine ⟨b, s'', t'', ?_, stands', hb⟩
  change (p s).bind (fun x => k x.1 x.2) = some (b, s'')
  rw [ran]
  exact ran'

/-- After a computation with one outcome. -/
theorem Runs.andThen {p : StateT σ Option α} {k : α → StateT σ Option β} {t t' : τ} {a : α}
    {post : β → τ → Prop} (hp : Runs R p t (fun r u => r = a ∧ u = t'))
    (hk : Runs R (k a) t' post) : Runs R (p >>= k) t post := by
  refine hp.bind (fun r u h => ?_)
  obtain ⟨rfl, rfl⟩ := h
  exact hk

theorem runs_ite {c : Prop} [Decidable c] {p q : StateT σ Option α} {t : τ}
    {post : α → τ → Prop} (hp : c → Runs R p t post) (hq : ¬c → Runs R q t post) :
    Runs R (if c then p else q) t post := by
  split_ifs with h
  · exact hp h
  · exact hq h

/-- A loop is a fold. -/
theorem runs_forM {l : List α} {f : α → StateT σ Option PUnit} {g : τ → α → τ} {t : τ}
    (hf : ∀ a t, Runs R (f a) t (fun _ u => u = g t a)) :
    Runs R (l.forM f) t (fun _ u => u = l.foldl g t) := by
  induction l generalizing t with
  | nil => exact runs_pure rfl
  | cons a l ih =>
    refine (hf a t).bind (fun _ u hu => ?_)
    rw [hu]
    exact ih

/-! Computations that may end with an error, which keeps what they have done before. -/

theorem runs_lift {p : StateT σ Option α} {t : τ} {post : Except ε α → τ → Prop}
    (hp : Runs R p t (fun a u => post (.ok a) u)) :
    Runs R (ExceptT.lift p : ExceptT ε (StateT σ Option) α) t post := by
  intro s hs
  obtain ⟨a, s', t', ran, stands, h⟩ := hp s hs
  refine ⟨.ok a, s', t', ?_, stands, h⟩
  simp [ExceptT.lift, ExceptT.mk, Functor.map, StateT.map, ran]

theorem runs_throw {e : ε} {t : τ} {post : Except ε α → τ → Prop} (h : post (.error e) t) :
    Runs R (throw e : ExceptT ε (StateT σ Option) α) t post := runs_pure h

theorem runs_bind_except {p : ExceptT ε (StateT σ Option) α}
    {k : α → ExceptT ε (StateT σ Option) β} {t : τ} {mid : Except ε α → τ → Prop}
    {post : Except ε β → τ → Prop} (hp : Runs R p t mid)
    (ok : ∀ a t, mid (.ok a) t → Runs R (k a) t post)
    (error : ∀ e t, mid (.error e) t → post (.error e) t) :
    Runs R (p >>= k : ExceptT ε (StateT σ Option) β) t post := by
  refine Runs.bind (p := p) hp (fun r u h => ?_)
  cases r with
  | ok a => exact ok a u h
  | error e => exact runs_pure (error e u h)

/-- After a computation with one outcome. -/
theorem runs_ok_bind {p : ExceptT ε (StateT σ Option) α} {k : α → ExceptT ε (StateT σ Option) β}
    {t t' : τ} {a : α} {post : Except ε β → τ → Prop}
    (hp : Runs R p t (fun r u => r = .ok a ∧ u = t')) (hk : Runs R (k a) t' post) :
    Runs R (p >>= k : ExceptT ε (StateT σ Option) β) t post := by
  refine runs_bind_except hp (fun b u h => ?_) (fun e u h => ?_)
  · obtain ⟨same, rfl⟩ := h
    obtain rfl := Except.ok.inj same
    exact hk
  · cases h.1

/-- After a computation that raises. -/
theorem runs_error_bind {p : ExceptT ε (StateT σ Option) α}
    {k : α → ExceptT ε (StateT σ Option) β} {t t' : τ} {e : ε} {post : Except ε β → τ → Prop}
    (hp : Runs R p t (fun r u => r = .error e ∧ u = t')) (h : post (.error e) t') :
    Runs R (p >>= k : ExceptT ε (StateT σ Option) β) t post := by
  refine runs_bind_except hp (fun b u h => ?_) (fun x u hx => ?_)
  · cases h.1
  · obtain ⟨same, rfl⟩ := hx
    obtain rfl := Except.error.inj same
    exact h

/-- After a computation that cannot raise. -/
theorem runs_lift_bind {p : StateT σ Option α} {k : α → ExceptT ε (StateT σ Option) β} {t : τ}
    {mid : α → τ → Prop} {post : Except ε β → τ → Prop} (hp : Runs R p t mid)
    (hk : ∀ a t, mid a t → Runs R (k a) t post) :
    Runs R (ExceptT.lift p >>= k : ExceptT ε (StateT σ Option) β) t post := by
  have lifted : Runs R (ExceptT.lift p : ExceptT ε (StateT σ Option) α) t
      (fun r u => ∃ a, r = .ok a ∧ mid a u) := runs_lift (hp.imp (fun a u h => ⟨a, rfl, h⟩))
  refine runs_bind_except lifted ?_ ?_
  · intro a u h
    obtain ⟨b, same, hb⟩ := h
    obtain rfl := Except.ok.inj same
    exact hk a u hb
  · intro e u h
    obtain ⟨b, same, -⟩ := h
    cases same

/-- After a computation that only changes the state. -/
theorem runs_call_bind {p : StateT σ Option PUnit}
    {k : PUnit → ExceptT ε (StateT σ Option) β} {t t' : τ} {post : Except ε β → τ → Prop}
    (hp : Runs R p t (fun _ u => u = t')) (hk : Runs R (k ⟨⟩) t' post) :
    Runs R (ExceptT.lift p >>= k : ExceptT ε (StateT σ Option) β) t post := by
  refine runs_lift_bind hp (fun a u h => ?_)
  rw [h]
  exact hk

end Simulation
