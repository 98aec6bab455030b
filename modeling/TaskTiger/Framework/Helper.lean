import TaskTiger.Framework.Recorder

namespace Interleaving

namespace Prog

variable {σ I ε α β : Type} {R : I → Type}

/-! A client that is run to its end. -/

/-- Only the outcome is left. -/
def done : Except ε α → Prog I R ε α
  | .ok a => ret a
  | .error e => raise e

/-- The client runs from s to its outcome, with the commands of the trace, and ends in t: the inputs
of others, before, between and after its commands, lead to related states. -/
inductive RunsTo (exec : (i : I) → σ → R i × σ) (rel : σ → σ → Prop) :
    Prog I R ε α → σ → List (σ × I) → Except ε α → σ → Prop where
  | done (out : Except ε α) (s : σ) : RunsTo exec rel (done out) s [] out s
  | other {p : Prog I R ε α} {s t : σ} {tr : List (σ × I)} {out : Except ε α} {i : I}
      (hi : rel s (exec i s).2) (h : RunsTo exec rel p (exec i s).2 tr out t) :
      RunsTo exec rel p s tr out t
  | call {i : I} {k : R i → Prog I R ε α} {s t : σ} {tr : List (σ × I)} {out : Except ε α}
      (h : RunsTo exec rel (k (exec i s).1) (exec i s).2 tr out t) :
      RunsTo exec rel (.call i k) s ((s, i) :: tr) out t

section

variable {exec : (i : I) → σ → R i × σ} {rel : σ → σ → Prop} {p : Prog I R ε α} {s t : σ}
  {tr : List (σ × I)} {out : Except ε α}

/-- Only the inputs from here on matter. -/
theorem go_congr {env env' : Nat → List I} {n : Nat} (same : ∀ m, n ≤ m → env m = env' m) (s : σ) :
    go exec env p n s = go exec env' p n s := by
  induction p generalizing n s with
  | ret a => rfl
  | raise e => rfl
  | call i k ih =>
    have rest := fun r t => ih r (n := n + 1) (fun m hm => same m (Nat.le_of_succ_le hm)) t
    simp only [go, same n le_rfl, rest]

/-- It is a run of the client in some environment. -/
theorem RunsTo.go (h : RunsTo exec rel p s tr out t) (n : Nat) :
    ∃ env, (go exec env p n s).result = out ∧ (go exec env p n s).trace = tr := by
  induction h generalizing n with
  | done out s => exact ⟨fun _ => [], by cases out <;> rfl, by cases out <;> rfl⟩
  | @other p s t tr out i hi h ih =>
    obtain ⟨env, result, trace⟩ := ih n
    cases p with
    | ret a => exact ⟨env, result, trace⟩
    | raise e => exact ⟨env, result, trace⟩
    | call j k =>
      let env' := Function.update env n (i :: env n)
      have later : ∀ m, n + 1 ≤ m → env' m = env m :=
        fun m hm => Function.update_of_ne (by omega) _ _
      have same : Prog.go exec env' (.call j k) n s = Prog.go exec env (.call j k) n (exec i s).2 := by
        simp only [Prog.go, env', Function.update_self, run_cons]
        rw [go_congr later]
        rfl
      exact ⟨env', same ▸ result, same ▸ trace⟩
  | @call i k s t tr out h ih =>
    obtain ⟨env, result, trace⟩ := ih (n + 1)
    let env' := Function.update env n []
    have later : ∀ m, n + 1 ≤ m → env' m = env m :=
      fun m hm => Function.update_of_ne (by omega) _ _
    refine ⟨env', ?_, ?_⟩
    · simp only [Prog.go, env', Function.update_self, run_nil]
      rw [go_congr later]
      exact result
    · simp only [Prog.go, env', Function.update_self, run_nil]
      rw [go_congr later, trace]

/-- The others have only led to related states, the last time after the client's last command. -/
theorem RunsTo.undisturbed (h : RunsTo exec rel p s tr out t) (refl : ∀ s, rel s s)
    (trans : ∀ s t u, rel s t → rel t u → rel s u) :
    Undisturbed exec rel s tr ∧ rel (endState exec s tr) t := by
  induction h with
  | done out s =>
    refine ⟨?_, refl s⟩
    intro pre y rest split
    simp at split
  | @other p s t tr out i hi h ih =>
    obtain ⟨undisturbed, last⟩ := ih
    constructor
    · intro pre y rest split
      have found := undisturbed pre y rest split
      cases pre with
      | nil => exact trans _ _ _ hi found
      | cons z pre => exact found
    · cases tr with
      | nil => exact trans _ _ _ hi last
      | cons z tr => exact last
  | @call i k s t tr out h ih =>
    obtain ⟨undisturbed, last⟩ := ih
    refine ⟨?_, last⟩
    intro pre y rest split
    cases pre with
    | nil =>
      obtain ⟨rfl, -⟩ := List.cons.inj split
      exact refl s
    | cons z pre =>
      obtain ⟨rfl, tail⟩ := List.cons.inj split
      exact undisturbed pre y rest tail

end

/-! A client with further inputs among its commands. -/

/-- The second client does what the first does, with inputs of B in between. -/
inductive Among (B : I → Prop) : Prog I R ε α → Prog I R ε α → Prop where
  | refl (p : Prog I R ε α) : Among B p p
  | beat {p q : Prog I R ε α} {i : I} (hi : B i) (h : Among B p q) :
      Among B p (.call i (fun _ => q))
  | call {i : I} {k k' : R i → Prog I R ε α} (h : ∀ r, Among B (k r) (k' r)) :
      Among B (.call i k) (.call i k')

section

variable {B : I → Prop} {p q : Prog I R ε α}

theorem Among.issues {Q : I → Prop} (h : Among B p q) (hB : ∀ i, B i → Q i) (hp : Issues Q p) :
    Issues Q q := by
  induction h with
  | refl p => exact hp
  | beat hi h ih => exact ⟨hB _ hi, fun _ => ih hp⟩
  | call h ih => exact ⟨hp.1, fun r => ih r (hp.2 r)⟩

theorem Among.raises {P : ε → Prop} (h : Among B p q) (hp : Raises P p) : Raises P q := by
  induction h with
  | refl p => exact hp
  | beat hi h ih => exact fun _ => ih hp
  | call h ih => exact fun r => ih r (hp r)

/-- It is enough to know what is done after the reply that the machine gives. -/
theorem among_call {i : I} {k : R i → Prog I R ε α} {r : R i} (h : Among B (k r) q) :
    ∃ k', Among B (.call i k) (.call i k') ∧ k' r = q := by
  classical
  refine ⟨Function.update k r q, .call (fun r' => ?_), Function.update_self _ _ _⟩
  by_cases here : r' = r
  · subst here
    rwa [Function.update_self]
  · rw [Function.update_of_ne here]
    exact .refl _

end

end Prog

/-! A process with two threads. The helper repeats an input of its own, each time after a wait, until
the stop event is set; the main thread sets it after its body and waits for the helper to end. -/

inductive MainPhase (I : Type) (R : I → Type) (ε β α : Type) where
  | body (p : Prog I R ε β)
  | joining (outcome : Except ε β)
  | rest (p : Prog I R ε α)

inductive HelperPhase where
  | waiting
  | awake
  | ended
  deriving DecidableEq

/-- The machine, both threads, and the commands of the process so far. -/
structure Threads (σ I : Type) (R : I → Type) (ε β α : Type) where
  state : σ
  main : MainPhase I R ε β α
  stopEvent : Bool
  helper : HelperPhase
  trace : List (σ × I)

/-- A turn of a thread, or an input of anyone else. The input of the helper depends on when it runs;
none is one that fails. -/
inductive ThreadTurn (I T : Type) where
  | main
  | helper (t : Option T)
  | other (i : I)

namespace Threads

variable {σ I T ε α β : Type} {R : I → Type}

def start (s : σ) (body : Prog I R ε β) : Threads σ I R ε β α := ⟨s, .body body, false, .waiting, []⟩

section

variable (exec : (i : I) → σ → R i × σ) (beat : T → I) (k : β → Prog I R ε α)

def issue (x : Threads σ I R ε β α) (i : I) : Threads σ I R ε β α :=
  { x with state := (exec i x.state).2, trace := x.trace ++ [(x.state, i)] }

def mainTurn (x : Threads σ I R ε β α) : Threads σ I R ε β α :=
  match x.main with
  | .body (.call i c) => { x.issue exec i with main := .body (c (exec i x.state).1) }
  | .body (.ret b) => { x with main := .joining (.ok b), stopEvent := true }
  | .body (.raise e) => { x with main := .joining (.error e), stopEvent := true }
  | .joining outcome =>
    match x.helper with
    | .ended => { x with main := .rest (Prog.done outcome >>= k) }
    | .waiting | .awake => x
  | .rest (.call i c) => { x.issue exec i with main := .rest (c (exec i x.state).1) }
  | .rest (.ret _) | .rest (.raise _) => x

/-- The wait ends when the event is set, or else at its timeout. -/
def helperTurn (t : Option T) (x : Threads σ I R ε β α) : Threads σ I R ε β α :=
  match x.helper with
  | .waiting => { x with helper := if x.stopEvent then .ended else .awake }
  | .awake =>
    match t with
    | some t => { x.issue exec (beat t) with helper := .waiting }
    | none => { x with helper := .waiting }
  | .ended => x

def turn : ThreadTurn I T → Threads σ I R ε β α → Unit × Threads σ I R ε β α
  | .main, x => ((), x.mainTurn exec k)
  | .helper t, x => ((), x.helperTurn exec beat t)
  | .other i, x => ((), { x with state := (exec i x.state).2 })

end

/-- The others lead to related states. -/
def Mild (exec : (i : I) → σ → R i × σ) (rel : σ → σ → Prop) (x : Threads σ I R ε β α) :
    ThreadTurn I T → Prop
  | .other i => rel x.state (exec i x.state).2
  | .main | .helper _ => True

/-- How the phases of the threads go together. -/
def Sound (x : Threads σ I R ε β α) : Prop :=
  match x.main with
  | .body _ => x.stopEvent = false ∧ x.helper ≠ .ended
  | .joining _ => x.stopEvent = true
  | .rest _ => x.stopEvent = true ∧ x.helper = .ended

variable {exec : (i : I) → σ → R i × σ} {beat : T → I} {k : β → Prog I R ε α}
  {rel : σ → σ → Prop} {x fin : Threads σ I R ε β α} {out : Except ε α}

theorem sound_start (s : σ) (body : Prog I R ε β) : (start s body : Threads σ I R ε β α).Sound :=
  ⟨rfl, by simp [start]⟩

theorem sound_step (sound : x.Sound) (a : ThreadTurn I T) : (step (turn exec beat k) x a).Sound := by
  obtain ⟨s, main, stop, helper, tr⟩ := x
  cases a with
  | other i => exact sound
  | main =>
    cases main with
    | body p => cases p with
      | call i c => exact sound
      | ret b => rfl
      | raise e => rfl
    | joining outcome => cases helper with
      | ended => exact ⟨sound, rfl⟩
      | waiting => exact sound
      | awake => exact sound
    | rest p => cases p <;> exact sound
  | helper t =>
    cases helper with
    | ended => exact sound
    | awake =>
      cases main with
      | body p => cases t <;> exact ⟨sound.1, by simp [step, turn, helperTurn]⟩
      | joining outcome => cases t <;> exact sound
      | rest p => exact absurd sound.2 (by simp)
    | waiting =>
      cases main with
      | body p =>
        obtain ⟨rfl, -⟩ := sound
        exact ⟨rfl, by simp [step, turn, helperTurn]⟩
      | joining outcome => exact sound
      | rest p => exact absurd sound.2 (by simp)

theorem sound_run (sound : x.Sound) (l : List (ThreadTurn I T)) :
    (run (turn exec beat k) x l).Sound := by
  induction l generalizing x with
  | nil => exact sound
  | cons a l ih => exact ih (sound_step sound a)

/-- From x, the process ends as its main thread alone would, with inputs of the helper among the
commands of the body. -/
def Finishes (exec : (i : I) → σ → R i × σ) (rel : σ → σ → Prop) (B : I → Prop)
    (k : β → Prog I R ε α) (x fin : Threads σ I R ε β α) (out : Except ε α) : Prop :=
  match x.main with
  | .body p => ∃ q tr, Prog.Among B p q ∧ Prog.RunsTo exec rel (q >>= k) x.state tr out fin.state ∧
      fin.trace = x.trace ++ tr
  | .joining outcome => ∃ q tr, Prog.Among B (Prog.done outcome) q ∧
      Prog.RunsTo exec rel (q >>= k) x.state tr out fin.state ∧ fin.trace = x.trace ++ tr
  | .rest p => ∃ tr, Prog.RunsTo exec rel p x.state tr out fin.state ∧ fin.trace = x.trace ++ tr

theorem finishes_step {B : I → Prop} (beats : ∀ t, B (beat t)) {a : ThreadTurn I T} (sound : x.Sound)
    (mild : x.Mild exec rel a) (h : Finishes exec rel B k (step (turn exec beat k) x a) fin out) :
    Finishes exec rel B k x fin out := by
  obtain ⟨s, main, stop, helper, before⟩ := x
  have appended : ∀ i tr, (before ++ [(s, i)]) ++ tr = before ++ (s, i) :: tr :=
    fun i => List.append_assoc before [(s, i)]
  cases a with
  | other i =>
    cases main with
    | rest p =>
      obtain ⟨tr, runs, trace⟩ := h
      exact ⟨tr, .other mild runs, trace⟩
    | _ =>
      obtain ⟨q, tr, among, runs, trace⟩ := h
      exact ⟨q, tr, among, .other mild runs, trace⟩
  | main =>
    cases main with
    | body p =>
      cases p with
      | call i c =>
        obtain ⟨q, tr, among, runs, trace⟩ := h
        obtain ⟨c', within, rfl⟩ := Prog.among_call among
        exact ⟨.call i c', (s, i) :: tr, within, .call runs, trace.trans (appended i tr)⟩
      | _ => exact h
    | joining outcome =>
      cases helper with
      | ended =>
        obtain ⟨tr, runs, trace⟩ := h
        exact ⟨Prog.done outcome, tr, .refl _, runs, trace⟩
      | _ => exact h
    | rest p =>
      cases p with
      | call i c =>
        obtain ⟨tr, runs, trace⟩ := h
        exact ⟨(s, i) :: tr, .call runs, trace.trans (appended i tr)⟩
      | _ => exact h
  | helper t =>
    cases helper with
    | awake =>
      cases t with
      | none => exact h
      | some t =>
        cases main with
        | rest p => exact absurd sound.2 (by simp)
        | _ =>
          obtain ⟨q, tr, among, runs, trace⟩ := h
          exact ⟨.call (beat t) (fun _ => q), _, .beat (beats t) among, .call runs,
            trace.trans (appended (beat t) tr)⟩
    | _ => exact h

/-- The two threads refine one: the process does what the main thread would do alone, with inputs of
the helper among the commands of the body only. -/
theorem finishes_run {B : I → Prop} (beats : ∀ t, B (beat t)) {l : List (ThreadTurn I T)}
    (sound : x.Sound) (mild : Along (turn exec beat k) (Mild exec rel) x l)
    (ended : (run (turn exec beat k) x l).main = .rest (Prog.done out)) :
    Finishes exec rel B k x (run (turn exec beat k) x l) out := by
  induction l generalizing x with
  | nil =>
    obtain ⟨s, main, stop, helper, before⟩ := x
    obtain rfl : main = .rest (Prog.done out) := ended
    exact ⟨[], .done out s, (List.append_nil before).symm⟩
  | cons a l ih => exact finishes_step beats sound mild.1 (ih (sound_step sound a) mild.2 ended)

/-! The main thread does not wait for long. -/

def isHelper : ThreadTurn I T → Bool
  | .helper _ => true
  | .main | .other _ => false

/-- How many turns the helper needs to end once the stop event is set. -/
def needs (x : Threads σ I R ε β α) : Nat :=
  match x.helper with
  | .awake => 2
  | .waiting => 1
  | .ended => 0

theorem needs_step (stopped : x.stopEvent = true) (a : ThreadTurn I T) :
    (step (turn exec beat k) x a).stopEvent = true ∧
      (step (turn exec beat k) x a).needs ≤ x.needs - (if isHelper a then 1 else 0) := by
  obtain ⟨s, main, stop, helper, before⟩ := x
  obtain rfl : stop = true := stopped
  cases a with
  | other i => exact ⟨rfl, le_rfl⟩
  | main =>
    cases main with
    | joining outcome => cases helper <;> exact ⟨rfl, le_rfl⟩
    | body p => cases p <;> exact ⟨rfl, le_rfl⟩
    | rest p => cases p <;> exact ⟨rfl, le_rfl⟩
  | helper t =>
    cases helper with
    | awake => cases t <;> exact ⟨rfl, le_rfl⟩
    | _ => exact ⟨rfl, le_rfl⟩

/-- Two turns of the helper are enough for it to end, whatever comes in between. -/
theorem ended_of_turns {l : List (ThreadTurn I T)} (stopped : x.stopEvent = true)
    (turns : x.needs ≤ l.countP isHelper) : (run (turn exec beat k) x l).helper = .ended := by
  induction l generalizing x with
  | nil =>
    obtain ⟨s, main, stop, helper, before⟩ := x
    cases helper with
    | ended => rfl
    | _ => simp [needs] at turns
  | cons a l ih =>
    obtain ⟨still, fewer⟩ : (step (turn exec beat k) x a).stopEvent = true ∧
        (step (turn exec beat k) x a).needs ≤ x.needs - (if isHelper a then 1 else 0) :=
      needs_step stopped a
    refine ih still (fewer.trans ?_)
    rw [List.countP_cons] at turns
    omega

/-- A main thread that is past its body goes on after two turns of the helper and one of its own. -/
theorem rest_of_turns {l : List (ThreadTurn I T)} (sound : x.Sound) (stopped : x.stopEvent = true)
    (turns : 2 ≤ l.countP isHelper) :
    ∃ p, (run (turn exec beat k) x (l ++ [.main])).main = .rest p := by
  have enough : x.needs ≤ 2 := by
    unfold needs
    cases x.helper <;> simp
  have ended : (run (turn exec beat k) x l).helper = .ended :=
    ended_of_turns stopped (enough.trans turns)
  have phases : (run (turn exec beat k) x l).Sound := sound_run sound l
  rw [run_append]
  generalize run (turn exec beat k) x l = y at ended phases
  obtain ⟨s, main, stop, helper, before⟩ := y
  obtain rfl : helper = .ended := ended
  cases main with
  | body p => exact absurd rfl phases.2
  | joining outcome => exact ⟨_, rfl⟩
  | rest p => cases p <;> exact ⟨_, rfl⟩

end Threads

end Interleaving
