import TaskTiger.Store.CommandEffects

namespace TaskTiger

open Redis Interleaving

variable {s : Store} {c : Command}

/-- The command pushes nothing later that is queued or scheduled before and after it. -/
def KeepsTimes (s : Store) (c : Command) : Prop :=
  ∀ st, st = .queued ∨ st = .scheduled → ∀ q id old new,
    s.score st q id = some old → (exec c s).2.score st q id = some new → new ≤ old

/-- The move of a failed task with a retry, or of a manual retry, finds the same id already
pending at its destination for an earlier time. -/
def Move.Postpones (m : Move) (s : Store) : Prop :=
  m.Effective s ∧ (m.kind = .retryLater ∨ m.kind = .retry) ∧
    ∃ st old, m.kind.toState = some st ∧ s.score st m.queue m.id = some old ∧ old < m.when

def Command.Postpones (s : Store) : Command → Prop
  | .move m => m.Postpones s
  | _ => False

def Command.isUpdateScheduledTime : Command → Bool
  | .updateScheduledTime .. => true
  | _ => false

theorem keepsTimes_delay {queue : String} {data : TaskData} {ts : Option Time} {now : Instant}
    {publish : Bool} : KeepsTimes s (.delay queue data ts now publish) := by
  intro st _ q id old new ho hn
  rw [score_delay, ho] at hn
  split_ifs at hn
  · exact le_of_eq (by simpa using hn.symm)
  · exact le_of_eq (by simpa using hn.symm)

theorem keepsTimes_pickup {queue : String} {count : Int} {now : Instant} {later : Time} :
    KeepsTimes s (.pickup queue count now later) := by
  intro st hst q id old new ho hn
  cases pickup_effect queue count now later s q id with
  | untouched scores =>
    rw [scores, ho] at hn
    exact le_of_eq (by simpa using hn.symm)
  | picked here pending idle scores =>
    rcases hst with rfl | rfl
    · simp [scores] at hn
    · rw [scores] at hn
      exact le_of_eq (by simpa [ho] using hn.symm)
  | diverted here pending busy scores =>
    rcases hst with rfl | rfl
    · simp [scores] at hn
    · have hmin : min old later = new := by simpa [scores, ho] using hn
      rw [← hmin]
      exact min_le_left old later
  | lost here pending popped failed scores =>
    rcases hst with rfl | rfl
    · simp [scores] at hn
    · rw [scores] at hn
      exact le_of_eq (by simpa [ho] using hn.symm)

theorem keepsTimes_promote {queue : String} {count : Int} {now : Instant} :
    KeepsTimes s (.promote queue count now) := by
  intro st hst q id old new ho hn
  cases promote_effect queue count now s q id with
  | untouched scores =>
    rw [scores, ho] at hn
    exact le_of_eq (by simpa using hn.symm)
  | promoted here due scores =>
    rcases hst with rfl | rfl
    · exact le_of_eq (by simpa [scores, ho] using hn.symm)
    · simp [scores] at hn
  | lost here due popped failed scores =>
    rcases hst with rfl | rfl
    · exact le_of_eq (by simpa [scores, ho] using hn.symm)
    · simp [scores] at hn

theorem keepsTimes_move {m : Move} : KeepsTimes s (.move m) ↔ ¬m.Postpones s := by
  constructor
  · intro h hp
    obtain ⟨he, hkind, st, old, hto, ho, hlt⟩ := hp
    have hst : st = .queued ∨ st = .scheduled := by
      rcases hkind with hk | hk
      · exact Or.inr (by simpa [hk, MoveKind.toState] using hto.symm)
      · exact Or.inl (by simpa [hk, MoveKind.toState] using hto.symm)
    have hne : st ≠ m.kind.fromState := by
      intro hc
      exact m.kind.toState_ne_fromState (hc ▸ hto)
    have hmode : m.kind.mode.newScore (some old) m.when = m.when := by
      rcases hkind with hk | hk <;> simp [hk, MoveKind.mode, Mode.newScore]
    have hn : (exec (.move m) s).2.score st m.queue m.id = some m.when := by
      rw [score_move he, if_pos ⟨rfl, rfl⟩, if_neg hne, if_pos hto, ho, hmode]
    exact absurd (h st hst m.queue m.id old m.when ho hn) (not_le.mpr hlt)
  · intro h st hst q id old new ho hn
    by_cases he : m.Effective s
    · rw [score_move he] at hn
      by_cases hk : q = m.queue ∧ id = m.id
      · obtain ⟨rfl, rfl⟩ := hk
        by_cases hf : st = m.kind.fromState
        · simp [hf] at hn
        · by_cases hto : m.kind.toState = some st
          · -- here the mode of the move decides
            rw [if_pos ⟨rfl, rfl⟩, if_neg hf, if_pos hto, ho] at hn
            obtain rfl : m.kind.mode.newScore (some old) m.when = new := by simpa using hn
            by_contra hlt
            cases hk : m.kind with
            | retryLater =>
              refine h ⟨he, Or.inl hk, st, old, hto, ho, ?_⟩
              simpa [hk, MoveKind.mode, Mode.newScore] using hlt
            | retry =>
              refine h ⟨he, Or.inr hk, st, old, hto, ho, ?_⟩
              simpa [hk, MoveKind.mode, Mode.newScore] using hlt
            | lockMiss => simp [hk, MoveKind.mode, Mode.newScore] at hlt
            | requeueExpired => simp [hk, MoveKind.mode, Mode.newScore] at hlt
            | fail =>
              obtain rfl : TaskState.error = st := by simpa [hk, MoveKind.toState] using hto
              simp at hst
            | failExpired =>
              obtain rfl : TaskState.error = st := by simpa [hk, MoveKind.toState] using hto
              simp at hst
            | _ => simp [hk, MoveKind.toState] at hto
          · rw [if_pos ⟨rfl, rfl⟩, if_neg hf, if_neg hto, ho] at hn
            exact le_of_eq (by simpa using hn.symm)
      · rw [if_neg hk, ho] at hn
        exact le_of_eq (by simpa using hn.symm)
    · rw [exec_move_of_not_effective he, ho] at hn
      exact le_of_eq (by simpa using hn.symm)

theorem keepsTimes_iff (hu : c.isUpdateScheduledTime = false) :
    KeepsTimes s c ↔ ¬c.Postpones s := by
  by_cases hp : c.Passive
  · have hc : ¬c.Postpones s := by
      cases c with
      | move => exact hp.elim
      | _ => exact id
    refine ⟨fun _ => hc, fun _ => ?_⟩
    intro st _ q id old new ho hn
    rw [Store.score, (exec_passive hp s).1] at hn
    exact le_of_eq (by simpa [ho] using hn.symm.trans ho)
  · cases c with
    | delay => exact ⟨fun _ => id, fun _ => keepsTimes_delay⟩
    | pickup => exact ⟨fun _ => id, fun _ => keepsTimes_pickup⟩
    | promote => exact ⟨fun _ => id, fun _ => keepsTimes_promote⟩
    | move => exact keepsTimes_move
    | heartbeat queue ids now =>
      refine ⟨fun _ => id, fun _ => ?_⟩
      intro st hst q id old new ho hn
      have hne : st ≠ .active := by rcases hst with rfl | rfl <;> simp
      rw [score_heartbeat, if_neg (fun hc => hne hc.1), ho] at hn
      exact le_of_eq (by simpa using hn.symm)
    | updateScheduledTime => simp [Command.isUpdateScheduledTime] at hu
    | _ => exact absurd trivial hp

/-- Along every run the steps postpone nothing exactly when no retry of the run, automatic or
manual, hits an id that is already pending for an earlier time. -/
theorem keepsTimes_run (l : List Command) (hu : ∀ c ∈ l, c.isUpdateScheduledTime = false) :
    Throughout KeepsTimes Store.empty l ↔
      Throughout (fun s c => ¬c.Postpones s) Store.empty l :=
  along_congr (fun _ c hc => keepsTimes_iff (hu c hc))

/-- A unique task is delayed again while it runs; then it fails and is retried. -/
def delayedWhileActive : List Command :=
  [.delay "default" { id := "u", func := "tasks:unique_task", unique := true } none
      1 true,
    .pickup "default" 1 2 3,
    .delay "default" { id := "u", func := "tasks:unique_task", unique := true } (some 500)
      3 true]

theorem keepsTimes_run_delayedWhileActive : Throughout KeepsTimes Store.empty delayedWhileActive :=
  (keepsTimes_run _ (by decide)).mpr ⟨id, id, id, trivial⟩

/-- The retry of the running instance takes the place of the earlier request. -/
theorem not_keepsTimes_retryLater : ¬∀ l : List Command,
    (∀ c ∈ l, c.isUpdateScheduledTime = false) → Throughout KeepsTimes Store.empty l := by
  intro h
  have hl := h (delayedWhileActive ++ [.move ⟨.retryLater, "default", "u", true, 1000, true⟩])
    (by decide)
  have hlast := (along_append.mp hl).2.1 .scheduled (Or.inr rfl) "default" "u" 500 1000
    (by decide +kernel) (by decide +kernel)
  norm_num at hlast

end TaskTiger
