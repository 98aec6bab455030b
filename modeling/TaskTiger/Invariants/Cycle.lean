import TaskTiger.Invariants.NoLeak
import TaskTiger.Invariants.Ownership

namespace TaskTiger

open Redis Interleaving

variable {s : Store} {q x : String}

/-- The id is in QUEUED, SCHEDULED or ACTIVE of the queue. -/
def InCycle (q x : String) (s : Store) : Prop :=
  x ∈ s.zset .queued q ∨ x ∈ s.zset .scheduled q ∨ x ∈ s.zset .active q

instance (q x : String) (s : Store) : Decidable (InCycle q x s) :=
  inferInstanceAs (Decidable (_ ∨ _ ∨ _))

theorem inCycle_iff : InCycle q x s ↔ ∃ st, st ≠ .error ∧ x ∈ s.zset st q := by
  constructor
  · rintro (h | h | h)
    · exact ⟨.queued, by simp, h⟩
    · exact ⟨.scheduled, by simp, h⟩
    · exact ⟨.active, by simp, h⟩
  · rintro ⟨st, hst, h⟩
    cases st with
    | queued => exact Or.inl h
    | scheduled => exact Or.inr (Or.inl h)
    | active => exact Or.inr (Or.inr h)
    | error => exact absurd rfl hst

/-- The id is in QUEUED, SCHEDULED or ACTIVE of the queue, apart from the state st. -/
def InCycleBut (st : TaskState) (q x : String) (s : Store) : Prop :=
  ∃ st', st' ≠ .error ∧ st' ≠ st ∧ x ∈ s.zset st' q

instance (st : TaskState) (q x : String) (s : Store) : Decidable (InCycleBut st q x s) :=
  inferInstanceAs (Decidable (∃ _, _))

theorem InCycleBut.inCycle {st : TaskState} (h : InCycleBut st q x s) : InCycle q x s := by
  obtain ⟨st', herr, -, hin⟩ := h
  exact inCycle_iff.mpr ⟨st', herr, hin⟩

/-- The script succeeds, or the id of its batch is not in the source alone. -/
def Zpoppush.KeepsCycle (a : Zpoppush) (q x : String) (s : Store) : Prop :=
  a.queue = q → x ∈ a.members s → a.Fits s ∨ InCycleBut a.source q x s

instance (a : Zpoppush) (q x : String) (s : Store) : Decidable (a.KeepsCycle q x s) :=
  inferInstanceAs (Decidable (_ → _ → _ ∨ _))

/-- The command takes the id out of no state of the cycle for good while it is in no other: a
move to ERROR or out of the queue, such as that of an expiry or of the finish of an execution,
finds it in QUEUED or SCHEDULED already. -/
def Command.KeepsCycle (q x : String) (s : Store) : Command → Prop
  | .move m => m.queue = q → m.id = x → m.Effective s →
      m.kind.toState = none ∨ m.kind.toState = some .error → InCycleBut m.kind.fromState q x s
  | .pickup queue count now later => (pickupArgs queue count now later).KeepsCycle q x s
  | .promote queue count now => (promoteArgs queue count now).KeepsCycle q x s
  | _ => True

instance (q x : String) (s : Store) (c : Command) : Decidable (c.KeepsCycle q x s) := by
  induction c using Command.casesOn with
  | move m => exact inferInstanceAs (Decidable (_ → _ → _ → _ → _))
  | pickup => exact inferInstanceAs (Decidable (Zpoppush.KeepsCycle _ _ _ _))
  | promote => exact inferInstanceAs (Decidable (Zpoppush.KeepsCycle _ _ _ _))
  | _ => exact inferInstanceAs (Decidable True)

/-- What removes nothing from the states of the cycle keeps it. -/
theorem InCycle.grow {t : Store} (h : InCycle q x s)
    (grows : ∀ st, x ∈ s.zset st q → x ∈ t.zset st q) : InCycle q x t := by
  obtain ⟨st, herr, hin⟩ := inCycle_iff.mp h
  exact inCycle_iff.mpr ⟨st, herr, grows st hin⟩

/-- What leaves one state and no other is left in the other states of the cycle. -/
theorem inCycle_iff_of_leaves {t : Store} {st : TaskState} (gone : x ∉ t.zset st q)
    (same : ∀ st', st' ≠ .error → st' ≠ st → (x ∈ t.zset st' q ↔ x ∈ s.zset st' q)) :
    InCycle q x t ↔ InCycleBut st q x s := by
  rw [inCycle_iff]
  constructor
  · rintro ⟨st', herr, hin⟩
    have hst : st' ≠ st := by
      rintro rfl
      exact gone hin
    exact ⟨st', herr, hst, (same st' herr hst).mp hin⟩
  · rintro ⟨st', herr, hst, hin⟩
    exact ⟨st', herr, (same st' herr hst).mpr hin⟩

theorem inCycle_zpoppushExists {a : Zpoppush} (hd : a.Distinct) (hdest : a.destination ≠ .error)
    (h : InCycle q x s) : InCycle q x (zpoppushExists a s).2 ↔ a.KeepsCycle q x s := by
  by_cases hm : q = a.queue ∧ x ∈ a.members s
  · obtain ⟨rfl, hx⟩ := hm
    by_cases hf : a.Fits s
    · have arrived := mem_destination_of_fits hd hf hx
      have after : InCycle a.queue x (zpoppushExists a s).2 :=
        inCycle_iff.mpr ⟨a.destination, hdest, arrived⟩
      exact ⟨fun _ _ _ => Or.inl hf, fun _ => after⟩
    · have other : InCycle a.queue x (zpoppushExists a s).2 ↔ InCycleBut a.source a.queue x s := by
        apply inCycle_iff_of_leaves
        · rw [Store.not_mem_iff_score]
          exact score_zpoppushExists_source hd hx
        · intro st _ hst
          rw [Store.mem_iff_score, score_of_not_fits hf (fun hc => hst hc.1), Store.mem_iff_score]
      rw [other]
      constructor
      · intro hbut _ _
        exact Or.inr hbut
      · intro hk
        exact (hk rfl hx).resolve_left hf
  · have after : InCycle q x (zpoppushExists a s).2 := by
      apply h.grow
      intro st hin
      rw [Store.mem_iff_score, score_zpoppushExists_of_not_mem hm]
      exact Store.mem_iff_score.mp hin
    exact ⟨fun _ hq hx => absurd ⟨hq.symm, hx⟩ hm, fun _ => after⟩

theorem inCycle_move {m : Move} (h : InCycle q x s) :
    InCycle q x (exec (.move m) s).2 ↔ (Command.move m).KeepsCycle q x s := by
  by_cases hm : q = m.queue ∧ x = m.id ∧ m.Effective s
  · obtain ⟨rfl, rfl, he⟩ := hm
    have scores : ∀ st, (exec (.move m) s).2.score st m.queue m.id =
        if st = m.kind.fromState then none
        else if m.kind.toState = some st then
          some (m.kind.mode.newScore (s.score st m.queue m.id) m.when)
        else s.score st m.queue m.id := by
      intro st
      rw [score_move he, if_pos ⟨rfl, rfl⟩]
    by_cases hto : m.kind.toState = none ∨ m.kind.toState = some .error
    · have other : InCycle m.queue m.id (exec (.move m) s).2 ↔
          InCycleBut m.kind.fromState m.queue m.id s := by
        apply inCycle_iff_of_leaves
        · rw [Store.not_mem_iff_score, scores, if_pos rfl]
        · intro st herr hst
          have hne : m.kind.toState ≠ some st := by
            intro hc
            rcases hto with hnone | herror
            · rw [hnone] at hc
              cases hc
            · rw [herror] at hc
              exact herr (Option.some.inj hc).symm
          rw [Store.mem_iff_score, scores, if_neg hst, if_neg hne, Store.mem_iff_score]
      rw [other]
      exact ⟨fun hbut _ _ _ _ => hbut, fun hk => hk rfl rfl he hto⟩
    · obtain ⟨dest, hdest⟩ := Option.ne_none_iff_exists'.mp (fun hc => hto (Or.inl hc))
      have herr : dest ≠ .error := by
        rintro rfl
        exact hto (Or.inr hdest)
      have hne : dest ≠ m.kind.fromState := by
        intro hc
        exact m.kind.toState_ne_fromState (by rw [hdest, hc])
      have after : InCycle m.queue m.id (exec (.move m) s).2 := by
        refine inCycle_iff.mpr ⟨dest, herr, ?_⟩
        rw [Store.mem_iff_score, scores, if_neg hne, if_pos hdest]
        simp
      exact ⟨fun _ _ _ _ hc => absurd hc hto, fun _ => after⟩
  · have after : InCycle q x (exec (.move m) s).2 := by
      apply h.grow
      intro st hin
      by_cases he : m.Effective s
      · rw [Store.mem_iff_score, score_move he, if_neg (fun hc => hm ⟨hc.1, hc.2, he⟩)]
        exact Store.mem_iff_score.mp hin
      · rwa [exec_move_of_not_effective he]
    exact ⟨fun _ hq hx he _ => absurd ⟨hq.symm, hx.symm, he⟩ hm, fun _ => after⟩

theorem inCycle_step {c : Command} (h : InCycle q x s) :
    InCycle q x (exec c s).2 ↔ c.KeepsCycle q x s := by
  by_cases hc : c.Takes
  · cases c with
    | pickup => exact inCycle_zpoppushExists pickupArgs_distinct (by simp [pickupArgs]) h
    | promote => exact inCycle_zpoppushExists promoteArgs_distinct (by simp [promoteArgs]) h
    | move => exact inCycle_move h
    | _ => exact hc.elim
  · have after : InCycle q x (exec c s).2 := h.grow (fun _ hin => mem_zset_exec hc hin)
    have keeps : c.KeepsCycle q x s := by
      cases c with
      | pickup => exact absurd trivial hc
      | promote => exact absurd trivial hc
      | move => exact absurd trivial hc
      | _ => trivial
    exact ⟨fun _ => keeps, fun _ => after⟩

/-! What takes an id out of a state and leaves its next run pending. -/

/-- The next run is pending, also without the entry in the state st. -/
def PendingBut (st : TaskState) (q x : String) (s : Store) : Prop :=
  st ≠ .queued ∧ x ∈ s.zset .queued q ∨ st ≠ .scheduled ∧ x ∈ s.zset .scheduled q

instance (st : TaskState) (q x : String) (s : Store) : Decidable (PendingBut st q x s) :=
  inferInstanceAs (Decidable (_ ∨ _))

/-- A script that drops the id from its source leaves its next run pending. -/
def Zpoppush.LeavesPending (a : Zpoppush) (q x : String) (s : Store) : Prop :=
  a.queue = q → x ∈ a.members s → a.Fits s ∨ PendingBut a.source q x s

instance (a : Zpoppush) (q x : String) (s : Store) : Decidable (a.LeavesPending q x s) :=
  inferInstanceAs (Decidable (_ → _ → _ ∨ _))

/-- An expiry to ERROR, a removal, a cancel, or a script that drops the id, leaves its next run
pending. -/
def Command.LeavesPending (q x : String) (s : Store) : Command → Prop
  | .move m => m.queue = q → m.id = x → m.Effective s → m.kind.fromState ≠ .error →
      m.kind.toState = none ∨ m.kind.toState = some .error → PendingBut m.kind.fromState q x s
  | .pickup queue count now later => (pickupArgs queue count now later).LeavesPending q x s
  | .promote queue count now => (promoteArgs queue count now).LeavesPending q x s
  | _ => True

instance (q x : String) (s : Store) (c : Command) : Decidable (c.LeavesPending q x s) := by
  induction c using Command.casesOn with
  | move m => exact inferInstanceAs (Decidable (_ → _ → _ → _ → _ → _))
  | pickup => exact inferInstanceAs (Decidable (Zpoppush.LeavesPending _ _ _ _))
  | promote => exact inferInstanceAs (Decidable (Zpoppush.LeavesPending _ _ _ _))
  | _ => exact inferInstanceAs (Decidable True)

theorem PendingBut.inCycleBut {st : TaskState} (h : PendingBut st q x s) : InCycleBut st q x s := by
  rcases h with ⟨hst, hin⟩ | ⟨hst, hin⟩
  · exact ⟨.queued, by simp, hst.symm, hin⟩
  · exact ⟨.scheduled, by simp, hst.symm, hin⟩

theorem Command.LeavesPending.keepsCycle {c : Command} (hc : c.LeavesPending q x s)
    (h : InCycle q x s) : c.KeepsCycle q x s := by
  cases c with
  | move m =>
    intro hq hx he hto
    by_cases hfrom : m.kind.fromState = .error
    · obtain ⟨st, herr, hin⟩ := inCycle_iff.mp h
      exact ⟨st, herr, hfrom ▸ herr, hin⟩
    · exact (hc hq hx he hfrom hto).inCycleBut
  | pickup => exact fun hq hx => (hc hq hx).imp_right PendingBut.inCycleBut
  | promote => exact fun hq hx => (hc hq hx).imp_right PendingBut.inCycleBut
  | _ => trivial

theorem Pending.inCycle (h : Pending q x s) : InCycle q x s :=
  h.imp_right Or.inl

/-- A cancel of a pending id leaves it pending if it was in QUEUED besides. -/
theorem Pending.move_leaves {m : Move} (h : Pending q x s)
    (hm : (Command.move m).LeavesPending q x s ∨ m.kind.fromState = .active) :
    Pending q x (exec (.move m) s).2 := by
  by_cases hcancel : m.kind = .cancel ∧ m.queue = q ∧ m.id = x
  · obtain ⟨hk, rfl, rfl⟩ := hcancel
    by_cases he : m.Effective s
    · have queued : m.id ∈ s.zset .queued m.queue := by
        have leaves := hm.resolve_right (by simp [hk, MoveKind.fromState])
        rcases leaves rfl rfl he (by simp [hk, MoveKind.fromState])
          (by simp [hk, MoveKind.toState]) with ⟨-, hin⟩ | ⟨hne, -⟩
        · exact hin
        · exact absurd (by simp [hk, MoveKind.fromState]) hne
      left
      rw [Store.mem_iff_score, score_move he, if_pos ⟨rfl, rfl⟩,
        if_neg (by simp [hk, MoveKind.fromState]), if_neg (by simp [hk, MoveKind.toState])]
      exact Store.mem_iff_score.mp queued
    · rwa [exec_move_of_not_effective he]
  · exact h.move hcancel

/-- A pending id stays pending until it is handed to a worker. -/
theorem Pending.leaves {c : Command} (h : Pending q x s) (hr : ¬c.Returns s q x)
    (hc : c.LeavesPending q x s ∨ ∃ m, c = .move m ∧ m.kind.fromState = .active) :
    Pending q x (exec c s).2 := by
  by_cases ht : c.Takes
  · cases c with
    | pickup queue count now later =>
      have leaves := hc.resolve_right (by rintro ⟨m, ⟨⟩, -⟩)
      cases pickup_effect queue count now later s q x with
      | untouched scores => exact h.of_same scores
      | picked here pending idle scores returned => exact absurd returned hr
      | diverted here pending busy scores =>
        right
        simp [Store.mem_iff_score, scores]
      | lost here pending popped failed scores =>
        rcases (leaves here.symm popped).resolve_left failed with ⟨hne, -⟩ | ⟨-, hin⟩
        · exact absurd rfl hne
        · right
          rw [Store.mem_iff_score] at hin ⊢
          simpa [scores] using hin
    | promote queue count now =>
      have leaves := hc.resolve_right (by rintro ⟨m, ⟨⟩, -⟩)
      cases promote_effect queue count now s q x with
      | untouched scores => exact h.of_same scores
      | promoted here due scores =>
        left
        simp [Store.mem_iff_score, scores]
      | lost here due popped failed scores =>
        rcases (leaves here.symm popped).resolve_left failed with ⟨-, hin⟩ | ⟨hne, -⟩
        · left
          rw [Store.mem_iff_score] at hin ⊢
          simpa [scores] using hin
        · exact absurd rfl hne
    | move m =>
      apply h.move_leaves
      rcases hc with hc | ⟨m', hm, hfrom⟩
      · exact Or.inl hc
      · obtain rfl := Command.move.inj hm
        exact Or.inr hfrom
    | _ => exact ht.elim
  · exact h.imp (mem_zset_exec ht) (mem_zset_exec ht)

end TaskTiger
