import TaskTiger.Invariants.Placement

namespace TaskTiger

open Redis Interleaving

variable {s : Store} {q x : String}

/-- The command is a pickup that hands x to its worker. -/
def Command.Returns (s : Store) (q x : String) : Command → Prop
  | .pickup queue count now later => Returned queue count now later s q x
  | _ => False

/-- A pickup only returns an id that is not active. -/
theorem Command.Returns.idle {c : Command} (h : c.Returns s q x) : x ∉ s.zset .active q := by
  cases c with
  | pickup queue count now later =>
    cases pickup_effect queue count now later s q x with
    | untouched scores kept => exact absurd h kept
    | picked here pending idle => exact idle
    | diverted here pending busy scores kept => exact absurd h kept
    | lost here pending popped failed scores kept => exact absurd h kept
  | _ => exact h.elim

theorem Command.Returns.active {c : Command} (h : c.Returns s q x) :
    x ∈ (exec c s).2.zset .active q := by
  cases c with
  | pickup queue count now later =>
    cases pickup_effect queue count now later s q x with
    | untouched scores kept => exact absurd h kept
    | picked here pending idle scores => simp [Store.mem_iff_score, scores]
    | diverted here pending busy scores kept => exact absurd h kept
    | lost here pending popped failed scores kept => exact absurd h kept
  | _ => exact h.elim

/-- Late heartbeats apart, only a pickup that returns x makes x active. -/
theorem returns_of_active {c : Command} (hb : ¬c.StraysIn s x q) (idle : x ∉ s.zset .active q)
    (h : x ∈ (exec c s).2.zset .active q) : c.Returns s q x := by
  have hs := Store.not_mem_iff_score.mp idle
  rw [Store.mem_iff_score] at h
  by_cases hp : c.Passive
  · rw [Store.score, (exec_passive hp s).1] at h
    exact absurd hs h
  · cases c with
    | delay queue data ts now publish =>
      have hst : TaskState.active ≠ (delayTarget ts now).1 := by
        rcases delayTarget_state ts now with h | h <;> simp [h]
      rw [score_delay, if_neg (fun hc => hst hc.1)] at h
      exact absurd hs h
    | pickup queue count now later =>
      cases pickup_effect queue count now later s q x with
      | untouched scores => exact absurd hs (scores _ ▸ h)
      | picked here pending idle scores returned => exact returned
      | diverted here pending busy scores => exact absurd hs (by simpa [scores] using h)
      | lost here pending popped failed scores => exact absurd hs (by simpa [scores] using h)
    | promote queue count now =>
      cases promote_effect queue count now s q x with
      | untouched scores => exact absurd hs (scores _ ▸ h)
      | promoted here due scores => exact absurd hs (by simpa [scores] using h)
      | lost here due popped failed scores => exact absurd hs (by simpa [scores] using h)
    | move m =>
      by_cases he : m.Effective s
      · have hto : m.kind.toState ≠ some .active := by cases m.kind <;> simp [MoveKind.toState]
        rw [score_move he, if_neg hto, hs] at h
        simp at h
      · rw [exec_move_of_not_effective he] at h
        exact absurd hs h
    | updateScheduledTime number queue id ts =>
      rw [score_updateScheduledTime, if_neg (fun hc => by simp at hc)] at h
      exact absurd hs h
    | heartbeat queue ids now =>
      rw [score_heartbeat, if_neg (fun hc => hb ⟨hc.2.1.symm, hc.2.2, idle⟩)] at h
      exact absurd hs h
    | _ => exact absurd trivial hp

/-! Runs in which it is known who issues each command. -/

/-- A command issued by a client or worker. -/
abbrev Issued := String × Command

def execBy (i : Issued) (s : Store) : Reply i.2 × Store := exec i.2 s

abbrev runBy (l : List Issued) : Store := run execBy Store.empty l

/-- One of the pickups of worker w returned x, and x has been active ever since: the entry of x
in ACTIVE is the one this pickup created. -/
def HeldBy (l : List Issued) (q x w : String) : Prop :=
  ∃ pre c post, l = pre ++ (w, c) :: post ∧ c.Returns (runBy pre) q x ∧
    ∀ since, since <+: post → x ∈ (runBy (pre ++ (w, c) :: since)).zset .active q

theorem HeldBy.active {l : List Issued} {w : String} (h : HeldBy l q x w) :
    x ∈ (runBy l).zset .active q := by
  obtain ⟨pre, c, post, rfl, _, hsince⟩ := h
  exact hsince post List.prefix_rfl

/-- A later pickup does not return x while x stays active. -/
theorem not_longer_of_heldBy {pre pre' post post' : List Issued} {i i' : Issued}
    (hsplit : pre ++ i :: post = pre' ++ i' :: post')
    (hsince : ∀ since, since <+: post → x ∈ (runBy (pre ++ i :: since)).zset .active q)
    (hidle : x ∉ (runBy pre').zset .active q) : pre'.length ≤ pre.length := by
  by_contra hlt
  obtain ⟨k, hk⟩ : pre ++ [i] <+: pre' := by
    have hle : (pre ++ [i]).length ≤ pre'.length := by
      rw [List.length_append, List.length_singleton]
      omega
    refine List.prefix_of_prefix_length_le ?_ (List.prefix_append pre' (i' :: post')) hle
    exact ⟨post, by rw [← hsplit]; simp⟩
  have hpost : k <+: post := by
    refine ⟨i' :: post', ?_⟩
    have hc : pre ++ i :: (k ++ i' :: post') = pre ++ i :: post := by
      rw [hsplit, ← hk]
      simp
    simpa using hc
  have hact := hsince k hpost
  have hpre : pre ++ i :: k = pre' := by rw [← hk]; simp
  rw [hpre] at hact
  exact hidle hact

/-- At most one worker holds x. -/
theorem HeldBy.unique {l : List Issued} {v w : String} (hv : HeldBy l q x v)
    (hw : HeldBy l q x w) : v = w := by
  obtain ⟨pre, c, post, hl, hret, hsince⟩ := hv
  obtain ⟨pre', c', post', hl', hret', hsince'⟩ := hw
  have h1 := not_longer_of_heldBy (hl ▸ hl') hsince hret'.idle
  have h2 := not_longer_of_heldBy (hl' ▸ hl) hsince' hret.idle
  have hsame := List.append_inj (hl ▸ hl') (le_antisymm h2 h1)
  exact congrArg Prod.fst (List.cons.inj hsame.2).1

/-- Every active id is held by some worker. -/
theorem exists_heldBy (l : List Issued)
    (hb : Along execBy (fun s i => ¬i.2.StraysIn s x q) Store.empty l)
    (h : x ∈ (runBy l).zset .active q) : ∃ w, HeldBy l q x w := by
  induction l using List.reverseRecOn with
  | nil => simp [Store.empty] at h
  | append_singleton l i ih =>
    have hlast : runBy (l ++ [i]) = (exec i.2 (runBy l)).2 := run_append _ _ _
    obtain ⟨before, here, -⟩ := along_append.mp hb
    by_cases hact : x ∈ (runBy l).zset .active q
    · obtain ⟨w, pre, c, post, rfl, hret, hsince⟩ := ih before hact
      refine ⟨w, pre, c, post ++ [i], by simp, hret, ?_⟩
      intro since hpre
      rcases List.prefix_concat_iff.mp hpre with rfl | hpre
      · simpa using h
      · exact hsince since hpre
    · have hret : i.2.Returns (runBy l) q x :=
        returns_of_active here hact (hlast ▸ h)
      refine ⟨i.1, l, i.2, [], rfl, hret, ?_⟩
      intro since hpre
      obtain rfl := List.prefix_nil.mp hpre
      exact h

/-- Whoever issues it, a move from ACTIVE takes effect exactly when some worker holds the id,
and there is only one such worker; otherwise it raises and changes nothing. -/
theorem move_from_active (l : List Issued) (m : Move)
    (hb : Along execBy (fun s i => ¬i.2.StraysIn s m.id m.queue) Store.empty l)
    (hm : m.kind.fromState = .active) :
    ((exec (.move m) (runBy l)).1 = .ok () ↔ ∃ v, HeldBy l m.queue m.id v) ∧
      (∀ v w, HeldBy l m.queue m.id v → HeldBy l m.queue m.id w → v = w) ∧
      ((¬∃ v, HeldBy l m.queue m.id v) →
        exec (.move m) (runBy l) = (.error .failIfNotInZset, runBy l)) := by
  have held : m.Effective (runBy l) ↔ ∃ v, HeldBy l m.queue m.id v := by
    unfold Move.Effective
    rw [hm]
    exact ⟨exists_heldBy l hb, fun ⟨_, hv⟩ => hv.active⟩
  refine ⟨?_, fun v w hv hw => hv.unique hw, ?_⟩
  · rw [← held]
    constructor
    · intro hok
      by_contra he
      rw [exec_move_of_not_effective he] at hok
      simp at hok
    · exact exec_move_ok
  · intro hn
    exact exec_move_of_not_effective (fun he => hn (held.mp he))

/-- The moves by which a worker disposes of a task it has picked up. -/
def MoveKind.disposes : MoveKind → Bool
  | .done | .retryLater | .fail | .lockMiss => true
  | _ => false

def retriable : TaskData where
  id := "u"
  func := "tasks:idempotent_task"
  unique := true
  retryMethod := some ⟨"tasktiger.retry:fixed", .arr [.num 60, .num 3]⟩
  retryOn := some ["tasktiger.exceptions:JobTimeoutException"]

/-- Worker a picks up u and is slow; worker b expires u and picks it up itself. -/
def repickedByOther : List Issued :=
  [("client", .delay "default" retriable none 1 true),
    ("a", .pickup "default" 1 2 3),
    ("b", .move ⟨.requeueExpired, "default", "u", true, 400, true⟩),
    ("b", .pickup "default" 1 401 402)]

theorem heldBy_repickedByOther : HeldBy repickedByOther "default" "u" "b" := by
  refine ⟨repickedByOther.take 3, .pickup "default" 1 401 402, [], rfl, ?_, ?_⟩
  · change Returned _ _ _ _ _ _ _
    decide +kernel
  · intro since hpre
    obtain rfl := List.prefix_nil.mp hpre
    decide +kernel

/-- The late finish of a deletes the object that b has just picked up. -/
theorem not_heldBy_slow_worker : ¬∀ (l : List Issued) (w : String) (m : Move),
    (∀ i ∈ l, ¬i.2.Beats m.id) → m.kind.disposes = true →
      (exec (.move m) (runBy l)).1 = .ok () → HeldBy l m.queue m.id w := by
  intro h
  have held := h repickedByOther "a" ⟨.done, "default", "u", true, 403, true⟩ (by decide) rfl
    (exec_move_ok heldBy_repickedByOther.active)
  have same := held.unique heldBy_repickedByOther
  simp at same

/-- The finish of b takes effect: b holds u. -/
theorem move_from_active_repickedByOther :
    (exec (.move ⟨.done, "default", "u", true, 403, true⟩) (runBy repickedByOther)).1 = .ok () :=
  ((move_from_active repickedByOther ⟨.done, "default", "u", true, 403, true⟩ (by decide)
    rfl).1).mpr ⟨"b", heldBy_repickedByOther⟩

end TaskTiger
