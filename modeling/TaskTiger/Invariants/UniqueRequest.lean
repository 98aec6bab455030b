import TaskTiger.Invariants.Placement
import TaskTiger.Store.Backlog

namespace TaskTiger

open Redis Interleaving

variable {s : Store} {u q : String} {c : Command} {o : Option TaskData}

/-- The commands on u are those of a unique task of queue q: it is only delayed there and its Task
objects carry the flag. Heartbeats and update_scheduled_time of u are not included. -/
def Command.RequestsIn (u q : String) : Command → Prop
  | .delay queue data .. => data.id = u → queue = q ∧ data.unique = true
  | .move m => m.id = u → m.unique = true
  | .heartbeat _ ids _ => u ∉ ids
  | .updateScheduledTime _ _ id _ => id ≠ u
  | _ => True

instance (u q : String) (c : Command) : Decidable (c.RequestsIn u q) := by
  induction c using Command.casesOn with
  | delay queue data ts now publish =>
    exact inferInstanceAs (Decidable (data.id = u → queue = q ∧ data.unique = true))
  | move m => exact inferInstanceAs (Decidable (m.id = u → m.unique = true))
  | heartbeat queue ids now => exact inferInstanceAs (Decidable (u ∉ ids))
  | updateScheduledTime number queue id ts => exact inferInstanceAs (Decidable (id ≠ u))
  | _ => exact inferInstanceAs (Decidable True)

theorem Command.RequestsIn.not_beats (h : c.RequestsIn u q) : ¬c.Beats u := by
  cases c with
  | heartbeat => exact h
  | _ => exact id

/-- What the most recent delay of u has written, while no later pickup has returned u to a worker
and nobody has cancelled it. -/
def outstanding (u q : String) (o : Option TaskData) (s : Store) : Command → Option TaskData
  | .delay _ data ts now _ => if data.id = u then some (delayedData data ts now) else o
  | .pickup queue count now later => if Returned queue count now later s q u then none else o
  | .move m =>
      if m.kind = .cancel ∧ m.queue = q ∧ m.id = u ∧ m.Effective s then none else o
  | _ => o

/-- The request waits in QUEUED or SCHEDULED, with the object it has written. -/
def Waiting (s : Store) (u q : String) (d : TaskData) : Prop :=
  (u ∈ s.zset .queued q ∨ u ∈ s.zset .scheduled q) ∧ s.task u = some d

structure RequestKept (u q : String) (s : Store) (o : Option TaskData) : Prop where
  only : ∀ q', q' ≠ q → ∀ st, u ∉ s.zset st q'
  waits : ∀ d, o = some d → Waiting s u q d

/-! One step. -/

theorem Waiting.of_same {t : Store} {d : TaskData} (h : Waiting s u q d)
    (scores : ∀ st, t.score st q u = s.score st q u) (task : t.task u = s.task u) :
    Waiting t u q d :=
  ⟨Pending.of_same h.1 scores, task.trans h.2⟩

theorem waiting_delay {data : TaskData} {ts : Option Time} {now : Instant} {publish : Bool} :
    Waiting (exec (.delay q data ts now publish) s).2 data.id q (delayedData data ts now) :=
  ⟨pending_delay, by rw [task_delay, if_pos rfl]⟩

theorem Waiting.pickup {queue : String} {count : Int} {now : Instant} {later : Time}
    {d : TaskData} (h : Waiting s u q d) (hr : ¬Returned queue count now later s q u)
    (hsafe : (Command.pickup queue count now later).PopsSafely s u) :
    Waiting (exec (.pickup queue count now later) s).2 u q d :=
  ⟨Pending.pickup h.1 hr hsafe, by rw [task_pickup]; exact h.2⟩

theorem Waiting.promote {queue : String} {count : Int} {now : Instant} {d : TaskData}
    (h : Waiting s u q d) (hsafe : (Command.promote queue count now).PopsSafely s u) :
    Waiting (exec (.promote queue count now) s).2 u q d :=
  ⟨Pending.promote h.1 hsafe, by rw [task_promote]; exact h.2⟩

/-- A waiting request survives every move but its cancel: the moves of the other instances leave
it where it is, and find the id in another ZSET when they would delete the object. -/
theorem Waiting.move {m : Move} {d : TaskData} (h : Waiting s u q d) (hu : m.unique = true)
    (hx : m.id = u) (hq : m.queue = q) (hk : m.kind ≠ .cancel) :
    Waiting (exec (.move m) s).2 u q d := by
  subst hx hq
  have hfrom := MoveKind.fromState_ne hk
  have kept : ¬m.Deletes s := by
    intro hdel
    rcases h.1 with hin | hin
    · exact hdel.2.2 hu .queued hfrom.1.symm hin
    · exact hdel.2.2 hu .scheduled hfrom.2.symm hin
  refine ⟨Pending.move h.1 (fun hc => hk hc.1), ?_⟩
  rw [task_move, if_neg (fun hc => kept hc.1)]
  exact h.2

theorem RequestKept.step (h : RequestKept u q s o) (hc : c.RequestsIn u q)
    (hsafe : c.PopsSafely s u) : RequestKept u q (exec c s).2 (outstanding u q o s c) := by
  refine ⟨?_, ?_⟩
  · intro q' hq st
    refine absent_from_step (h.only q' hq) ?_ (fun late => hc.not_beats late.strays.beats) st
    intro hd
    cases c with
    | delay queue data ts now publish => exact hq (hd.1.symm.trans (hc hd.2).1)
    | _ => exact hd.elim
  · by_cases hp : c.Passive
    · have same : outstanding u q o s c = o := by
        cases c with
        | delay => exact hp.elim
        | pickup => exact hp.elim
        | move => exact hp.elim
        | _ => rfl
      intro d hd
      refine (h.waits d (same ▸ hd)).of_same (fun st => ?_) (by rw [(exec_passive hp s).2.2])
      rw [Store.score, (exec_passive hp s).1, Store.score]
    · cases c with
      | delay queue data ts now publish =>
        intro d hd
        by_cases hid : data.id = u
        · subst hid
          obtain ⟨rfl, _⟩ := hc rfl
          obtain rfl : delayedData data ts now = d := by simpa [outstanding] using hd
          exact waiting_delay
        · have hold : o = some d := by simpa [outstanding, hid] using hd
          refine (h.waits d hold).of_same (fun st => ?_) ?_
          · rw [score_delay, if_neg (fun hc => hid hc.2.2.symm)]
          · rw [task_delay, if_neg (fun hc => hid hc.symm)]
      | pickup queue count now later =>
        intro d hd
        by_cases hr : Returned queue count now later s q u
        · simp [outstanding, hr] at hd
        · exact (h.waits d (by simpa [outstanding, hr] using hd)).pickup hr hsafe
      | promote queue count now =>
        intro d hd
        exact (h.waits d hd).promote hsafe
      | move m =>
        intro d hd
        by_cases hx : m.id = u ∧ m.Effective s
        · have hq : m.queue = q := by
            by_contra hq
            exact h.only m.queue hq m.kind.fromState (hx.1 ▸ hx.2)
          have hk : m.kind ≠ .cancel := by
            intro hk
            simp [outstanding, hk, hq, hx] at hd
          have hold : o = some d := by simpa [outstanding, hk] using hd
          exact (h.waits d hold).move (hc hx.1) hx.1 hq hk
        · have hold : o = some d := by
            have hn : ¬(m.kind = .cancel ∧ m.queue = q ∧ m.id = u ∧ m.Effective s) :=
              fun hc => hx hc.2.2
            simpa [outstanding, hn] using hd
          refine (h.waits d hold).of_same (fun st => ?_) ?_
          · by_cases he : m.Effective s
            · rw [score_move he, if_neg (fun hc => hx ⟨hc.2.symm, he⟩)]
            · rw [exec_move_of_not_effective he]
          · rw [task_move, if_neg (fun hc => hx ⟨hc.2.symm, hc.1.1⟩)]
      | updateScheduledTime number queue id ts =>
        intro d hd
        refine (h.waits d hd).of_same (fun st => ?_) (task_updateScheduledTime_of_ne (Ne.symm hc))
        rw [score_updateScheduledTime, if_neg (fun hk => hc hk.2.2.1.symm)]
      | heartbeat queue ids now =>
        intro d hd
        refine (h.waits d hd).of_same (fun st => ?_) rfl
        rw [score_heartbeat, if_neg (fun hk => hc hk.2.2)]
      | _ => exact absurd trivial hp

/-- From each delay of a unique task until a pickup returns it, or it is cancelled, the task waits
in QUEUED or SCHEDULED with the object of its latest delay, as long as no zpoppush aborts on a
batch that holds it. -/
theorem request_kept (u q : String) (l : List Command) (hc : ∀ c ∈ l, c.RequestsIn u q)
    (hsafe : Throughout (fun s c => c.PopsSafely s u) Store.empty l) (d : TaskData)
    (hd : watch exec (outstanding u q) Store.empty none l = some d) :
    Waiting (runAll Store.empty l) u q d := by
  have start : RequestKept u q Store.empty none := ⟨by simp, by simp⟩
  have hl : Throughout (fun s c => c.RequestsIn u q ∧ c.PopsSafely s u) Store.empty l :=
    (along_of_forall hc).and hsafe
  have kept : RequestKept u q (runAll Store.empty l)
      (watch exec (outstanding u q) Store.empty none l) :=
    watch_invariant (fun _ _ _ h hp => h.step hp.1 hp.2) start hl
  exact kept.waits d hd

/-- A unique task is delayed again while it runs; then the running instance is finished. -/
def redelayedWhileActive : List Command :=
  [.delay "default" { id := "u", func := "tasks:unique_task", unique := true } none
      1 true,
    .pickup "default" 1 2 3,
    .delay "default" { id := "u", func := "tasks:unique_task", unique := true } none
      3 true,
    .move ⟨.done, "default", "u", true, 4, true⟩]

/-- The request of the second delay waits. -/
theorem request_kept_redelayed :
    Waiting (runAll Store.empty redelayedWhileActive) "u" "default"
      (delayedData { id := "u", func := "tasks:unique_task", unique := true } none
        3) := by
  have fits : (pickupArgs "default" 1 2 3).Fits
      (runAll Store.empty (redelayedWhileActive.take 1)) := by decide +kernel
  exact request_kept "u" "default" redelayedWhileActive (by decide)
    ⟨trivial, Or.inl fits, trivial, trivial, trivial⟩ _
    (by simp [redelayedWhileActive, watch, outstanding])

/-! The request that is waiting when its pickup aborts. -/

theorem outstanding_enqueueAll {queue func : String} {now : Instant} (ids : List String)
    (h : u ∈ ids ∨ o ≠ none) :
    watch exec (outstanding u q) s o (enqueueAll queue func true now ids) ≠ none := by
  induction ids generalizing s o with
  | nil => simpa [watch, enqueueAll] using h
  | cons id ids ih =>
    refine ih ?_
    by_cases hid : id = u
    · exact Or.inr (by simp [outstanding, hid])
    · rcases h with h | h
      · exact Or.inl ((List.mem_cons.mp h).resolve_left (Ne.symm hid))
      · exact Or.inr (by simpa [outstanding, hid] using h)

/-- A batch of 4000 unique tasks: the pickup drops every request. -/
theorem not_request_kept_overflow : ¬∀ (u q : String) (l : List Command),
    (∀ c ∈ l, c.RequestsIn u q) → ∀ d,
      watch exec (outstanding u q) Store.empty none l = some d →
        Waiting (runAll Store.empty l) u q d := by
  intro h
  obtain ⟨n, hn⟩ : ∃ n, n = 4000 := ⟨_, rfl⟩
  let now : Instant := 2
  let l := backlog true n
  let p : Command := .pickup "batch" 5000 now 3
  let u := digitsId 0
  have hcard : ((runAll Store.empty l).zset .queued "batch").card = n := card_backlog (by omega)
  have idle : ((runAll Store.empty l).zset .active "batch").nonempty = false := idle_backlog true n
  obtain ⟨hfail, _, _, hscore⟩ :=
    pickup_overflow now 3 idle (by omega) (show _ ≤ (5000 : Int) by omega)
  have hreq : ∀ c ∈ l ++ [p], c.RequestsIn u "batch" := by
    intro c hc
    rcases List.mem_append.mp hc with hc | hc
    · obtain ⟨id, _, rfl⟩ := List.mem_map.mp hc
      exact fun _ => ⟨rfl, rfl⟩
    · obtain rfl := List.mem_singleton.mp hc
      trivial
  have hin : u ∈ (List.range n).map digitsId := List.mem_map_of_mem (by simp; omega)
  have hout : watch exec (outstanding u "batch") Store.empty none l ≠ none :=
    outstanding_enqueueAll _ (Or.inl hin)
  obtain ⟨d, hd⟩ := Option.ne_none_iff_exists'.mp hout
  have hkept : ¬Returned "batch" 5000 now 3 (runAll Store.empty l) "batch" u := by
    rintro ⟨_, ids, hids, _⟩
    rw [hfail] at hids
    simp at hids
  have hend : watch exec (outstanding u "batch") Store.empty none (l ++ [p]) = some d := by
    rw [watch_append, hd]
    simp only [watch, outstanding, p]
    rw [if_neg hkept]
  have hw := (h u "batch" _ hreq d hend).1
  rw [runAll, run_append, run_cons, run_nil] at hw
  have queued_gone : (step exec (runAll Store.empty l) p).score .queued "batch" u = none :=
    (hscore .queued u).trans (if_pos rfl)
  have scheduled_none : (runAll Store.empty l).zset .scheduled "batch" = ZSet.empty :=
    zset_enqueueAll _ (by simp)
  have scheduled_gone : (step exec (runAll Store.empty l) p).score .scheduled "batch" u = none := by
    rw [show (step exec (runAll Store.empty l) p).score .scheduled "batch" u = _ from
      hscore .scheduled u, if_neg (by simp), Store.score, scheduled_none]
    rfl
  rcases hw with hw | hw
  · exact Store.mem_iff_score.mp hw queued_gone
  · exact Store.mem_iff_score.mp hw scheduled_gone

end TaskTiger
