import TaskTiger.Invariants.Index
import TaskTiger.Worker.Listener

namespace TaskTiger

open Redis Interleaving

variable {s : Store} {q x : String}

/-! What a command adds to QUEUED is what it announces. -/

/-- Ids enter the destination of a zpoppush only with a result. -/
theorem zpoppush_feeds {a : Zpoppush} (hd : a.Distinct) {st : TaskState} (hst : st = a.destination)
    (h : x ∈ (zpoppushExists a s).2.zset st q) :
    x ∈ s.zset st q ∨ q = a.queue ∧ ∃ id ids, (zpoppushExists a s).1 = .ok (id :: ids) := by
  subst hst
  rw [Store.mem_iff_score] at h ⊢
  by_cases hm : q = a.queue ∧ x ∈ a.members s
  · obtain ⟨rfl, hx⟩ := hm
    have hsrc : a.destination ≠ a.source := Ne.symm hd.source
    by_cases hf : a.Fits s
    · by_cases hin : x ∈ s.zset a.destination a.queue
      · exact Or.inl (Store.mem_iff_score.mp hin)
      · have hmoved : x ∈ a.moved s := Zpoppush.mem_moved.mpr ⟨hx, hin⟩
        have hreply : (zpoppushExists a s).1 = .ok (a.moved s) := by
          rw [zpoppushExists, if_neg (members_ne_nil hx), if_pos hf]
        cases hl : a.moved s with
        | nil => simp [hl] at hmoved
        | cons id ids => exact Or.inr ⟨rfl, id, ids, hreply.trans (by rw [hl])⟩
    · rw [score_zpoppushExists_of_not_fits hf hsrc] at h
      exact Or.inl h
  · rw [score_zpoppushExists_of_not_mem hm] at h
    exact Or.inl h

/-- A promotion without a result brings nothing into QUEUED. -/
theorem promote_feeds {queue : String} {batchSize : Int} {now : Instant}
    (h : ((exec (.promote queue batchSize now) s).2.zset .queued q).nonempty = true) :
    (s.zset .queued q).nonempty = true ∨
      q = queue ∧ ∃ id ids, (exec (.promote queue batchSize now) s).1 = .ok (id :: ids) := by
  obtain ⟨x, hx⟩ := ZSet.nonempty_iff.mp h
  rcases zpoppush_feeds promoteArgs_distinct rfl hx with hx | hr
  · exact Or.inl (ZSet.nonempty_iff.mpr ⟨x, hx⟩)
  · exact Or.inr hr

/-- A pickup only takes ids out of QUEUED. -/
theorem mem_queued_of_pickup {queue : String} {count : Int} {now : Instant} {later : Time}
    (h : x ∈ (exec (.pickup queue count now later) s).2.zset .queued q) : x ∈ s.zset .queued q := by
  rw [Store.mem_iff_score] at h ⊢
  cases pickup_effect queue count now later s q x with
  | untouched scores => rwa [scores] at h
  | picked here pending idle scores => exact absurd (scores .queued) h
  | diverted here pending busy scores => exact absurd (scores .queued) h
  | lost here pending popped failed scores => exact absurd (scores .queued) h

/-- With notification on, the messages of a client's command name every queue that it fills. -/
theorem command_news {c : Command} (hc : (Event.client c).Notifies) (s : Store) :
    ∃ news, (exec c s).2.activity = s.activity ++ news ∧
      ∀ q, ((exec c s).2.zset .queued q).nonempty = true →
        (s.zset .queued q).nonempty = true ∨ q ∈ news := by
  obtain ⟨news, hnews⟩ := activity_prefix c s
  refine ⟨news, hnews.symm, ?_⟩
  intro q hq
  have quiet (hz : (exec c s).2.zset .queued q = s.zset .queued q) :
      (s.zset .queued q).nonempty = true ∨ q ∈ news := Or.inl (hz ▸ hq)
  have kept (hz : ∀ x, x ∈ (exec c s).2.zset .queued q → x ∈ s.zset .queued q) :
      (s.zset .queued q).nonempty = true ∨ q ∈ news := by
    obtain ⟨x, hx⟩ := ZSet.nonempty_iff.mp hq
    exact Or.inl (ZSet.nonempty_iff.mpr ⟨x, hz x hx⟩)
  have said {queue : String} (h : (exec c s).2.activity = s.activity ++ [queue]) :
      queue ∈ news := by
    have hsame : news = [queue] := List.append_cancel_left (hnews.trans h)
    simp [hsame]
  by_cases hp : c.Passive
  · exact quiet (by rw [(exec_passive hp s).1])
  · cases c with
    | delay queue data ts now publish =>
      by_cases hk : TaskState.queued = (delayTarget ts now).1 ∧ q = queue
      · obtain ⟨hst, rfl⟩ := hk
        have hpub : publish = true := hc
        exact Or.inr (said (by rw [activity_delay, if_pos ⟨hst.symm, hpub⟩]))
      · exact quiet (by rw [zset_delay, if_neg hk])
    | pickup => exact kept (fun x hx => mem_queued_of_pickup hx)
    | promote => exact hc.elim
    | move m =>
      by_cases he : m.Effective s
      · by_cases hk : m.kind.toState = some .queued ∧ q = m.queue
        · obtain ⟨hto, rfl⟩ := hk
          have hpub : m.publish = true := hc
          exact Or.inr (said (by rw [activity_move he, if_pos ⟨hto, hpub⟩]))
        · refine kept (fun x hx => ?_)
          rw [Store.mem_iff_score] at hx ⊢
          rw [score_move he] at hx
          split_ifs at hx with hid hfrom hto
          · exact absurd rfl hx
          · exact absurd ⟨hto, hid.1⟩ hk
          · exact hx
          · exact hx
      · exact quiet (by rw [exec_move_of_not_effective he])
    | updateScheduledTime =>
      refine kept (fun x hx => ?_)
      rw [Store.mem_iff_score] at hx ⊢
      rwa [score_updateScheduledTime, if_neg (fun hk => by simp at hk)] at hx
    | heartbeat =>
      refine kept (fun x hx => ?_)
      rw [Store.mem_iff_score] at hx ⊢
      rwa [score_heartbeat, if_neg (fun hk => by simp at hk)] at hx
    | _ => exact absurd trivial hp

/-! An empty result of _process_from_queue. -/

/-- All ids of the batch are active already, and the queue has more ids than the batch. -/
def Starves (queue : String) (batchSize : Int) (s : Store) : Prop :=
  let batch := ((s.zset .queued queue).rangeByScore none none batchSize).map Prod.snd
  (∀ x ∈ batch, x ∈ s.zset .active queue) ∧ ∃ e ∈ (s.zset .queued queue).entries, e.2 ∉ batch

instance (queue : String) (batchSize : Int) (s : Store) : Decidable (Starves queue batchSize s) :=
  inferInstanceAs (Decidable (_ ∧ _))

/-- A pickup without a result has emptied the queue, exactly when it does not starve. -/
theorem pickup_empties_iff {queue : String} {batchSize : Int} {now : Instant} {later : Time}
    (h : (exec (.pickup queue batchSize now later) s).1 = .ok []) :
    ((exec (.pickup queue batchSize now later) s).2.zset .queued queue).nonempty = false ↔
      ¬Starves queue batchSize s := by
  let a := pickupArgs queue batchSize now later
  have hmoved : a.moved s = [] := by
    by_cases hm : a.members s = []
    · simp [Zpoppush.moved, hm]
    · change (zpoppushExists a s).1 = .ok [] at h
      rw [zpoppushExists, if_neg hm] at h
      split_ifs at h
      simpa using h
  have busy : ∀ x ∈ a.members s, x ∈ s.zset .active queue := by
    intro x hx
    by_contra hidle
    have hin : x ∈ a.moved s := Zpoppush.mem_moved.mpr ⟨hx, hidle⟩
    simp [hmoved] at hin
  have left (x : String) : x ∈ (exec (.pickup queue batchSize now later) s).2.zset .queued queue ↔
      x ∈ s.zset .queued queue ∧ x ∉ a.members s := by
    rw [Store.mem_iff_score, Store.mem_iff_score]
    change (zpoppushExists a s).2.score .queued queue x ≠ none ↔ _
    by_cases hx : x ∈ a.members s
    · have gone := score_zpoppushExists_source (a := a) pickupArgs_distinct hx
      change (zpoppushExists a s).2.score .queued queue x = none at gone
      simp [gone, hx]
    · rw [score_zpoppushExists_of_not_mem (fun hc => hx hc.2)]
      simp [hx]
  have starves : Starves queue batchSize s ↔
      ∃ x, x ∈ (exec (.pickup queue batchSize now later) s).2.zset .queued queue := by
    constructor
    · rintro ⟨-, e, he, hout⟩
      exact ⟨e.2, (left e.2).mpr ⟨ZSet.mem_iff_map.mpr (List.mem_map_of_mem he), hout⟩⟩
    · rintro ⟨x, hx⟩
      obtain ⟨hin, hout⟩ := (left x).mp hx
      obtain ⟨e, he, rfl⟩ := List.mem_map.mp (ZSet.mem_iff_map.mp hin)
      exact ⟨busy, e, he, hout⟩
  rw [starves, ← Bool.not_eq_true, ZSet.nonempty_iff]

section ProcessFromQueue

variable {h : Host} {queue : String} {batchSize : Int} {failedToAcquire : Bool} {now : Instant}
  {later : Time} {env : Nat → List Command} {n : Nat} {r : List String × Int}

/-- The worker removes the queue exactly after a pickup that returned no ids; that pickup is then
the last that it did. -/
theorem processFromQueue_removes
    (hr : (Prog.go exec env
      (Worker.processFromQueue h queue batchSize failedToAcquire now later) n s).result = .ok r)
    (hempty : Worker.removesQueue r = true) :
    (exec (.pickup queue batchSize now later) (runAll s (env n))).1 = .ok [] ∧
      (Prog.go exec env
        (Worker.processFromQueue h queue batchSize failedToAcquire now later) n s).state =
        (exec (.pickup queue batchSize now later) (runAll s (env n))).2 := by
  cases failedToAcquire with
  | true =>
    obtain rfl : ([], -1) = r := by simpa [Worker.processFromQueue] using hr
    simp [Worker.removesQueue] at hempty
  | false =>
    rw [Worker.processFromQueue, if_neg (by simp), redis,
      Prog.go_bind_ok _ (congrArg Prog.Outcome.result (Prog.go_ask _ n s))] at hr ⊢
    simp only [Prog.go_ask] at hr ⊢
    cases hreply : (exec (.pickup queue batchSize now later) (run exec s (env n))).1 with
    | error e =>
      rw [hreply] at hr
      simp at hr
    | ok ids =>
      rw [hreply] at hr
      cases ids with
      | nil => exact ⟨rfl, rfl⟩
      | cons id ids =>
        obtain ⟨count, -, rfl⟩ := Prog.exists_of_go_bind_pure hr
        simp [Worker.removesQueue] at hempty

end ProcessFromQueue

/-! What holds of every worker at every point. -/

/-- The queue filter of the worker lets the queue through. -/
def Listener.Responsible (l : Listener) (q : String) : Prop :=
  queueMatches q l.onlyQueues l.excludeQueues = true

instance (l : Listener) (q : String) : Decidable (l.Responsible q) :=
  inferInstanceAs (Decidable (_ = true))

namespace System

def undelivered (sys : System) (l : Listener) : List String := sys.store.activity.drop l.delivered

/-- No worker that is in its loop forgets a queue with work. -/
def Remembers (sys : System) : Prop :=
  ∀ w l q, sys.workers w = some l → l.phase ≠ .subscribed → l.Responsible q →
    (sys.store.zset .queued q).nonempty = true →
      q ∈ l.queueSet ∨ q ∈ sys.undelivered l ∨ q ∈ sys.announcing

end System

/-- A worker that is about to drop a queue does not count on its _queue_set any more. -/
structure Listener.Informed (sys : System) (l : Listener) : Prop where
  read : l.delivered ≤ sys.store.activity.length
  told : l.phase ≠ .subscribed → ∀ q, l.Responsible q →
    (sys.store.zset .queued q).nonempty = true →
      (q ∈ l.queueSet ∧ l.phase ≠ .dropping q) ∨ q ∈ sys.undelivered l ∨ q ∈ sys.announcing

structure Notified (sys : System) : Prop where
  listed : Listed .queued sys.store
  informed : ∀ w l, sys.workers w = some l → l.Informed sys

theorem Notified.remembers {sys : System} (h : Notified sys) : sys.Remembers := by
  intro w l q hw hphase hq hn
  rcases (h.informed w l hw).told hphase q hq hn with hset | htold
  · exact Or.inl hset.1
  · exact Or.inr htold

theorem notified_initial : Notified System.initial where
  listed := by
    intro q hn
    simp [System.initial] at hn
  informed := by
    intro w l hw
    simp [System.initial] at hw

/-- The news of a step name every queue that it fills or announces. -/
structure Carries (sys sys' : System) (news : List String) : Prop where
  grown : sys'.store.activity = sys.store.activity ++ news
  fed : ∀ q, (sys'.store.zset .queued q).nonempty = true →
    (sys.store.zset .queued q).nonempty = true ∨ q ∈ news ∨ q ∈ sys'.announcing
  announced : ∀ q ∈ sys.announcing, q ∈ news ∨ q ∈ sys'.announcing

variable {sys sys' : System} {news : List String} {l : Listener} {w : String}

/-- A worker that does nothing stays informed. -/
theorem Carries.informed (h : Carries sys sys' news) (hl : l.Informed sys) : l.Informed sys' where
  read := by
    have hread := hl.read
    rw [h.grown, List.length_append]
    omega
  told := by
    intro hphase q hq hn
    have hdrop : sys'.undelivered l = sys.undelivered l ++ news := by
      unfold System.undelivered
      rw [h.grown, List.drop_append_of_le_length hl.read]
    rw [hdrop, List.mem_append]
    rcases h.fed q hn with hn | hnew | hnew
    · rcases hl.told hphase q hq hn with hset | hmsg | hann
      · exact Or.inl hset
      · exact Or.inr (Or.inl (Or.inl hmsg))
      · rcases h.announced q hann with hnew | hann
        · exact Or.inr (Or.inl (Or.inr hnew))
        · exact Or.inr (Or.inr hann)
    · exact Or.inr (Or.inl (Or.inr hnew))
    · exact Or.inr (Or.inr hnew)

/-- A step in which the workers do nothing. -/
theorem Notified.carry (h : Notified sys) (hlisted : Listed .queued sys'.store)
    (hworkers : sys'.workers = sys.workers) (hc : Carries sys sys' news) : Notified sys' where
  listed := hlisted
  informed := by
    intro w l hw
    rw [hworkers] at hw
    exact hc.informed (h.informed w l hw)

/-- A step of one worker that does nothing in Redis. -/
theorem Notified.setWorker {l' : Option Listener} (h : Notified sys)
    (own : ∀ l, l' = some l → l.Informed sys) : Notified (sys.setWorker w l') where
  listed := h.listed
  informed := by
    intro v l hv
    have hv : (if v = w then l' else sys.workers v) = some l := hv
    have hinf : l.Informed sys := by
      split_ifs at hv
      · exact own l hv
      · exact h.informed v l hv
    exact ⟨hinf.read, hinf.told⟩

theorem Notified.act {f : Listener → System} (h : Notified sys)
    (hf : ∀ l, sys.workers w = some l → Notified (f l)) : Notified (sys.act w f) := by
  unfold System.act
  cases hw : sys.workers w with
  | none => exact h
  | some l => exact hf l hw

/-! The events. -/

theorem Notified.client {c : Command} (h : Notified sys) (hc : (Event.client c).Notifies) :
    Notified (happen (.client c) sys).2 := by
  obtain ⟨news, hgrown, hfed⟩ := command_news hc sys.store
  have hquiet : TaskState.queued = .active → c.isHeartbeat = false := by simp
  have hcarry : Carries sys { sys with store := (exec c sys.store).2 } news := by
    refine ⟨hgrown, fun q hn => ?_, fun q hq => Or.inr hq⟩
    rcases hfed q hn with hn | hnew
    · exact Or.inl hn
    · exact Or.inr (Or.inl hnew)
  exact h.carry (h.listed.step hquiet) rfl hcarry

theorem Notified.subscribe {onlyQueues excludeQueues : Finset String} (h : Notified sys) :
    Notified (happen (.subscribe w onlyQueues excludeQueues) sys).2 := by
  change Notified (if _ then _ else _)
  split_ifs
  · refine h.setWorker ?_
    rintro l ⟨rfl⟩
    exact ⟨le_rfl, fun hphase => absurd rfl hphase⟩
  · exact h

theorem Notified.refresh (h : Notified sys) : Notified (happen (.refresh w) sys).2 := by
  refine h.act (fun l hw => ?_)
  split_ifs
  · refine h.setWorker ?_
    rintro l' ⟨rfl⟩
    refine ⟨(h.informed w l hw).read, fun _ q hq hn => Or.inl ⟨?_, by simp⟩⟩
    exact mem_filter_retrieve.mpr ⟨h.listed q hn, hq⟩
  · exact h

theorem Notified.deliver (h : Notified sys) : Notified (happen (.deliver w) sys).2 := by
  refine h.act (fun l hw => ?_)
  have hl := h.informed w l hw
  split_ifs with hphase
  · unfold System.deliver
    cases hm : sys.store.activity[l.delivered]? with
    | none => exact h
    | some queue =>
      obtain ⟨hlt, hget⟩ := List.getElem?_eq_some_iff.mp hm
      have hcut : sys.undelivered l = queue :: sys.store.activity.drop (l.delivered + 1) := by
        unfold System.undelivered
        rw [List.drop_eq_getElem_cons hlt, hget]
      refine h.setWorker ?_
      rintro l' ⟨rfl⟩
      refine ⟨hlt, fun _ q hq hn => ?_⟩
      have htold := hl.told (by simp [hphase]) q hq hn
      rw [hcut, List.mem_cons] at htold
      rcases htold with ⟨hset, -⟩ | (rfl | hmsg) | hann
      · exact Or.inl ⟨Finset.mem_union_left _ hset, by simp [hphase]⟩
      · have hfound : q ∈ filterQueues l.onlyQueues l.excludeQueues {q} :=
          Finset.mem_filter.mpr ⟨Finset.mem_singleton_self q, hq⟩
        exact Or.inl ⟨Finset.mem_union_right _ hfound, by simp [hphase]⟩
      · exact Or.inr (Or.inl hmsg)
      · exact Or.inr (Or.inr hann)
  · exact h

theorem Notified.drop (h : Notified sys) : Notified (happen (.drop w) sys).2 := by
  refine h.act (fun l hw => ?_)
  have hl := h.informed w l hw
  cases hphase : l.phase with
  | dropping queue =>
    refine h.setWorker ?_
    rintro l' ⟨rfl⟩
    refine ⟨hl.read, fun _ q hq hn => ?_⟩
    rcases hl.told (by simp [hphase]) q hq hn with ⟨hset, hkept⟩ | htold
    · have hne : q ≠ queue := by
        rintro rfl
        exact hkept hphase
      exact Or.inl ⟨Finset.mem_erase.mpr ⟨hne, hset⟩, by simp⟩
    · exact Or.inr htold
  | subscribed => exact h
  | listening => exact h

theorem Notified.promote {queue : String} {batchSize : Int} {now : Instant} (h : Notified sys) :
    Notified (happen (.promote queue batchSize now) sys).2 := by
  let c := Command.promote queue batchSize now
  have hlisted : Listed .queued (exec c sys.store).2 := h.listed.step (by simp)
  have hgrown : (exec c sys.store).2.activity = sys.store.activity ++ [] := by
    rw [List.append_nil]
    exact activity_zpoppushExists
  have hplain (hreply : ∀ id ids, (exec c sys.store).1 ≠ .ok (id :: ids)) :
      Notified { sys with store := (exec c sys.store).2 } := by
    have hcarry : Carries sys { sys with store := (exec c sys.store).2 } [] := by
      refine ⟨hgrown, fun q hn => ?_, fun q hq => Or.inr hq⟩
      rcases promote_feeds hn with hn | ⟨-, id, ids, hr⟩
      · exact Or.inl hn
      · exact absurd hr (hreply id ids)
    exact h.carry hlisted rfl hcarry
  cases hreply : (exec c sys.store).1 with
  | error e =>
    simp only [happen, hreply, c]
    refine hplain (fun id ids hc => ?_)
    rw [hreply] at hc
    cases hc
  | ok ids =>
    cases ids with
    | nil =>
      simp only [happen, hreply, c]
      refine hplain (fun id ids hc => ?_)
      rw [hreply] at hc
      cases hc
    | cons id ids =>
      simp only [happen, hreply, c]
      have hcarry : Carries sys { sys with
          store := (exec c sys.store).2, announcing := queue :: sys.announcing } [] := by
        refine ⟨hgrown, fun q hn => ?_, fun q hq => Or.inr (List.mem_cons_of_mem _ hq)⟩
        rcases promote_feeds hn with hn | ⟨rfl, -⟩
        · exact Or.inl hn
        · exact Or.inr (Or.inr List.mem_cons_self)
      exact h.carry hlisted rfl hcarry

theorem Notified.announce {queue : String} (h : Notified sys) :
    Notified (happen (.announce queue) sys).2 := by
  change Notified (if _ then _ else _)
  split_ifs
  · have hcarry : Carries sys { sys with
        store := sys.store.publish queue, announcing := sys.announcing.erase queue } [queue] := by
      refine ⟨rfl, fun q hn => Or.inl hn, fun q hq => ?_⟩
      by_cases hne : q = queue
      · exact Or.inl (List.mem_singleton.mpr hne)
      · exact Or.inr ((List.mem_erase_of_ne hne).mpr hq)
    exact h.carry h.listed rfl hcarry
  · exact h

theorem Notified.process {queue : String} {batchSize : Int} {failedToAcquire : Bool}
    {now : Instant} {later : Time} (h : Notified sys)
    (hfed : failedToAcquire = false → ¬Starves queue batchSize sys.store) :
    Notified (happen (.process w queue batchSize failedToAcquire now later) sys).2 := by
  refine h.act (fun l hw => ?_)
  split_ifs with hready
  · obtain ⟨hphase, -, hlock⟩ := hready
    let c := Command.pickup queue batchSize now later
    have popped : Notified { sys with store := (exec c sys.store).2 } := by
      have hgrown : (exec c sys.store).2.activity = sys.store.activity ++ [] := by
        rw [List.append_nil]
        exact activity_zpoppushExists
      have hcarry : Carries sys { sys with store := (exec c sys.store).2 } [] := by
        refine ⟨hgrown, fun q hn => ?_, fun q hq => Or.inr hq⟩
        obtain ⟨x, hx⟩ := ZSet.nonempty_iff.mp hn
        exact Or.inl (ZSet.nonempty_iff.mpr ⟨x, mem_queued_of_pickup hx⟩)
      exact h.carry (h.listed.step (by simp)) rfl hcarry
    have hl := popped.informed w l hw
    cases hreply : (exec c sys.store).1 with
    | error e =>
      simp only [System.process, hreply, c]
      exact popped.setWorker (by simp)
    | ok ids =>
      cases ids with
      | cons id ids =>
        simp only [System.process, hreply, c]
        exact popped
      | nil =>
        simp only [System.process, hreply, c]
        have hempty : ((exec c sys.store).2.zset .queued queue).nonempty = false :=
          (pickup_empties_iff hreply).mpr (hfed hlock)
        refine popped.setWorker ?_
        rintro l' ⟨rfl⟩
        refine ⟨hl.read, fun _ q hq hn => ?_⟩
        have hne : q ≠ queue := by
          rintro rfl
          simp [hempty] at hn
        rcases hl.told (by simp [hphase]) q hq hn with ⟨hset, -⟩ | htold
        · exact Or.inl ⟨hset, by simpa using Ne.symm hne⟩
        · exact Or.inr htold
  · exact h

/-- A worker's pickup does not starve. -/
def Event.Feeds : System → Event → Prop
  | sys, .process _ queue batchSize failedToAcquire _ _ =>
      failedToAcquire = false → ¬Starves queue batchSize sys.store
  | _, _ => True

instance (sys : System) (e : Event) : Decidable (e.Feeds sys) := by
  induction e using Event.casesOn with
  | process w queue batchSize failed now later =>
    exact inferInstanceAs (Decidable (failed = false → ¬Starves queue batchSize sys.store))
  | _ => exact inferInstanceAs (Decidable True)

theorem notified_step {e : Event} (h : Notified sys) (hn : e.Notifies) (hf : e.Feeds sys) :
    Notified (happen e sys).2 := by
  cases e with
  | client c => exact h.client hn
  | subscribe => exact h.subscribe
  | refresh => exact h.refresh
  | deliver => exact h.deliver
  | process => exact h.process hf
  | drop => exact h.drop
  | promote => exact h.promote
  | announce => exact h.announce

/-- In a run with notification on whose pickups do not starve, no worker ever forgets a queue with
work. An empty result of _process_from_queue means an empty queue, exactly when its pickup does
not starve. -/
theorem remembers_run (l : List Event) (hnotify : ∀ e ∈ l, e.Notifies)
    (hfeed : Along happen (fun sys e => e.Feeds sys) System.initial l) :
    (∀ pre, pre <+: l → (run happen System.initial pre).Remembers) ∧
      ∀ (h : Host) (queue : String) (batchSize : Int) (failedToAcquire : Bool) (now : Instant)
        (later : Time) (env : Nat → List Command) (n : Nat) (s : Store) (r : List String × Int),
        let o := Prog.go exec env
          (Worker.processFromQueue h queue batchSize failedToAcquire now later) n s
        o.result = .ok r → Worker.removesQueue r = true →
          ((o.state.zset .queued queue).nonempty = false ↔
            ¬Starves queue batchSize (runAll s (env n))) := by
  constructor
  · intro pre hpre
    obtain ⟨post, rfl⟩ := hpre
    have notifies : Along happen (fun _ e => e.Notifies) System.initial (pre ++ post) :=
      along_of_forall hnotify
    have upto := (along_append.mp (notifies.and hfeed)).1
    have hinv : Notified (run happen System.initial pre) :=
      run_invariant (fun _ _ h hp => notified_step h hp.1 hp.2) notified_initial upto
    exact hinv.remembers
  · intro h queue batchSize failedToAcquire now later env n s r o hr hempty
    obtain ⟨hreply, hstate⟩ := processFromQueue_removes hr hempty
    rw [hstate]
    exact pickup_empties_iff hreply

def clientDelay (id : String) (now : Instant) : Event :=
  .client (.delay "default" { id := id, func := "tasks:simple_task", unique := true } none now true)

/-- While one worker runs the task u, u and then x are queued; the other worker knows the queue
and takes a batch. -/
def queuedBehindActive (batchSize : Int) : List Event :=
  [.subscribe "w1" ∅ ∅, .subscribe "w2" ∅ ∅, .refresh "w1", .refresh "w2",
    clientDelay "u" 1, .deliver "w1", .deliver "w2",
    .process "w2" "default" 1 false 2 3,
    clientDelay "u" 4, clientDelay "x" 5,
    .deliver "w1", .deliver "w1",
    .process "w1" "default" batchSize false 6 7, .drop "w1"]

theorem remembers_run_batchOfTwo :
    (run happen System.initial (queuedBehindActive 2)).Remembers :=
  (remembers_run (queuedBehindActive 2)
    (by simp [queuedBehindActive, clientDelay, Event.Notifies]) (by decide +kernel)).1 _
    List.prefix_rfl

/-- The batch of one is u, which is diverted: the worker drops the queue in which x waits. -/
theorem not_remembers_starved : ¬∀ l : List Event, (∀ e ∈ l, e.Notifies) →
    ∀ pre, pre <+: l → (run happen System.initial pre).Remembers := by
  intro h
  let sys := run happen System.initial (queuedBehindActive 1)
  have hsys : sys.Remembers := h (queuedBehindActive 1)
    (by simp [queuedBehindActive, clientDelay, Event.Notifies]) _ List.prefix_rfl
  have hworker : (sys.workers "w1").any (fun l => decide (l.phase ≠ .subscribed ∧
      l.Responsible "default" ∧ "default" ∉ l.queueSet ∧ "default" ∉ sys.undelivered l)) = true := by
    decide +kernel
  have hwork : (sys.store.zset .queued "default").nonempty = true := by decide +kernel
  have hquiet : sys.announcing = [] := by decide +kernel
  obtain ⟨l, hw, hl⟩ := (Option.any_eq_true _ _).mp hworker
  obtain ⟨hphase, hq, hset, hread⟩ := of_decide_eq_true hl
  rcases hsys "w1" l "default" hw hphase hq hwork with hin | hin | hin
  · exact hset hin
  · exact hread hin
  · simp [hquiet] at hin

end TaskTiger
