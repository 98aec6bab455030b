import TaskTiger.Store.ScriptEffects

namespace TaskTiger

open Redis

namespace Zpoppush

variable {a : Zpoppush} {s : Store} {st : TaskState} {q x : String}

/-! The sets of queues. -/

theorem queues_diverted : (a.diverted s).queues = s.queues := by
  unfold diverted
  cases a.ifExists <;> rfl

theorem mem_queues_updateSets {t : Store} : q ∈ (a.updateSets t).queues st ↔
    (q ∈ t.queues st ∧
      ((t.zset a.source a.queue).nonempty = true ∨ ¬(st = a.source ∧ q = a.queue))) ∨
    st = a.destination ∧ q = a.queue := by
  simp [updateSets]

theorem mem_queues_listed : q ∈ (a.listed s).queues st ↔
    (q ∈ s.queues st ∧
      (((a.listed s).zset a.source a.queue).nonempty = true ∨ ¬(st = a.source ∧ q = a.queue))) ∨
    (st = a.destination ∧ q = a.queue) ∨
    ((∃ score, a.ifExists = some (st, score)) ∧ q = a.queue ∧
      ((a.listed s).zset st q).nonempty = true) := by
  rw [zset_listed]
  unfold listed
  cases hi : a.ifExists with
  | none => simp [queues_diverted]
  | some p =>
    obtain ⟨st', score⟩ := p
    have hst : (∃ score', some (st', score) = some (st, score')) ↔ st = st' := by
      simp [eq_comm]
    rw [hst]
    by_cases hn : ((a.diverted s).zset st' a.queue).nonempty = true
    · simp only [Store.zset_sadd, zset_sremIfNotExists, hn, if_true, Store.mem_queues_sadd,
        mem_queues_sremIfNotExists, queues_diverted]
      grind
    · simp only [Store.zset_sadd, zset_sremIfNotExists, hn, Store.mem_queues_sadd,
        mem_queues_sremIfNotExists, queues_diverted, Bool.false_eq_true, if_false]
      grind

/-! The scores. -/

theorem score_pushed : (a.pushed s).score st q x =
    if st = a.destination ∧ q = a.queue ∧ x ∈ a.members s then some a.newScore
    else (a.popped s).score st q x := by
  unfold pushed Store.score
  rw [Store.zset_setZset]
  by_cases h : st = a.destination ∧ q = a.queue
  · obtain ⟨rfl, rfl⟩ := h
    rw [if_pos ⟨rfl, rfl⟩, score_foldl_add]
    simp
  · have h' : ¬(st = a.destination ∧ q = a.queue ∧ x ∈ a.members s) := by tauto
    rw [if_neg h, if_neg h']

theorem zset_updateSets (t : Store) : (a.updateSets t).zset = t.zset := by
  simp [updateSets]

theorem score_updateSets (t : Store) : (a.updateSets t).score st q x = t.score st q x := by
  rw [Store.score, zset_updateSets, Store.score]

theorem score_listed : (a.listed s).score st q x = (a.diverted s).score st q x := by
  rw [Store.score, zset_listed, Store.score]

/-- Only the ZSETs of the three keys of the queue change. -/
theorem zset_listed_of_ne (h1 : ¬(st = a.source ∧ q = a.queue))
    (h2 : ¬(st = a.destination ∧ q = a.queue))
    (h3 : ¬((∃ score, a.ifExists = some (st, score)) ∧ q = a.queue)) :
    (a.listed s).zset st q = s.zset st q := by
  rw [zset_listed]
  unfold diverted
  cases hi : a.ifExists with
  | none => simp [added, popped, h1, h2]
  | some p =>
    obtain ⟨st', score⟩ := p
    have h3' : ¬(st = st' ∧ q = a.queue) := by
      intro hc
      exact h3 ⟨⟨score, by rw [hi, hc.1]⟩, hc.2⟩
    simp [added, popped, h1, h2, h3']

/-- The first entries of the source in the order of score and member, as many as the count allows
and the bound admits. -/
def batch (a : Zpoppush) (s : Store) : List (Time × String) :=
  let entries := (s.zset a.source a.queue).entries
  entries.take (min a.count.toNat (entries.countP (fun e => ZSet.inRange none a.score e.1)))

theorem membersScores_eq_batch (hc : 1 ≤ a.count) : a.membersScores s = a.batch s :=
  ZSet.rangeByScore_eq_take _ _ (by omega)

theorem members_eq_batch (hc : 1 ≤ a.count) : a.members s = (a.batch s).map Prod.snd :=
  congrArg (List.map Prod.snd) (membersScores_eq_batch hc)

end Zpoppush

namespace ZpoppushScript

/-- The script has if_exists. -/
def Diverts (k : ZpoppushScript) (a : Zpoppush) (st : TaskState) (score : Time) : Prop :=
  k = .ifExists ∧ a.ifExists = some (st, score)

/-- The variants with on_success. -/
def HasSets (k : ZpoppushScript) : Prop := k = .updateSets ∨ k = .ifExists

instance (k : ZpoppushScript) : Decidable k.HasSets :=
  inferInstanceAs (Decidable (k = .updateSets ∨ k = .ifExists))

/-- A script that raises nothing in the store s leaves the store t. -/
structure Moved (k : ZpoppushScript) (a : Zpoppush) (s t : Store) : Prop where
  source : ∀ x, t.score a.source a.queue x =
    if x ∈ (a.batch s).map Prod.snd then none else s.score a.source a.queue x
  destination : ∀ x, t.score a.destination a.queue x =
    if x ∈ (a.batch s).map Prod.snd ∧ (k = .ifExists → x ∉ s.zset a.destination a.queue)
    then some a.newScore else s.score a.destination a.queue x
  diverted : ∀ st score, k.Diverts a st score → ∀ x, t.score st a.queue x =
    if x ∈ (a.batch s).map Prod.snd ∧ x ∈ s.zset a.destination a.queue
    then some (((s.score st a.queue x).map (min · score)).getD score)
    else s.score st a.queue x
  scores : ∀ st q, ¬(q = a.queue ∧
      (st = a.source ∨ st = a.destination ∨ ∃ score, k.Diverts a st score)) →
    t.zset st q = s.zset st q
  dropped : k.HasSets → a.batch s ≠ [] → (a.queue ∈ t.queues a.source ↔
    a.queue ∈ s.queues a.source ∧ (t.zset a.source a.queue).nonempty = true)
  added : k.HasSets → a.batch s ≠ [] → a.queue ∈ t.queues a.destination
  addedIfExists : ∀ st score, k.Diverts a st score → a.batch s ≠ [] →
    (a.queue ∈ t.queues st ↔
      a.queue ∈ s.queues st ∨ (t.zset st a.queue).nonempty = true)
  queues : ∀ st q, ¬(k.HasSets ∧ a.batch s ≠ [] ∧ q = a.queue ∧
      (st = a.source ∨ st = a.destination ∨ ∃ score, k.Diverts a st score)) →
    (q ∈ t.queues st ↔ q ∈ s.queues st)
  others : t = { s with zset := t.zset, queues := t.queues }

/-- The store after a batch that is not empty. -/
def done : ZpoppushScript → Zpoppush → Store → Store
  | .plain, a, s | .withscores, a, s => a.pushed s
  | .updateSets, a, s => a.updateSets (a.pushed s)
  | .ifExists, a, s => a.listed s

variable {k : ZpoppushScript} {a : Zpoppush} {s : Store}

theorem run_cases (h : (k.run a s).1 = .ok ()) :
    a.members s = [] ∧ (k.run a s).2 = s ∨ a.members s ≠ [] ∧ (k.run a s).2 = k.done a s := by
  by_cases hm : a.members s = []
  · refine Or.inl ⟨hm, ?_⟩
    cases k <;>
      simp [run, zpoppush, zpoppushUpdateSets, zpoppushWithscores, zpoppushExists, hm]
  · refine Or.inr ⟨hm, ?_⟩
    cases k <;>
      simp only [run, zpoppush, zpoppushUpdateSets, zpoppushWithscores, zpoppushExists, hm,
        if_false] at h ⊢ <;> split_ifs at h ⊢ <;> first | rfl | cases h

/-- Without a batch the scripts do nothing. -/
theorem moved_nil (hb : a.batch s = []) : k.Moved a s s where
  source := by simp [hb]
  destination := by simp [hb]
  diverted := by simp [hb]
  scores := fun _ _ _ => rfl
  dropped := fun _ hc => absurd hb hc
  added := fun _ hc => absurd hb hc
  addedIfExists := fun _ _ _ hc => absurd hb hc
  queues := fun _ _ _ => Iff.rfl
  others := rfl

section Done

variable {st : TaskState} {score : Time} {x : String}

theorem score_done_source (hd : a.Distinct) : (k.done a s).score a.source a.queue x =
    if x ∈ a.members s then none else s.score a.source a.queue x := by
  have pushed : (a.pushed s).score a.source a.queue x =
      if x ∈ a.members s then none else s.score a.source a.queue x := by
    rw [Zpoppush.score_pushed, if_neg (fun hc => hd.source hc.1), Zpoppush.score_popped]
    simp
  cases k with
  | plain => exact pushed
  | withscores => exact pushed
  | updateSets =>
    change (a.updateSets (a.pushed s)).score a.source a.queue x = _
    rw [Zpoppush.score_updateSets, pushed]
  | ifExists =>
    have added : (a.added s).score a.source a.queue x =
        if x ∈ a.members s then none else s.score a.source a.queue x := by
      rw [Zpoppush.score_added, if_neg (fun hc => hd.source hc.1), Zpoppush.score_popped]
      simp
    change (a.listed s).score a.source a.queue x = _
    rw [Zpoppush.score_listed]
    cases hi : a.ifExists with
    | none => rw [Zpoppush.score_diverted_none hi, added]
    | some p =>
      have hne := (hd.ifExists p.1 p.2 hi).1
      rw [Zpoppush.score_diverted_some hi, if_neg (fun hc => hne hc.1.symm), added]

theorem score_done_destination (hd : a.Distinct) :
    (k.done a s).score a.destination a.queue x =
      if x ∈ a.members s ∧ (k = .ifExists → x ∉ s.zset a.destination a.queue)
      then some a.newScore else s.score a.destination a.queue x := by
  have popped : (a.popped s).score a.destination a.queue x = s.score a.destination a.queue x := by
    rw [Zpoppush.score_popped, if_neg (fun hc => hd.source hc.1.symm)]
  have pushed : (a.pushed s).score a.destination a.queue x =
      if x ∈ a.members s then some a.newScore else s.score a.destination a.queue x := by
    rw [Zpoppush.score_pushed, popped]
    simp
  cases k with
  | plain => simpa [done] using pushed
  | withscores => simpa [done] using pushed
  | updateSets =>
    change (a.updateSets (a.pushed s)).score a.destination a.queue x = _
    rw [Zpoppush.score_updateSets]
    simpa using pushed
  | ifExists =>
    have added : (a.added s).score a.destination a.queue x =
        if x ∈ a.members s ∧ x ∉ s.zset a.destination a.queue then some a.newScore
        else s.score a.destination a.queue x := by
      rw [Zpoppush.score_added, popped]
      simp [Zpoppush.mem_moved]
    have listed : (a.listed s).score a.destination a.queue x =
        (a.added s).score a.destination a.queue x := by
      rw [Zpoppush.score_listed]
      cases hi : a.ifExists with
      | none => rw [Zpoppush.score_diverted_none hi]
      | some p =>
        have hne := (hd.ifExists p.1 p.2 hi).2
        rw [Zpoppush.score_diverted_some hi, if_neg (fun hc => hne hc.1.symm)]
    simp only [done, listed, added, true_implies]

theorem score_done_diverted (hd : a.Distinct) (hk : k.Diverts a st score) :
    (k.done a s).score st a.queue x =
      if x ∈ a.members s ∧ x ∈ s.zset a.destination a.queue
      then some (((s.score st a.queue x).map (min · score)).getD score)
      else s.score st a.queue x := by
  obtain ⟨rfl, hi⟩ := hk
  obtain ⟨hsource, hdestination⟩ := hd.ifExists st score hi
  have added : (a.added s).score st a.queue x = s.score st a.queue x := by
    rw [Zpoppush.score_added, if_neg (fun hc => hdestination hc.1), Zpoppush.score_popped,
      if_neg (fun hc => hsource hc.1)]
  change (a.listed s).score st a.queue x = _
  rw [Zpoppush.score_listed, Zpoppush.score_diverted_some hi, added]
  simp [Zpoppush.mem_existing]

theorem zset_done_of_ne {q : String} (h : ¬(q = a.queue ∧
    (st = a.source ∨ st = a.destination ∨ ∃ score, k.Diverts a st score))) :
    (k.done a s).zset st q = s.zset st q := by
  have hsource : ¬(st = a.source ∧ q = a.queue) := fun hc => h ⟨hc.2, Or.inl hc.1⟩
  have hdestination : ¬(st = a.destination ∧ q = a.queue) :=
    fun hc => h ⟨hc.2, Or.inr (Or.inl hc.1)⟩
  have pushed : (a.pushed s).zset st q = s.zset st q := by
    simp [Zpoppush.pushed, Zpoppush.popped, hsource, hdestination]
  cases k with
  | plain => exact pushed
  | withscores => exact pushed
  | updateSets => exact (congrFun (congrFun (Zpoppush.zset_updateSets _) st) q).trans pushed
  | ifExists =>
    refine Zpoppush.zset_listed_of_ne hsource hdestination ?_
    rintro ⟨⟨score, hi⟩, hq⟩
    exact h ⟨hq, Or.inr (Or.inr ⟨score, rfl, hi⟩)⟩

theorem mem_queues_done {q : String} : q ∈ (k.done a s).queues st ↔
    if k.HasSets then
      (q ∈ s.queues st ∧ (((k.done a s).zset a.source a.queue).nonempty = true ∨
        ¬(st = a.source ∧ q = a.queue))) ∨
      (st = a.destination ∧ q = a.queue) ∨
      ((∃ score, k.Diverts a st score) ∧ q = a.queue ∧
        ((k.done a s).zset st q).nonempty = true)
    else q ∈ s.queues st := by
  have same : (a.pushed s).queues = s.queues := rfl
  cases k with
  | plain => simp [HasSets, done, same]
  | withscores => simp [HasSets, done, same]
  | updateSets =>
    simp only [HasSets, done, true_or, if_true, Zpoppush.mem_queues_updateSets, same,
      Zpoppush.zset_updateSets]
    simp [Diverts]
  | ifExists =>
    simp only [HasSets, done, or_true, if_true, Zpoppush.mem_queues_listed]
    simp [Diverts]

theorem done_eq : k.done a s =
    { s with zset := (k.done a s).zset, queues := (k.done a s).queues } := by
  have updated : ∀ t : Store, a.updateSets t =
      { t with zset := (a.updateSets t).zset, queues := (a.updateSets t).queues } := by
    intro t
    unfold Zpoppush.updateSets sremIfNotExists
    split_ifs <;> rfl
  cases k with
  | plain => rfl
  | withscores => rfl
  | updateSets => exact updated (a.pushed s)
  | ifExists => exact Zpoppush.listed_eq a s

/-- A batch moves as its variant says. -/
theorem moved_done (hd : a.Distinct) (hc : 1 ≤ a.count) (hm : a.members s ≠ []) :
    k.Moved a s (k.done a s) := by
  have batch : a.members s = (a.batch s).map Prod.snd := Zpoppush.members_eq_batch hc
  have nonempty : a.batch s ≠ [] := fun hb => hm (by rw [batch, hb, List.map_nil])
  exact
    { source := fun x => batch ▸ score_done_source hd
      destination := fun x => batch ▸ score_done_destination hd
      diverted := fun st score hk x => batch ▸ score_done_diverted hd hk
      scores := fun st q h => zset_done_of_ne h
      dropped := by
        intro hs _
        have listed : ¬∃ score, k.Diverts a a.source score :=
          fun ⟨score, _, hi⟩ => (hd.ifExists _ _ hi).1 rfl
        rw [mem_queues_done, if_pos hs]
        simp [hd.source, listed]
      added := by
        intro hs _
        rw [mem_queues_done, if_pos hs]
        exact Or.inr (Or.inl ⟨rfl, rfl⟩)
      addedIfExists := by
        intro st score hk _
        obtain ⟨hsource, hdestination⟩ := hd.ifExists st score hk.2
        have sets : k.HasSets := Or.inr hk.1
        rw [mem_queues_done, if_pos sets]
        have diverts : ∃ score, k.Diverts a st score := ⟨score, hk⟩
        simp [hsource, hdestination, diverts]
      queues := by
        intro st q h
        rw [mem_queues_done]
        split_ifs with hs
        · have away : ¬(q = a.queue ∧
              (st = a.source ∨ st = a.destination ∨ ∃ score, k.Diverts a st score)) :=
            fun hc => h ⟨hs, nonempty, hc⟩
          constructor
          · rintro (⟨hq, -⟩ | ⟨hst, hq⟩ | ⟨hk, hq, -⟩)
            · exact hq
            · exact absurd ⟨hq, Or.inr (Or.inl hst)⟩ away
            · exact absurd ⟨hq, Or.inr (Or.inr hk)⟩ away
          · intro hq
            exact Or.inl ⟨hq, Or.inr (fun hc => away ⟨hc.2, Or.inl hc.1⟩)⟩
        · rfl
      others := done_eq }

end Done

/-- The scripts raise nowhere else than at unpack. -/
theorem run_ok_of_fits (h : k.Fits a s) : (k.run a s).1 = .ok () := by
  cases k with
  | plain =>
    have hf : unpackFits (2 * (a.members s).length) := h
    simp only [ZpoppushScript.run, zpoppush]
    split_ifs <;> rfl
  | updateSets =>
    have hf : unpackFits (2 * (a.members s).length) := h
    simp only [ZpoppushScript.run, zpoppushUpdateSets]
    split_ifs <;> rfl
  | withscores =>
    have hf : unpackFits (2 * (a.members s).length) := h
    simp only [ZpoppushScript.run, zpoppushWithscores]
    split_ifs <;> rfl
  | ifExists =>
    have hf : a.Fits s := h
    simp only [ZpoppushScript.run, zpoppushExists]
    split_ifs <;> rfl

/-- A script that raises nothing has moved its batch. -/
theorem moved_run (hd : a.Distinct) (hc : 1 ≤ a.count) (h : (k.run a s).1 = .ok ()) :
    k.Moved a s (k.run a s).2 := by
  rcases run_cases h with ⟨hm, hrun⟩ | ⟨hm, hrun⟩
  · rw [hrun]
    refine moved_nil ?_
    rw [Zpoppush.members_eq_batch hc] at hm
    exact List.map_eq_nil_iff.mp hm
  · rw [hrun]
    exact moved_done hd hc hm

end ZpoppushScript

/-- Each variant of zpoppush raises nothing where its members can be unpacked. When it raises nothing
it moves the batch, and returns it: the members, for if_exists those that were not at the destination,
or the members with their old scores. -/
theorem zpoppush_moves_batch (a : Zpoppush) (s : Store) (hd : a.Distinct) (hc : 1 ≤ a.count) :
    (∀ k : ZpoppushScript, k.Fits a s → (k.run a s).1 = .ok ()) ∧
    (∀ r, (zpoppush a s).1 = .ok r →
      r = (a.batch s).map Prod.snd ∧ ZpoppushScript.plain.Moved a s (zpoppush a s).2) ∧
    (∀ r, (zpoppushUpdateSets a s).1 = .ok r → r = (a.batch s).map Prod.snd ∧
      ZpoppushScript.updateSets.Moved a s (zpoppushUpdateSets a s).2) ∧
    (∀ r, (zpoppushWithscores a s).1 = .ok r →
      r = a.batch s ∧ ZpoppushScript.withscores.Moved a s (zpoppushWithscores a s).2) ∧
    (∀ r, (zpoppushExists a s).1 = .ok r →
      r = ((a.batch s).map Prod.snd).filter (fun x => x ∉ s.zset a.destination a.queue) ∧
        ZpoppushScript.ifExists.Moved a s (zpoppushExists a s).2) := by
  have batch : a.members s = (a.batch s).map Prod.snd := Zpoppush.members_eq_batch hc
  have withscores : a.membersScores s = a.batch s := Zpoppush.membersScores_eq_batch hc
  refine ⟨fun k fits => ZpoppushScript.run_ok_of_fits fits, fun r hr => ⟨?_, ?_⟩,
    fun r hr => ⟨?_, ?_⟩, fun r hr => ⟨?_, ?_⟩, fun r hr => ⟨?_, ?_⟩⟩
  · rw [← batch]
    unfold zpoppush at hr
    split_ifs at hr with hm
    · simpa [hm] using hr.symm
    · simpa using hr.symm
  · exact ZpoppushScript.moved_run (k := .plain) hd hc (by simp [ZpoppushScript.run, hr, Except.map])
  · rw [← batch]
    unfold zpoppushUpdateSets at hr
    split_ifs at hr with hm
    · simpa [hm] using hr.symm
    · simpa using hr.symm
  · exact ZpoppushScript.moved_run (k := .updateSets) hd hc
      (by simp [ZpoppushScript.run, hr, Except.map])
  · rw [← withscores]
    unfold zpoppushWithscores at hr
    split_ifs at hr with hm
    · have none_left : a.membersScores s = [] := List.map_eq_nil_iff.mp hm
      simpa [none_left] using hr.symm
    · simpa using hr.symm
  · exact ZpoppushScript.moved_run (k := .withscores) hd hc
      (by simp [ZpoppushScript.run, hr, Except.map])
  · rw [← batch]
    unfold zpoppushExists at hr
    split_ifs at hr with hm
    · simpa [hm] using hr.symm
    · simpa [Zpoppush.moved] using hr.symm
  · exact ZpoppushScript.moved_run (k := .ifExists) hd hc
      (by simp [ZpoppushScript.run, hr, Except.map])

/-- Two queued ids, one of which is active already. -/
def queuedTwice : Store :=
  (Store.empty.setZset .queued "default" ((ZSet.empty.add 1 "u").add 2 "v")).setZset .active
    "default" (ZSet.empty.add 0 "u")

def popTwo : Zpoppush := ⟨.queued, .active, "default", none, 2, 3, some (.scheduled, 4)⟩

theorem zpoppush_moves_batch_diverted :
    (∀ k : ZpoppushScript, (k.run popTwo queuedTwice).1 = .ok ()) ∧
      ((zpoppush popTwo queuedTwice).1 = .ok ["u", "v"] ∧
        ZpoppushScript.plain.Moved popTwo queuedTwice (zpoppush popTwo queuedTwice).2) ∧
      ((zpoppushUpdateSets popTwo queuedTwice).1 = .ok ["u", "v"] ∧
        ZpoppushScript.updateSets.Moved popTwo queuedTwice (zpoppushUpdateSets popTwo queuedTwice).2) ∧
      ((zpoppushWithscores popTwo queuedTwice).1 = .ok [(1, "u"), (2, "v")] ∧
        ZpoppushScript.withscores.Moved popTwo queuedTwice (zpoppushWithscores popTwo queuedTwice).2) ∧
      ((zpoppushExists popTwo queuedTwice).1 = .ok ["v"] ∧
        ZpoppushScript.ifExists.Moved popTwo queuedTwice (zpoppushExists popTwo queuedTwice).2) := by
  have distinct : popTwo.Distinct := by
    refine ⟨by decide, ?_⟩
    rintro st score hi
    obtain ⟨rfl, rfl⟩ : TaskState.scheduled = st ∧ (4 : Time) = score := by
      simpa [popTwo] using hi
    decide
  obtain ⟨fits, plain, updateSets, withscores, ifExists⟩ :=
    zpoppush_moves_batch popTwo queuedTwice distinct (by decide)
  have replied : ∀ {α : Type} {reply : Except ScriptError α} {r : α},
      reply.toOption = some r → reply = .ok r := by
    intro α reply r h
    cases reply with
    | error e => simp [Except.toOption] at h
    | ok r' => simpa [Except.toOption] using h
  have all : (zpoppush popTwo queuedTwice).1 = .ok ["u", "v"] := replied (by decide +kernel)
  have listed : (zpoppushUpdateSets popTwo queuedTwice).1 = .ok ["u", "v"] :=
    replied (by decide +kernel)
  have scored : (zpoppushWithscores popTwo queuedTwice).1 = .ok [(1, "u"), (2, "v")] :=
    replied (by decide +kernel)
  have idle : (zpoppushExists popTwo queuedTwice).1 = .ok ["v"] := replied (by decide +kernel)
  exact ⟨fun k => fits k (by cases k <;> decide +kernel), ⟨all, (plain _ all).2⟩,
    ⟨listed, (updateSets _ listed).2⟩, ⟨scored, (withscores _ scored).2⟩, ⟨idle, (ifExists _ idle).2⟩⟩

end TaskTiger
