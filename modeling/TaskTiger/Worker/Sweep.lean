import TaskTiger.Worker.CutShort
import TaskTiger.Worker.Purge

namespace TaskTiger

open Redis Interleaving Prog

/-! What _worker_queue_expired_tasks leaves in the store, when nobody interferes. -/

/-- How an expired task is moved. -/
def expiryKind (h : Host) (task : Task) : MoveKind :=
  if task.shouldRetryOn h jobTimeoutException then .requeueExpired else .failExpired

/-- The move for an expired entry: by its object, or of a bare Task. -/
def expiryMove (h : Host) (queue id : String) : Option TaskData → Move
  | some d => ⟨expiryKind h ⟨queue, d⟩, queue, id, d.unique, h.startTime.time, h.publishQueuedTasks⟩
  | none => ⟨.missing, queue, id, false, (h.time id).time, h.publishQueuedTasks⟩

/-- Where an expired entry is afterwards. -/
def expiredScore (h : Host) (s : Store) (st : TaskState) (queue id : String) : Option Time :=
  let m := expiryMove h queue id (s.task id)
  if st = .active then none
  else if m.kind.toState = some st then some (m.kind.mode.newScore (s.score st queue id) m.when)
  else s.score st queue id

/-- The entries of the list are moved, and the rest is as it was. -/
structure Handled (h : Host) (s : Store) (l : List (String × String)) (t : Store) : Prop where
  scores : ∀ st q x, t.score st q x =
    if (q, x) ∈ l then expiredScore h s st q x else s.score st q x
  expired : ∀ time p, t.Expired time p ↔ s.Expired time p ∧ p ∉ l
  objects : t.task = s.task
  locks : t.locks = s.locks

section

variable {h : Host} {s t u : Store} {q x : String} {l : List (String × String)}

theorem expiryMove_spec (queue id : String) (data : Option TaskData) :
    (expiryMove h queue id data).kind.fromState = .active ∧
      (expiryMove h queue id data).queue = queue ∧ (expiryMove h queue id data).id = id := by
  cases data with
  | none => exact ⟨rfl, rfl, rfl⟩
  | some d =>
    refine ⟨?_, rfl, rfl⟩
    simp only [expiryMove, expiryKind]
    split_ifs <;> rfl

theorem expiryMove_keeps {queue id : String} {d : TaskData} :
    (expiryMove h queue id (some d)).kind.toState ≠ none := by
  simp only [expiryMove, expiryKind]
  split_ifs <;> simp [MoveKind.toState]

theorem returns_move {m : Move} (task : Task) (time : Option Time) (now : Instant)
    (he : m.Effective s) (hm : m = ⟨m.kind, task.queue, task.data.id, task.data.unique,
      Task.resolveWhen time now, h.publishQueuedTasks⟩) :
    Returns exec (task.move h m.kind time now) s () (exec (.move m) s).2 := by
  have reply : (exec (.move m) s).1 = .ok () := exec_move_ok he
  unfold Task.move
  rw [← hm]
  refine (returns_ask (Command.move m) s).bind ?_
  rw [reply]
  exact returns_pure () _

theorem returns_fromId {d : TaskData} {ts : Time} (object : s.task x = some d)
    (entry : s.score .active q x = some ts) (nonzero : ts ≠ 0) :
    Returns exec (Task.fromId .active q x) s ⟨q, d⟩ s := by
  have found : (exec (.fromId .active q x) s).1 = (some d, some ts) := Prod.ext object entry
  refine (returns_ask (Command.fromId .active q x) s).bind ?_
  rw [found]
  change Returns exec (if ts = 0 then _ else _) s _ s
  rw [if_neg nonzero]
  exact returns_pure _ s

/-- One entry: its Task is moved, or it is removed if there is no object. -/
theorem returns_expire (keyed : Keyed s) {ts : Time} (entry : s.score .active q x = some ts)
    (nonzero : ts ≠ 0) :
    Returns exec (attempt (Worker.expireTask h q x) (Worker.expireNotFound h q x)) s ()
      (exec (.move (expiryMove h q x (s.task x))) s).2 := by
  have effective : (expiryMove h q x (s.task x)).Effective s := by
    obtain ⟨hf, hq, hx⟩ := expiryMove_spec (h := h) q x (s.task x)
    rw [Move.Effective, hf, hq, hx]
    exact ZSet.mem_iff.mpr ⟨ts, entry⟩
  cases object : s.task x with
  | none =>
    rw [object] at effective
    -- the Task is not found, and there is no object either
    have unread : (exec (.fromId .active q x) s).1 = (none, some ts) := Prod.ext object entry
    have unstored : (exec (.get x) s).1 = none := object
    refine returns_call ?_
    rw [unread]
    refine returns_call ?_
    change Returns exec (if (s.task x).isNone then (Task.bare q x).move h .missing none (h.time x)
      else pure ()) s () _
    rw [object]
    exact returns_move (Task.bare q x) none (h.time x) effective rfl
  | some d =>
    rw [object] at effective
    obtain rfl : d.id = x := keyed x d object
    have now : Task.resolveWhen (some h.startTime.time) (h.time d.id) = h.startTime.time :=
      if_neg h.startTime.pos.ne'
    have sent : ∀ kind, expiryKind h ⟨q, d⟩ = kind →
        Returns exec (Task.move h ⟨q, d⟩ kind (some h.startTime.time) (h.time d.id)) s ()
          (exec (.move (expiryMove h q d.id (some d))) s).2 := by
      rintro kind rfl
      have args : expiryMove h q d.id (some d) = ⟨expiryKind h ⟨q, d⟩, q, d.id, d.unique,
          Task.resolveWhen (some h.startTime.time) (h.time d.id), h.publishQueuedTasks⟩ := by
        rw [now]
        rfl
      exact returns_move (m := expiryMove h q d.id (some d)) ⟨q, d⟩ (some h.startTime.time)
        (h.time d.id) effective args
    refine Returns.attempt ((returns_fromId object entry nonzero).bind ?_)
    by_cases retriable : Task.shouldRetryOn h ⟨q, d⟩ jobTimeoutException = true
    · rw [if_pos retriable]
      exact sent _ (if_pos retriable)
    · rw [if_neg retriable]
      exact sent _ (if_neg retriable)

/-- What the move of an entry does to the store. -/
theorem score_expiryMove {st : TaskState} {y : String} (active : x ∈ s.zset .active q) (r : String) :
    (exec (.move (expiryMove h q x (s.task x))) s).2.score st r y =
      if (r, y) = (q, x) then expiredScore h s st r y else s.score st r y := by
  obtain ⟨hf, hq, hx⟩ := expiryMove_spec (h := h) q x (s.task x)
  have effective : (expiryMove h q x (s.task x)).Effective s := by
    rw [Move.Effective, hf, hq, hx]
    exact active
  rw [score_move effective, hf, hq, hx]
  by_cases same : r = q ∧ y = x
  · obtain ⟨rfl, rfl⟩ := same
    rw [if_pos ⟨rfl, rfl⟩, if_pos rfl]
    rfl
  · rw [if_neg same, if_neg (fun hp => same (Prod.mk.inj hp))]

theorem task_expiryMove : (exec (.move (expiryMove h q x (s.task x))) s).2.task = s.task := by
  funext y
  rw [task_move]
  split_ifs with deleted
  · obtain ⟨⟨-, removes, -⟩, rfl⟩ := deleted
    obtain ⟨-, -, hx⟩ := expiryMove_spec (h := h) q x (s.task x)
    rw [hx]
    cases object : s.task x with
    | none => rfl
    | some d =>
      rw [object] at removes
      exact absurd removes expiryMove_keeps
  · rfl

/-- The queue stays listed as long as it has entries, so that all others are found again. -/
theorem expired_expiryMove (active : x ∈ s.zset .active q) (time : Time) (p : String × String) :
    (exec (.move (expiryMove h q x (s.task x))) s).2.Expired time p ↔
      s.Expired time p ∧ p ≠ (q, x) := by
  obtain ⟨r, y⟩ := p
  obtain ⟨hf, hq, hx⟩ := expiryMove_spec (h := h) q x (s.task x)
  have effective : (expiryMove h q x (s.task x)).Effective s := by
    rw [Move.Effective, hf, hq, hx]
    exact active
  have elsewhere : (expiryMove h q x (s.task x)).kind.toState ≠ some .active := by
    rw [← hf]
    exact MoveKind.toState_ne_fromState _
  unfold Store.Expired
  rw [mem_queues_move effective, hf, hq, score_expiryMove active]
  by_cases same : (r, y) = (q, x)
  · simp [same, expiredScore]
  · rw [if_neg same]
    constructor
    · intro left
      obtain ⟨⟨here | ⟨there, -⟩, -⟩, entry⟩ := left
      · exact ⟨⟨here, entry⟩, same⟩
      · exact absurd there elsewhere
    · intro left
      obtain ⟨⟨here, ts, entry, old⟩, -⟩ := left
      refine ⟨⟨Or.inl here, ?_⟩, ts, entry, old⟩
      by_cases queue : r = q
      · refine Or.inl (ZSet.nonempty_iff.mpr ⟨y, ZSet.mem_iff.mpr ⟨ts, ?_⟩⟩)
        have still := @score_expiryMove h s q x .active y active q
        rw [if_neg (queue ▸ same)] at still
        exact still.trans (queue ▸ entry)
      · exact Or.inr (fun hr => queue hr.2)

theorem handled_nil : Handled h s [] s :=
  ⟨fun _ _ _ => by simp, fun _ _ => by simp, rfl, rfl⟩

theorem Handled.cons (active : x ∈ s.zset .active q) (new : (q, x) ∉ l)
    (rest : Handled h (exec (.move (expiryMove h q x (s.task x))) s).2 l t) :
    Handled h s ((q, x) :: l) t := by
  refine ⟨?_, ?_, rest.objects.trans task_expiryMove, rest.locks.trans (locks_moveTask _ _)⟩
  case refine_2 =>
    intro time p
    rw [rest.expired, expired_expiryMove active, List.mem_cons, not_or, and_assoc]
  intro st r y
  rw [rest.scores, score_expiryMove active]
  by_cases later : (r, y) ∈ l
  · have other : (r, y) ≠ (q, x) := by
      rintro hp
      exact new (hp ▸ later)
    rw [if_pos later, if_pos (List.mem_cons_of_mem _ later), expiredScore, task_expiryMove,
      score_expiryMove active, if_neg other]
    rfl
  · rw [if_neg later]
    by_cases same : (r, y) = (q, x)
    · rw [if_pos same, if_pos (by simp [same])]
    · rw [if_neg same, if_neg (by simp [same, later])]

/-- The loop handles each entry of its batch. -/
theorem handled_forM (keyed : Keyed s) (distinct : l.Nodup)
    (active : ∀ p ∈ l, ∃ ts, s.score .active p.1 p.2 = some ts ∧ ts ≠ 0) :
    ∃ t, Returns exec (l.forM (fun (queue, id) =>
      attempt (Worker.expireTask h queue id) (Worker.expireNotFound h queue id))) s () t ∧
        Handled h s l t := by
  induction l generalizing s with
  | nil => exact ⟨s, returns_pure () s, handled_nil⟩
  | cons p l ih =>
    obtain ⟨q, x⟩ := p
    obtain ⟨new, distinct⟩ := List.nodup_cons.mp distinct
    obtain ⟨ts, entry, nonzero⟩ := active (q, x) (by simp)
    have here : x ∈ s.zset .active q := ZSet.mem_iff.mpr ⟨ts, entry⟩
    have still : ∀ p ∈ l, ∃ ts, (exec (.move (expiryMove h q x (s.task x))) s).2.score .active p.1 p.2 =
        some ts ∧ ts ≠ 0 := by
      intro p hp
      have other : (p.1, p.2) ≠ (q, x) := by
        rintro hx
        exact new (hx ▸ hp)
      rw [score_expiryMove here, if_neg other]
      exact active p (by simp [hp])
    obtain ⟨t, ran, handled⟩ := ih keyed.move distinct still
    exact ⟨t, (returns_expire keyed entry nonzero).bind ran, handled.cons here new⟩

end

/-! The whole sweep, under its lock. -/

def cutoff (h : Host) : Time := h.startTime.time - h.activeTaskUpdateTimeout

/-- The batch of the sweep is handled, and the lock is kept unless the batch was full. -/
structure Swept (h : Host) (s t : Store) : Prop where
  scores : ∀ st q x, t.score st q x =
    if (q, x) ∈ expiredBatch h s then expiredScore h s st q x else s.score st q x
  expired : ∀ time p, t.Expired time p ↔ s.Expired time p ∧ p ∉ expiredBatch h s
  objects : t.task = s.task
  lock : t.locks Worker.expiredTasksLock =
    if ((expiredBatch h s).length : Int) = h.requeueExpiredTasksBatchSize then none
    else some (h.token Worker.expiredTasksLock)

/-- The store with a lock taken. -/
def Store.lock (s : Store) (name token : String) : Store :=
  { s with locks := fun x => if x = name then some token else s.locks x }

section

variable {h : Host} {s t : Store}

theorem expired_of_mem_batch {p : String × String} (hp : p ∈ expiredBatch h s) :
    s.Expired (cutoff h) p := by
  rw [← mem_expiredOf_order h.smembers]
  exact (expiredIn_sublist _ _ _).subset hp

theorem nodup_expiredBatch (h : Host) (s : Store) : (expiredBatch h s).Nodup :=
  (nodup_expiredOf (h.smembers.nodup _)).sublist (expiredIn_sublist _ _ _)

/-- A sweep that finds its lock taken leaves the store as it is. -/
theorem sweep_locked {token : String} (taken : s.locks Worker.expiredTasksLock = some token) :
    Returns exec (Worker.workerQueueExpiredTasks h) s () s := by
  have refused : exec (.acquireLock Worker.expiredTasksLock (h.token Worker.expiredTasksLock)) s =
      (false, s) := by
    simp only [exec, taken]
  refine returns_call ?_
  rw [refused]
  exact returns_pure () s

/-- A sweep that finds its lock free handles its batch, and does nothing else. -/
theorem sweep_swept (keyed : Keyed s) (positive : ActivePositive s)
    (free : s.locks Worker.expiredTasksLock = none) :
    ∃ t, Returns exec (Worker.workerQueueExpiredTasks h) s () t ∧ Swept h s t := by
  let name := Worker.expiredTasksLock
  let locked := s.lock name (h.token name)
  have acquired : exec (.acquireLock name (h.token name)) s = (true, locked) := by
    simp only [exec, name, free]
    rfl
  have same : getExpiredTasks h.smembers (h.startTime.time - h.activeTaskUpdateTimeout)
      h.requeueExpiredTasksBatchSize locked = expiredBatch h s :=
    expiredIn_congr (s := s) (t := locked) rfl _ _ _
  have fetched : exec (.getExpiredTasks h.smembers (h.startTime.time - h.activeTaskUpdateTimeout)
      h.requeueExpiredTasksBatchSize) locked = (expiredBatch h s, locked) :=
    Prod.ext same rfl
  have entries : ∀ p ∈ expiredBatch h s,
      ∃ ts, locked.score .active p.1 p.2 = some ts ∧ ts ≠ 0 := by
    intro p hp
    obtain ⟨-, ts, entry, -, -⟩ := expired_of_mem_batch hp
    exact ⟨ts, entry, (positive _ _ _ entry).ne'⟩
  obtain ⟨t, ran, handled⟩ : ∃ t, Returns exec ((expiredBatch h s).forM (fun (queue, id) =>
      attempt (Worker.expireTask h queue id) (Worker.expireNotFound h queue id))) locked () t ∧
        Handled h locked (expiredBatch h s) t :=
    handled_forM keyed (nodup_expiredBatch h s) entries
  have held : t.locks name = some (h.token name) := by
    rw [handled.locks]
    simp [locked, Store.lock]
  have sweeps : ∀ v, Returns exec
      (if ((expiredBatch h s).length : Int) = h.requeueExpiredTasksBatchSize then
        Worker.releaseLock h name else pure ()) t () v →
      Returns exec (Worker.workerQueueExpiredTasks h) s () v := by
    intro v last
    refine returns_call ?_
    rw [acquired]
    refine returns_call ?_
    rw [fetched]
    exact ran.bind last
  by_cases full : ((expiredBatch h s).length : Int) = h.requeueExpiredTasksBatchSize
  · let v := (exec (.releaseLock name (h.token name)) t).2
    have released : v = { t with locks := fun x => if x = name then none else t.locks x } := by
      simp only [v, exec, held, if_true]
    refine ⟨v, sweeps v ?_, ?_⟩
    · rw [if_pos full]
      exact returns_call (returns_pure () v)
    · rw [released]
      refine ⟨handled.scores, handled.expired, handled.objects, ?_⟩
      simp [full, name]
  · refine ⟨t, sweeps t ?_, handled.scores, handled.expired, handled.objects, ?_⟩
    · rw [if_neg full]
      exact returns_pure () t
    · rw [if_neg full]
      exact held

theorem Swept.keyed (swept : Swept h s t) (keyed : Keyed s) : Keyed t := by
  intro id d object
  rw [swept.objects] at object
  exact keyed id d object

theorem Swept.gone (swept : Swept h s t) {p : String × String} (hp : p ∈ expiredBatch h s) :
    t.score .active p.1 p.2 = none := by
  rw [swept.scores, if_pos hp]
  simp [expiredScore]

theorem Swept.activePositive (swept : Swept h s t) (positive : ActivePositive s) :
    ActivePositive t := by
  intro q x ts entry
  by_cases hp : (q, x) ∈ expiredBatch h s
  · rw [swept.gone hp] at entry
    cases entry
  · rw [swept.scores, if_neg hp] at entry
    exact positive q x ts entry

/-- A batch that is not full is all there is. -/
theorem mem_batch_of_not_full (hb : 1 ≤ h.requeueExpiredTasksBatchSize)
    (part : ((expiredBatch h s).length : Int) ≠ h.requeueExpiredTasksBatchSize)
    {p : String × String} (hp : s.Expired (cutoff h) p) : p ∈ expiredBatch h s := by
  rw [← mem_expiredOf_order h.smembers] at hp
  have taken : expiredBatch h s = (s.expiredOf (cutoff h)
      (h.smembers.order (s.queues .active))).take h.requeueExpiredTasksBatchSize.toNat :=
    expiredIn_eq_take hb
  have length := congrArg List.length taken
  rw [List.length_take] at length
  rw [taken, List.take_of_length_le (by omega)]
  exact hp

end

/-! Sweeps one after the other, by any workers, until the backlog of expired tasks is gone. -/

def sweeps (hs : List Host) : Routine Unit := hs.forM Worker.workerQueueExpiredTasks

/-- The entry had expired, and one of the sweeps has moved it. -/
structure SweptBy (hs : List Host) (s : Store) (time : Time) (p : String × String) (t : Store) :
    Prop where
  expired : s.Expired time p
  moved : ∃ h ∈ hs, ∀ st, t.score st p.1 p.2 = expiredScore h s st p.1 p.2

/-- All entries that had expired at the earliest cutoff are moved, once each; no others are but
those that had expired at the latest one. -/
structure Drained (hs : List Host) (earliest latest : Time) (s t : Store) : Prop where
  moved : ∀ p, s.Expired earliest p → SweptBy hs s latest p t
  others : ∀ p, SweptBy hs s latest p t ∨ ∀ st, t.score st p.1 p.2 = s.score st p.1 p.2
  objects : t.task = s.task

section

variable {h : Host} {hs : List Host} {earliest latest time : Time} {s t u : Store}

theorem Store.Expired.mono {p : String × String} (hp : s.Expired earliest p)
    (le : earliest ≤ latest) : s.Expired latest p := by
  obtain ⟨queue, ts, entry, pos, old⟩ := hp
  exact ⟨queue, ts, entry, pos, old.trans le⟩

theorem sweeps_locked {token : String} (taken : s.locks Worker.expiredTasksLock = some token) :
    Returns exec (sweeps hs) s () s := by
  induction hs with
  | nil => exact returns_pure () s
  | cons h hs ih => exact (sweep_locked taken).bind ih

theorem Swept.by_first (hs : List Host) (swept : Swept h s t) (le : cutoff h ≤ latest) {p : String × String}
    (hp : p ∈ expiredBatch h s) : SweptBy (h :: hs) s latest p t := by
  refine ⟨(expired_of_mem_batch hp).mono le, h, List.mem_cons_self, ?_⟩
  intro st
  rw [swept.scores, if_pos hp]

/-- What the later sweeps move is what they would have moved before the first one. -/
theorem Swept.drained (swept : Swept h s t) (le : cutoff h ≤ latest)
    (rest : Drained hs earliest latest t u) : Drained (h :: hs) earliest latest s u := by
  have unmoved : ∀ p, p ∉ expiredBatch h s → ∀ st, t.score st p.1 p.2 = s.score st p.1 p.2 := by
    intro p hp st
    rw [swept.scores, if_neg hp]
  have first : ∀ p ∈ expiredBatch h s, SweptBy (h :: hs) s latest p u := by
    intro p hp
    obtain ⟨expired, -⟩ | kept := rest.others p
    · exact absurd hp ((swept.expired _ _).mp expired).2
    · obtain ⟨expired, k, hk, moved⟩ := swept.by_first hs le hp
      exact ⟨expired, k, hk, fun st => (kept st).trans (moved st)⟩
  have later : ∀ p, SweptBy hs t latest p u → SweptBy (h :: hs) s latest p u := by
    intro p hp
    obtain ⟨expired, new⟩ := (swept.expired _ _).mp hp.expired
    obtain ⟨k, hk, moved⟩ := hp.moved
    refine ⟨expired, k, List.mem_cons_of_mem h hk, ?_⟩
    intro st
    rw [moved, expiredScore, expiredScore, swept.objects, unmoved p new]
  constructor
  · intro p expired
    by_cases hp : p ∈ expiredBatch h s
    · exact first p hp
    · exact later p (rest.moved p ((swept.expired _ _).mpr ⟨expired, hp⟩))
  · intro p
    by_cases hp : p ∈ expiredBatch h s
    · exact Or.inl (first p hp)
    · obtain moved | kept := rest.others p
      · exact Or.inl (later p moved)
      · exact Or.inr (fun st => (kept st).trans (unmoved p hp st))
  · exact rest.objects.trans swept.objects

/-- A sweep that does not fill its batch has moved all that had expired. -/
theorem Swept.drained_last (swept : Swept h s t) (hb : 1 ≤ h.requeueExpiredTasksBatchSize)
    (part : ((expiredBatch h s).length : Int) ≠ h.requeueExpiredTasksBatchSize)
    (first : earliest ≤ cutoff h) (le : cutoff h ≤ latest) :
    Drained (h :: hs) earliest latest s t := by
  constructor
  · intro p expired
    exact swept.by_first _ le (mem_batch_of_not_full hb part (expired.mono first))
  · intro p
    by_cases hp : p ∈ expiredBatch h s
    · exact Or.inl (swept.by_first _ le hp)
    · refine Or.inr (fun st => ?_)
      rw [swept.scores, if_neg hp]
  · exact swept.objects

/-- The number of expired entries that are left, after a batch that had expired too. -/
theorem Swept.encard_expired (swept : Swept h s t) (le : cutoff h ≤ latest) :
    Set.encard {p | s.Expired latest p} =
      Set.encard {p | t.Expired latest p} + (expiredBatch h s).length := by
  have batch : (expiredBatch h s).length =
      Set.encard ((expiredBatch h s).toFinset : Set (String × String)) := by
    rw [Set.encard_coe_eq_coe_finsetCard, List.toFinset_card_of_nodup (nodup_expiredBatch h s)]
  have split : {p | s.Expired latest p} =
      {p | t.Expired latest p} ∪ ((expiredBatch h s).toFinset : Set (String × String)) := by
    ext p
    simp only [Set.mem_ofPred_eq, Set.mem_union, swept.expired, List.coe_toFinset]
    constructor
    · intro expired
      by_cases hp : p ∈ expiredBatch h s
      · exact Or.inr hp
      · exact Or.inl ⟨expired, hp⟩
    · rintro (left | hp)
      · exact left.1
      · exact (expired_of_mem_batch hp).mono le
  rw [batch, split, Set.encard_union_eq]
  rw [Set.disjoint_left]
  intro p left hp
  exact ((swept.expired _ _).mp left).2 (by simpa using hp)

theorem drained_sweeps (keyed : Keyed s) (positive : ActivePositive s)
    (free : s.locks Worker.expiredTasksLock = none) (le : earliest ≤ latest)
    (batches : ∀ h ∈ hs, 1 ≤ h.requeueExpiredTasksBatchSize)
    (cutoffs : ∀ h ∈ hs, earliest ≤ cutoff h ∧ cutoff h ≤ latest)
    (enough : Set.encard {p | s.Expired latest p} ≤
      (hs.map (fun h => h.requeueExpiredTasksBatchSize.toNat)).sum) :
    ∃ t, Returns exec (sweeps hs) s () t ∧ Drained hs earliest latest s t := by
  induction hs generalizing s with
  | nil =>
    have none_expired : {p | s.Expired latest p} = ∅ := by simpa using enough
    refine ⟨s, returns_pure () s, ?_, fun _ => Or.inr (fun _ => rfl), rfl⟩
    intro p expired
    exact absurd (Set.mem_ofPred.mpr (expired.mono le)) (none_expired ▸ Set.notMem_empty p)
  | cons h hs ih =>
    have hb := batches h List.mem_cons_self
    obtain ⟨first, last⟩ := cutoffs h List.mem_cons_self
    obtain ⟨t, ran, swept⟩ := sweep_swept (h := h) keyed positive free
    by_cases full : ((expiredBatch h s).length : Int) = h.requeueExpiredTasksBatchSize
    · have unlocked : t.locks Worker.expiredTasksLock = none := by
        rw [swept.lock, if_pos full]
      have left : Set.encard {p | t.Expired latest p} ≤
          (hs.map (fun h => h.requeueExpiredTasksBatchSize.toNat)).sum := by
        have taken : (expiredBatch h s).length = h.requeueExpiredTasksBatchSize.toNat := by omega
        rw [swept.encard_expired last, taken, List.map_cons, List.sum_cons, Nat.cast_add,
          add_comm] at enough
        exact (ENat.add_le_add_iff_left (ENat.natCast_ne_top _)).mp enough
      obtain ⟨u, rest, drained⟩ := ih (swept.keyed keyed) (swept.activePositive positive) unlocked
        (fun k hk => batches k (List.mem_cons_of_mem h hk))
        (fun k hk => cutoffs k (List.mem_cons_of_mem h hk)) left
      exact ⟨u, ran.bind rest, swept.drained last drained⟩
    · have locked : t.locks Worker.expiredTasksLock = some (h.token Worker.expiredTasksLock) := by
        rw [swept.lock, if_neg full]
      exact ⟨t, ran.bind (sweeps_locked locked), swept.drained_last hb full first last⟩

/-- In every store that can be reached, a sweep alone moves its batch and nothing else. -/
theorem sweep_run (h : Host) (l : List Command)
    (free : (runAll Store.empty l).locks Worker.expiredTasksLock = none) :
    ∃ t, Returns exec (Worker.workerQueueExpiredTasks h) (runAll Store.empty l) () t ∧
      Swept h (runAll Store.empty l) t :=
  sweep_swept (keyed_run l) (activePositive_run l) free

/-- From every store that can be reached, sweeps whose batches suffice for all that has expired
leave nothing that had expired at the earliest cutoff. -/
theorem sweeps_run (hs : List Host) (l : List Command)
    (free : (runAll Store.empty l).locks Worker.expiredTasksLock = none) (le : earliest ≤ latest)
    (batches : ∀ h ∈ hs, 1 ≤ h.requeueExpiredTasksBatchSize)
    (cutoffs : ∀ h ∈ hs, earliest ≤ cutoff h ∧ cutoff h ≤ latest)
    (enough : Set.encard {p | (runAll Store.empty l).Expired latest p} ≤
      (hs.map (fun h => h.requeueExpiredTasksBatchSize.toNat)).sum) :
    ∃ t, Returns exec (sweeps hs) (runAll Store.empty l) () t ∧
      Drained hs earliest latest (runAll Store.empty l) t :=
  drained_sweeps (keyed_run l) (activePositive_run l) free le batches cutoffs enough

end

/-! Two dead tasks, and sweeps that take one task at a time. -/

theorem encard_expired (e : Enumeration) (s : Store) (time : Time) :
    Set.encard {p | s.Expired time p} = (s.expiredOf time (e.order (s.queues .active))).length := by
  have all : {p | s.Expired time p} =
      ((s.expiredOf time (e.order (s.queues .active))).toFinset : Set (String × String)) := by
    ext p
    simp [mem_expiredOf_order]
  rw [all, Set.encard_coe_eq_coe_finsetCard,
    List.toFinset_card_of_nodup (nodup_expiredOf (e.nodup _))]

def deadTasks : List Command :=
  [.delay "default" { id := "a", func := "tasks:simple_task" } none 1 true,
    .delay "default" { id := "b", func := "tasks:simple_task" } none 1 true,
    .pickup "default" 2 2 3]

def oneByOne : Host := { plainHost with requeueExpiredTasksBatchSize := 1 }

theorem sweep_run_one : ∃ t,
    Returns exec (Worker.workerQueueExpiredTasks oneByOne) (runAll Store.empty deadTasks) () t ∧
      Swept oneByOne (runAll Store.empty deadTasks) t :=
  sweep_run oneByOne deadTasks rfl

theorem sweeps_run_two : ∃ t,
    Returns exec (sweeps [oneByOne, oneByOne]) (runAll Store.empty deadTasks) () t ∧
      Drained [oneByOne, oneByOne] 40 40 (runAll Store.empty deadTasks) t := by
  refine sweeps_run [oneByOne, oneByOne] deadTasks rfl le_rfl ?_ ?_ ?_
  · simp [oneByOne]
  · have cut : cutoff oneByOne = 40 := by decide +kernel
    simp [cut]
  · have two : ((runAll Store.empty deadTasks).expiredOf 40
        (sortedEnumeration.order ((runAll Store.empty deadTasks).queues .active))).length = 2 := by
      decide +kernel
    rw [encard_expired sortedEnumeration, two]
    rfl

end TaskTiger
