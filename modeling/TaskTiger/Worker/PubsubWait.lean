import TaskTiger.Worker.MainLoop

namespace TaskTiger

open Redis Interleaving Prog

/-! The loop of Worker._pubsub_for_queues. -/

/-- What it is called with: the time is start_time. -/
structure PubsubCall where
  start : Time
  timeout : Time
  batchTimeout : Time
  didWork : Bool

/-- Only a message of the type "message" names a queue. -/
structure ChannelMessage where
  isMessage : Bool
  data : String

/-- One turn of the loop: how long its parts take, and what it pulls off the channel, each message
with the time until it is processed. -/
structure PubsubTurn where
  toSleep : Time               -- until pubsub_sleep is known
  getMessage : Time → Time     -- how long the first get_message takes under its timeout
  messages : List (Time × ChannelMessage)
  toBatchCheck : Time
  toTimeoutCheck : Time

/-- get_message keeps to its timeout, and the rest of a turn takes no longer than the overhead. -/
structure PubsubTurn.Prompt (overhead : Time) (turn : PubsubTurn) : Prop where
  toSleep : 0 ≤ turn.toSleep
  getMessage : ∀ timeout, 0 ≤ timeout → 0 ≤ turn.getMessage timeout ∧ turn.getMessage timeout ≤ timeout
  messages : ∀ m ∈ turn.messages, 0 ≤ m.1
  toBatchCheck : 0 ≤ turn.toBatchCheck
  toTimeoutCheck : 0 ≤ turn.toTimeoutCheck
  rest : turn.toSleep + (turn.messages.map Prod.fst).sum + turn.toBatchCheck + turn.toTimeoutCheck ≤
    overhead

/-- The variables of the loop with _queue_set, and when which queues have been announced. -/
structure PubsubState where
  queueSet : Finset String
  newQueueFound : Bool
  batchExit : Time
  announced : List (Time × String)

inductive PubsubExit where
  | didWork
  | batch
  | timeout
  deriving DecidableEq

/-- How the loop has ended, if it has, and when, or where it is now. -/
structure PubsubRun where
  exit : Option PubsubExit
  finish : Time
  state : PubsubState

namespace PubsubCall

variable (c : PubsubCall) (w : MainWorker)

/-- Worker._process_queue_message. -/
def processQueueMessage (now : Time) (message : String) (x : PubsubState) : PubsubState :=
  let x := { x with announced := x.announced ++ [(now, message)] }
  if TaskTiger.queueMatches message w.onlyQueues w.excludeQueues = true then
    if message ∈ x.queueSet then x
    else
      let batchExit :=
        if x.newQueueFound then x.batchExit
        else if now + c.batchTimeout > c.start + c.timeout then c.start + c.timeout
        else now + c.batchTimeout
      { x with queueSet := insert message x.queueSet, newQueueFound := true, batchExit }
  else x

/-- Pulls the messages off the channel. -/
def pull : Time → PubsubState → List (Time × ChannelMessage) → Time × PubsubState
  | now, x, [] => (now, x)
  | now, x, (took, message) :: messages =>
    pull (now + took)
      (if message.isMessage then c.processQueueMessage w (now + took) message.data x else x) messages

def pubsubSleep (now : Time) (x : PubsubState) : Time :=
  if x.batchExit > c.start then x.batchExit - now else c.start + c.timeout - now

/-- When the first get_message of a turn is back. -/
def woken (now : Time) (x : PubsubState) (turn : PubsubTurn) : Time :=
  let sleep := c.pubsubSleep (now + turn.toSleep) x
  now + turn.toSleep + turn.getMessage (if sleep < 0 ∨ c.didWork = true then 0 else sleep)

def loop : Time → PubsubState → List PubsubTurn → PubsubRun
  | now, x, [] => ⟨none, now, x⟩
  | now, x, turn :: turns =>
    let (pulled, x) := c.pull w (c.woken now x turn) x turn.messages
    let batchCheck := pulled + turn.toBatchCheck
    let timeoutCheck := batchCheck + turn.toTimeoutCheck
    if c.didWork then ⟨some .didWork, pulled, x⟩
    else if batchCheck ≥ x.batchExit ∧ x.newQueueFound = true then ⟨some .batch, batchCheck, x⟩
    else if timeoutCheck - c.start > c.timeout then ⟨some .timeout, timeoutCheck, x⟩
    else loop timeoutCheck x turns

/-- Worker._pubsub_for_queues, as far as its turns are given. -/
def pubsubForQueues (queueSet : Finset String) (turns : List PubsubTurn) : PubsubRun :=
  c.loop w c.start ⟨queueSet, false, c.start, []⟩ turns

/-! What the announcements come to. -/

/-- The first announcement of a queue of the worker that is not in its set yet. -/
def firstNew (queueSet : Finset String) (announced : List (Time × String)) : Option (Time × String) :=
  announced.find? (fun e =>
    decide (TaskTiger.queueMatches e.2 w.onlyQueues w.excludeQueues = true ∧ e.2 ∉ queueSet))

/-- The end of the batch that it begins. -/
def batchEnd : Option (Time × String) → Time
  | none => c.start
  | some e => min (e.1 + c.batchTimeout) (c.start + c.timeout)

/-- The variables are what the announcements so far have made of them. -/
structure Informed (queueSet : Finset String) (x : PubsubState) : Prop where
  queues : x.queueSet = (x.announced.map Prod.snd).foldl w.processQueueMessage queueSet
  found : x.newQueueFound = (firstNew w queueSet x.announced).isSome
  batchExit : x.batchExit = c.batchEnd (firstNew w queueSet x.announced)

section

variable {c w} {queueSet : Finset String} {x : PubsubState} {now : Time} {message : String}
  {announced : List (Time × String)}

theorem processQueueMessage_of_old
    (old : ¬(TaskTiger.queueMatches message w.onlyQueues w.excludeQueues = true ∧ message ∉ queueSet)) :
    w.processQueueMessage queueSet message = queueSet := by
  refine Finset.union_eq_left.mpr (fun q hq => ?_)
  obtain ⟨same, matched⟩ := Finset.mem_filter.mp hq
  obtain rfl := Finset.mem_singleton.mp same
  by_contra new
  exact old ⟨matched, new⟩

theorem processQueueMessage_of_matches
    (matched : TaskTiger.queueMatches message w.onlyQueues w.excludeQueues = true) :
    w.processQueueMessage queueSet message = insert message queueSet := by
  have own : w.filterQueues {message} = {message} := by
    unfold MainWorker.filterQueues TaskTiger.filterQueues
    rw [Finset.filter_singleton, if_pos matched]
  rw [MainWorker.processQueueMessage, own, Finset.union_comm]
  rfl

/-- As long as nothing new is announced, the set stays as it is. -/
theorem foldl_of_firstNew_eq_none (h : firstNew w queueSet announced = none) :
    (announced.map Prod.snd).foldl w.processQueueMessage queueSet = queueSet := by
  induction announced with
  | nil => rfl
  | cons e announced ih =>
    obtain ⟨old, rest⟩ : ¬(TaskTiger.queueMatches e.2 w.onlyQueues w.excludeQueues = true ∧
        e.2 ∉ queueSet) ∧ firstNew w queueSet announced = none := by
      simpa [firstNew] using h
    rw [List.map_cons, List.foldl_cons, processQueueMessage_of_old old]
    exact ih rest

theorem informed_start : Informed c w queueSet ⟨queueSet, false, c.start, []⟩ := ⟨rfl, rfl, rfl⟩

theorem firstNew_concat : firstNew w queueSet (announced ++ [(now, message)]) =
    (firstNew w queueSet announced).or
      (if TaskTiger.queueMatches message w.onlyQueues w.excludeQueues = true ∧ message ∉ queueSet then
        some (now, message) else none) := by
  simp [firstNew, List.find?_append, List.find?_singleton]

theorem Informed.process (h : Informed c w queueSet x) (now : Time) (message : String) :
    Informed c w queueSet (c.processQueueMessage w now message x) := by
  obtain ⟨known, newQueueFound, batchExit, announced⟩ := x
  obtain ⟨queues, found, ends⟩ := h
  simp only at queues found ends
  have more : ((announced ++ [(now, message)]).map Prod.snd).foldl w.processQueueMessage queueSet =
      w.processQueueMessage known message := by
    rw [List.map_append, List.foldl_append, ← queues]
    rfl
  have first : firstNew w queueSet (announced ++ [(now, message)]) = _ := firstNew_concat
  have before : firstNew w queueSet announced = none → known = queueSet :=
    fun none => queues.trans (foldl_of_firstNew_eq_none none)
  unfold PubsubCall.processQueueMessage
  simp only
  by_cases matched : TaskTiger.queueMatches message w.onlyQueues w.excludeQueues = true
  swap
  · have same : firstNew w queueSet (announced ++ [(now, message)]) = firstNew w queueSet announced := by
      rw [first, if_neg (fun new => matched new.1), Option.or_none]
    rw [if_neg matched]
    refine ⟨?_, by rw [same]; exact found, by rw [same]; exact ends⟩
    rw [more, processQueueMessage_of_old (fun new => matched new.1)]
  rw [if_pos matched]
  by_cases here : message ∈ known
  · -- a queue that is known, or was announced before
    rw [if_pos here]
    have same : firstNew w queueSet (announced ++ [(now, message)]) = firstNew w queueSet announced := by
      cases earlier : firstNew w queueSet announced with
      | some e => rw [first, earlier, Option.some_or]
      | none => rw [first, earlier, if_neg (fun new => new.2 (before earlier ▸ here)), Option.none_or]
    refine ⟨?_, by rw [same]; exact found, by rw [same]; exact ends⟩
    rw [more, processQueueMessage_of_old (fun new => new.2 here)]
  · rw [if_neg here]
    have added := more.trans (processQueueMessage_of_matches matched)
    cases earlier : firstNew w queueSet announced with
    | some e =>
      have same : firstNew w queueSet (announced ++ [(now, message)]) = some e := by
        rw [first, earlier, Option.some_or]
      rw [earlier] at found ends
      refine ⟨added.symm, by rw [same]; rfl, ?_⟩
      rw [same]
      exact (if_pos found).trans ends
    | none =>
      have new : firstNew w queueSet (announced ++ [(now, message)]) = some (now, message) := by
        rw [first, earlier, if_pos ⟨matched, before earlier ▸ here⟩, Option.none_or]
      rw [earlier] at found
      refine ⟨added.symm, by rw [new]; rfl, ?_⟩
      have first_found : ¬newQueueFound = true := by simp [found]
      rw [new]
      exact (if_neg first_found).trans ((min_def_lt _ _).symm.trans (min_comm _ _))

/-- Everything has been announced between start_time and now. -/
structure Timely (c : PubsubCall) (now : Time) (x : PubsubState) : Prop where
  started : c.start ≤ now
  announced : ∀ e ∈ x.announced, c.start ≤ e.1 ∧ e.1 ≤ now

theorem Timely.later (h : Timely c now x) {later : Time} (le : now ≤ later) : Timely c later x :=
  ⟨h.started.trans le, fun e he => ⟨(h.announced e he).1, (h.announced e he).2.trans le⟩⟩

theorem announced_process : (c.processQueueMessage w now message x).announced =
    x.announced ++ [(now, message)] := by
  unfold PubsubCall.processQueueMessage
  simp only
  split_ifs <;> rfl

theorem Timely.process (h : Timely c now x) (message : String) :
    Timely c now (c.processQueueMessage w now message x) := by
  refine ⟨h.started, fun e he => ?_⟩
  rw [announced_process] at he
  rcases List.mem_append.mp he with he | he
  · exact h.announced e he
  · obtain rfl := List.mem_singleton.mp he
    exact ⟨h.started, le_rfl⟩

/-- Messages are processed one after the other, from now on. -/
structure Pulls (c : PubsubCall) (w : MainWorker) (queueSet : Finset String) (now : Time)
    (x : PubsubState) (messages : List (Time × ChannelMessage)) (later : Time) (y : PubsubState) :
    Prop where
  time : later = now + (messages.map Prod.fst).sum
  informed : Informed c w queueSet y
  timely : Timely c later y
  more : ∃ news, y.announced = x.announced ++ news ∧ ∀ e ∈ news, now ≤ e.1

theorem pull_spec {messages : List (Time × ChannelMessage)} (took : ∀ m ∈ messages, 0 ≤ m.1)
    (informed : Informed c w queueSet x) (timely : Timely c now x) :
    Pulls c w queueSet now x messages (c.pull w now x messages).1 (c.pull w now x messages).2 := by
  induction messages generalizing now x with
  | nil => exact ⟨(add_zero now).symm, informed, timely, [], (List.append_nil _).symm, by simp⟩
  | cons m messages ih =>
    obtain ⟨wait, message⟩ := m
    obtain ⟨pos, rest⟩ := List.forall_mem_cons.mp took
    have later : now ≤ now + wait := le_add_of_nonneg_right pos
    rw [pull]
    cases isMessage : message.isMessage with
    | false =>
      obtain ⟨time, informed, timely, news, more, after⟩ := ih rest informed (timely.later later)
      refine ⟨?_, informed, timely, news, more, fun e he => later.trans (after e he)⟩
      rw [List.map_cons, List.sum_cons, ← add_assoc]
      exact time
    | true =>
      obtain ⟨time, informed, timely, news, more, after⟩ := ih rest
        (informed.process (now + wait) message.data) ((timely.later later).process message.data)
      refine ⟨?_, informed, timely, (now + wait, message.data) :: news, ?_, ?_⟩
      · rw [List.map_cons, List.sum_cons, ← add_assoc]
        exact time
      · refine more.trans ?_
        rw [announced_process, List.append_assoc]
        rfl
      · intro e he
        rcases List.mem_cons.mp he with rfl | he
        · exact later
        · exact later.trans (after e he)

/-! The turns. -/

/-- What is known at the beginning of a turn. -/
structure Waiting (c : PubsubCall) (w : MainWorker) (queueSet : Finset String) (overhead now : Time)
    (x : PubsubState) : Prop where
  informed : Informed c w queueSet x
  timely : Timely c now x
  inTime : now ≤ c.start + c.timeout
  batch : ∀ e, firstNew w queueSet x.announced = some e →
    c.start < x.batchExit ∧ now ≤ x.batchExit + overhead

/-- What is known when the messages of a turn have been processed; later is when the turn ends. -/
structure Pulled (c : PubsubCall) (w : MainWorker) (queueSet : Finset String)
    (overhead now pulled later : Time) (y : PubsubState) : Prop where
  informed : Informed c w queueSet y
  timely : Timely c pulled y
  inTime : later ≤ c.start + c.timeout + overhead
  batch : ∀ e, firstNew w queueSet y.announced = some e → later ≤ y.batchExit + 2 * overhead
  soon : c.didWork = true → pulled ≤ now + overhead

variable {overhead : Time} {turn : PubsubTurn}

/-- The wait of a turn is over by the end of the batch, or by the maximum wait time. -/
theorem woken_le (c : PubsubCall) (now : Time) (x : PubsubState) (prompt : turn.Prompt overhead) :
    now + turn.toSleep ≤ c.woken now x turn ∧
      c.woken now x turn ≤ max (now + turn.toSleep)
        (if x.batchExit > c.start then x.batchExit else c.start + c.timeout) ∧
      (c.didWork = true → c.woken now x turn = now + turn.toSleep) := by
  set limit := if x.batchExit > c.start then x.batchExit else c.start + c.timeout with hlimit
  have sleep : c.pubsubSleep (now + turn.toSleep) x = limit - (now + turn.toSleep) := by
    rw [hlimit, pubsubSleep]
    split_ifs <;> rfl
  unfold woken
  simp only [sleep]
  by_cases short : limit - (now + turn.toSleep) < 0 ∨ c.didWork = true
  · obtain ⟨lower, upper⟩ := prompt.getMessage 0 le_rfl
    have none : turn.getMessage 0 = 0 := le_antisymm upper lower
    rw [if_pos short, none, add_zero]
    exact ⟨le_rfl, le_max_left _ _, fun _ => rfl⟩
  · obtain ⟨long, idle⟩ := not_or.mp short
    obtain ⟨lower, upper⟩ := prompt.getMessage _ (not_lt.mp long)
    rw [if_neg short]
    exact ⟨by linarith, le_max_of_le_right (by linarith), fun didWork => absurd didWork idle⟩

theorem firstNew_append {news : List (Time × String)} {e : Time × String}
    (h : firstNew w queueSet (announced ++ news) = some e) :
    firstNew w queueSet announced = some e ∨ firstNew w queueSet announced = none ∧ e ∈ news := by
  rw [firstNew, List.find?_append] at h
  rcases Option.or_eq_some_iff.mp h with earlier | ⟨none, later⟩
  · exact Or.inl earlier
  · exact Or.inr ⟨none, List.mem_of_find?_eq_some later⟩

theorem pulled_turn (prompt : turn.Prompt overhead) (pos : 0 ≤ c.batchTimeout ∧ 0 ≤ overhead)
    (waiting : Waiting c w queueSet overhead now x) :
    Pulled c w queueSet overhead now (c.pull w (c.woken now x turn) x turn.messages).1
      ((c.pull w (c.woken now x turn) x turn.messages).1 + turn.toBatchCheck + turn.toTimeoutCheck)
      (c.pull w (c.woken now x turn) x turn.messages).2 := by
  obtain ⟨informed, timely, inTime, batch⟩ := waiting
  obtain ⟨lower, upper, idle⟩ := woken_le c now x prompt
  obtain ⟨h1, -, h3, h4, h5, h6⟩ := prompt
  have later : now ≤ c.woken now x turn := by linarith
  obtain ⟨time, heard, onTime, news, more, after⟩ := pull_spec h3 informed (timely.later later)
  generalize c.pull w (c.woken now x turn) x turn.messages = p at *
  obtain ⟨pulled, y⟩ := p
  simp only at time heard onTime more ⊢
  have limited : (if x.batchExit > c.start then x.batchExit else c.start + c.timeout) ≤
      c.start + c.timeout := by
    split_ifs with begun
    · rw [informed.batchExit] at begun ⊢
      cases first : firstNew w queueSet x.announced with
      | none =>
        rw [first] at begun
        exact absurd begun (lt_irrefl _)
      | some e => exact min_le_right _ _
    · exact le_rfl
  have inTime' : pulled + turn.toBatchCheck + turn.toTimeoutCheck ≤ c.start + c.timeout + overhead := by
    rcases le_max_iff.mp upper with short | long <;> linarith
  refine ⟨heard, onTime, inTime', fun e he => ?_, fun didWork => ?_⟩
  · have ends : y.batchExit = min (e.1 + c.batchTimeout) (c.start + c.timeout) := by
      rw [heard.batchExit, he]
      rfl
    rw [more] at he
    rcases firstNew_append he with earlier | ⟨-, new⟩
    · obtain ⟨begun, soon⟩ := batch e earlier
      have same : x.batchExit = y.batchExit := by
        rw [ends, informed.batchExit, earlier]
        rfl
      rw [if_pos begun] at upper
      rw [← same]
      rcases le_max_iff.mp upper with short | long <;> linarith
    · have first := after e new
      rw [ends]
      rcases min_cases (e.1 + c.batchTimeout) (c.start + c.timeout) with ⟨same, -⟩ | ⟨same, -⟩ <;>
        rw [same] <;> linarith
  · rw [idle didWork] at time
    linarith

/-- How the loop ends. It stays for the maximum wait time and no longer, unless there was work or a
batch has ended, which is so long after the first announcement of a new queue. -/
structure Waits (c : PubsubCall) (w : MainWorker) (queueSet : Finset String) (overhead now : Time)
    (run : PubsubRun) : Prop where
  informed : Informed c w queueSet run.state
  timely : ∀ e ∈ run.state.announced, c.start ≤ e.1 ∧ e.1 ≤ run.finish
  inTime : run.finish ≤ c.start + c.timeout + overhead
  didWork : c.didWork = true → run.finish ≤ now + overhead
  exits : ∀ exit, run.exit = some exit → match exit with
    | .didWork => c.didWork = true
    | .batch => c.didWork = false ∧ ∃ e, firstNew w queueSet run.state.announced = some e ∧
        min (e.1 + c.batchTimeout) (c.start + c.timeout) ≤ run.finish ∧
        run.finish ≤ min (e.1 + c.batchTimeout) (c.start + c.timeout) + 2 * overhead
    | .timeout => c.didWork = false ∧ c.start + c.timeout < run.finish

theorem waits_loop {turns : List PubsubTurn} (prompt : ∀ turn ∈ turns, turn.Prompt overhead)
    (pos : 0 ≤ c.batchTimeout ∧ 0 ≤ overhead) (waiting : Waiting c w queueSet overhead now x) :
    Waits c w queueSet overhead now (c.loop w now x turns) := by
  induction turns generalizing now x with
  | nil =>
    have inTime : now ≤ c.start + c.timeout + overhead := by linarith [waiting.inTime]
    exact ⟨waiting.informed, waiting.timely.announced, inTime,
      fun _ => le_add_of_nonneg_right pos.2, fun _ h => by simp [loop] at h⟩
  | cons turn turns ih =>
    have first := prompt turn List.mem_cons_self
    obtain ⟨informed, timely, inTime, batch, soon⟩ := pulled_turn first pos waiting
    rw [loop]
    generalize c.pull w (c.woken now x turn) x turn.messages = p at *
    obtain ⟨pulled, y⟩ := p
    dsimp only at *
    have toBatch := first.toBatchCheck
    have toTimeout := first.toTimeoutCheck
    by_cases didWork : c.didWork = true
    · rw [if_pos didWork]
      exact ⟨informed, timely.announced, by change pulled ≤ _; linarith, soon,
        fun exit h => by obtain rfl := Option.some.inj h; exact didWork⟩
    · rw [if_neg didWork]
      have idle : c.didWork = false := by simpa using didWork
      by_cases overdue : pulled + turn.toBatchCheck ≥ y.batchExit ∧ y.newQueueFound = true
      · rw [if_pos overdue]
        refine ⟨informed, (timely.later (by linarith)).announced, by change _ + _ ≤ _; linarith,
          fun h => absurd h didWork, fun exit h => ?_⟩
        obtain rfl := Option.some.inj h
        obtain ⟨e, he⟩ := Option.isSome_iff_exists.mp (informed.found ▸ overdue.2)
        have ends : y.batchExit = min (e.1 + c.batchTimeout) (c.start + c.timeout) := by
          rw [informed.batchExit, he]
          rfl
        have late := batch e he
        rw [ends] at overdue late
        refine ⟨idle, e, he, overdue.1, ?_⟩
        change pulled + turn.toBatchCheck ≤ _
        linarith
      · rw [if_neg overdue]
        by_cases expired : pulled + turn.toBatchCheck + turn.toTimeoutCheck - c.start > c.timeout
        · rw [if_pos expired]
          refine ⟨informed, (timely.later (by linarith)).announced, inTime,
            fun h => absurd h didWork, fun exit h => ?_⟩
          obtain rfl := Option.some.inj h
          refine ⟨idle, ?_⟩
          change c.start + c.timeout < pulled + turn.toBatchCheck + turn.toTimeoutCheck
          linarith
        · rw [if_neg expired]
          have next : Waiting c w queueSet overhead
              (pulled + turn.toBatchCheck + turn.toTimeoutCheck) y := by
            refine ⟨informed, timely.later (by linarith), by linarith, fun e he => ?_⟩
            have found : y.newQueueFound = true := by
              rw [informed.found, he]
              rfl
            have before : pulled + turn.toBatchCheck < y.batchExit := by
              by_contra h
              exact overdue ⟨not_lt.mp h, found⟩
            have short : turn.toTimeoutCheck ≤ overhead := by
              have messages := List.sum_nonneg (l := turn.messages.map Prod.fst) (by
                simpa using first.messages)
              linarith [first.rest, first.toSleep]
            exact ⟨by linarith [timely.started], by linarith⟩
          have rest := ih (fun t ht => prompt t (List.mem_cons_of_mem turn ht)) next
          exact ⟨rest.informed, rest.timely, rest.inTime, fun h => absurd h didWork, rest.exits⟩

/-- The wait for queues ends in time and for one of its three reasons, and leaves the set of queues
that the main loop goes on with. -/
theorem waits_pubsubForQueues {turns : List PubsubTurn}
    (prompt : ∀ turn ∈ turns, turn.Prompt overhead)
    (pos : 0 ≤ c.timeout ∧ 0 ≤ c.batchTimeout ∧ 0 ≤ overhead) :
    Waits c w queueSet overhead c.start (c.pubsubForQueues w queueSet turns) ∧
      ∀ it : Iteration, w.polls = false →
        it.messages = (c.pubsubForQueues w queueSet turns).state.announced.map Prod.snd →
        w.waitForQueues it queueSet = pure (c.pubsubForQueues w queueSet turns).state.queueSet := by
  have start : Waiting c w queueSet overhead c.start ⟨queueSet, false, c.start, []⟩ :=
    ⟨informed_start, ⟨le_rfl, by simp⟩, le_add_of_nonneg_right pos.1, fun e he => by simp [firstNew] at he⟩
  have waits : Waits c w queueSet overhead c.start (c.pubsubForQueues w queueSet turns) :=
    waits_loop prompt pos.2 start
  refine ⟨waits, fun it pubsub messages => ?_⟩
  rw [MainWorker.waitForQueues, pubsub, messages, waits.informed.queues]
  rfl

end

/-- A worker that is idle for three seconds, and then hears of two queues in a row. -/
def heardOfTwo : List PubsubTurn :=
  [⟨0, fun timeout => min timeout 3, [(0, ⟨true, "slow"⟩), (1 / 10, ⟨true, "default"⟩)], 0, 0⟩,
    ⟨0, fun timeout => min timeout 1, [(0, ⟨true, "other"⟩)], 0, 0⟩,
    ⟨0, id, [], 0, 0⟩]

theorem waits_pubsubForQueues_heardOfTwo :
    Waits ⟨100, 10, 2, false⟩ onceWorker {"ready"} (1 / 10) 100
        (pubsubForQueues ⟨100, 10, 2, false⟩ onceWorker {"ready"} heardOfTwo) ∧
      ∀ it : Iteration, onceWorker.polls = false →
        it.messages = (pubsubForQueues ⟨100, 10, 2, false⟩ onceWorker {"ready"}
          heardOfTwo).state.announced.map Prod.snd →
        onceWorker.waitForQueues it {"ready"} =
          pure (pubsubForQueues ⟨100, 10, 2, false⟩ onceWorker {"ready"} heardOfTwo).state.queueSet := by
  refine waits_pubsubForQueues ?_ (by norm_num)
  have upTo (n : Time) (pos : 0 ≤ n) : ∀ timeout : Time, 0 ≤ timeout →
      0 ≤ min timeout n ∧ min timeout n ≤ timeout :=
    fun timeout ht => ⟨le_min ht pos, min_le_left _ _⟩
  intro turn h
  simp only [heardOfTwo, List.mem_cons, List.not_mem_nil, or_false] at h
  rcases h with rfl | rfl | rfl
  · exact ⟨le_rfl, upTo 3 (by norm_num), by simp, le_rfl, le_rfl, by norm_num⟩
  · exact ⟨le_rfl, upTo 1 (by norm_num), by simp, le_rfl, le_rfl, by norm_num⟩
  · exact ⟨le_rfl, fun timeout ht => ⟨ht, le_rfl⟩, by simp, le_rfl, le_rfl, by norm_num⟩

end PubsubCall

end TaskTiger
