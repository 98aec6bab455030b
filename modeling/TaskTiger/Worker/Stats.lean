import TaskTiger.Framework.Machine
import TaskTiger.Store.Data

namespace TaskTiger

open Interleaving

/-! StatsThread. -/

/-- The attributes that the computation lock protects. -/
structure StatsThread where
  taskRunning : Bool
  timeStart : Time
  timeBusy : Time
  taskStartTime : Option Time

namespace StatsThread

/-- What compute_stats finds under the lock. -/
structure Stats where
  timeTotal : Time
  timeBusy : Time
  deriving DecidableEq

structure Report extends Stats where
  utilization : Time
  deriving DecidableEq

/-- The entry that compute_stats logs; there is none if no time has passed. -/
def Stats.report (stats : Stats) : Option Report :=
  if stats.timeTotal = 0 then none
  else some { stats with utilization := 100 / stats.timeTotal * stats.timeBusy }

def init (now : Time) : StatsThread where
  taskRunning := false
  timeStart := now
  timeBusy := 0
  taskStartTime := none

def reportTaskStart (now : Time) (t : StatsThread) : StatsThread :=
  { t with taskStartTime := some now, taskRunning := true }

def reportTaskEnd (now : Time) (t : StatsThread) : Except String StatsThread :=
  match t.taskStartTime with
  | none => .error "AssertionError"
  | some start => .ok { t with
      timeBusy := t.timeBusy + (now - start)
      taskRunning := false
      taskStartTime := none }

/-- The assertion comes after the first assignments. -/
def computeStats (now : Time) (t : StatsThread) : Except String Stats × StatsThread :=
  let timeTotal := now - t.timeStart
  let next := { t with timeStart := now, timeBusy := 0 }
  if t.taskRunning then
    match t.taskStartTime with
    | none => (.error "AssertionError", next)
    | some start =>
      (.ok ⟨timeTotal, t.timeBusy + (now - start)⟩, { next with taskStartTime := some now })
  else (.ok ⟨timeTotal, t.timeBusy⟩, { next with taskStartTime := none })

/-- A block under the computation lock, with the reading of the clock that its method has taken
before it asks for the lock. -/
inductive Section where
  | reportTaskStart (now : Time)
  | reportTaskEnd (now : Time)
  | computeStats (now : Time)

def Section.now : Section → Time
  | .reportTaskStart now | .reportTaskEnd now | .computeStats now => now

/-- Only compute_stats answers with stats. -/
def Section.exec : Section → StatsThread → Except String (Option Stats) × StatsThread
  | .reportTaskStart now, t => (.ok none, t.reportTaskStart now)
  | .reportTaskEnd now, t =>
    match t.reportTaskEnd now with
    | .error e => (.error e, t)
    | .ok next => (.ok none, next)
  | .computeStats now, t => ((t.computeStats now).1.map some, (t.computeStats now).2)

/-! The two threads. A turn of a thread reads the clock or runs a locked section. -/

inductive MainThread where
  | idle
  | starting (now : Time)
  | running
  | ending (now : Time)
  | raised (name : String)

def MainThread.ended : Except String (Option Stats) → MainThread
  | .ok _ => .idle
  | .error name => .raised name

/-- Whether a task is running, as long as the thread is. -/
def MainThread.working : MainThread → Option Bool
  | .idle | .starting _ => some false
  | .running | .ending _ => some true
  | .raised _ => none

inductive ReportingThread where
  | waiting
  | computing (now : Time)
  | raised (name : String)

def ReportingThread.computed : Except String (Option Stats) → ReportingThread
  | .ok _ => .waiting
  | .error name => .raised name

inductive ThreadName where
  | main
  | stats

/-- A turn at a time of the clock. -/
structure Turn where
  thread : ThreadName
  clock : Time

/-- Both threads, the clock, and the sections that have run, in the order of the lock. -/
structure System where
  shared : StatsThread
  main : MainThread
  stats : ReportingThread
  clock : Time
  lastReading : Time  -- that of the last section, at first that of __init__
  history : List (Section × Except String (Option Stats))

def System.init (now : Time) : System where
  shared := StatsThread.init now
  main := .idle
  stats := .waiting
  clock := now
  lastReading := now
  history := []

def System.locked (s : System) (b : Section) : System :=
  { s with
    shared := (b.exec s.shared).2
    lastReading := b.now
    history := s.history ++ [(b, (b.exec s.shared).1)] }

/-- report_task_start and report_task_end in alternation. -/
def System.mainTurn (s : System) : System :=
  match s.main with
  | .idle => { s with main := .starting s.clock }
  | .starting now => { s.locked (.reportTaskStart now) with main := .running }
  | .running => { s with main := .ending s.clock }
  | .ending now => { s.locked (.reportTaskEnd now) with
      main := .ended ((Section.reportTaskEnd now).exec s.shared).1 }
  | .raised _ => s

/-- compute_stats again and again. -/
def System.statsTurn (s : System) : System :=
  match s.stats with
  | .waiting => { s with stats := .computing s.clock }
  | .computing now => { s.locked (.computeStats now) with
      stats := .computed ((Section.computeStats now).exec s.shared).1 }
  | .raised _ => s

def Turn.exec (a : Turn) (s : System) : Unit × System :=
  ((), match a.thread with
    | .main => System.mainTurn { s with clock := a.clock }
    | .stats => System.statsTurn { s with clock := a.clock })

/-- time.monotonic. -/
def Turn.Monotonic (s : System) (a : Turn) : Prop := s.clock ≤ a.clock

instance (s : System) (a : Turn) : Decidable (a.Monotonic s) :=
  inferInstanceAs (Decidable (s.clock ≤ a.clock))

/-- The section that the thread runs in its next turn, if it has read the clock. -/
def System.due (s : System) : ThreadName → Option Section
  | .main =>
    match s.main with
    | .starting now => some (.reportTaskStart now)
    | .ending now => some (.reportTaskEnd now)
    | _ => none
  | .stats =>
    match s.stats with
    | .computing now => some (.computeStats now)
    | _ => none

/-- A section that runs now has a reading that is no earlier than that of the section before. -/
def Turn.InOrder (s : System) (a : Turn) : Prop :=
  ∀ b ∈ s.due a.thread, s.lastReading ≤ b.now

instance (s : System) (a : Turn) : Decidable (a.InOrder s) :=
  inferInstanceAs (Decidable (∀ b ∈ s.due a.thread, s.lastReading ≤ b.now))

/-! What has been recorded and reported. -/

/-- The time between recorded starts and ends, and a start whose end is missing. -/
structure Ledger where
  total : Time
  started : Option Time

def Ledger.add (b : Ledger) : Section → Ledger
  | .reportTaskStart now => { b with started := some now }
  | .reportTaskEnd now =>
    match b.started with
    | none => b
    | some start => ⟨b.total + (now - start), none⟩
  | .computeStats _ => b

abbrev History := List (Section × Except String (Option Stats))

def ledger (history : History) : Ledger :=
  history.foldl (fun b e => b.add e.1) ⟨0, none⟩

/-- A task that runs is counted up to now. -/
def Ledger.recorded (b : Ledger) (now : Time) : Time :=
  match b.started with
  | none => b.total
  | some start => b.total + (now - start)

def allStats (history : History) : List Stats :=
  history.filterMap (fun e => match e.2 with
    | .ok stats => stats
    | .error _ => none)

def reports (history : History) : List Report := (allStats history).filterMap Stats.report

/-- What is not yet reported. -/
def unreported (t : StatsThread) (now : Time) : Time :=
  match t.taskStartTime with
  | none => t.timeBusy
  | some start => t.timeBusy + (now - start)

/-- No assertion fails, every report is within its bounds, and the reports with what is not yet
reported add up to what has been recorded. -/
structure ExactAccounting (s : System) : Prop where
  returns : ∀ e ∈ s.history, ∃ reply, e.2 = .ok reply
  bounds : ∀ r ∈ reports s.history, 0 ≤ r.timeBusy ∧ r.timeBusy ≤ r.timeTotal
  balance : ∀ now, ((reports s.history).map (fun r => r.timeBusy)).sum + s.shared.unreported now =
    (ledger s.history).recorded now

/-- It is exact in every state of the run of a StatsThread that is made at this time. -/
def ExactThroughout (now : Time) (l : List Turn) : Prop :=
  ∀ pre, pre <+: l → ExactAccounting (run Turn.exec (System.init now) pre)

section

variable {t : StatsThread} {b : Ledger} {computed now : Time} {runs : Bool}
  {history : History}

@[simp] theorem ledger_append (history : History) (e : Section × Except String (Option Stats)) :
    ledger (history ++ [e]) = (ledger history).add e.1 := by
  simp [ledger]

/-! In any order of the sections nothing is lost. -/

/-- The attributes against the ledger, while no task is running and while one is: `computed` is
the busy time of all compute_stats so far. -/
inductive Matches : Bool → StatsThread → Ledger → Time → Prop
  | idle {timeStart busy total computed : Time} (balance : computed + busy = total) :
      Matches false ⟨false, timeStart, busy, none⟩ ⟨total, none⟩ computed
  | working {timeStart busy split total start computed : Time}
      (balance : computed + busy - split = total - start) :
      Matches true ⟨true, timeStart, busy, some split⟩ ⟨total, some start⟩ computed

theorem Matches.reportTaskStart (h : Matches false t b computed) :
    Matches true (t.reportTaskStart now) (b.add (.reportTaskStart now)) computed := by
  cases h with
  | idle balance => exact .working (by rw [balance])

theorem Matches.reportTaskEnd (h : Matches true t b computed) (now : Time) :
    ∃ next, t.reportTaskEnd now = .ok next ∧
      Matches false next (b.add (.reportTaskEnd now)) computed := by
  cases h with
  | working balance => exact ⟨_, rfl, .idle (by linarith)⟩

/-- compute_stats takes what it reports off the busy time, and splits a task that is running. -/
theorem Matches.computeStats (h : Matches runs t b computed) (now : Time) :
    ∃ stats next, t.computeStats now = (.ok stats, next) ∧
      Matches runs next b (computed + stats.timeBusy) := by
  cases h with
  | idle balance => exact ⟨_, _, rfl, .idle (by rw [add_zero, balance])⟩
  | working balance => exact ⟨_, _, rfl, .working (by linarith)⟩

theorem Matches.balance (h : Matches runs t b computed) (now : Time) :
    computed + t.unreported now = b.recorded now := by
  cases h with
  | idle balance => exact balance
  | working balance =>
    simp only [unreported, Ledger.recorded]
    linarith

def computedTime (history : History) : Time := ((allStats history).map Stats.timeBusy).sum

/-- What holds whatever the order of the sections. -/
structure Balanced (s : System) : Prop where
  books : ∃ runs ∈ s.main.working,
    Matches runs s.shared (ledger s.history) (computedTime s.history)
  returns : ∀ e ∈ s.history, ∃ reply, e.2 = .ok reply

theorem allStats_append (history : History) (b : Section) (stats : Option Stats) :
    allStats (history ++ [(b, .ok stats)]) = allStats history ++ stats.toList := by
  cases stats <;> simp [allStats]

theorem computedTime_append (history : History) (b : Section) (stats : Option Stats) :
    computedTime (history ++ [(b, .ok stats)]) =
      computedTime history + (stats.map Stats.timeBusy).getD 0 := by
  cases stats <;> simp [computedTime, allStats_append]

theorem balanced_init (now : Time) : Balanced (System.init now) where
  books := ⟨false, rfl, .idle (by simp [System.init, computedTime, allStats])⟩
  returns := by simp [System.init]

/-- One more section that returns. -/
theorem returns_append {b : Section} {stats : Option Stats}
    (h : ∀ e ∈ history, ∃ reply, e.2 = .ok reply) :
    ∀ e ∈ history ++ [(b, Except.ok stats)], ∃ reply, e.2 = .ok reply := by
  intro e he
  rcases List.mem_append.mp he with he | he
  · exact h e he
  · rw [List.mem_singleton.mp he]
    exact ⟨stats, rfl⟩

theorem Balanced.mainTurn {s : System} (h : Balanced s) : Balanced s.mainTurn := by
  obtain ⟨⟨runs, hmain, books⟩, returns⟩ := h
  unfold System.mainTurn
  cases main : s.main with
  | idle =>
    rw [main] at hmain
    exact ⟨⟨runs, hmain, books⟩, returns⟩
  | starting now =>
    obtain rfl : false = runs := by simpa [main, MainThread.working] using hmain
    refine ⟨⟨true, rfl, ?_⟩, returns_append returns⟩
    simpa [System.locked, Section.exec, computedTime_append] using books.reportTaskStart
  | running =>
    rw [main] at hmain
    exact ⟨⟨runs, hmain, books⟩, returns⟩
  | ending now =>
    obtain rfl : true = runs := by simpa [main, MainThread.working] using hmain
    obtain ⟨next, hend, after⟩ := books.reportTaskEnd now
    have exec : (Section.reportTaskEnd now).exec s.shared = (.ok none, next) := by
      simp [Section.exec, hend]
    simp only [System.locked, exec]
    refine ⟨⟨false, rfl, ?_⟩, returns_append returns⟩
    simpa [computedTime_append] using after
  | raised name => simp [main, MainThread.working] at hmain

theorem Balanced.statsTurn {s : System} (h : Balanced s) : Balanced s.statsTurn := by
  obtain ⟨⟨runs, hmain, books⟩, returns⟩ := h
  unfold System.statsTurn
  cases s.stats with
  | waiting => exact ⟨⟨runs, hmain, books⟩, returns⟩
  | computing now =>
    obtain ⟨stats, next, hstats, after⟩ := books.computeStats now
    have exec : (Section.computeStats now).exec s.shared = (.ok (some stats), next) := by
      simp [Section.exec, hstats, Except.map]
    simp only [System.locked, exec]
    refine ⟨⟨runs, hmain, ?_⟩, returns_append returns⟩
    simpa [computedTime_append, Ledger.add] using after
  | raised name => exact ⟨⟨runs, hmain, books⟩, returns⟩

theorem balanced_step {s : System} (h : Balanced s) (a : Turn) : Balanced (step Turn.exec s a) := by
  have clocked : Balanced { s with clock := a.clock } := ⟨h.books, h.returns⟩
  cases hthread : a.thread with
  | main =>
    have turn : step Turn.exec s a = System.mainTurn { s with clock := a.clock } := by
      simp [step, Turn.exec, hthread]
    rw [turn]
    exact clocked.mainTurn
  | stats =>
    have turn : step Turn.exec s a = System.statsTurn { s with clock := a.clock } := by
      simp [step, Turn.exec, hthread]
    rw [turn]
    exact clocked.statsTurn

theorem balanced_run (now : Time) (l : List Turn) :
    Balanced (run Turn.exec (System.init now) l) := by
  have keep : ∀ s a, Balanced s → True → Balanced (step Turn.exec s a) :=
    fun _ a h _ => balanced_step h a
  exact run_invariant keep (balanced_init now) (along_of_forall (fun _ _ => trivial))

/-! In the order of their readings, the sections also keep the bounds. -/

/-- The busy time fits between the last report and the last reading, or the start of the task
that is running. -/
structure InBounds (lastReading : Time) (t : StatsThread) : Prop where
  busy : 0 ≤ t.timeBusy
  room : t.timeStart + t.timeBusy ≤ t.taskStartTime.getD lastReading
  split : ∀ start ∈ t.taskStartTime, start ≤ lastReading

def Stats.WithinBounds (stats : Stats) : Prop :=
  0 ≤ stats.timeBusy ∧ stats.timeBusy ≤ stats.timeTotal

theorem InBounds.latest {lastReading : Time} (h : InBounds lastReading t) :
    t.timeStart + t.timeBusy ≤ lastReading := by
  have room := h.room
  cases htask : t.taskStartTime with
  | none => simpa [htask] using room
  | some start =>
    have split := h.split start (by simp [htask])
    rw [htask, Option.getD_some] at room
    exact room.trans split

theorem InBounds.later {lastReading : Time} (h : InBounds lastReading t) (le : lastReading ≤ now) :
    InBounds now t := by
  refine ⟨h.busy, ?_, fun start hstart => (h.split start hstart).trans le⟩
  have room := h.room
  cases htask : t.taskStartTime with
  | none =>
    rw [htask, Option.getD_none] at room
    exact room.trans le
  | some start => simpa [htask] using room

theorem InBounds.reportTaskStart (h : InBounds now t) : InBounds now (t.reportTaskStart now) where
  busy := h.busy
  room := h.latest
  split := by simp [StatsThread.reportTaskStart]

theorem InBounds.reportTaskEnd {next : StatsThread} (h : InBounds now t)
    (hend : t.reportTaskEnd now = .ok next) : InBounds now next := by
  have busy := h.busy
  have room := h.room
  cases htask : t.taskStartTime with
  | none => simp [StatsThread.reportTaskEnd, htask] at hend
  | some start =>
    have split := h.split start (by simp [htask])
    obtain rfl : _ = next := by simpa [StatsThread.reportTaskEnd, htask] using hend
    rw [htask, Option.getD_some] at room
    refine ⟨?_, ?_, by simp⟩
    · change 0 ≤ t.timeBusy + (now - start)
      linarith
    · change t.timeStart + (t.timeBusy + (now - start)) ≤ now
      linarith

theorem InBounds.computeStats (h : InBounds now t) : InBounds now (t.computeStats now).2 ∧
    ∀ stats, (t.computeStats now).1 = .ok stats → stats.WithinBounds := by
  have latest := h.latest
  have busy := h.busy
  have room := h.room
  cases hrunning : t.taskRunning with
  | false =>
    simp only [StatsThread.computeStats, hrunning, Bool.false_eq_true, if_false, Except.ok.injEq]
    refine ⟨⟨le_rfl, by simp, by simp⟩, ?_⟩
    intro stats hstats
    subst hstats
    refine ⟨busy, ?_⟩
    change t.timeBusy ≤ now - t.timeStart
    linarith
  | true =>
    cases htask : t.taskStartTime with
    | none =>
      simp only [StatsThread.computeStats, hrunning, htask, if_true]
      exact ⟨⟨le_rfl, by simp, by simp⟩, by simp⟩
    | some start =>
      have split := h.split start (by simp [htask])
      rw [htask, Option.getD_some] at room
      simp only [StatsThread.computeStats, hrunning, htask, if_true, Except.ok.injEq]
      refine ⟨⟨le_rfl, by simp, by simp⟩, ?_⟩
      intro stats hstats
      subst hstats
      constructor
      · change 0 ≤ t.timeBusy + (now - start)
        linarith
      · change t.timeBusy + (now - start) ≤ now - t.timeStart
        linarith

theorem InBounds.exec {lastReading : Time} (h : InBounds lastReading t) (b : Section)
    (later : lastReading ≤ b.now) : InBounds b.now (b.exec t).2 ∧
      ∀ stats, (b.exec t).1 = .ok (some stats) → stats.WithinBounds := by
  have here := h.later later
  cases b with
  | reportTaskStart now => exact ⟨here.reportTaskStart, by simp [Section.exec]⟩
  | reportTaskEnd now =>
    cases hend : t.reportTaskEnd now with
    | error e =>
      simp only [Section.exec, hend]
      exact ⟨here, by simp⟩
    | ok next =>
      simp only [Section.exec, hend]
      exact ⟨here.reportTaskEnd hend, by simp⟩
  | computeStats now =>
    obtain ⟨after, bounds⟩ := here.computeStats
    refine ⟨after, ?_⟩
    intro stats hstats
    cases hreply : (t.computeStats now).1 with
    | error e => simp [Section.exec, hreply, Except.map] at hstats
    | ok found =>
      obtain rfl : found = stats := by simpa [Section.exec, hreply, Except.map] using hstats
      exact bounds found hreply

/-- A turn reads the clock, or it runs the section that is due. -/
inductive Turned (s s' : System) (due : Option Section) : Prop
  | read (nothing : due = none) (shared : s'.shared = s.shared)
      (lastReading : s'.lastReading = s.lastReading) (history : s'.history = s.history)
  | locked (b : Section) (section_due : due = some b) (shared : s'.shared = (b.exec s.shared).2)
      (lastReading : s'.lastReading = b.now)
      (history : s'.history = s.history ++ [(b, (b.exec s.shared).1)])

theorem turned_mainTurn (s : System) : Turned s s.mainTurn (s.due .main) := by
  unfold System.mainTurn System.due
  cases s.main with
  | starting now => exact .locked _ rfl rfl rfl rfl
  | ending now => exact .locked _ rfl rfl rfl rfl
  | _ => exact .read rfl rfl rfl rfl

theorem turned_statsTurn (s : System) : Turned s s.statsTurn (s.due .stats) := by
  unfold System.statsTurn System.due
  cases s.stats with
  | computing now => exact .locked _ rfl rfl rfl rfl
  | _ => exact .read rfl rfl rfl rfl

/-- The time of the clock makes no difference to what a turn does under the lock. -/
theorem Turned.of_clock {s s' : System} {clock : Time} {due : Option Section}
    (h : Turned { s with clock := clock } s' due) : Turned s s' due := by
  cases h with
  | read nothing shared lastReading history => exact .read nothing shared lastReading history
  | locked b section_due shared lastReading history =>
    exact .locked b section_due shared lastReading history

theorem turned_step (s : System) (a : Turn) :
    Turned s (step Turn.exec s a) (s.due a.thread) := by
  unfold step Turn.exec
  cases a.thread with
  | main => exact (turned_mainTurn { s with clock := a.clock }).of_clock
  | stats => exact (turned_statsTurn { s with clock := a.clock }).of_clock

/-- What the order of the readings adds. -/
structure Ordered (s : System) : Prop where
  inBounds : InBounds s.lastReading s.shared
  allWithin : ∀ stats ∈ allStats s.history, stats.WithinBounds

theorem mem_allStats_append {b : Section} {reply : Except String (Option Stats)} {stats : Stats} :
    stats ∈ allStats (history ++ [(b, reply)]) ↔
      stats ∈ allStats history ∨ reply = .ok (some stats) := by
  cases reply with
  | error e => simp [allStats]
  | ok found => cases found <;> simp [allStats, eq_comm]

theorem ordered_step {s : System} (a : Turn) (h : Ordered s) (ha : a.InOrder s) :
    Ordered (step Turn.exec s a) := by
  cases turned_step s a with
  | read _ shared lastReading history =>
    constructor
    · rw [lastReading, shared]
      exact h.inBounds
    · rw [history]
      exact h.allWithin
  | locked b section_due shared lastReading history =>
    obtain ⟨after, bounds⟩ := h.inBounds.exec b (ha b section_due)
    constructor
    · rw [lastReading, shared]
      exact after
    · intro stats hstats
      rw [history, mem_allStats_append] at hstats
      rcases hstats with earlier | now
      · exact h.allWithin stats earlier
      · exact bounds stats now

theorem ordered_init (now : Time) : Ordered (System.init now) where
  inBounds := ⟨le_rfl, by simp [System.init, StatsThread.init], by simp [System.init, StatsThread.init]⟩
  allWithin := by simp [System.init, allStats]

/-- An entry that is not logged has no busy time. -/
theorem sum_report {l : List Stats} (h : ∀ stats ∈ l, stats.WithinBounds) :
    ((l.filterMap Stats.report).map (fun r => r.timeBusy)).sum = (l.map Stats.timeBusy).sum := by
  induction l with
  | nil => rfl
  | cons stats l ih =>
    have rest := ih (fun x hx => h x (by simp [hx]))
    by_cases hzero : stats.timeTotal = 0
    · have silent : stats.report = none := if_pos hzero
      obtain ⟨low, high⟩ := h stats (by simp)
      have nothing : stats.timeBusy = 0 := by linarith
      rw [List.filterMap_cons, silent, List.map_cons, List.sum_cons, nothing, zero_add]
      exact rest
    · have logged : stats.report = some _ := if_neg hzero
      rw [List.filterMap_cons, logged, List.map_cons, List.sum_cons, List.map_cons, List.sum_cons]
      simp only [rest]

theorem mem_reports {r : Report} (h : r ∈ reports history) : r.toStats ∈ allStats history := by
  obtain ⟨stats, hstats, hreport⟩ := List.mem_filterMap.mp h
  unfold Stats.report at hreport
  split_ifs at hreport
  obtain rfl := Option.some.inj hreport
  exact hstats

theorem exactAccounting_of_ordered {s : System} (balanced : Balanced s) (ordered : Ordered s) :
    ExactAccounting s := by
  obtain ⟨runs, -, books⟩ := balanced.books
  refine ⟨balanced.returns, fun r hr => ordered.allWithin _ (mem_reports hr), ?_⟩
  intro now
  rw [reports, sum_report ordered.allWithin]
  exact books.balance now

end

/-- The task ends while compute_stats waits for the lock, after the reading of the end. -/
def overlapping : List Turn :=
  [⟨.main, 1⟩, ⟨.main, 2⟩, ⟨.stats, 3⟩, ⟨.stats, 4⟩, ⟨.main, 5⟩, ⟨.stats, 6⟩, ⟨.main, 7⟩, ⟨.stats, 8⟩]

/-- A task starts while compute_stats has read the clock and waits for the lock. -/
def overtaken : List Turn := [⟨.stats, 5⟩, ⟨.main, 6⟩, ⟨.main, 7⟩, ⟨.stats, 8⟩]

end StatsThread

end TaskTiger
