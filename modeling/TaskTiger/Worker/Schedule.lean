import Mathlib

namespace TaskTiger

/-- The microseconds from datetime.min until past datetime.max. -/
def Datetime.count : ℕ := 3652059 * 86400 * 1000000

/-- A datetime.datetime, as the microseconds since datetime.min. -/
abbrev Datetime := Fin Datetime.count

/-- A datetime.timedelta, with seconds below 86400 and microseconds below 1000000. -/
structure Timedelta where
  days : ℤ
  seconds : ℤ
  microseconds : ℤ

inductive ScheduleError where
  | assertionError
  | overflowError
deriving DecidableEq

namespace Datetime

def sub (dt start : Datetime) : Timedelta where
  days := ((dt : ℤ) - start) / (86400 * 1000000)
  seconds := ((dt : ℤ) - start) % (86400 * 1000000) / 1000000
  microseconds := ((dt : ℤ) - start) % 1000000

/-- Adds a timedelta of whole seconds; a timedelta that is too large itself also overflows. -/
def add (start : Datetime) (seconds : ℤ) : Except ScheduleError Datetime :=
  if h : 0 ≤ (start : ℤ) + seconds * 1000000 ∧ (start : ℤ) + seconds * 1000000 < count then
    .ok ⟨((start : ℤ) + seconds * 1000000).toNat, by omega⟩
  else .error .overflowError

end Datetime

/-- START_DATE, Saturday at midnight: January 1st 2000. -/
def startDate2000 : Datetime := ⟨730119 * 86400 * 1000000, by decide⟩

/-- The arguments of _periodic after dt. -/
structure PeriodicSchedule where
  period : ℕ+
  startDate : Datetime
  endDate : Option Datetime

def periodic (seconds minutes hours days weeks : ℤ) (startDate endDate : Option Datetime) :
    Except ScheduleError PeriodicSchedule :=
  let period := seconds + minutes * 60 + hours * 3600 + days * 86400 + weeks * 604800
  if h : 0 < period then
    .ok ⟨⟨period.toNat, by omega⟩, startDate.getD startDate2000, endDate⟩
  else .error .assertionError

namespace PeriodicSchedule

/-- _periodic: the next time the task should be run after dt. -/
def next (s : PeriodicSchedule) (dt : Datetime) : Except ScheduleError (Option Datetime) :=
  if s.endDate.any (fun e => decide (e ≤ dt)) then .ok none
  else if dt < s.startDate then .ok (some s.startDate)
  else
    let delta := dt.sub s.startDate
    let seconds := delta.seconds + delta.days * 86400
    let runs := seconds / (s.period : ℕ)
    let nextRun := runs + 1
    match s.startDate.add (nextRun * (s.period : ℕ)) with
    | .error e => .error e
    | .ok nextDate =>
      -- Make sure the time is still within bounds.
      if s.endDate.any (fun e => decide (e < nextDate)) then .ok none else .ok (some nextDate)

/-- Every schedule with a positive period comes from periodic(). -/
theorem periodic_surjective (s : PeriodicSchedule) :
    periodic (s.period : ℕ) 0 0 0 0 (some s.startDate) s.endDate = .ok s := by
  simp only [periodic, zero_mul, add_zero, Int.natCast_pos, s.period.pos, dite_true,
    Int.toNat_natCast, Option.getD_some]
  rfl

/-- The first dates of applying _periodic to its own result again and again. -/
def visit (s : PeriodicSchedule) : ℕ → Datetime → List Datetime
  | 0, _ => []
  | n + 1, dt =>
    match s.next dt with
    | .ok (some date) => date :: s.visit n date
    | _ => []

/-! The instants of a schedule. -/

/-- The period in microseconds. -/
def step (s : PeriodicSchedule) : ℤ := (s.period : ℕ) * 1000000

def OnGrid (s : PeriodicSchedule) (t : ℤ) : Prop := ∃ k : ℕ, t = s.startDate + k * s.step

def WithinEnd (s : PeriodicSchedule) (t : ℤ) : Prop := ∀ e, s.endDate = some e → t ≤ e

/-- The grid instants later than dt, also those later than datetime.max. -/
def Later (s : PeriodicSchedule) (dt : Datetime) : Set ℤ := {t | s.OnGrid t ∧ (dt : ℤ) < t}

/-- It returns the least of them, provided that it is not after end_date. -/
def ReturnsLeast (s : PeriodicSchedule) (dt : Datetime) : Prop :=
  ∃ t, IsLeast (s.Later dt) t ∧
    (s.WithinEnd t → ∃ date : Datetime, (date : ℤ) = t ∧ s.next dt = .ok (some date)) ∧
    (¬s.WithinEnd t → s.next dt = .ok none)

/-- Applied again and again, it visits every grid instant in (dt, end_date] once, in order. -/
structure VisitsGrid (s : PeriodicSchedule) (dt : Datetime) : Prop where
  visited : ∀ date : Datetime,
    (∃ n, date ∈ s.visit n dt) ↔ s.OnGrid date ∧ dt < date ∧ s.WithinEnd date
  ordered : ∀ n, (s.visit n dt).Pairwise (fun d d' => d < d')

variable {s : PeriodicSchedule} {dt : Datetime}

theorem step_pos : 0 < s.step := by
  have := s.period.pos
  unfold step
  omega

/-- The first grid instant past a time that is not before the start. -/
def instantPast (s : PeriodicSchedule) (dt : Datetime) : ℤ :=
  s.startDate + (((dt : ℤ) - s.startDate) / s.step + 1) * s.step

theorem isLeast_instantPast (h : s.startDate ≤ dt) :
    IsLeast (s.Later dt) (s.instantPast dt) := by
  have hle : (s.startDate : ℤ) ≤ dt := by exact_mod_cast h
  have hruns : 0 ≤ ((dt : ℤ) - s.startDate) / s.step :=
    Int.ediv_nonneg (by omega) step_pos.le
  constructor
  · refine ⟨⟨(((dt : ℤ) - s.startDate) / s.step + 1).toNat, ?_⟩, ?_⟩
    · rw [Int.toNat_of_nonneg (by omega), instantPast]
    · have := Int.lt_ediv_add_one_mul_self ((dt : ℤ) - s.startDate) (step_pos (s := s))
      unfold instantPast
      omega
  · rintro t ⟨⟨k, rfl⟩, hlater⟩
    have hdiv : ((dt : ℤ) - s.startDate) / s.step < k :=
      Int.ediv_lt_of_lt_mul step_pos (by omega)
    have hmul : (((dt : ℤ) - s.startDate) / s.step + 1) * s.step ≤ k * s.step :=
      mul_le_mul_of_nonneg_right (by omega) step_pos.le
    unfold instantPast
    omega

theorem isLeast_startDate (h : dt < s.startDate) : IsLeast (s.Later dt) s.startDate := by
  have hlt : (dt : ℤ) < s.startDate := by exact_mod_cast h
  constructor
  · exact ⟨⟨0, by simp⟩, hlt⟩
  · rintro t ⟨⟨k, rfl⟩, -⟩
    have : 0 ≤ (k : ℤ) * s.step := mul_nonneg (by omega) step_pos.le
    omega

/-- The truncated seconds and the floor division give the run before dt. -/
theorem seconds_div (d : ℤ) :
    (d % (86400 * 1000000) / 1000000 + d / (86400 * 1000000) * 86400) / (s.period : ℕ) =
      d / s.step := by
  have hseconds : d % (86400 * 1000000) / 1000000 + d / (86400 * 1000000) * 86400 =
      d / 1000000 := by omega
  rw [hseconds, step, Int.ediv_ediv_of_nonneg (by omega), mul_comm]

end PeriodicSchedule

theorem Datetime.add_eq_ok {start : Datetime} {seconds t : ℤ}
    (ht : (start : ℤ) + seconds * 1000000 = t) (h0 : 0 ≤ t) (hmax : t < Datetime.count) :
    ∃ date : Datetime, start.add seconds = .ok date ∧ (date : ℤ) = t := by
  subst ht
  refine ⟨_, dif_pos ⟨h0, hmax⟩, ?_⟩
  exact Int.toNat_of_nonneg h0

theorem Datetime.add_eq_error {start : Datetime} {seconds t : ℤ}
    (ht : (start : ℤ) + seconds * 1000000 = t) (hmax : Datetime.count ≤ t) :
    start.add seconds = .error .overflowError := by
  subst ht
  apply dif_neg
  omega

namespace PeriodicSchedule

variable {s : PeriodicSchedule} {dt date : Datetime}

/-- The end_date is later than dt, if there is one. -/
def Running (s : PeriodicSchedule) (dt : Datetime) : Prop := ∀ e, s.endDate = some e → dt < e

/-- What _periodic does: it is over, not started, at the next instant, or past datetime.max. -/
theorem next_cases (s : PeriodicSchedule) (dt : Datetime) :
    (¬s.Running dt ∧ s.next dt = .ok none) ∨
    (s.Running dt ∧ dt < s.startDate ∧ s.next dt = .ok (some s.startDate)) ∨
    (s.Running dt ∧ s.startDate ≤ dt ∧ ∃ date : Datetime, (date : ℤ) = s.instantPast dt ∧
      (s.WithinEnd date → s.next dt = .ok (some date)) ∧
      (¬s.WithinEnd date → s.next dt = .ok none)) ∨
    (s.Running dt ∧ s.startDate ≤ dt ∧ Datetime.count ≤ s.instantPast dt ∧
      s.next dt = .error .overflowError) := by
  have ended : s.endDate.any (fun e => decide (e ≤ dt)) = true ↔ ¬s.Running dt := by
    simp [Running, Option.any_eq_true]
  by_cases running : s.Running dt
  · have ahead : ¬s.endDate.any (fun e => decide (e ≤ dt)) = true := fun h => ended.mp h running
    refine Or.inr ?_
    by_cases before : dt < s.startDate
    · exact Or.inl ⟨running, before, by rw [next, if_neg ahead, if_pos before]⟩
    · refine Or.inr ?_
      have started : s.startDate ≤ dt := not_lt.mp before
      simp only [next, if_neg ahead, if_neg before, Datetime.sub, seconds_div]
      have value : (s.startDate : ℤ) +
          ((((dt : ℤ) - s.startDate) / s.step + 1) * (s.period : ℕ)) * 1000000 =
            s.instantPast dt := by
        rw [instantPast, step, mul_assoc]
      have later := (isLeast_instantPast started).1.2
      by_cases hmax : s.instantPast dt < Datetime.count
      · obtain ⟨date, hadd, hdate⟩ := Datetime.add_eq_ok value (by omega) hmax
        have within : s.endDate.any (fun e => decide (e < date)) = true ↔ ¬s.WithinEnd date := by
          simp [WithinEnd, Option.any_eq_true]
        refine Or.inl ⟨running, started, date, hdate, ?_, ?_⟩
        · intro h
          simp only [hadd, if_neg (fun hout => within.mp hout h)]
        · intro h
          simp only [hadd, if_pos (within.mpr h)]
      · refine Or.inr ⟨running, started, not_lt.mp hmax, ?_⟩
        simp only [Datetime.add_eq_error value (not_lt.mp hmax)]
  · exact Or.inl ⟨running, by rw [next, if_pos (ended.mpr running)]⟩

/-- An end_date that is still ahead is not before the start_date. -/
def StartsInTime (s : PeriodicSchedule) (dt : Datetime) : Prop :=
  ∀ e, s.endDate = some e → dt < e → s.startDate ≤ e

/-- While the end_date is ahead, datetime has a later instant. -/
def Representable (s : PeriodicSchedule) (dt : Datetime) : Prop :=
  s.Running dt → ∃ date : Datetime, s.OnGrid date ∧ dt < date

theorem exists_isLeast (s : PeriodicSchedule) (dt : Datetime) : ∃ t, IsLeast (s.Later dt) t := by
  rcases le_or_gt s.startDate dt with started | before
  · exact ⟨_, isLeast_instantPast started⟩
  · exact ⟨_, isLeast_startDate before⟩

theorem returnsLeast_iff :
    s.ReturnsLeast dt ↔ s.StartsInTime dt ∧ s.Representable dt := by
  rcases s.next_cases dt with ⟨ended, hnext⟩ | ⟨running, before, hnext⟩ |
    ⟨running, started, date, hdate, inside, outside⟩ | ⟨running, started, hmax, hnext⟩
  · obtain ⟨t, least⟩ := s.exists_isLeast dt
    obtain ⟨e, he, hle⟩ : ∃ e, s.endDate = some e ∧ e ≤ dt := by
      simpa [Running] using ended
    have past : ¬s.WithinEnd t := by
      intro h
      have hte := h e he
      have hlater := least.1.2
      have hle : (e : ℤ) ≤ dt := by exact_mod_cast hle
      omega
    constructor
    · intro _
      refine ⟨?_, fun running => absurd running ended⟩
      intro e' he' hlt
      rw [he] at he'
      cases he'
      exact absurd hlt (not_lt.mpr hle)
    · intro _
      exact ⟨t, least, fun h => absurd h past, fun _ => hnext⟩
  · have least := isLeast_startDate before
    have inTime : s.WithinEnd s.startDate ↔ s.StartsInTime dt := by
      constructor
      · intro h e he _
        have := h e he
        exact_mod_cast this
      · intro h e he
        exact_mod_cast h e he (running e he)
    rw [← inTime]
    constructor
    · rintro ⟨t, ht, -, outside⟩
      obtain rfl := ht.unique least
      refine ⟨?_, fun _ => ⟨s.startDate, least.1.1, before⟩⟩
      by_contra hout
      simp [outside hout] at hnext
    · intro h
      exact ⟨s.startDate, least, fun _ => ⟨s.startDate, rfl, hnext⟩, fun hout => absurd h.1 hout⟩
  · have least := isLeast_instantPast started
    rw [← hdate] at least
    constructor
    · intro _
      refine ⟨fun e he hlt => started.trans hlt.le, ?_⟩
      intro _
      exact ⟨date, least.1.1, by exact_mod_cast least.1.2⟩
    · intro _
      exact ⟨date, least, fun h => ⟨date, rfl, inside h⟩, outside⟩
  · constructor
    · rintro ⟨t, -, inside, outside⟩
      by_cases h : s.WithinEnd t
      · obtain ⟨date, -, hok⟩ := inside h
        simp [hnext] at hok
      · simp [hnext] at outside
        exact absurd outside h
    · intro h
      obtain ⟨date, hgrid, hlater⟩ := h.2 running
      have hle := (isLeast_instantPast started).2 ⟨hgrid, by exact_mod_cast hlater⟩
      have hlt : ((date : ℕ) : ℤ) < Datetime.count := by exact_mod_cast date.isLt
      omega

/-! Applied again and again. -/

theorem later_of_next (h : s.next dt = .ok (some date)) : s.OnGrid date ∧ dt < date := by
  rcases s.next_cases dt with ⟨-, hnext⟩ | ⟨-, before, hnext⟩ |
    ⟨-, started, date', hdate, inside, outside⟩ | ⟨-, -, -, hnext⟩
  · simp [hnext] at h
  · rw [hnext] at h
    cases h
    exact ⟨⟨0, by simp⟩, before⟩
  · have later := (isLeast_instantPast started).1
    rw [← hdate] at later
    by_cases hin : s.WithinEnd date'
    · rw [inside hin] at h
      cases h
      exact ⟨later.1, by exact_mod_cast later.2⟩
    · simp [outside hin] at h
  · simp [hnext] at h

theorem startsInTime_of_onGrid (h : s.OnGrid date) : s.StartsInTime date := by
  obtain ⟨k, hk⟩ := h
  intro e _ hlt
  have hpos : 0 ≤ (k : ℤ) * s.step := mul_nonneg (by omega) step_pos.le
  have hle : (s.startDate : ℤ) ≤ date := by omega
  have hle : s.startDate ≤ date := by exact_mod_cast hle
  exact hle.trans hlt.le

/-- The next date is the least later instant, if that is not after the end. -/
theorem next_eq_iff (inTime : s.StartsInTime dt) :
    s.next dt = .ok (some date) ↔ IsLeast (s.Later dt) date ∧ s.WithinEnd date := by
  have least_of_later : s.OnGrid date → dt < date → s.ReturnsLeast dt :=
    fun hgrid hlater => returnsLeast_iff.mpr ⟨inTime, fun _ => ⟨date, hgrid, hlater⟩⟩
  constructor
  · intro h
    obtain ⟨hgrid, hlater⟩ := later_of_next h
    obtain ⟨t, least, inside, outside⟩ := least_of_later hgrid hlater
    by_cases hin : s.WithinEnd t
    · obtain ⟨date', rfl, hok⟩ := inside hin
      rw [hok] at h
      cases h
      exact ⟨least, hin⟩
    · simp [outside hin] at h
  · intro ⟨least, hin⟩
    obtain ⟨t, ht, inside, -⟩ := least_of_later least.1.1 (by exact_mod_cast least.1.2)
    obtain rfl := ht.unique least
    obtain ⟨date', hdate, hok⟩ := inside hin
    obtain rfl : date' = date := Fin.ext (by exact_mod_cast hdate)
    exact hok

theorem visit_succ {n : ℕ} (h : s.next dt = .ok (some date)) :
    s.visit (n + 1) dt = date :: s.visit n date := by
  rw [visit, h]

theorem visit_sound (inTime : s.StartsInTime dt) {n : ℕ} (h : date ∈ s.visit n dt) :
    s.OnGrid date ∧ dt < date ∧ s.WithinEnd date := by
  induction n generalizing dt with
  | zero => simp [visit] at h
  | succ n ih =>
    rw [visit] at h
    split at h
    · next first hfirst =>
      obtain ⟨least, hin⟩ := (next_eq_iff inTime).mp hfirst
      have hlater : dt < first := by exact_mod_cast least.1.2
      rcases List.mem_cons.mp h with rfl | h
      · exact ⟨least.1.1, hlater, hin⟩
      · obtain ⟨hgrid, hafter, hin⟩ := ih (startsInTime_of_onGrid least.1.1) h
        exact ⟨hgrid, hlater.trans hafter, hin⟩
    · simp at h

/-- The induction is on how far the instant is: each date that comes before it is nearer. -/
theorem visit_complete (inTime : s.StartsInTime dt) (hgrid : s.OnGrid date) (hlater : dt < date)
    (hin : s.WithinEnd date) : ∃ n, date ∈ s.visit n dt := by
  induction hd : (date : ℕ) - dt using Nat.strong_induction_on generalizing dt with
  | _ d ih =>
    obtain ⟨t, least, inside, -⟩ :=
      returnsLeast_iff.mpr ⟨inTime, fun _ => ⟨date, hgrid, hlater⟩⟩
    have hle : t ≤ date := least.2 ⟨hgrid, by exact_mod_cast hlater⟩
    obtain ⟨first, rfl, hfirst⟩ := inside (fun e he => hle.trans (hin e he))
    have hafter : dt < first := by exact_mod_cast least.1.2
    have hle : first ≤ date := by exact_mod_cast hle
    rcases hle.eq_or_lt with rfl | hlt
    · exact ⟨1, by rw [visit_succ hfirst]; exact List.mem_cons_self⟩
    · have nearer : (date : ℕ) - first < d := by
        have := Fin.lt_def.mp hafter
        have := Fin.lt_def.mp hlt
        omega
      obtain ⟨n, hn⟩ := ih _ nearer (startsInTime_of_onGrid least.1.1) hlt rfl
      exact ⟨n + 1, by rw [visit_succ hfirst]; exact List.mem_cons_of_mem _ hn⟩

theorem visit_ordered (inTime : s.StartsInTime dt) (n : ℕ) :
    (s.visit n dt).Pairwise (fun d d' => d < d') := by
  induction n generalizing dt with
  | zero => exact List.Pairwise.nil
  | succ n ih =>
    rw [visit]
    split
    · next first hfirst =>
      have inTime' := startsInTime_of_onGrid (later_of_next hfirst).1
      exact List.pairwise_cons.mpr ⟨fun d hd => (visit_sound inTime' hd).2.1, ih inTime'⟩
    · exact List.Pairwise.nil

theorem visitsGrid_iff : s.VisitsGrid dt ↔ s.StartsInTime dt := by
  constructor
  · intro h e he hlt
    rcases s.next_cases dt with ⟨ended, -⟩ | ⟨-, -, hnext⟩ | ⟨-, started, -⟩ | ⟨-, started, -⟩
    · have running : s.Running dt := by
        intro e' he'
        rw [he] at he'
        cases he'
        exact hlt
      exact absurd running ended
    · have hin := ((h.visited s.startDate).mp ⟨1, by simp [visit_succ hnext]⟩).2.2 e he
      exact_mod_cast hin
    · exact started.trans hlt.le
    · exact started.trans hlt.le
  · intro inTime
    refine ⟨?_, visit_ordered inTime⟩
    intro date
    constructor
    · intro ⟨n, hn⟩
      exact visit_sound inTime hn
    · intro ⟨hgrid, hlater, hin⟩
      exact visit_complete inTime hgrid hlater hin

/-- periodic() enumerates its grid unless the end_date is still ahead and before the start_date,
or the next instant is later than datetime.max. -/
theorem enumeratesGrid_iff (s : PeriodicSchedule) (dt : Datetime) :
    s.ReturnsLeast dt ∧ s.VisitsGrid dt ↔ s.StartsInTime dt ∧ s.Representable dt := by
  rw [returnsLeast_iff, visitsGrid_iff]
  constructor
  · intro h
    exact h.1
  · intro h
    exact ⟨h, h.1⟩

/-- From 2000-01-01 on, until the day before, asked two days before. -/
theorem not_enumeratesGrid_reversed : ¬∀ (s : PeriodicSchedule) (dt : Datetime),
    s.ReturnsLeast dt ∧ s.VisitsGrid dt := by
  intro hall
  let reversed : PeriodicSchedule :=
    ⟨1, startDate2000, some ⟨730118 * 86400 * 1000000, by decide⟩⟩
  have inTime := (returnsLeast_iff.mp (hall reversed ⟨730117 * 86400 * 1000000, by decide⟩).1).1
  have late := inTime _ rfl (by decide)
  exact absurd late (by decide)

end PeriodicSchedule

end TaskTiger
