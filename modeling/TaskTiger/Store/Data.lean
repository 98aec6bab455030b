import Mathlib

namespace TaskTiger

/-- Seconds. Timestamps, delays and ZSET scores are taken as exact numbers. -/
abbrev Time := ℚ

/-- A reading of time.time(): seconds since the epoch. -/
structure Instant where
  time : Time
  pos : 0 < time

instance (n : Nat) : OfNat Instant (n + 1) where
  ofNat := ⟨OfNat.ofNat (n + 1), Nat.cast_pos.mpr n.succ_pos⟩

/-- Task states (represented by different queues). -/
inductive TaskState where
  | queued
  | active
  | scheduled
  | error
  deriving DecidableEq, Repr

instance : Fintype TaskState :=
  ⟨{.queued, .active, .scheduled, .error}, by intro st; cases st <;> decide⟩

inductive Json where
  | null
  | bool (b : Bool)
  | num (q : ℚ)
  | str (s : String)
  | arr (items : List Json)
  | obj (fields : List (String × Json))

/-! cjson.decode followed by cjson.encode: an empty array becomes an empty Lua table, which is
encoded as an object; `number` is the printing of a double. -/

mutual

def Json.cjson (number : ℚ → ℚ) : Json → Json
  | .null => .null
  | .bool b => .bool b
  | .num q => .num (number q)
  | .str s => .str s
  | .arr items => match items with
    | [] => .obj []
    | x :: xs => .arr (cjsonItems number (x :: xs))
  | .obj fields => .obj (cjsonFields number fields)

def cjsonItems (number : ℚ → ℚ) : List Json → List Json
  | [] => []
  | x :: xs => x.cjson number :: cjsonItems number xs

def cjsonFields (number : ℚ → ℚ) : List (String × Json) → List (String × Json)
  | [] => []
  | (k, v) :: rest => (k, v.cjson number) :: cjsonFields number rest

end

def cjsonInt (number : ℚ → ℚ) (n : Int) : Int := ⌊number n⌋

/-- A serialized retry method: the dotted name of the function and its further arguments. -/
structure RetryMethod where
  func : String
  args : Json

def RetryMethod.cjson (number : ℚ → ℚ) (m : RetryMethod) : RetryMethod :=
  ⟨m.func, m.args.cjson number⟩

/-- Task._data, the JSON object stored under task:<id>. An optional key that is absent is `none`;
empty args and kwargs and false flags are not stored. -/
structure TaskData where
  id : String
  func : String
  unique : Bool := false
  uniqueKey : Option (List String) := none
  lock : Bool := false
  lockKey : Option (List String) := none
  args : List Json := []
  kwargs : List (String × Json) := []
  hardTimeout : Option Time := none
  retryMethod : Option RetryMethod := none
  retryOn : Option (List String) := none
  maxQueueSize : Option Int := none
  maxStoredExecutions : Option Int := none
  runnerClass : Option String := none
  timeLastQueued : Option Time := none
  scheduledAt : Option Time := none

/-- The stored object after cjson has decoded and encoded it. -/
def TaskData.cjson (number : ℚ → ℚ) (d : TaskData) : TaskData :=
  { d with
    args := cjsonItems number d.args
    kwargs := cjsonFields number d.kwargs
    hardTimeout := d.hardTimeout.map number
    retryMethod := d.retryMethod.map (RetryMethod.cjson number)
    maxQueueSize := d.maxQueueSize.map (cjsonInt number)
    maxStoredExecutions := d.maxStoredExecutions.map (cjsonInt number)
    timeLastQueued := d.timeLastQueued.map number
    scheduledAt := d.scheduledAt.map number }

/-- An entry of task:<id>:executions, written for a failed execution. -/
structure Execution where
  exceptionName : String
  retry : Bool := false
  retryMethod : Option RetryMethod := none
  logError : Bool := true
  timeStarted : Time
  timeFailed : Time

end TaskTiger
