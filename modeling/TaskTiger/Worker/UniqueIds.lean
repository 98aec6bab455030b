import TaskTiger.Worker.PyValue
import TaskTiger.Worker.Task

namespace TaskTiger

open Interleaving

/-- gen_unique_id; `hash` is the hex digest of the text. -/
def genUniqueId (hash : Json → String) (serializedName : String) (args kwargs : PyValue) : String :=
  hash (PyValue.dict [(.str "func", .str serializedName), (.str "args", args),
    (.str "kwargs", kwargs)]).dumps

theorem genUniqueId_eq (hash : Json → String) (name : String) (args kwargs : PyValue) :
    genUniqueId hash name args kwargs =
      hash (.obj [("args", args.dumps), ("func", .str name), ("kwargs", kwargs.dumps)]) := rfl

/-- The options of a task, as given to Task or as attributes set on the function by the decorator;
`none` is None. Exceptions, retry methods and runner classes are given by their serialized names. -/
structure TaskOptions where
  unique : Option Bool := none
  uniqueKey : Option (List String) := none
  lock : Option Bool := none
  lockKey : Option (List String) := none
  retry : Option Bool := none
  retryOn : Option (List String) := none
  retryMethod : Option RetryMethod := none
  maxQueueSize : Option Int := none
  maxStoredExecutions : Option Int := none
  runnerClass : Option String := none

/-- The decorator TaskTiger.task: periodic tasks are unique. -/
def TaskOptions.decorated (o : TaskOptions) (schedule : Bool) : TaskOptions :=
  { o with unique := if schedule then some true else o.unique }

/-- A construction Task(tiger, func, args, kwargs, ...). -/
structure TaskCall where
  func : String
  args : List PyValue := []
  kwargs : List (String × PyValue) := []
  hardTimeout : Option Time := none
  options : TaskOptions := {}
  attributes : TaskOptions := {}

namespace TaskCall

variable (c : TaskCall)

/-- An option that is not given is taken from the function. -/
def given {α : Type} (option : TaskOptions → Option α) : Option α :=
  (option c.options).or (option c.attributes)

/-- Python's truth of a collection. -/
def truthy (l : Option (List String)) : Option (List String) :=
  match l with
  | some (x :: xs) => some (x :: xs)
  | _ => none

def uniqueKey : Option (List String) := truthy (c.given TaskOptions.uniqueKey)

def lockKey : Option (List String) := truthy (c.given TaskOptions.lockKey)

def retryOn : Option (List String) := truthy (c.given TaskOptions.retryOn)

def unique : Bool := (c.given TaskOptions.unique).getD false || c.uniqueKey.isSome

def retries : Bool :=
  (c.given TaskOptions.retry).getD false || c.retryOn.isSome ||
    (c.given TaskOptions.retryMethod).isSome

def kwargsDict : PyValue := .dict (c.kwargs.map (fun p => (.str p.1, p.2)))

/-- The arguments that a unique key selects. -/
def keyDict (keys : List String) : PyValue :=
  .dict (keys.eraseDups.map (fun key => (.str key, (c.kwargs.lookup key).getD .none)))

/-- The id of the task; `random` is that of gen_id. -/
def id (hash : Json → String) (random : String) : String :=
  if c.unique then
    match c.uniqueKey with
    | some keys => genUniqueId hash c.func .none (c.keyDict keys)
    | none => genUniqueId hash c.func (.list c.args) c.kwargsDict
  else random

/-- Task.__init__: the data as it is decoded when the task has been stored. -/
def init (hash : Json → String) (random : String) (defaultRetryMethod : RetryMethod) : TaskData where
  id := c.id hash random
  func := c.func
  unique := c.unique
  uniqueKey := c.uniqueKey
  lock := (c.given TaskOptions.lock).getD false || c.lockKey.isSome
  lockKey := c.lockKey
  args := encodeItems c.args
  kwargs := encodeFields (c.kwargs.map (fun p => (.str p.1, p.2)))
  hardTimeout := c.hardTimeout.filter (· ≠ 0)
  retryMethod :=
    if c.retries then some ((c.given TaskOptions.retryMethod).getD defaultRetryMethod) else none
  retryOn := c.retryOn
  maxQueueSize := (c.given TaskOptions.maxQueueSize).filter (· ≠ 0)
  maxStoredExecutions := c.given TaskOptions.maxStoredExecutions
  runnerClass := c.given TaskOptions.runnerClass

end TaskCall

/-- gen_unique_id of decoded arguments. -/
def jsonUniqueId (hash : Json → String) (name : String) (args kwargs : Json) : String :=
  genUniqueId hash name args.loads kwargs.loads

/-- The id that _queue_for_next_period gives the clone. -/
def nextPeriodId (hash : Json → String) (d : TaskData) : String :=
  jsonUniqueId hash d.func (.arr d.args) (.obj d.kwargs)

theorem queueForNextPeriod_eq {h : Host} {hash : Json → String}
    (hh : h.genUniqueId = jsonUniqueId hash) (t : Task) :
    t.queueForNextPeriod h = Host.call (h.nextPeriod t.data.func) >>= fun next =>
      match next with
      | none => pure ()
      | some ts => Task.delay h ⟨t.queue, { t.data with id := nextPeriodId hash t.data }⟩ (some ts)
          (h.time (nextPeriodId hash t.data)) none := by
  unfold Task.queueForNextPeriod
  rw [hh]
  rfl

/-- The id a task is constructed with is the one that is recomputed for the next period. -/
def IdsAgree (c : TaskCall) : Prop :=
  ∀ (hash : Json → String) (random : String) (defaultRetryMethod : RetryMethod),
    (c.init hash random defaultRetryMethod).id =
      nextPeriodId hash (c.init hash random defaultRetryMethod)

/-- The arguments of the task can be serialized with sorted keys. -/
structure TaskCall.Serializable (c : TaskCall) : Prop where
  args : (PyValue.list c.args).EveryDict KeysValid
  kwargs : c.kwargsDict.EveryDict KeysValid

section Agree

variable {c : TaskCall}

/-- Texts that every hash takes to one id are one text. -/
theorem eq_of_forall_hash {a b : Json} (h : ∀ hash : Json → String, hash a = hash b) : a = b := by
  classical
  by_contra hne
  have hab := h (fun x => if x = a then "a" else "b")
  rw [if_pos rfl, if_neg (Ne.symm hne)] at hab
  exact absurd hab (by decide)

theorem dumps_of_ids {name : String} {args kwargs args' kwargs' : PyValue}
    (h : ∀ hash, genUniqueId hash name args kwargs = genUniqueId hash name args' kwargs') :
    args.dumps = args'.dumps ∧ kwargs.dumps = kwargs'.dumps := by
  simp only [genUniqueId_eq] at h
  have whole := eq_of_forall_hash h
  simpa only [Json.obj.injEq, List.cons.injEq, Prod.mk.injEq, true_and, and_true] using whole

theorem nextPeriodId_init (hash : Json → String) (random : String) (m : RetryMethod) :
    nextPeriodId hash (c.init hash random m) = genUniqueId hash c.func
      (PyValue.list c.args).encode.loads c.kwargsDict.encode.loads := rfl

/-- Exactly the tasks without a unique key, and with arguments in which the keys of every dict keep
their order when they are turned into strings. -/
theorem idsAgree_iff (hu : c.unique = true) (hs : c.Serializable) :
    IdsAgree c ↔ c.uniqueKey = none ∧ (PyValue.list c.args).EveryDict KeysOrdered ∧
      c.kwargsDict.EveryDict KeysOrdered := by
  have args := roundtrip_iff (.list c.args) hs.args
  have kwargs := roundtrip_iff c.kwargsDict hs.kwargs
  constructor
  · intro h
    have texts : ∀ hash : Json → String, c.id hash "" = genUniqueId hash c.func
        (PyValue.list c.args).encode.loads c.kwargsDict.encode.loads := by
      intro hash
      exact h hash "" ⟨"", .null⟩
    simp only [TaskCall.id, if_pos hu] at texts
    cases hk : c.uniqueKey with
    | some keys =>
      simp only [hk] at texts
      obtain ⟨whole, -⟩ := dumps_of_ids texts
      -- one text has null for the arguments, the other a list
      simp [PyValue.encode, Json.loads, PyValue.dumps] at whole
    | none =>
      simp only [hk] at texts
      obtain ⟨sameArgs, sameKwargs⟩ := dumps_of_ids texts
      exact ⟨rfl, args.mp sameArgs.symm, kwargs.mp sameKwargs.symm⟩
  · rintro ⟨hk, hargs, hkwargs⟩ hash random m
    change c.id hash random = _
    rw [nextPeriodId_init, TaskCall.id, if_pos hu, hk]
    simp only [genUniqueId_eq, args.mpr hargs, kwargs.mpr hkwargs]

/-- A task whose dict has its keys in one order as numbers and as strings. -/
def orderedCall : TaskCall where
  func := "tasks:periodic_task"
  args := [.dict [(.num 2 "2", .str "b"), (.num 1 "1", .str "a")]]
  attributes := TaskOptions.decorated {} true

theorem serializable_ordered : orderedCall.Serializable where
  args := by
    refine ⟨⟨?_, trivial, trivial, trivial⟩, trivial⟩
    refine List.pairwise_pair.mpr ⟨trivial, ?_, by decide⟩
    rintro ⟨hle, -⟩
    exact absurd hle (by decide)
  kwargs := ⟨List.Pairwise.nil, trivial⟩

theorem idsAgree_ordered : IdsAgree orderedCall := by
  refine (idsAgree_iff rfl serializable_ordered).mpr ⟨rfl, ⟨⟨?_, trivial, trivial, trivial⟩, trivial⟩,
    ⟨by simp [KeysOrdered, orderedCall], trivial⟩⟩
  intro a ha b hb
  simp only [List.mem_cons, List.not_mem_nil, or_false] at ha hb
  rcases ha with rfl | rfl <;> rcases hb with rfl | rfl <;> decide

/-- A periodic function with a unique key. -/
def keyedCall : TaskCall where
  func := "tasks:periodic_task"
  kwargs := [("a", .num 1)]
  attributes := TaskOptions.decorated { uniqueKey := some ["a"] } true

theorem serializable_keyed : keyedCall.Serializable where
  args := trivial
  kwargs := ⟨List.pairwise_singleton .., trivial, trivial⟩

/-- A stand-in for the digest: the first key of a dict that is the first argument. -/
def firstKey : Json → String
  | .obj ((_, .arr (.obj ((key, _) :: _) :: _)) :: _) => key
  | .obj ((_, .arr _) :: _) => "no dict"
  | _ => "no arguments"

theorem not_idsAgree : ¬∀ c : TaskCall, c.unique = true → c.Serializable → IdsAgree c := by
  intro h
  have agree := h keyedCall rfl serializable_keyed firstKey "" ⟨"", .null⟩
  revert agree
  decide +kernel

/-- Delayed with a dict of integer keys, 9 before 10 as numbers and "10" before "9" as strings. -/
def integerKeysCall : TaskCall where
  func := "tasks:periodic_task"
  args := [.dict [(.num 9 "9", .str "a"), (.num 10 "10", .str "b")]]
  attributes := TaskOptions.decorated {} true

example : ¬IdsAgree integerKeysCall := by
  intro h
  have agree := h firstKey "" ⟨"", .null⟩
  revert agree
  decide +kernel

end Agree

end TaskTiger
