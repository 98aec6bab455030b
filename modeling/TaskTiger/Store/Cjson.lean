import TaskTiger.Framework.Rounding
import TaskTiger.Store.Data

namespace TaskTiger

open Rounding

/-! The numbers of lua-cjson. -/

def binary64 : Format := ⟨2, 53, some (-1074), by norm_num, by norm_num⟩

/-- The digits of "%.14g". -/
def decimal14 : Format := ⟨10, 14, none, by norm_num, by norm_num⟩

/-- A number is read as a double and printed with 14 significant digits. -/
def cjsonNumber (q : ℚ) : ℚ := decimal14.round (binary64.round q)

/-- The number is not read as an infinity, which cjson.encode refuses. -/
def isFinite (q : ℚ) : Bool := decide (|binary64.round q| < 2 ^ 1024)

/-- cjson.decode refuses an object that is nested deeper. -/
def maxDepth : Nat := 1000

/-! Which values can be decoded and encoded again, below so many levels. -/

mutual

def Json.recodable : Nat → Json → Bool
  | _, .null | _, .bool _ | _, .str _ => true
  | _, .num q => isFinite q
  | 0, .arr _ | 0, .obj _ => false
  | depth + 1, .arr items => itemsRecodable depth items
  | depth + 1, .obj fields => fieldsRecodable depth fields

def itemsRecodable : Nat → List Json → Bool
  | _, [] => true
  | depth, x :: xs => x.recodable depth && itemsRecodable depth xs

def fieldsRecodable : Nat → List (String × Json) → Bool
  | _, [] => true
  | depth, (_, v) :: rest => v.recodable depth && fieldsRecodable depth rest

end

/-- cjson.decode reads the object, and cjson.encode writes it with the new time. -/
def TaskData.recodable (d : TaskData) (ts : Time) : Bool :=
  (Json.arr d.args).recodable (maxDepth - 1) &&
  (Json.obj d.kwargs).recodable (maxDepth - 1) &&
  d.hardTimeout.all isFinite &&
  d.retryMethod.all (fun m => m.args.recodable (maxDepth - 2)) &&
  d.maxQueueSize.all (fun n => isFinite n) &&
  d.maxStoredExecutions.all (fun n => isFinite n) &&
  d.timeLastQueued.all isFinite &&
  isFinite ts

/-! What a value looks like when it comes back. -/

mutual

/-- No list inside is empty, and the numbers come back. -/
def Json.Survives (number : ℚ → ℚ) : Json → Prop
  | .null | .bool _ | .str _ => True
  | .num q => number q = q
  | .arr items => items ≠ [] ∧ itemsSurvive number items
  | .obj fields => fieldsSurvive number fields

def itemsSurvive (number : ℚ → ℚ) : List Json → Prop
  | [] => True
  | x :: xs => x.Survives number ∧ itemsSurvive number xs

def fieldsSurvive (number : ℚ → ℚ) : List (String × Json) → Prop
  | [] => True
  | (_, v) :: rest => v.Survives number ∧ fieldsSurvive number rest

end

variable {number : ℚ → ℚ}

mutual

theorem Json.cjson_eq_iff : ∀ j : Json, j.cjson number = j ↔ j.Survives number
  | .null => by simp [Json.cjson, Json.Survives]
  | .bool b => by simp [Json.cjson, Json.Survives]
  | .str s => by simp [Json.cjson, Json.Survives]
  | .num q => by simp [Json.cjson, Json.Survives]
  | .arr [] => by simp [Json.cjson, Json.Survives]
  | .arr (x :: xs) => by
    have items := cjsonItems_eq_iff (x :: xs)
    simpa [Json.cjson, Json.Survives] using items
  | .obj fields => by
    have := cjsonFields_eq_iff fields
    simpa [Json.cjson, Json.Survives] using this

theorem cjsonItems_eq_iff : ∀ items : List Json,
    cjsonItems number items = items ↔ itemsSurvive number items
  | [] => by simp [cjsonItems, itemsSurvive]
  | x :: xs => by
    rw [cjsonItems, itemsSurvive, List.cons.injEq, Json.cjson_eq_iff x, cjsonItems_eq_iff xs]

theorem cjsonFields_eq_iff : ∀ fields : List (String × Json),
    cjsonFields number fields = fields ↔ fieldsSurvive number fields
  | [] => by simp [cjsonFields, fieldsSurvive]
  | (k, v) :: rest => by
    rw [cjsonFields, fieldsSurvive, List.cons.injEq, Prod.mk.injEq, Json.cjson_eq_iff v,
      cjsonFields_eq_iff rest]
    simp

end

end TaskTiger
