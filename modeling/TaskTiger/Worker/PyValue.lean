import TaskTiger.Framework.KeySort
import TaskTiger.Store.Data

namespace TaskTiger

/-- A key of a Python dict that JSON can write. A number (an int, a float or a bool) is compared by
its value and written as its text. -/
inductive PyKey where
  | none
  | num (value : ℚ) (text : String)
  | str (s : String)

namespace PyKey

/-- The text json.dumps turns the key into. -/
def text : PyKey → String
  | none => "null"
  | num _ t => t
  | str s => s

/-- The order of sorted(). Keys of different kinds cannot be compared in Python; that they are
ordered here is never used. -/
def le : PyKey → PyKey → Prop
  | none, _ => True
  | num a _, num b _ => a ≤ b
  | num _ _, str _ => True
  | str a, str b => a ≤ b
  | _, _ => False

instance : LE PyKey := ⟨le⟩

instance decidableLe : ∀ a b : PyKey, Decidable (a ≤ b)
  | none, none => isTrue trivial
  | none, num _ _ => isTrue trivial
  | none, str _ => isTrue trivial
  | num _ _, none => isFalse id
  | num a _, num b _ => inferInstanceAs (Decidable (a ≤ b))
  | num _ _, str _ => isTrue trivial
  | str _, none => isFalse id
  | str _, num _ _ => isFalse id
  | str a, str b => inferInstanceAs (Decidable (a ≤ b))

theorem total (a b : PyKey) : a ≤ b ∨ b ≤ a := by
  cases a with
  | none => exact Or.inl trivial
  | num a s =>
    cases b with
    | none => exact Or.inr trivial
    | num b t => exact le_total a b
    | str t => exact Or.inl trivial
  | str a =>
    cases b with
    | none => exact Or.inr trivial
    | num b t => exact Or.inr trivial
    | str b => exact le_total a b

theorem trans {a b c : PyKey} (hab : a ≤ b) (hbc : b ≤ c) : a ≤ c := by
  cases a with
  | none => trivial
  | num a s =>
    cases b with
    | none => exact hab.elim
    | num b t =>
      cases c with
      | none => exact hbc.elim
      | num c u => exact le_trans (a := a) hab hbc
      | str u => trivial
    | str t =>
      cases c with
      | none => exact hbc.elim
      | num c u => exact hbc.elim
      | str u => trivial
  | str a =>
    cases b with
    | none => exact hab.elim
    | num b t => exact hab.elim
    | str b =>
      cases c with
      | none => exact hbc.elim
      | num c u => exact hbc.elim
      | str c => exact le_trans (a := a) hab hbc

/-- Whether sorted() can compare the keys. -/
def SameKind : PyKey → PyKey → Prop
  | none, none => True
  | num _ _, num _ _ => True
  | str _, str _ => True
  | _, _ => False

end PyKey

/-- A JSON-serialisable Python value; tuples are written as lists. -/
inductive PyValue where
  | none
  | bool (b : Bool)
  | num (q : ℚ)
  | str (s : String)
  | list (items : List PyValue)
  | dict (fields : List (PyKey × PyValue))

/-- The order in which sort_keys writes the fields of a dict. -/
abbrev ByKey {α : Type} (a b : PyKey × α) : Prop := a.1 ≤ b.1

instance {α : Type} : Std.Total (ByKey (α := α)) := ⟨fun a b => PyKey.total a.1 b.1⟩

instance {α : Type} : IsTrans (PyKey × α) ByKey := ⟨fun _ _ _ hab hbc => PyKey.trans hab hbc⟩

/-- The fields sorted by their keys, and then written. -/
def writeFields (fields : List (PyKey × Json)) : List (String × Json) :=
  (fields.insertionSort ByKey).map (fun p => (p.1.text, p.2))

/-! json.dumps with sort_keys, as the JSON it writes. -/

mutual

def PyValue.dumps : PyValue → Json
  | .none => .null
  | .bool b => .bool b
  | .num q => .num q
  | .str s => .str s
  | .list items => .arr (dumpsItems items)
  | .dict fields => .obj (writeFields (dumpsFields fields))

def dumpsItems : List PyValue → List Json
  | [] => []
  | v :: vs => v.dumps :: dumpsItems vs

def dumpsFields : List (PyKey × PyValue) → List (PyKey × Json)
  | [] => []
  | (k, v) :: rest => (k, v.dumps) :: dumpsFields rest

end

/-! json.dumps without sort_keys, which keeps the order of the fields. -/

mutual

def PyValue.encode : PyValue → Json
  | .none => .null
  | .bool b => .bool b
  | .num q => .num q
  | .str s => .str s
  | .list items => .arr (encodeItems items)
  | .dict fields => .obj (encodeFields fields)

def encodeItems : List PyValue → List Json
  | [] => []
  | v :: vs => v.encode :: encodeItems vs

def encodeFields : List (PyKey × PyValue) → List (String × Json)
  | [] => []
  | (k, v) :: rest => (k.text, v.encode) :: encodeFields rest

end

/-! json.loads: the keys of a dict are strings. -/

mutual

def Json.loads : Json → PyValue
  | .null => .none
  | .bool b => .bool b
  | .num q => .num q
  | .str s => .str s
  | .arr items => .list (loadsItems items)
  | .obj fields => .dict (loadsFields fields)

def loadsItems : List Json → List PyValue
  | [] => []
  | v :: vs => v.loads :: loadsItems vs

def loadsFields : List (String × Json) → List (PyKey × PyValue)
  | [] => []
  | (k, v) :: rest => (.str k, v.loads) :: loadsFields rest

end

/-- The keys of a dict that json.dumps can sort: of one kind, all different, and written as
different texts. -/
def KeysValid (fields : List (PyKey × PyValue)) : Prop :=
  fields.Pairwise (fun a b =>
    a.1.SameKind b.1 ∧ ¬(a.1 ≤ b.1 ∧ b.1 ≤ a.1) ∧ a.1.text ≠ b.1.text)

/-- Writing the keys as texts keeps their order. -/
def KeysOrdered (fields : List (PyKey × PyValue)) : Prop :=
  ∀ a ∈ fields, ∀ b ∈ fields, a.1 ≤ b.1 → a.1.text ≤ b.1.text

/-! A property of every dict in a value. -/

section EveryDict

variable (P : List (PyKey × PyValue) → Prop)

mutual

def PyValue.EveryDict : PyValue → Prop
  | .none | .bool _ | .num _ | .str _ => True
  | .list items => EveryItem items
  | .dict fields => P fields ∧ EveryField fields

def EveryItem : List PyValue → Prop
  | [] => True
  | v :: vs => v.EveryDict ∧ EveryItem vs

def EveryField : List (PyKey × PyValue) → Prop
  | [] => True
  | (_, v) :: rest => v.EveryDict ∧ EveryField rest

end

end EveryDict

theorem dumpsFields_eq_map (fields : List (PyKey × PyValue)) :
    dumpsFields fields = fields.map (fun p => (p.1, p.2.dumps)) := by
  induction fields with
  | nil => rfl
  | cons p fields ih => rw [dumpsFields, ih, List.map_cons]

theorem loadsFields_encodeFields (fields : List (PyKey × PyValue)) :
    loadsFields (encodeFields fields) =
      fields.map (fun p => (.str p.1.text, p.2.encode.loads)) := by
  induction fields with
  | nil => rfl
  | cons p fields ih => rw [encodeFields, loadsFields, ih, List.map_cons]

/-- The order of the written keys. -/
abbrev ByText (a b : PyKey × PyValue) : Prop := a.1.text ≤ b.1.text

instance : Std.Total ByText := ⟨fun a b => le_total a.1.text b.1.text⟩

instance : IsTrans (PyKey × PyValue) ByText := ⟨fun _ _ _ hab hbc => le_trans hab hbc⟩

theorem dumps_dict (fields : List (PyKey × PyValue)) : (PyValue.dict fields).dumps =
    .obj ((fields.insertionSort ByKey).map (fun p => (p.1.text, p.2.dumps))) := by
  have sorted : (fields.insertionSort ByKey).map (fun p => (p.1, p.2.dumps)) =
      (fields.map (fun p => (p.1, p.2.dumps))).insertionSort ByKey :=
    List.map_insertionSort ByKey ByKey _ fields (fun _ _ _ _ => Iff.rfl)
  rw [PyValue.dumps, writeFields, dumpsFields_eq_map, ← sorted, List.map_map]
  rfl

/-- After the round trip the fields are sorted by their texts. -/
theorem dumps_roundtrip_dict (fields : List (PyKey × PyValue)) :
    (PyValue.dict fields).encode.loads.dumps =
      .obj ((fields.insertionSort ByText).map (fun p => (p.1.text, p.2.encode.loads.dumps))) := by
  have sorted : (fields.insertionSort ByText).map
      (fun p => ((.str p.1.text, p.2.encode.loads) : PyKey × PyValue)) =
      (fields.map (fun p => (.str p.1.text, p.2.encode.loads))).insertionSort ByKey :=
    List.map_insertionSort ByText ByKey _ fields (fun _ _ _ _ => Iff.rfl)
  rw [PyValue.encode, Json.loads, loadsFields_encodeFields, dumps_dict, ← sorted, List.map_map]
  rfl

section Dict

variable {fields : List (PyKey × PyValue)}

/-- Different fields have different texts. -/
theorem KeysValid.injOn (hv : KeysValid fields) :
    Set.InjOn (fun p : PyKey × PyValue => p.1.text) {p | p ∈ fields} := by
  have symm : Std.Symm (fun a b : PyKey × PyValue => a.1.text ≠ b.1.text) := ⟨fun _ _ h => h.symm⟩
  have distinct : fields.Pairwise (fun a b => a.1.text ≠ b.1.text) := hv.imp fun h => h.2.2
  intro a ha b hb hab
  by_contra hne
  exact distinct.forall ha hb hne hab

/-- Neither order holds both ways between different fields. -/
theorem KeysValid.byKey_antisymm (hv : KeysValid fields) :
    ∀ a ∈ fields, ∀ b ∈ fields, ByKey a b → ByKey b a → a = b := by
  have symm : Std.Symm (fun a b : PyKey × PyValue => ¬(a.1 ≤ b.1 ∧ b.1 ≤ a.1)) :=
    ⟨fun _ _ h hc => h hc.symm⟩
  have distinct : fields.Pairwise (fun a b => ¬(a.1 ≤ b.1 ∧ b.1 ≤ a.1)) := hv.imp fun h => h.2.1
  intro a ha b hb hab hba
  by_contra hne
  exact distinct.forall ha hb hne ⟨hab, hba⟩

theorem KeysValid.byText_antisymm (hv : KeysValid fields) :
    ∀ a ∈ fields, ∀ b ∈ fields, ByText a b → ByText b a → a = b :=
  fun _ ha _ hb hab hba => hv.injOn ha hb (le_antisymm hab hba)

/-- A dict is written the same after a round trip exactly when its keys keep their order as texts
and its values are written the same. -/
theorem roundtrip_dict_iff (hv : KeysValid fields) :
    (PyValue.dict fields).encode.loads.dumps = (PyValue.dict fields).dumps ↔
      KeysOrdered fields ∧ ∀ p ∈ fields, p.2.encode.loads.dumps = p.2.dumps := by
  have sorts : fields.insertionSort ByKey = fields.insertionSort ByText ↔ KeysOrdered fields :=
    KeySort.insertionSort_eq_iff hv.byKey_antisymm hv.byText_antisymm
  rw [dumps_roundtrip_dict, dumps_dict, Json.obj.injEq]
  constructor
  · intro h
    have texts : (fields.insertionSort ByText).map (fun p => p.1.text) =
        (fields.insertionSort ByKey).map (fun p => p.1.text) := by
      simpa [Function.comp_def] using congrArg (List.map Prod.fst) h
    have same : fields.insertionSort ByText = fields.insertionSort ByKey :=
      KeySort.eq_of_map_eq hv.injOn (fun a ha => (List.mem_insertionSort _).mp ha)
        (fun a ha => (List.mem_insertionSort _).mp ha) texts
    refine ⟨sorts.mp same.symm, ?_⟩
    intro p hp
    rw [same] at h
    have here := List.map_inj_left.mp h p ((List.mem_insertionSort _).mpr hp)
    exact (Prod.ext_iff.mp here).2
  · rintro ⟨ordered, values⟩
    rw [sorts.mpr ordered]
    apply List.map_inj_left.mpr
    intro p hp
    rw [values p ((List.mem_insertionSort _).mp hp)]

end Dict

/-! The same for whole values. -/

mutual

theorem roundtrip_iff : (v : PyValue) → v.EveryDict KeysValid →
    (v.encode.loads.dumps = v.dumps ↔ v.EveryDict KeysOrdered)
  | .none, _ => ⟨fun _ => trivial, fun _ => rfl⟩
  | .bool _, _ => ⟨fun _ => trivial, fun _ => rfl⟩
  | .num _, _ => ⟨fun _ => trivial, fun _ => rfl⟩
  | .str _, _ => ⟨fun _ => trivial, fun _ => rfl⟩
  | .list items, hv => by
    have inner := roundtripItems_iff items hv
    simpa only [PyValue.encode, Json.loads, PyValue.dumps, Json.arr.injEq, PyValue.EveryDict]
      using inner
  | .dict fields, hv => by
    have inner := roundtripFields_iff fields hv.2
    rw [roundtrip_dict_iff hv.1, inner]
    rfl

theorem roundtripItems_iff : (l : List PyValue) → EveryItem KeysValid l →
    (dumpsItems (loadsItems (encodeItems l)) = dumpsItems l ↔ EveryItem KeysOrdered l)
  | [], _ => ⟨fun _ => trivial, fun _ => rfl⟩
  | v :: vs, hv => by
    have head := roundtrip_iff v hv.1
    have tail := roundtripItems_iff vs hv.2
    simp only [encodeItems, loadsItems, dumpsItems, List.cons.injEq, EveryItem, head, tail]

theorem roundtripFields_iff : (l : List (PyKey × PyValue)) → EveryField KeysValid l →
    ((∀ p ∈ l, p.2.encode.loads.dumps = p.2.dumps) ↔ EveryField KeysOrdered l)
  | [], _ => ⟨fun _ => trivial, fun _ => by simp⟩
  | (k, v) :: rest, hv => by
    have head := roundtrip_iff v hv.1
    have tail := roundtripFields_iff rest hv.2
    simp only [List.forall_mem_cons, EveryField, head, tail]

end

end TaskTiger
