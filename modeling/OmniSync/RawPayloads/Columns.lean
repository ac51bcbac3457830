import OmniSync.Data.Decimal
import OmniSync.RawPayloads.Canonical

/-!
# JSON columns

A payload in the database is in a column of type `JSONBType`. PostgreSQL keeps the numbers of a
`JSONB` value as `numeric`, without a binary exponent, so that a large float comes back as the
integer that its text denotes. That is another number unless the text is exact:
`Json.jsonb_pyEqual_iff`.
-/

namespace OmniSync

/-- The name of an SQLAlchemy dialect, as far as the code looks at it. -/
inductive Dialect where
  | postgresql
  | other
  deriving DecidableEq, Repr

/-- A value as `==` of Python sees it. Booleans are numbers. -/
inductive PyValue where
  | none
  | number (q : ℚ)
  | str (text : String)
  | list (items : List PyValue)
  | dict (fields : List (String × PyValue))

namespace Json

/-- What a `JSONB` column gives back of a float. `numeric` shows as many digits behind the point as
its text has, but no exponent and no sign of a zero. -/
def jsonbNumber (repr : String) : Json :=
  if (Decimal.ofText repr).scale ≤ 0 then .int (Decimal.ofText repr).whole
  else if (Decimal.ofText repr).digits = 0 then .float "0.0"
  else .float repr

mutual

/-- What a `JSONB` column gives back. The order of the keys, which it does not keep, is left as it
is: no comparison depends on it. -/
def jsonb : Json → Json
  | .float repr => jsonbNumber repr
  | .arr items => .arr (jsonbItems items)
  | .obj fields => .obj (jsonbFields fields)
  | j => j

def jsonbItems : List Json → List Json
  | [] => []
  | x :: xs => x.jsonb :: jsonbItems xs

def jsonbFields : List (String × Json) → List (String × Json)
  | [] => []
  | f :: fs => (f.1, f.2.jsonb) :: jsonbFields fs

end

mutual

/-- The Python value. A float is the double that is nearest to its text. -/
def value : Json → PyValue
  | .null => .none
  | .bool b => .number (if b then 1 else 0)
  | .int n => .number n
  | .float repr => .number (nearestDouble (Decimal.ofText repr).value)
  | .str text => .str text
  | .arr items => .list (valueItems items)
  | .obj fields => .dict (valueFields fields)
  | .other text _ => .str text

def valueItems : List Json → List PyValue
  | [] => []
  | x :: xs => x.value :: valueItems xs

def valueFields : List (String × Json) → List (String × PyValue)
  | [] => []
  | f :: fs => (f.1, f.2.value) :: valueFields fs

end

/-- `==` of Python. The order of the keys of a dictionary does not matter. -/
def PyEqual (j k : Json) : Prop := j.sorted.value = k.sorted.value

/-- A float whose text has no digit behind the point, once its exponent has been applied, is the
integer that the text denotes. -/
def exactLeaf (j : Json) : Prop := ∀ repr, j = .float repr → (Decimal.ofText repr).scale ≤ 0 →
  nearestDouble (Decimal.ofText repr).value = (Decimal.ofText repr).value

/-- The texts of all large floats are exact. -/
def Exact : Json → Prop := Leaves exactLeaf

section Lists

theorem jsonbItems_eq (items : List Json) : jsonbItems items = items.map jsonb := by
  induction items with
  | nil => rfl
  | cons x xs ih => rw [jsonbItems, ih, List.map_cons]

theorem jsonbFields_eq (fields : List (String × Json)) :
    jsonbFields fields = fields.map (fun f => (f.1, f.2.jsonb)) := by
  induction fields with
  | nil => rfl
  | cons f fs ih => rw [jsonbFields, ih, List.map_cons]

theorem valueItems_eq (items : List Json) : valueItems items = items.map value := by
  induction items with
  | nil => rfl
  | cons x xs ih => rw [valueItems, ih, List.map_cons]

theorem valueFields_eq (fields : List (String × Json)) :
    valueFields fields = fields.map (fun f => (f.1, f.2.value)) := by
  induction fields with
  | nil => rfl
  | cons f fs ih => rw [valueFields, ih, List.map_cons]

end Lists

section Leaves

variable {ok : Json → Prop}

theorem leaves_arr {items : List Json} : Leaves ok (.arr items) ↔ ∀ x ∈ items, Leaves ok x := by
  refine ⟨fun h => ?_, .arr⟩
  cases h with
  | leaf leaf => cases leaf
  | arr each => exact each

theorem leaves_obj {fields : List (String × Json)} :
    Leaves ok (.obj fields) ↔ ∀ f ∈ fields, Leaves ok f.2 := by
  refine ⟨fun h => ?_, .obj⟩
  cases h with
  | leaf leaf => cases leaf
  | obj each => exact each

theorem leaves_leaf {j : Json} (leaf : j.isLeaf = true) : Leaves ok j ↔ ok j := by
  refine ⟨fun h => ?_, .leaf leaf⟩
  cases h with
  | leaf _ holds => exact holds
  | arr each => cases leaf
  | obj each => cases leaf

/-- The order of the keys does not matter for the leaves. -/
theorem Plain.leaves_sorted {j : Json} (h : j.Plain) : Leaves ok j.sorted ↔ Leaves ok j := by
  induction h with
  | @leaf j leaf holds =>
      cases j with
      | arr items => cases leaf
      | obj fields => cases leaf
      | _ => exact Iff.rfl
  | arr each ih =>
      rw [Json.sorted, sortedItems_eq, leaves_arr, leaves_arr, List.forall_mem_map]
      exact forall₂_congr ih
  | obj each ih =>
      rw [Json.sorted, sortedFields_eq, leaves_obj, leaves_obj]
      simp only [List.mem_insertionSort]
      rw [List.forall_mem_map]
      exact forall₂_congr ih

/-- Coercion makes no float. -/
theorem Serializable.exact_coerce {j : Json} (h : j.Serializable) : j.coerce.Exact ↔ j.Exact := by
  unfold Exact
  induction h with
  | @leaf j leaf holds =>
      cases j with
      | arr items => cases leaf
      | obj fields => cases leaf
      | other text t =>
          rw [Json.coerce, leaves_leaf rfl, leaves_leaf rfl]
          exact iff_of_true (fun _ float => Json.noConfusion float)
            (fun _ float => Json.noConfusion float)
      | _ => exact Iff.rfl
  | arr each ih =>
      rw [Json.coerce, coerceItems_eq, leaves_arr, leaves_arr, List.forall_mem_map]
      exact forall₂_congr ih
  | obj each ih =>
      rw [Json.coerce, coerceFields_eq, leaves_obj, leaves_obj, List.forall_mem_map]
      exact forall₂_congr ih

end Leaves

section Column

theorem value_jsonbNumber_iff {repr : String} :
    (jsonbNumber repr).value = (Json.float repr).value ↔ exactLeaf (.float repr) := by
  have single : exactLeaf (.float repr) ↔ ((Decimal.ofText repr).scale ≤ 0 →
      nearestDouble (Decimal.ofText repr).value = (Decimal.ofText repr).value) :=
    ⟨fun h => h repr rfl, by rintro h _ ⟨⟩; exact h⟩
  rw [single]
  unfold jsonbNumber
  split
  · rename_i large
    rw [value, value, PyValue.number.injEq, Decimal.whole_eq_value large, eq_comm]
    exact ⟨fun same _ => same, fun h => h large⟩
  · rename_i small
    refine iff_of_true ?_ (fun large => (small large).elim)
    split
    · rename_i zero
      have text : (Decimal.ofText "0.0").digits = 0 := by decide
      rw [value, value, Decimal.value_eq_zero zero, Decimal.value_eq_zero text]
    · rfl

/-- A value comes back equal if and only if its large floats are exact. -/
theorem Plain.value_jsonb_iff {j : Json} (h : j.Plain) : j.jsonb.value = j.value ↔ j.Exact := by
  unfold Exact
  induction h with
  | @leaf j leaf holds =>
      rw [leaves_leaf leaf]
      cases j with
      | arr items => cases leaf
      | obj fields => cases leaf
      | float repr => exact value_jsonbNumber_iff
      | _ => exact iff_of_true rfl (fun _ => nofun)
  | arr each ih =>
      rw [jsonb, jsonbItems_eq, value, value, valueItems_eq, valueItems_eq, List.map_map,
        leaves_arr, PyValue.list.injEq, List.map_inj_left]
      exact forall₂_congr ih
  | obj each ih =>
      rw [jsonb, jsonbFields_eq, value, value, valueFields_eq, valueFields_eq, List.map_map,
        leaves_obj, PyValue.dict.injEq, List.map_inj_left]
      refine forall₂_congr (fun f hf => ?_)
      rw [← ih f hf]
      exact Prod.mk_right_inj

theorem sorted_jsonbNumber {repr : String} : (jsonbNumber repr).sorted = jsonbNumber repr := by
  unfold jsonbNumber
  split
  · rfl
  · split <;> rfl

/-- The column looks at no order. -/
theorem Plain.sorted_jsonb {j : Json} (h : j.Plain) : j.jsonb.sorted = j.sorted.jsonb := by
  induction h with
  | @leaf j leaf holds =>
      cases j with
      | arr items => cases leaf
      | obj fields => cases leaf
      | float repr => exact sorted_jsonbNumber
      | _ => rfl
  | arr each ih =>
      rw [jsonb, jsonbItems_eq, Json.sorted, sortedItems_eq, Json.sorted, sortedItems_eq, jsonb,
        jsonbItems_eq, List.map_map, List.map_map]
      exact congrArg Json.arr (List.map_congr_left ih)
  | @obj fields each ih =>
      have later : ∀ sortedFields : List (String × Json),
          (sortedFields.insertionSort (fun f g => f.1 ≤ g.1)).map (fun f => (f.1, f.2.jsonb)) =
            (sortedFields.map (fun f => (f.1, f.2.jsonb))).insertionSort
              (fun f g => f.1 ≤ g.1) :=
        fun sortedFields => List.map_insertionSort _ _ _ sortedFields (fun _ _ _ _ => Iff.rfl)
      rw [jsonb, jsonbFields_eq, Json.sorted, sortedFields_eq, Json.sorted, sortedFields_eq, jsonb,
        jsonbFields_eq, later, List.map_map, List.map_map]
      refine congrArg (fun fs => Json.obj (List.insertionSort _ fs)) ?_
      exact List.map_congr_left (fun f hf => Prod.ext rfl (ih f hf))

/-- What a `JSONB` column gives back equals a value that is the same up to the order of its keys if
and only if the large floats are exact. -/
theorem jsonb_pyEqual_iff {j k : Json} (hj : j.Plain) (hk : k.Plain) (same : j.Equal k) :
    j.jsonb.PyEqual k ↔ k.Exact := by
  unfold PyEqual
  rw [hj.sorted_jsonb, same, hk.sorted.value_jsonb_iff]
  exact hk.leaves_sorted

theorem Equal.pyEqual {j k : Json} (same : j.Equal k) : j.PyEqual k := congrArg value same

end Column

end Json

/-- `JSONBType`: `JSONB` on PostgreSQL, and elsewhere the text of `json`. -/
def JSONBType.column (dialect : Dialect) (j : Json) : Json :=
  match dialect with
  | .postgresql => j.jsonb
  | .other => j

/-- A row as a session reads it. -/
def RawPayload.read (dialect : Dialect) (row : RawPayload) : RawPayload :=
  { row with payload := row.payload.map (JSONBType.column dialect) }

/-- What a column gives back equals a value that is the same up to the order of its keys if and only
if the column is no `JSONB` or the large floats are exact. -/
theorem JSONBType.column_pyEqual_iff {dialect : Dialect} {j k : Json} (hj : j.Plain)
    (hk : k.Plain) (same : j.Equal k) :
    (column dialect j).PyEqual k ↔ dialect = .other ∨ k.Exact := by
  cases dialect with
  | postgresql =>
      refine (Json.jsonb_pyEqual_iff hj hk same).trans ⟨.inr, fun h => h.resolve_left ?_⟩
      exact fun impossible => (nomatch impossible)
  | other => exact iff_of_true same.pyEqual (.inl rfl)

end OmniSync
