import ComputeContract.Cbor.DagCbor
import ComputeContract.Util.Json

/-!
# JSON values, as they are encoded
-/

namespace ComputeContract.Json

open AssocList

mutual

/-- A JSON value as the encoder takes it. -/
def toValue : Json → Value
  | .null => .null
  | .bool b => .bool b
  | .number n => if n.isInt then .int n.num else .float n
  | .infinite _ => .float none
  | .string s => .text s
  | .array items => .array (toValues items)
  | .object fields => .object (toFields fields)

def toValues : List Json → List Value
  | [] => []
  | v :: vs => toValue v :: toValues vs

def toFields : List (String × Json) → List (String × Value)
  | [] => []
  | (name, v) :: fields => (name, toValue v) :: toFields fields

end

theorem length_toValues (items : List Json) : (toValues items).length = items.length := by
  induction items with
  | nil => rfl
  | cons v vs ih => rw [toValues, List.length_cons, ih, List.length_cons]

theorem exists_toValue_of_mem {fields : List (String × Json)} :
    ∀ e ∈ toFields fields, ∃ v : Json, e.2 = v.toValue := by
  induction fields with
  | nil => exact List.forall_mem_nil _
  | cons e fields ih => exact List.forall_mem_cons.2 ⟨⟨e.2, rfl⟩, ih⟩

theorem lookup_toFields (fields : List (String × Json)) (name : String) :
    (toFields fields).lookup name = (fields.lookup name).map toValue := by
  induction fields with
  | nil => rfl
  | cons e fields ih =>
    rw [toFields, lookup_cons, lookup_cons, ih]
    split_ifs <;> rfl

theorem keys_toFields (fields : List (String × Json)) : keys (toFields fields) = keys fields := by
  induction fields with
  | nil => rfl
  | cons e fields ih => rw [toFields, keys_cons, ih, keys_cons]

end ComputeContract.Json
