import DocumentTables.NameMap
import DocumentTables.Number.Binary64

/-!
# JSON values

A value is plain data; the fields of an object are a list of pairs.  In every value that the library
builds the names of an object are strictly increasing, which `Value.Sorted` states.

Equality of values, `Value.same`, compares kinds first: a whole number never equals a floating-point
number, and the two floating-point zeros are equal.
-/

namespace DocumentTables

/-- A number: whole numbers and floating-point numbers are different kinds. -/
inductive Number where
  | whole (n : Int)
  | float (x : Binary64)
deriving DecidableEq, Repr

/-- A JSON value. -/
inductive Value where
  | null
  | bool (b : Bool)
  | number (n : Number)
  | string (s : String)
  | array (items : List Value)
  | object (fields : List (String × Value))
deriving Repr, Inhabited

/-- The fields of an object. -/
abbrev Fields := NameMap Value

/-- A document of a table is a JSON object. -/
abbrev Document := Fields

/-- Equality of numbers of one kind. -/
def Number.same : Number → Number → Bool
  | .whole a, .whole b => a == b
  | .float x, .float y => x.same y
  | _, _ => false

mutual

/-- Equality of values. -/
def Value.same : Value → Value → Bool
  | .null, .null => true
  | .bool a, .bool b => a == b
  | .number a, .number b => a.same b
  | .string a, .string b => a == b
  | .array as, .array bs => Value.sameItems as bs
  | .object as, .object bs => Value.sameFields as bs
  | _, _ => false

/-- Equality of items, place by place. -/
def Value.sameItems : List Value → List Value → Bool
  | [], [] => true
  | a :: as, b :: bs => a.same b && Value.sameItems as bs
  | _, _ => false

/-- Equality of fields, place by place. -/
def Value.sameFields : List (String × Value) → List (String × Value) → Bool
  | [], [] => true
  | (k, a) :: as, (l, b) :: bs => k == l && a.same b && Value.sameFields as bs
  | _, _ => false

end

/-- `==` on values is `Value.same`. -/
instance : BEq Value := ⟨Value.same⟩

namespace Value

/-- The name of a value's kind, as messages give it. -/
def kind : Value → String
  | .null => "null"
  | .bool _ => "boolean"
  | .number _ => "number"
  | .string _ => "string"
  | .array _ => "array"
  | .object _ => "object"

/-- A value is an array. -/
def isArray : Value → Bool
  | .array _ => true
  | _ => false

/-- The fields of an object. -/
def fields? : Value → Option Fields
  | .object fields => some fields
  | _ => none

end Value

mutual

/-- The names of each object in a value are strictly increasing. -/
def Value.Sorted : Value → Prop
  | .array items => Value.SortedItems items
  | .object fields => NameMap.Sorted fields ∧ Value.SortedFields fields
  | _ => True

/-- The names of each object in a list of values are strictly increasing. -/
def Value.SortedItems : List Value → Prop
  | [] => True
  | item :: items => item.Sorted ∧ Value.SortedItems items

/-- The names of each object below the given fields are strictly increasing. -/
def Value.SortedFields : List (String × Value) → Prop
  | [] => True
  | (_, value) :: fields => value.Sorted ∧ Value.SortedFields fields

end

namespace Value

theorem sorted_of_mem
    {items : List Value} (h : SortedItems items) :
    ∀ v ∈ items, v.Sorted := by
  induction items with
  | nil =>
      simp
  | cons item items ih =>
      rintro v hv
      rcases List.mem_cons.mp hv with rfl | hv
      · exact h.1
      · exact ih h.2 v hv

theorem sorted_of_mem_fields
    {fields : List (String × Value)} (h : SortedFields fields) :
    ∀ field ∈ fields, field.2.Sorted := by
  induction fields with
  | nil =>
      simp
  | cons field fields ih =>
      rintro f hf
      rcases List.mem_cons.mp hf with rfl | hf
      · exact h.1
      · exact ih h.2 f hf

end Value

/-- A document as the library builds it: its names, and those of each object in it, are strictly
increasing. -/
def Document.Sorted (doc : Document) : Prop :=
  (Value.object doc).Sorted

end DocumentTables
