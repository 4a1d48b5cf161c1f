import DocumentTables.Key.Basic

/-!
# The order of keys

Keys are compared by their leaves, the values that are no non-empty objects, sorted by path.  Paths
come first, then the texts of the values, where `null` stands for a missing value and comes last.  If
all common leaves agree, the key with fewer leaves comes first, and after that the canonical texts
decide.
-/

namespace DocumentTables
namespace PrimaryKey

/-- A value of a key with its path. -/
abbrev Leaf := String × Value

mutual

/-- The leaves of the value at a path. -/
def leavesOf (path : String) : Value → List Leaf
  | .object fields => if fields.isEmpty then [(path, .object [])] else leavesAmong path fields
  | .null => [(path, .null)]
  | .bool b => [(path, .bool b)]
  | .number n => [(path, .number n)]
  | .string s => [(path, .string s)]
  | .array items => [(path, .array items)]

/-- The leaves of the fields of the object at a path. -/
def leavesAmong (path : String) : List (String × Value) → List Leaf
  | [] => []
  | (name, value) :: fields => leavesOf (Path.dotted path name) value ++ leavesAmong path fields

end

/-- The leaves of a key in the order of its fields. -/
def unsortedLeaves : PrimaryKey → List Leaf
  | .single field value => leavesOf field value
  | .composite field parts => leavesAmong field parts

/-- The leaves of a key, sorted by path; leaves of one path keep their order. -/
def leaves (key : PrimaryKey) : List Leaf :=
  key.unsortedLeaves.mergeSort fun a b => (compare a.1 b.1).isLE

/-- The text by which a leaf is compared; `null` has none. -/
def leafText : Value → Option String
  | .null => none
  | .string s => some s
  | value => some value.text

/-- Texts in their order, and a missing text after all others. -/
def compareText : Option String → Option String → Ordering
  | some a, some b => compare a b
  | none, some _ => .gt
  | some _, none => .lt
  | none, none => .eq

/-- Compare leaves place by place, and then by number. -/
def compareLeaves : List Leaf → List Leaf → Ordering
  | [], [] => .eq
  | [], _ :: _ => .lt
  | _ :: _, [] => .gt
  | (p, v) :: as, (q, w) :: bs =>
      match compare p q with
      | .eq =>
          match compareText (leafText v) (leafText w) with
          | .eq => compareLeaves as bs
          | o => o
      | o => o

/-- The order of keys. -/
def cmp (a b : PrimaryKey) : Ordering :=
  match compareLeaves a.leaves b.leaves with
  | .eq => compare a.canonicalText b.canonicalText
  | o => o

/-- Keys are ordered by `PrimaryKey.cmp`. -/
instance : Ord PrimaryKey := ⟨cmp⟩

/-- Sort keys; equal ones keep their order. -/
def sort (keys : List PrimaryKey) : List PrimaryKey :=
  keys.mergeSort fun a b => (cmp a b).isLE

end PrimaryKey
end DocumentTables
