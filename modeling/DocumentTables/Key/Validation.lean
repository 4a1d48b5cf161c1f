import DocumentTables.Error
import DocumentTables.Key.Basic
import DocumentTables.Text.Identifier

/-!
# Valid keys

The strings of a valid key are safe identities.  A key with an array, or a composite key without
sub-fields, identifies no document at all.  The values of a key are visited in order and the first
finding counts.
-/

namespace DocumentTables
namespace PrimaryKey

mutual

/-- The path and text of the first string that is no safe identity; an array is an error. -/
def unsafeLeaf (path : String) : Value → Except ValidationError (Option (String × String))
  | .string s => if Text.isSafeId s then .ok none else .ok (some (path, s))
  | .object fields => unsafeLeafAmong path fields
  | .array items => .error (.unsupportedKeyValue path (Value.array items).kind)
  | .null => .ok none
  | .bool _ => .ok none
  | .number _ => .ok none

/-- The first finding among the fields of the object at a path. -/
def unsafeLeafAmong (path : String) :
    List (String × Value) → Except ValidationError (Option (String × String))
  | [] => .ok none
  | (name, value) :: fields =>
      match unsafeLeaf (Path.dotted path name) value with
      | .error e => .error e
      | .ok (some found) => .ok (some found)
      | .ok none => unsafeLeafAmong path fields

end

/-- The first string of a key that is no safe identity. -/
def firstUnsafe : PrimaryKey → Except ValidationError (Option (String × String))
  | .single field value => unsafeLeaf field value
  | .composite field [] => .error (.emptyCompositeKey field)
  | .composite field (part :: parts) => unsafeLeafAmong field (part :: parts)

/-- Whether all strings of a key are safe identities. -/
def validate (key : PrimaryKey) : Except ValidationError Bool :=
  key.firstUnsafe.map Option.isNone

/-- Refuse a key with a string that is no safe identity. -/
def ensureValid (key : PrimaryKey) : Except ValidationError Unit :=
  match key.firstUnsafe with
  | .error e => .error e
  | .ok none => .ok ()
  | .ok (some (field, value)) => .error (.invalidKeyCharacters field value)

end PrimaryKey
end DocumentTables
