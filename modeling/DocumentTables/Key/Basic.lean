import DocumentTables.Filter
import DocumentTables.Json.Writer

/-!
# Primary keys

A primary key identifies one document: by the value of one field, or by some sub-fields of an object
in one field.  Two keys are equal if their mappings from names to values are equal.  The canonical
text of that mapping names a key in caches and messages, and by it a key is hashed.
-/

namespace DocumentTables

/-- The identity of a document. -/
inductive PrimaryKey where
  /-- One field with its value. -/
  | single (field : String) (value : Value)
  /-- One field that holds an object, with some of its sub-fields. -/
  | composite (field : String) (parts : Fields)
deriving Inhabited

namespace PrimaryKey

/-- The name of the identity field. -/
def field : PrimaryKey → String
  | .single field _ => field
  | .composite field _ => field

/-- The value of the identity field that the key asks for. -/
def value : PrimaryKey → Value
  | .single _ value => value
  | .composite _ parts => .object parts

/-- The mapping from names to values. -/
def toJson (key : PrimaryKey) : Value :=
  .object [(key.field, key.value)]

/-- Keys are equal if their mappings are. -/
def same (a b : PrimaryKey) : Bool :=
  a.toJson.same b.toJson

/-- `==` on keys is `PrimaryKey.same`. -/
instance : BEq PrimaryKey := ⟨same⟩

/-- The written form of the mapping. -/
def canonicalText (key : PrimaryKey) : String :=
  key.toJson.text

/-- Hash a key: its canonical text is fed to the state of a hasher. -/
def hashWith {σ : Type} (feed : σ → String → σ) (state : σ) (key : PrimaryKey) : σ :=
  feed state key.canonicalText

/-- The texts that a key feeds to a hasher. -/
def hashedTexts (key : PrimaryKey) : List String :=
  key.hashWith (fun texts text => texts ++ [text]) []

/-- Keys that a hash table takes for one: they are hashed alike, and they are equal.  The keys of the
two floating-point zeros are equal but not hashed alike, so each of them has an entry of its own. -/
def alike (a b : PrimaryKey) : Bool :=
  a.hashedTexts == b.hashedTexts && a.same b

/-- The filter for documents with the key: a composite key asks for each of its sub-fields. -/
def filter : PrimaryKey → Filter
  | .single field value => .eq field value
  | .composite field parts =>
      .and (parts.map fun (name, value) => .eq (Path.dotted field name) value)

end PrimaryKey
end DocumentTables
