import DocumentTables.Key.Validation

/-!
# Key schemas

A schema tells where the documents of a table carry their identity: in one field, or in declared
sub-fields of the object in one field.
-/

namespace DocumentTables

/-- Where a table finds the identity of its documents. -/
inductive KeySchema where
  | single (field : String)
  | composite (field : String) (subFields : List String)
deriving DecidableEq, Repr, Inhabited

namespace KeySchema

/-- The name of the identity field. -/
def field : KeySchema → String
  | .single field => field
  | .composite field _ => field

/-- The values of the declared sub-fields of an identity object. -/
def extractParts (parent : String) (object : Fields) :
    List String → Except ValidationError Fields
  | [] => .ok []
  | name :: names =>
      match NameMap.get? object name with
      | none => .error (.missingSubField parent name)
      | some value => (extractParts parent object names).map fun parts => parts.insert name value

/-- The key of a document.  A composite key takes exactly the declared sub-fields. -/
def extractKey (schema : KeySchema) (doc : Document) : Except ValidationError PrimaryKey :=
  match NameMap.get? doc schema.field with
  | none => .error (.missingKeyField schema.field)
  | some value =>
      match schema with
      | .single field => .ok (.single field value)
      | .composite field [] => .error (.emptyCompositeKey field)
      | .composite field subFields =>
          match value with
          | .object object => (extractParts field object subFields).map (.composite field)
          | other => .error (.notAnObject field other.kind)

/-- The dotted paths of the identity, in the order of declaration. -/
def indexFields : KeySchema → List String
  | .single field => [field]
  | .composite field subFields => subFields.map (Path.dotted field)

/-- The schema as diagnostics show it. -/
def describe : KeySchema → String
  | .single field => Text.record "Single" [("field", Text.quoted field)]
  | .composite field subFields =>
      Text.record "Composite"
        [("field", Text.quoted field), ("sub_fields", Text.quotedList subFields)]

end KeySchema

/-- A document from any value: only an object is one. -/
def Document.ofValue (value : Value) : Except ValidationError Document :=
  match value with
  | .object fields => .ok fields
  | other => .error (.notAnObject "<document>" other.kind)

end DocumentTables
