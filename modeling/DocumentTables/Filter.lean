import DocumentTables.Document.Path

/-!
# Filters

A filter is a predicate over documents.  It names values by dotted paths, so that an identity object
can be matched by its sub-fields.

A filter has a JSON form: the bare name `All`, or an object whose one field is named for the kind of
filter.
-/

namespace DocumentTables

/-- A predicate over documents. -/
inductive Filter where
  /-- Every document. -/
  | all
  /-- The value at the path equals the given one, or is an array with such an item. -/
  | eq (path : String) (value : Value)
  /-- The opposite of `eq`; so a document without a value at the path matches. -/
  | ne (path : String) (value : Value)
  /-- `eq` holds for one of the values. -/
  | oneOf (path : String) (values : List Value)
  /-- There is a value at the path, or there is none. -/
  | exists (path : String) (expected : Bool)
  | and (filters : List Filter)
  | or (filters : List Filter)
  | not (filter : Filter)
deriving Inhabited

namespace Filter

/-- A found value meets an expected one if both are equal, or if the found one is an array that
holds the expected one and the expected one is no array. -/
def valueMatches (found expected : Value) : Bool :=
  found.same expected ||
    match found with
    | .array items => !expected.isArray && items.any fun item => item.same expected
    | _ => false

/-- The document has a value at the path that meets the expected one. -/
def pathMatches (doc : Document) (path : String) (expected : Value) : Bool :=
  match doc.lookup path with
  | some found => valueMatches found expected
  | none => false

mutual

/-- The document satisfies the filter. -/
def holds (doc : Document) : Filter → Bool
  | .all => true
  | .eq path value => pathMatches doc path value
  | .ne path value => !pathMatches doc path value
  | .oneOf path values => values.any (pathMatches doc path)
  | .exists path expected => (doc.lookup path).isSome == expected
  | .and filters => allHold doc filters
  | .or filters => anyHolds doc filters
  | .not filter => !holds doc filter

/-- The document satisfies each filter. -/
def allHold (doc : Document) : List Filter → Bool
  | [] => true
  | filter :: filters => holds doc filter && allHold doc filters

/-- The document satisfies one of the filters. -/
def anyHolds (doc : Document) : List Filter → Bool
  | [] => false
  | filter :: filters => holds doc filter || anyHolds doc filters

end

/-- An object with a path and one more field. -/
def operandForm (name path : String) (field : String) (value : Value) : Value :=
  .object [(name, .object (NameMap.ofList [("path", .string path), (field, value)]))]

mutual

/-- The JSON form of a filter. -/
def toJson : Filter → Value
  | .all => .string "All"
  | .eq path value => operandForm "Eq" path "value" value
  | .ne path value => operandForm "Ne" path "value" value
  | .oneOf path values => operandForm "In" path "values" (.array values)
  | .exists path expected => operandForm "Exists" path "exists" (.bool expected)
  | .and filters => .object [("And", .array (toJsonItems filters))]
  | .or filters => .object [("Or", .array (toJsonItems filters))]
  | .not filter => .object [("Not", filter.toJson)]

/-- The JSON forms of filters. -/
def toJsonItems : List Filter → List Value
  | [] => []
  | filter :: filters => filter.toJson :: toJsonItems filters

end

/-- A text field of an object. -/
def textField? (fields : Fields) (name : String) : Option String :=
  match fields.get? name with
  | some (.string s) => some s
  | _ => none

/-- The operands of a filter on one path; other fields are ignored. -/
def ofOperands? (name : String) (fields : Fields) : Option Filter := do
  let path ← textField? fields "path"
  match name with
  | "Eq" => return .eq path (← NameMap.get? fields "value")
  | "Ne" => return .ne path (← NameMap.get? fields "value")
  | "In" =>
      match fields.get? "values" with
      | some (.array values) => return .oneOf path values
      | _ => none
  | "Exists" =>
      match fields.get? "exists" with
      | some (.bool expected) => return .exists path expected
      | _ => none
  | _ => none

mutual

/-- The filter with the given JSON form. -/
def ofJson? : Value → Option Filter
  | .string name => if name = "All" then some .all else none
  | .object fields => ofFields? fields
  | _ => none

/-- The filter whose form has the given fields, of which there is one. -/
def ofFields? : List (String × Value) → Option Filter
  | [(name, value)] =>
      match name with
      | "All" => match value with
        | .null => some .all
        | _ => none
      | "And" => (ofItems? value).map .and
      | "Or" => (ofItems? value).map .or
      | "Not" => (ofJson? value).map .not
      | _ => match value with
        | .object fields => ofOperands? name fields
        | _ => none
  | _ => none

/-- The filters of an array of forms. -/
def ofItems? : Value → Option (List Filter)
  | .array items => ofList? items
  | _ => none

/-- The filters with the given forms. -/
def ofList? : List Value → Option (List Filter)
  | [] => some []
  | item :: items => do
      let filter ← ofJson? item
      let filters ← ofList? items
      return filter :: filters

end

end Filter
end DocumentTables
