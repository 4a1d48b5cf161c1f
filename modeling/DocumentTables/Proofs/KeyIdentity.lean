import DocumentTables.Backend.Database
import DocumentTables.Key.Schema
import DocumentTables.Proofs.FieldMaps

/-!
# The identity of a document

A schema without points in its names reads the identity of a document directly, while filters and
unique indexes reach the same values by dotted paths.  On documents with a valid identity the three
agree, for every key of the schema's shape.

**Results.**

* `KeySchema.shapes_of_extractKey`: extracted keys have the schema's shape.
* `KeySchema.holds_iff`: the filter of a key accepts exactly the documents with that key.
* `KeySchema.agree_iff`: documents agree on the index of the identity exactly if their keys are
  equal.
-/

namespace DocumentTables

namespace KeySchema

/-- No name of the schema has a point. -/
def DotFree : KeySchema → Prop
  | .single field => Path.DotFree field
  | .composite field subFields => Path.DotFree field ∧ ∀ name ∈ subFields, Path.DotFree name

instance : DecidablePred DotFree
  | .single field => inferInstanceAs (Decidable (Path.DotFree field))
  | .composite field subFields =>
      inferInstanceAs (Decidable (Path.DotFree field ∧ ∀ name ∈ subFields, Path.DotFree name))

/-- The key names the schema's field and asks for exactly the declared sub-fields. -/
def Shapes : KeySchema → PrimaryKey → Prop
  | .single field, .single name _ => name = field
  | .composite field subFields, .composite name parts =>
      name = field ∧ NameMap.Sorted parts ∧ ∀ sub, sub ∈ parts.map (·.1) ↔ sub ∈ subFields
  | _, _ => False

/-- The document has the given key, and that is valid. -/
def Identifies (schema : KeySchema) (doc : Document) (key : PrimaryKey) : Prop :=
  schema.extractKey doc = .ok key ∧ key.ensureValid = .ok ()

/-- The key of the document, if it has one, asks for no floating-point number. -/
def FloatFree (schema : KeySchema) (doc : Document) : Prop :=
  ∀ own, schema.extractKey doc = .ok own → own.FloatFree

/-- The key has the schema's shape and asks for no floating-point number. -/
structure Suits (schema : KeySchema) (key : PrimaryKey) : Prop where
  shapes : schema.Shapes key
  floatFree : key.FloatFree

theorem extractParts_cons
    {field : String} {object parts : Fields} {sub : String} {subFields : List String} :
    extractParts field object (sub :: subFields) = .ok parts ↔
      ∃ value rest, NameMap.get? object sub = some value ∧
        extractParts field object subFields = .ok rest ∧ parts = NameMap.insert rest sub value := by
  rw [extractParts]
  cases NameMap.get? object sub with
  | none =>
      simp
  | some value =>
      cases extractParts field object subFields with
      | error e =>
          simp [Except.map]
      | ok rest =>
          simp [Except.map, eq_comm]

/-- The extracted values are those of the object for the declared names. -/
theorem get?_extractParts
    {field : String} {object parts : Fields} {subFields : List String}
    (h : extractParts field object subFields = .ok parts) (name : String) :
    NameMap.get? parts name = if name ∈ subFields then NameMap.get? object name else none := by
  induction subFields generalizing parts with
  | nil =>
      cases h
      rfl
  | cons sub subFields ih =>
      obtain ⟨value, rest, hsub, hrest, rfl⟩ := extractParts_cons.mp h
      by_cases hname : name = sub
      · subst hname
        simp [hsub]
      · rw [NameMap.get?_insert_of_ne rest value hname, ih hrest]
        simp [hname]

theorem sorted_extractParts
    {field : String} {object parts : Fields} {subFields : List String}
    (h : extractParts field object subFields = .ok parts) :
    NameMap.Sorted parts := by
  induction subFields generalizing parts with
  | nil =>
      cases h
      exact List.Pairwise.nil
  | cons sub subFields ih =>
      obtain ⟨value, rest, -, hrest, rfl⟩ := extractParts_cons.mp h
      exact NameMap.sorted_insert sub value (ih hrest)

/-- Every declared sub-field has a value. -/
theorem isSome_of_extractParts
    {field : String} {object parts : Fields} {subFields : List String}
    (h : extractParts field object subFields = .ok parts) {name : String}
    (hname : name ∈ subFields) :
    (NameMap.get? object name).isSome = true := by
  induction subFields generalizing parts with
  | nil =>
      simp at hname
  | cons sub subFields ih =>
      obtain ⟨value, rest, hsub, hrest, rfl⟩ := extractParts_cons.mp h
      rcases List.mem_cons.mp hname with rfl | hname
      · simp [hsub]
      · exact ih hrest hname

theorem extractKey_single
    {field : String} {doc : Document} {key : PrimaryKey} :
    (KeySchema.single field).extractKey doc = .ok key ↔
      ∃ value, NameMap.get? doc field = some value ∧ key = .single field value := by
  rw [extractKey, KeySchema.field]
  cases NameMap.get? doc field with
  | none =>
      simp
  | some value =>
      simp [eq_comm]

theorem extractKey_composite
    {field : String} {subFields : List String} {doc : Document} {key : PrimaryKey} :
    (KeySchema.composite field subFields).extractKey doc = .ok key ↔
      subFields ≠ [] ∧ ∃ object parts, NameMap.get? doc field = some (.object object) ∧
        extractParts field object subFields = .ok parts ∧ key = .composite field parts := by
  rw [extractKey, KeySchema.field]
  cases NameMap.get? doc field with
  | none =>
      simp
  | some value =>
      cases subFields with
      | nil =>
          simp
      | cons sub subFields =>
          cases value with
          | object object =>
              cases hparts : extractParts field object (sub :: subFields) with
              | error e =>
                  simp [hparts, Except.map]
              | ok parts =>
                  simp [hparts, Except.map, eq_comm]
          | _ =>
              simp

/-- The key of a document has the schema's shape. -/
theorem shapes_of_extractKey
    {schema : KeySchema} {doc : Document} {key : PrimaryKey}
    (h : schema.extractKey doc = .ok key) :
    schema.Shapes key := by
  cases schema with
  | single field =>
      obtain ⟨value, -, rfl⟩ := extractKey_single.mp h
      rfl
  | composite field subFields =>
      obtain ⟨-, object, parts, -, hparts, rfl⟩ := extractKey_composite.mp h
      refine ⟨rfl, sorted_extractParts hparts, ?_⟩
      intro name
      rw [← NameMap.get?_isSome_iff, get?_extractParts hparts]
      split
      · next hname =>
          simpa [hname] using isSome_of_extractParts hparts hname
      · next hname =>
          simp [hname]

/-- A name without points leads to the field of that name. -/
theorem lookup_of_dotFree
    {field : String} (h : Path.DotFree field) (doc : Document) :
    doc.lookup field = NameMap.get? doc field := by
  rw [Document.lookup, Path.segments_of_dotFree h, Document.descend]
  cases NameMap.get? doc field <;> rfl

/-- Two names without points lead to a sub-field. -/
theorem lookup_dotted
    {field name : String} (hf : Path.DotFree field) (hn : Path.DotFree name) (doc : Document)
    {object : Fields} (h : NameMap.get? doc field = some (.object object)) :
    doc.lookup (Path.dotted field name) = NameMap.get? object name := by
  rw [Document.lookup_dotted_eq_bind doc field hn, lookup_of_dotFree hf, h, Option.bind_some,
    Value.fields_object]

end KeySchema

namespace PrimaryKey

/-- No value that a key asks for directly is an array. -/
def ArrayFree : PrimaryKey → Prop
  | .single _ value => value.isArray = false
  | .composite _ parts => ∀ part ∈ parts, part.2.isArray = false

theorem isArray_of_unsafeLeaf
    {path : String} {value : Value} {found : Option (String × String)}
    (h : unsafeLeaf path value = .ok found) :
    value.isArray = false := by
  cases value with
  | array items =>
      simp [unsafeLeaf] at h
  | _ =>
      rfl

theorem isArray_of_unsafeLeafAmong
    {path : String} {fields : Fields} (h : unsafeLeafAmong path fields = .ok none) :
    ∀ part ∈ fields, part.2.isArray = false := by
  induction fields with
  | nil =>
      simp
  | cons part fields ih =>
      obtain ⟨name, value⟩ := part
      rw [unsafeLeafAmong] at h
      split at h
      · simp at h
      · simp at h
      · next hleaf =>
          intro part hpart
          rcases List.mem_cons.mp hpart with rfl | hpart
          · exact isArray_of_unsafeLeaf hleaf
          · exact ih h part hpart

/-- A valid key has no string that is no safe identity, and no array. -/
theorem firstUnsafe_of_ensureValid
    {key : PrimaryKey} (h : key.ensureValid = .ok ()) :
    key.firstUnsafe = .ok none := by
  rw [ensureValid] at h
  split at h
  · simp at h
  · assumption
  · simp at h

/-- A valid key can identify a document. -/
theorem exists_validate_of_ensureValid
    {key : PrimaryKey} (h : key.ensureValid = .ok ()) :
    ∃ safe, key.validate = .ok safe := by
  rw [validate, firstUnsafe_of_ensureValid h]
  exact ⟨true, rfl⟩

theorem arrayFree_of_ensureValid
    {key : PrimaryKey} (h : key.ensureValid = .ok ()) :
    key.ArrayFree := by
  have hfirst := firstUnsafe_of_ensureValid h
  cases key with
  | single field value =>
      exact isArray_of_unsafeLeaf hfirst
  | composite field parts =>
      cases parts with
      | nil =>
          simp [firstUnsafe] at hfirst
      | cons part parts =>
          exact isArray_of_unsafeLeafAmong hfirst

end PrimaryKey

namespace Filter

/-- A value that is no array meets only what it equals. -/
theorem valueMatches_of_not_isArray
    {found : Value} (h : found.isArray = false) (expected : Value) :
    valueMatches found expected = found.same expected := by
  cases found with
  | array items =>
      simp [Value.isArray] at h
  | _ =>
      simp [valueMatches]

theorem allHold_map
    {β : Type} (doc : Document) (f : β → Filter) (bs : List β) :
    allHold doc (bs.map f) = true ↔ ∀ b ∈ bs, holds doc (f b) = true := by
  induction bs with
  | nil =>
      simp [allHold]
  | cons b bs ih =>
      simp [allHold, ih]

end Filter

namespace Collection

theorem sameValues_map
    {β : Type} (f g : β → Option Value) (bs : List β) :
    sameValues (bs.map f) (bs.map g) = true ↔ ∀ b ∈ bs, sameValue (f b) (g b) = true := by
  induction bs with
  | nil =>
      simp [sameValues]
  | cons b bs ih =>
      simp [sameValues, ih]

end Collection

namespace KeySchema

/-- Two composite keys of one schema are equal if they agree on each declared sub-field. -/
theorem same_composite_iff
    {field : String} {subFields : List String} {wanted parts : Fields}
    (hwanted : (KeySchema.composite field subFields).Shapes (.composite field wanted))
    (hparts : (KeySchema.composite field subFields).Shapes (.composite field parts)) :
    PrimaryKey.same (.composite field wanted) (.composite field parts) = true ↔
      ∀ sub v w, NameMap.get? wanted sub = some v → NameMap.get? parts sub = some w →
        v.same w = true := by
  obtain ⟨-, hsorted, hnames⟩ := hwanted
  obtain ⟨-, hsorted', hnames'⟩ := hparts
  have heq : wanted.map (·.1) = parts.map (·.1) :=
    NameMap.names_eq hsorted hsorted' fun name => (hnames name).trans (hnames' name).symm
  rw [PrimaryKey.same_iff]
  simp only [PrimaryKey.field, PrimaryKey.value, Value.same, true_and,
    Value.sameFields_iff hsorted heq]

/-- The filter of a key of the schema's shape accepts a document with a valid key exactly if the two
keys are equal. -/
theorem holds_iff
    {schema : KeySchema} (hdots : schema.DotFree) {doc : Document} {own key : PrimaryKey}
    (hdoc : schema.Identifies doc own) (hshape : schema.Shapes key) :
    key.filter.holds doc = true ↔ key.same own = true := by
  obtain ⟨hextract, hvalid⟩ := hdoc
  have harrays := PrimaryKey.arrayFree_of_ensureValid hvalid
  cases schema with
  | single field =>
      obtain ⟨value, hvalue, rfl⟩ := extractKey_single.mp hextract
      cases key with
      | composite name parts =>
          exact hshape.elim
      | single name wanted =>
          obtain rfl : name = field := hshape
          rw [PrimaryKey.same_iff]
          simp only [PrimaryKey.filter, Filter.holds, Filter.pathMatches,
            lookup_of_dotFree hdots, hvalue, Filter.valueMatches_of_not_isArray harrays,
            PrimaryKey.field, PrimaryKey.value, Value.same_comm wanted, true_and]
  | composite field subFields =>
      obtain ⟨-, object, parts, hobject, hparts, rfl⟩ := extractKey_composite.mp hextract
      cases key with
      | single name wanted =>
          exact hshape.elim
      | composite name wanted =>
          obtain rfl : name = field := hshape.1
          rw [same_composite_iff hshape (shapes_of_extractKey hextract)]
          simp only [PrimaryKey.filter, Filter.holds, Filter.allHold_map, Filter.pathMatches]
          constructor
          · intro hall sub v w hv hw
            have hsub : sub ∈ subFields := by
              rw [← hshape.2.2, ← NameMap.get?_isSome_iff, hv]
              rfl
            have hmeets := hall (sub, v) (NameMap.mem_of_get?_eq_some hv)
            rw [lookup_dotted hdots.1 (hdots.2 sub hsub) doc hobject] at hmeets
            rw [get?_extractParts hparts, if_pos hsub] at hw
            have harray := harrays (sub, w) (NameMap.mem_of_get?_eq_some
              ((get?_extractParts hparts sub).trans (by rw [if_pos hsub, hw])))
            rw [hw] at hmeets
            rw [Value.same_comm, ← Filter.valueMatches_of_not_isArray harray]
            exact hmeets
          · rintro hall ⟨sub, v⟩ hmem
            have hsub : sub ∈ subFields :=
              (hshape.2.2 sub).mp (List.mem_map_of_mem hmem)
            obtain ⟨w, hw⟩ := Option.isSome_iff_exists.mp (isSome_of_extractParts hparts hsub)
            have hpart : NameMap.get? parts sub = some w := by
              rw [get?_extractParts hparts, if_pos hsub, hw]
            have harray := harrays (sub, w) (NameMap.mem_of_get?_eq_some hpart)
            simp only [lookup_dotted hdots.1 (hdots.2 sub hsub) doc hobject, hw,
              Filter.valueMatches_of_not_isArray harray, Value.same_comm w]
            exact hall sub v w (NameMap.get?_eq_some_of_mem hshape.2.1 hmem) hpart

/-- Two documents agree on the index of the identity exactly if their keys are equal. -/
theorem agree_iff
    {schema : KeySchema} (hdots : schema.DotFree) {a b : Document} {ka kb : PrimaryKey}
    (ha : schema.extractKey a = .ok ka) (hb : schema.extractKey b = .ok kb) :
    Collection.agree schema.indexFields a b = true ↔ ka.same kb = true := by
  cases schema with
  | single field =>
      obtain ⟨v, hv, rfl⟩ := extractKey_single.mp ha
      obtain ⟨w, hw, rfl⟩ := extractKey_single.mp hb
      rw [PrimaryKey.same_iff]
      simp [Collection.agree, Collection.indexValues, indexFields, lookup_of_dotFree hdots, hv, hw,
        Collection.sameValues, Collection.sameValue, PrimaryKey.field, PrimaryKey.value]
  | composite field subFields =>
      have hshape := shapes_of_extractKey ha
      have hshape' := shapes_of_extractKey hb
      obtain ⟨-, object, parts, hobject, hparts, rfl⟩ := extractKey_composite.mp ha
      obtain ⟨-, object', parts', hobject', hparts', rfl⟩ := extractKey_composite.mp hb
      rw [same_composite_iff hshape hshape']
      simp only [Collection.agree, Collection.indexValues, indexFields, List.map_map,
        Collection.sameValues_map, Function.comp_apply]
      constructor
      · intro hall sub v w hv hw
        have hsub : sub ∈ subFields := by
          rw [← hshape.2.2, ← NameMap.get?_isSome_iff, hv]
          rfl
        have hsame := hall sub hsub
        rw [get?_extractParts hparts, if_pos hsub] at hv
        rw [get?_extractParts hparts', if_pos hsub] at hw
        rwa [lookup_dotted hdots.1 (hdots.2 sub hsub) a hobject,
          lookup_dotted hdots.1 (hdots.2 sub hsub) b hobject', hv, hw] at hsame
      · intro hall sub hsub
        obtain ⟨v, hv⟩ := Option.isSome_iff_exists.mp (isSome_of_extractParts hparts hsub)
        obtain ⟨w, hw⟩ := Option.isSome_iff_exists.mp (isSome_of_extractParts hparts' hsub)
        rw [lookup_dotted hdots.1 (hdots.2 sub hsub) a hobject,
          lookup_dotted hdots.1 (hdots.2 sub hsub) b hobject', hv, hw]
        exact hall sub v w (by rw [get?_extractParts hparts, if_pos hsub, hv])
          (by rw [get?_extractParts hparts', if_pos hsub, hw])

end KeySchema
end DocumentTables
