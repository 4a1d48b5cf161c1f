import DocumentTables.Proofs.KeyIdentity
import DocumentTables.Proofs.Projection
import DocumentTables.Sample

/-!
# The filters of equal keys

Keys are equal if their mappings from names to values are, whatever kind they are of.  The kind of a
key decides on its filter: a key of one field asks for a whole value, and a composite key for some
sub-fields of an object, which may have others.  So equal keys of one kind accept the same documents,
while of two equal keys of different kinds the single one accepts an object that has nothing else.

For the keys of documents all of this falls together: a valid key accepts the documents that have
an equal key, and these are the ones with the same values on the index of the identity.

**Results.**

* `Value.sameFields_iff_matches`: an object equals the fields of a key if it has what these ask for and
  nothing else.
* `PrimaryKey.holds_of_same`: what the filters of equal keys accept.
* `PrimaryKey.same_differ`: equal keys of different kinds accept different documents.
* `KeySchema.identities_agree`: three ways to tell that documents have the same identity.
-/

namespace DocumentTables

/-! ## Equal values -/

namespace Value

variable {u v w : Value}

theorem isArray_of_same
    (h : v.same w = true) :
    v.isArray = w.isArray := by
  cases v <;> cases w <;> simp_all [same, isArray]

theorem same_congr_right
    (h : v.same w = true) (u : Value) :
    u.same v = u.same w := by
  rw [Bool.eq_iff_iff]
  exact ⟨fun huv => same_trans huv h, fun huw => same_trans huw (same_symm h)⟩

end Value

namespace Filter

variable {v w : Value} {doc : Document}

/-- Equal values are met by the same ones. -/
theorem valueMatches_congr
    (h : v.same w = true) (found : Value) :
    valueMatches found v = valueMatches found w := by
  cases found with
  | array items =>
      simp only [valueMatches, Value.same_congr_right h, Value.isArray_of_same h]
  | _ =>
      simp only [valueMatches, Value.same_congr_right h]

theorem holds_eq_congr
    (h : v.same w = true) (path : String) :
    holds doc (.eq path v) = holds doc (.eq path w) := by
  simp only [holds, pathMatches, valueMatches_congr h]

theorem pathMatches_iff
    (path : String) :
    pathMatches doc path v = true ↔
      ∃ found, doc.lookup path = some found ∧ valueMatches found v = true := by
  rw [pathMatches]
  cases doc.lookup path <;> simp

/-- What is no array is met by the arrays that hold it. -/
theorem valueMatches_array
    (h : v.isArray = false) (items : List Value) :
    valueMatches (.array items) v = true ↔ ∃ item ∈ items, item.same v = true := by
  have hne : (Value.array items).same v = false := by
    cases v <;> simp_all [Value.same, Value.isArray]
  simp [valueMatches, hne, h]

/-- A value that meets another one equals it, unless it is an array and the other one is none. -/
theorem same_of_valueMatches
    (h : valueMatches v w = true) (harray : v.isArray = true → w.isArray = true) :
    v.same w = true := by
  cases v with
  | array items =>
      simpa [valueMatches, harray rfl] using h
  | _ =>
      rwa [valueMatches_of_not_isArray rfl] at h

theorem valueMatches_of_same
    (h : v.same w = true) :
    valueMatches v w = true := by
  simp [valueMatches, h]

end Filter

/-! ## Objects and what is asked of them -/

namespace Value

variable {object parts : Fields}

/-- An object has nothing that some fields do not ask for: no other field, and an array only where an
array is asked for. -/
def HasOnly (object parts : Fields) : Prop :=
  (∀ name ∈ object.map (·.1), name ∈ parts.map (·.1)) ∧
    ∀ name v w, NameMap.get? object name = some v → NameMap.get? parts name = some w →
      v.isArray = true → w.isArray = true

theorem names_of_sameFields
    (h : sameFields object parts = true) :
    object.map (·.1) = parts.map (·.1) := by
  induction object generalizing parts with
  | nil =>
      cases parts with
      | nil =>
          rfl
      | cons part parts =>
          simp [sameFields] at h
  | cons field object ih =>
      cases parts with
      | nil =>
          simp [sameFields] at h
      | cons part parts =>
          simp only [sameFields, Bool.and_eq_true, beq_iff_eq] at h
          rw [List.map_cons, List.map_cons, h.1.1, ih h.2]

/-- An object equals some fields if it meets each of them and has nothing else. -/
theorem sameFields_iff_matches
    (hobject : NameMap.Sorted object) (hparts : NameMap.Sorted parts) :
    sameFields object parts = true ↔
      (∀ part ∈ parts, ∃ found, NameMap.get? object part.1 = some found ∧
        Filter.valueMatches found part.2 = true) ∧ HasOnly object parts := by
  constructor
  · intro h
    have hnames := names_of_sameFields h
    have hsame := (sameFields_iff hobject hnames).mp h
    refine ⟨?_, fun name hname => hnames ▸ hname, fun name v w hv hw => ?_⟩
    · rintro ⟨name, w⟩ hpart
      have hname : name ∈ object.map (·.1) := hnames ▸ List.mem_map_of_mem hpart
      obtain ⟨found, hfound⟩ := Option.isSome_iff_exists.mp (NameMap.get?_isSome_iff.mpr hname)
      exact ⟨found, hfound, Filter.valueMatches_of_same
        (hsame name found w hfound (NameMap.get?_eq_some_of_mem hparts hpart))⟩
    · rw [isArray_of_same (hsame name v w hv hw)]
      exact id
  · rintro ⟨hmeets, hnames, harrays⟩
    have heq : object.map (·.1) = parts.map (·.1) := by
      refine NameMap.names_eq hobject hparts fun name => ⟨hnames name, fun hname => ?_⟩
      obtain ⟨part, hpart, rfl⟩ := List.mem_map.mp hname
      obtain ⟨found, hfound, -⟩ := hmeets part hpart
      rw [← NameMap.get?_isSome_iff, hfound]
      rfl
    rw [sameFields_iff hobject heq]
    intro name v w hv hw
    obtain ⟨found, hfound, hmatches⟩ := hmeets (name, w) (NameMap.mem_of_get?_eq_some hw)
    cases hv.symm.trans hfound
    exact Filter.same_of_valueMatches hmatches (harrays name v w hv hw)

end Value

/-! ## Equal keys -/

namespace PrimaryKey

variable {a b : PrimaryKey} {field : String} {value : Value} {parts others : Fields}
  {doc : Document}

/-- Both keys ask for the value of a field, or both for sub-fields. -/
def SameKind : PrimaryKey → PrimaryKey → Prop
  | .single _ _, .single _ _ => True
  | .composite _ _, .composite _ _ => True
  | _, _ => False

theorem allHold_parts_congr
    (field : String) (doc : Document) (h : Value.sameFields parts others = true) :
    Filter.allHold doc (parts.map fun part => .eq (Path.dotted field part.1) part.2) =
      Filter.allHold doc (others.map fun part => .eq (Path.dotted field part.1) part.2) := by
  induction parts generalizing others with
  | nil =>
      cases others with
      | nil =>
          rfl
      | cons other others =>
          simp [Value.sameFields] at h
  | cons part parts ih =>
      cases others with
      | nil =>
          simp [Value.sameFields] at h
      | cons other others =>
          simp only [Value.sameFields, Bool.and_eq_true, beq_iff_eq] at h
          simp only [List.map_cons, Filter.allHold, h.1.1, Filter.holds_eq_congr h.1.2, ih h.2]

/-- Equal keys of one kind accept the same documents. -/
theorem holds_eq_of_sameKind
    (hab : a.same b = true) (hkind : a.SameKind b) (doc : Document) :
    a.filter.holds doc = b.filter.holds doc := by
  obtain ⟨hfield, hvalue⟩ := (same_iff a b).mp hab
  cases a with
  | single field v =>
      cases b with
      | single other w =>
          obtain rfl : field = other := hfield
          exact Filter.holds_eq_congr hvalue field
      | composite other parts =>
          exact hkind.elim
  | composite field parts =>
      cases b with
      | single other w =>
          exact hkind.elim
      | composite other others =>
          obtain rfl : field = other := hfield
          exact allHold_parts_congr field doc hvalue

/-- A key of one field that asks for an object accepts the documents with an equal object there, and
those with an array that holds one. -/
theorem holds_single_iff
    (hvalue : value.same (.object parts) = true) :
    (single field value).filter.holds doc = true ↔
      (∃ object, doc.lookup field = some (.object object) ∧
        Value.sameFields object parts = true) ∨
      ∃ items, doc.lookup field = some (.array items) ∧ ∃ item ∈ items, item.same value = true := by
  have harray : value.isArray = false := by
    rw [Value.isArray_of_same hvalue]
    rfl
  rw [filter, Filter.holds, Filter.pathMatches_iff]
  constructor
  · rintro ⟨found, hfound, hmatches⟩
    cases found with
    | array items =>
        exact .inr ⟨items, hfound, (Filter.valueMatches_array harray items).mp hmatches⟩
    | object object =>
        rw [Filter.valueMatches_of_not_isArray rfl, Value.same_congr_right hvalue] at hmatches
        exact .inl ⟨object, hfound, hmatches⟩
    | _ =>
        rw [Filter.valueMatches_of_not_isArray rfl, Value.same_congr_right hvalue] at hmatches
        simp [Value.same] at hmatches
  · rintro (⟨object, hobject, hsame⟩ | ⟨items, hitems, hitem⟩)
    · refine ⟨.object object, hobject, Filter.valueMatches_of_same ?_⟩
      rwa [Value.same_congr_right hvalue]
    · exact ⟨.array items, hitems, (Filter.valueMatches_array harray items).mpr hitem⟩

/-- A composite key accepts a document with an object in its field if that meets each of the
sub-fields. -/
theorem holds_composite_iff
    (hsubs : ∀ name ∈ parts.map (·.1), Path.DotFree name) {object : Fields}
    (hobject : doc.lookup field = some (.object object)) :
    (composite field parts).filter.holds doc = true ↔
      ∀ part ∈ parts, ∃ found, NameMap.get? object part.1 = some found ∧
        Filter.valueMatches found part.2 = true := by
  simp only [filter, Filter.holds, Filter.allHold_map]
  refine forall₂_congr fun part hpart => ?_
  have hsub : Path.DotFree part.1 := hsubs part.1 (List.mem_map_of_mem hpart)
  rw [Filter.pathMatches_iff, Document.lookup_dotted_eq_bind doc field hsub, hobject,
    Option.bind_some, Value.fields_object]

/-- Equal keys of one kind accept the same documents.  Of two equal keys of different kinds, with no
points in the names of sub-fields, the single one accepts a document exactly if the composite one does
and the object in the field has nothing else, or if there is an array that holds the whole object. -/
theorem holds_of_same
    (hab : a.same b = true) :
    (a.SameKind b → ∀ doc, a.filter.holds doc = b.filter.holds doc) ∧
    ∀ field value parts, a = .single field value → b = .composite field parts →
      NameMap.Sorted parts → (∀ name ∈ parts.map (·.1), Path.DotFree name) →
      ∀ doc : Document, doc.Sorted →
        (a.filter.holds doc = true ↔
          (b.filter.holds doc = true ∧ ∃ object, doc.lookup field = some (.object object) ∧
            Value.HasOnly object parts) ∨
          ∃ items, doc.lookup field = some (.array items) ∧
            ∃ item ∈ items, item.same value = true) := by
  refine ⟨holds_eq_of_sameKind hab, ?_⟩
  rintro field value parts rfl rfl hparts hsubs doc hdoc
  have hvalue : value.same (.object parts) = true := ((same_iff _ _).mp hab).2
  rw [holds_single_iff hvalue]
  refine or_congr_left ?_
  constructor
  · rintro ⟨object, hobject, hsame⟩
    have hsorted : NameMap.Sorted object := (Value.sorted_of_descend hdoc hobject).1
    obtain ⟨hmeets, honly⟩ := (Value.sameFields_iff_matches hsorted hparts).mp hsame
    exact ⟨(holds_composite_iff hsubs hobject).mpr hmeets, object, hobject, honly⟩
  · rintro ⟨hholds, object, hobject, honly⟩
    have hsorted : NameMap.Sorted object := (Value.sorted_of_descend hdoc hobject).1
    have hmeets := (holds_composite_iff hsubs hobject).mp hholds
    exact ⟨object, hobject, (Value.sameFields_iff_matches hsorted hparts).mpr ⟨hmeets, honly⟩⟩

/-- The key of metadata with its whole identity object as one value. -/
def objectKey : PrimaryKey :=
  .single "id" (.object (Sample.metadataId "LAYER" "a"))

/-- Zero as a floating-point number with a sign. -/
def zeroKey (negative : Bool) : PrimaryKey :=
  .single "id" (.number (.float (.zero negative)))

theorem sorted_metadataId :
    NameMap.Sorted (Sample.metadataId "LAYER" "a") := by
  have hnames : ["datatype", "id"].Pairwise fun a b => a < b := by
    decide +kernel
  exact hnames

theorem sorted_metadata :
    (Sample.metadata "LAYER" "a").Sorted := by
  have hnames : ["id", "title"].Pairwise fun a b => a < b := by
    decide +kernel
  exact ⟨hnames, ⟨sorted_metadataId, trivial, trivial, trivial⟩, trivial, trivial⟩

/-- The two zeros find the same document, and both keys of metadata find it. -/
theorem holds_of_same_metadata :
    (zeroKey true).same (zeroKey false) = true ∧ (zeroKey true).SameKind (zeroKey false) ∧
      (zeroKey true).filter.holds [("id", .number (.float (.zero false)))] = true ∧
      objectKey.same (Sample.metadataKey "LAYER" "a") = true ∧
      NameMap.Sorted (Sample.metadataId "LAYER" "a") ∧
      (∀ name ∈ (Sample.metadataId "LAYER" "a").map (·.1), Path.DotFree name) ∧
      (Sample.metadata "LAYER" "a").Sorted ∧
      objectKey.filter.holds (Sample.metadata "LAYER" "a") = true := by
  have hzeros : (zeroKey true).same (zeroKey false) = true := rfl
  have hzero := (holds_of_same hzeros).1 trivial [("id", .number (.float (.zero false)))]
  have hkeys : objectKey.same (Sample.metadataKey "LAYER" "a") = true := rfl
  have hsubs : ∀ name ∈ (Sample.metadataId "LAYER" "a").map (·.1), Path.DotFree name := by
    decide
  have hiff := (holds_of_same hkeys).2 "id" _ _ rfl rfl sorted_metadataId hsubs _ sorted_metadata
  have honly : Value.HasOnly (Sample.metadataId "LAYER" "a") (Sample.metadataId "LAYER" "a") :=
    ⟨fun _ hname => hname, fun name v w hv hw => by
      rw [hv, Option.some.injEq] at hw
      rw [hw]
      exact id⟩
  exact ⟨hzeros, trivial, hzero.trans rfl, hkeys, sorted_metadataId, hsubs, sorted_metadata,
    hiff.mpr (.inl ⟨rfl, Sample.metadataId "LAYER" "a", rfl, honly⟩)⟩

/-- Metadata with a further field in its identity object. -/
def revisedMetadata : Document :=
  [("id", .object (Sample.metadataId "LAYER" "a" ++ [("rev", .null)]))]

/-- Metadata with several values in a field of its identity object. -/
def severalMetadata : Document :=
  [("id", .object [("datatype", .string "LAYER"), ("id", .array [.string "a", .string "b"])])]

/-- Metadata with its identity object in an array. -/
def listedMetadata : Document :=
  [("id", .array [.object (Sample.metadataId "LAYER" "a")])]

/-- A sub-field with a point in its name, which is no path to it. -/
def pointedFields : Fields :=
  [("a.b", .string "x")]

/-- Equal keys of different kinds, and documents that one of the two accepts alone. -/
theorem same_differ :
    objectKey.same (Sample.metadataKey "LAYER" "a") = true ∧
      objectKey.filter.holds revisedMetadata = false ∧
      (Sample.metadataKey "LAYER" "a").filter.holds revisedMetadata = true ∧
      objectKey.filter.holds severalMetadata = false ∧
      (Sample.metadataKey "LAYER" "a").filter.holds severalMetadata = true ∧
      objectKey.filter.holds listedMetadata = true ∧
      (Sample.metadataKey "LAYER" "a").filter.holds listedMetadata = false ∧
      (single "id" (.object pointedFields)).same (composite "id" pointedFields) = true ∧
      (single "id" (.object pointedFields)).filter.holds [("id", .object pointedFields)] = true ∧
      (composite "id" pointedFields).filter.holds [("id", .object pointedFields)] = false :=
  ⟨rfl, rfl, rfl, rfl, rfl, rfl, rfl, rfl, rfl, rfl⟩

end PrimaryKey

/-! ## Identities of documents -/

namespace KeySchema

open PrimaryKey (revisedMetadata)

/-- For documents with valid keys it is the same whether their keys are equal, whether the filter of
the one key accepts the other document, and whether the documents agree on the index of the
identity. -/
theorem identities_agree
    {schema : KeySchema} {a b : Document} {ka kb : PrimaryKey} (hdots : schema.DotFree)
    (ha : schema.Identifies a ka) (hb : schema.Identifies b kb) :
    (ka.filter.holds b = true ↔ ka.same kb = true) ∧
      (Collection.agree schema.indexFields a b = true ↔ ka.same kb = true) := by
  exact ⟨holds_iff hdots hb (shapes_of_extractKey ha.1), agree_iff hdots ha.1 hb.1⟩

/-- The further field is no part of the identity, of which one sub-field is declared twice. -/
theorem identities_agree_revised :
    (KeySchema.composite "id" ["id", "datatype", "id"]).DotFree ∧
      (KeySchema.composite "id" ["id", "datatype", "id"]).Identifies (Sample.metadata "LAYER" "a")
        (Sample.metadataKey "LAYER" "a") ∧
      (KeySchema.composite "id" ["id", "datatype", "id"]).Identifies revisedMetadata
        (Sample.metadataKey "LAYER" "a") ∧
      (Sample.metadataKey "LAYER" "a").filter.holds revisedMetadata = true ∧
      Collection.agree ["id.id", "id.datatype", "id.id"] (Sample.metadata "LAYER" "a")
        revisedMetadata = true := by
  have hdots : (KeySchema.composite "id" ["id", "datatype", "id"]).DotFree := by
    decide
  have hkey : (KeySchema.composite "id" ["id", "datatype", "id"]).Identifies
      (Sample.metadata "LAYER" "a") (Sample.metadataKey "LAYER" "a") := ⟨rfl, rfl⟩
  have hrevised : (KeySchema.composite "id" ["id", "datatype", "id"]).Identifies revisedMetadata
      (Sample.metadataKey "LAYER" "a") := ⟨rfl, rfl⟩
  obtain ⟨hholds, hagree⟩ := identities_agree hdots hkey hrevised
  exact ⟨hdots, hkey, hrevised, hholds.mpr (PrimaryKey.same_refl _),
    hagree.mpr (PrimaryKey.same_refl _)⟩

end KeySchema
end DocumentTables
