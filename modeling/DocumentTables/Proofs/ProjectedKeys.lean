import Mathlib.Data.List.Basic
import DocumentTables.Proofs.Projection
import DocumentTables.Proofs.TableEffects
import DocumentTables.Sample

/-!
# Keys of projected documents

A table that lists its keys asks the backend for no more of each document than its identity.  That
part has a key exactly if the document has it.

**Results.**

* `KeySchema.toOption_extractKey_project`: the key of a document's identity.
* `Table.keysOf_project`: the keys of the identities of some documents.
* `Table.selectKeys_eq_extracted`: a listing of keys has those of the full documents.
-/

namespace DocumentTables

namespace Document

/-- Nothing is left of a document on paths that lead nowhere. -/
theorem project_eq_nil
    {doc : Document} {paths : List String} (h : ∀ path ∈ paths, doc.lookup path = none) :
    doc.project paths = [] := by
  induction paths using List.reverseRecOn with
  | nil =>
      rfl
  | append_singleton paths path ih =>
      rw [project_append, h path (by simp)]
      exact ih fun path hpath => h path (by simp [hpath])

end Document

namespace KeySchema

variable {field : String} {subFields : List String} {doc : Document}

/-- The path of a sub-field leads nowhere if the field is no object. -/
theorem lookup_dotted_eq_none
    {name : String} (hfield : Path.DotFree field) (hname : Path.DotFree name)
    (h : ∀ object, NameMap.get? doc field ≠ some (.object object)) :
    doc.lookup (Path.dotted field name) = none := by
  rw [Document.lookup_dotted_eq_bind doc field hname, lookup_of_dotFree hfield]
  cases hvalue : NameMap.get? doc field with
  | none =>
      rfl
  | some value =>
      cases value with
      | object object =>
          exact absurd hvalue (h object)
      | _ =>
          rfl

/-- Of the object in a field, a projection to some sub-fields leaves these. -/
theorem get?_project
    (hfield : Path.DotFree field) (hsubs : ∀ name ∈ subFields, Path.DotFree name)
    {object : Fields} (hobject : NameMap.get? doc field = some (.object object)) :
    ∃ inner : Fields,
      (NameMap.get? (doc.project (subFields.map (Path.dotted field))) field =
          some (.object inner) ∨
        inner = [] ∧ doc.project (subFields.map (Path.dotted field)) = []) ∧
      ∀ name, NameMap.get? inner name =
        if name ∈ subFields then NameMap.get? object name else none := by
  induction subFields using List.reverseRecOn with
  | nil =>
      exact ⟨[], .inr ⟨rfl, rfl⟩, by simp⟩
  | append_singleton subs sub ih =>
      obtain ⟨inner, hinner, hvalues⟩ := ih fun name hname => hsubs name (by simp [hname])
      have hsub : Path.DotFree sub := hsubs sub (by simp)
      rw [List.map_append, List.map_singleton, Document.project_append,
        lookup_dotted hfield hsub doc hobject]
      cases hvalue : NameMap.get? object sub with
      | none =>
          refine ⟨inner, hinner, fun name => ?_⟩
          rw [hvalues name]
          by_cases hname : name = sub
          · subst hname
            simp [hvalue]
          · simp [hname]
      | some value =>
          -- the value is put into the object that the earlier ones have made
          refine ⟨NameMap.insert inner sub value, .inl ?_, fun name => ?_⟩
          · rw [Path.segments_dotted hfield hsub]
            rcases hinner with hinner | ⟨rfl, hnil⟩
            · simp [Document.insertAt, hinner, Value.fields?]
            · simp [Document.insertAt, hnil]
          · by_cases hname : name = sub
            · subst hname
              simp [hvalue]
            · rw [NameMap.get?_insert_of_ne inner value hname, hvalues name]
              simp [hname]

/-- Only the values of the declared names are extracted. -/
theorem extractParts_congr
    {object other : Fields}
    (h : ∀ name ∈ subFields, NameMap.get? object name = NameMap.get? other name) :
    extractParts field object subFields = extractParts field other subFields := by
  induction subFields with
  | nil =>
      rfl
  | cons sub subFields ih =>
      rw [extractParts, extractParts, h sub List.mem_cons_self,
        ih fun name hname => h name (List.mem_cons_of_mem sub hname)]

/-- A field with an object is left with its sub-fields, from which the same key is extracted. -/
theorem extractKey_project_object
    (hfield : Path.DotFree field) (hsubs : ∀ name ∈ subFields, Path.DotFree name)
    {object : Fields} (hobject : NameMap.get? doc field = some (.object object)) :
    ((composite field subFields).extractKey
        (doc.project (subFields.map (Path.dotted field)))).toOption =
      ((composite field subFields).extractKey doc).toOption := by
  obtain ⟨inner, hinner, hvalues⟩ := get?_project hfield hsubs hobject
  have hparts : extractParts field inner subFields = extractParts field object subFields :=
    extractParts_congr fun name hname => by simp [hvalues name, hname]
  cases subFields with
  | nil =>
      simp [extractKey, KeySchema.field, hobject, Document.project, Except.toOption]
  | cons sub subFields =>
      rcases hinner with hinner | ⟨rfl, hnil⟩
      · simp only [extractKey, KeySchema.field, hinner, hobject, hparts]
      · -- the object has no value for any of the sub-fields
        simp only [extractKey, KeySchema.field, hnil, hobject, ← hparts]
        rfl

/-- Without an object in the field there is no key. -/
theorem extractKey_composite_of_ne_object
    (h : ∀ object, NameMap.get? doc field ≠ some (.object object)) :
    ((composite field subFields).extractKey doc).toOption = none := by
  cases hkey : (composite field subFields).extractKey doc with
  | error e =>
      rfl
  | ok key =>
      obtain ⟨-, object, -, hobject, -⟩ := extractKey_composite.mp hkey
      exact absurd hobject (h object)

/-- The identity of a document has the key that the document has, if it has one. -/
theorem toOption_extractKey_project
    {schema : KeySchema} (hdots : schema.DotFree) (doc : Document) :
    (schema.extractKey (doc.project schema.indexFields)).toOption =
      (schema.extractKey doc).toOption := by
  cases schema with
  | single field =>
      have hproject : NameMap.get? (doc.project [field]) field = NameMap.get? doc field := by
        rw [← List.nil_append [field], Document.project_append, lookup_of_dotFree hdots,
          Path.segments_of_dotFree hdots]
        cases NameMap.get? doc field <;> simp [Document.insertAt, Document.project]
      simp only [indexFields, extractKey, KeySchema.field, hproject]
  | composite field subFields =>
      obtain ⟨hfield, hsubs⟩ := hdots
      by_cases hobject : ∃ object, NameMap.get? doc field = some (.object object)
      · obtain ⟨object, hobject⟩ := hobject
        exact extractKey_project_object hfield hsubs hobject
      · rw [not_exists] at hobject
        have hnil : doc.project (subFields.map (Path.dotted field)) = [] := by
          refine Document.project_eq_nil fun path hpath => ?_
          obtain ⟨name, hname, rfl⟩ := List.mem_map.mp hpath
          exact lookup_dotted_eq_none hfield (hsubs name hname) hobject
        rw [extractKey_composite_of_ne_object hobject, indexFields, hnil]
        exact extractKey_composite_of_ne_object (by simp)

end KeySchema

namespace Table

/-- A list of documents has the keys that their identities have. -/
theorem keysOf_project
    {schema : KeySchema} (hdots : schema.DotFree) (docs : List Document) :
    keysOf schema (docs.map fun doc => doc.project schema.indexFields) =
      docs.filterMap fun doc => (schema.extractKey doc).toOption := by
  rw [keysOf, List.filterMap_map]
  exact List.filterMap_congr fun doc _ => KeySchema.toOption_extractKey_project hdots doc

variable {τ : Type} {n : Network τ} {s s' : TableState (τ × MemoryBackend)} {filter : Filter}

/-- The keys of a listing are those of the documents that the filter accepts. -/
theorem selectKeys_ok
    (hdots : s.table.schema.DotFree) {keys : List PrimaryKey}
    (h : (selectKeys n.manager filter).run s = (.ok keys, s')) :
    keys = (s.connection.database.find s.table.name filter).filterMap fun doc =>
      (s.table.schema.extractKey doc).toOption := by
  rw [run_selectKeys, Network.backend_findProjected] at h
  split at h
  · next docs c hcall =>
      cases h
      rw [← (Network.execute_ask hcall).2 docs rfl]
      exact keysOf_project hdots _
  · simp at h

theorem selectKeys_of_connects
    (hconnects : n.manager.Connects s.connection) (filter : Filter) :
    ∃ keys s', (selectKeys n.manager filter).run s = (.ok keys, s') := by
  obtain ⟨c, hcall⟩ := Network.execute_ask_of_connects hconnects fun db =>
    (db.find s.table.name filter).map fun doc => Document.project doc s.table.schema.indexFields
  rw [run_selectKeys, Network.backend_findProjected, hcall]
  exact ⟨_, _, rfl⟩

/-- The identity of a document has a key exactly if the document has it.  So a listing that comes to an
answer has the keys of the full documents that the filter accepts, in their order and without those
that have none, and it comes to an answer if the network lets the attempt through. -/
theorem selectKeys_eq_extracted
    (hdots : s.table.schema.DotFree) (filter : Filter) :
    (∀ doc key, s.table.schema.extractKey (doc.project s.table.schema.indexFields) = .ok key ↔
      s.table.schema.extractKey doc = .ok key) ∧
    (∀ keys s', (selectKeys n.manager filter).run s = (.ok keys, s') →
      keys = (s.connection.database.find s.table.name filter).filterMap fun doc =>
        (s.table.schema.extractKey doc).toOption) ∧
    (n.manager.Connects s.connection → ∃ s', (selectKeys n.manager filter).run s =
      (.ok ((s.connection.database.find s.table.name filter).filterMap fun doc =>
        (s.table.schema.extractKey doc).toOption), s')) := by
  refine ⟨fun doc key => ?_, fun keys s' h => selectKeys_ok hdots h, fun hconnects => ?_⟩
  · have hsame := KeySchema.toOption_extractKey_project hdots doc
    constructor
    · intro hkey
      rw [hkey] at hsame
      exact eq_ok_of_toOption hsame.symm
    · intro hkey
      rw [hkey] at hsame
      exact eq_ok_of_toOption hsame
  · obtain ⟨keys, s', hkeys⟩ := selectKeys_of_connects hconnects filter
    rw [← selectKeys_ok hdots hkeys]
    exact ⟨s', hkeys⟩

/-- Metadata among documents that have none of the identity, only a part of it, or another value in its
place. -/
def mixedRows : List Document :=
  [[("title", .string "none")], Sample.metadata "LAYER" "a", [("id", .object [("id", .string "b")])],
    [("id", .string "flat")], Sample.metadata "DATASET" "c"]

/-- A table of metadata with these documents. -/
def mixedTable : TableState (List (Option BackendError) × MemoryBackend) where
  table := .new "rows" (.composite "id" ["datatype", "id"]) "cache" 0
  connection := .initial ([], { MemoryBackend.empty with database := [("rows", ⟨mixedRows, []⟩)] })
  files := .empty

/-- The network behind which the table stands. -/
def mixedNetwork : Network (List (Option BackendError)) :=
  .scripted ⟨2, Duration.ofSeconds 1⟩ Sample.parameters

/-- Of the documents with an identity field, those with a key are listed. -/
theorem selectKeys_eq_extracted_mixed :
    mixedTable.table.schema.DotFree ∧ mixedNetwork.manager.Connects mixedTable.connection ∧
      (∃ s', (selectKeys mixedNetwork.manager (.exists "id" true)).run mixedTable =
        (.ok [Sample.metadataKey "LAYER" "a", Sample.metadataKey "DATASET" "c"], s')) ∧
      (mixedTable.table.schema.extractKey
        ((Sample.metadata "LAYER" "a").project ["id.datatype", "id.id"])) =
          .ok (Sample.metadataKey "LAYER" "a") := by
  have hdots : mixedTable.table.schema.DotFree := by
    decide
  have hconnects : mixedNetwork.manager.Connects mixedTable.connection := ⟨_, _, _, rfl, rfl⟩
  obtain ⟨hkey, -, hlist⟩ :=
    selectKeys_eq_extracted (n := mixedNetwork) hdots (.exists "id" true)
  exact ⟨hdots, hconnects, hlist hconnects, (hkey _ _).mpr rfl⟩

end Table
end DocumentTables
