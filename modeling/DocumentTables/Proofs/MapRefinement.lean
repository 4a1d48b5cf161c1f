import Mathlib
import DocumentTables.Proofs.CollectionContents
import DocumentTables.Proofs.TableRequests

/-!
# A table is a map

To those who use it, a table that alone writes its collection is a finite map from keys to
documents.  Whatever the network does, a request that succeeds gives the answer of the map's
operation and makes the map that the operation makes, and one that fails leaves the map as it is.

The map is what the collection has for each key.  The cache shows less than the map: a document it
holds for a key is the one that the map has for that key.

**Results.**

* `TableState.Coherent.request`: one request keeps table and map together.
* `run_follows_map`: so does a run, from the table's creation on.
-/

namespace DocumentTables

namespace KeyMap

/-- The operation of the map for a request, which may be undefined: its answer and the next map. -/
def apply (schema : KeySchema) (map : KeyMap) : Request → Option (Answer × KeyMap)
  | .insert doc _ => do
      let own ← schema.validKey? doc
      if (map.find own).isSome then none
      else some (.done, map.store own doc)
  | .update doc key _ => do
      let _ ← key.validate.toOption
      let own ← schema.validKey? doc
      if (map.find key).isNone then some (.done, map)
      else if ((map.erase key).find own).isSome then none
      else some (.done, (map.erase key).store own doc)
  | .delete key => do
      let _ ← key.validate.toOption
      some (.found (map.find key), map.erase key)
  | .existsDocument key => do
      let _ ← key.validate.toOption
      some (.holds (map.find key).isSome, map)
  | .select key _ => do
      let _ ← key.validate.toOption
      some (.found (map.find key), map)
  | .clearCache => some (.done, map)
  | .setCacheStrategy _ => some (.done, map)
  | .selectKeys _ | .exists | .create | .drop => none

section Defined

variable {schema : KeySchema} {map next : KeyMap} {answer : Answer} {doc : Document}
  {key : PrimaryKey} {validate : Bool}

/-- An insertion is defined for a document whose key has none. -/
theorem of_apply_insert
    (h : map.apply schema (.insert doc validate) = some (answer, next)) :
    ∃ own, schema.validKey? doc = some own ∧ map.find own = none := by
  simp only [apply, Option.bind_eq_bind, Option.bind_eq_some_iff] at h
  obtain ⟨own, hown, h⟩ := h
  refine ⟨own, hown, ?_⟩
  cases hfind : map.find own with
  | none =>
      rfl
  | some d =>
      simp [hfind] at h

/-- An update is defined if the new document's key has none, except for the document replaced. -/
theorem of_apply_update
    (h : map.apply schema (.update doc key validate) = some (answer, next)) :
    (∃ safe, key.validate = .ok safe) ∧
      ∃ own, schema.validKey? doc = some own ∧
        (map.find key ≠ none → (map.erase key).find own = none) := by
  simp only [apply, Option.bind_eq_bind, Option.bind_eq_some_iff] at h
  obtain ⟨safe, hkey, own, hown, h⟩ := h
  refine ⟨⟨safe, eq_ok_of_toOption hkey⟩, own, hown, fun hne => ?_⟩
  cases hfind : (map.erase key).find own with
  | none =>
      rfl
  | some d =>
      simp [hne, hfind] at h

end Defined

/-- The map takes the same course as a run: it answers what the run answers, and does nothing where
the run fails. -/
inductive Follows (schema : KeySchema) (map : KeyMap) : List Event → KeyMap → Prop
  | start : Follows schema map [] map
  | answer {trace : List Event} {map₁ map₂ : KeyMap} {request : Request} {answer : Answer} :
      Follows schema map trace map₁ → map₁.apply schema request = some (answer, map₂) →
      Follows schema map (trace ++ [(request, .ok answer)]) map₂
  | failure {trace : List Event} {map₁ : KeyMap} {request : Request} {e : Error} :
      Follows schema map trace map₁ →
      Follows schema map (trace ++ [(request, .error e)]) map₁

end KeyMap

/-- The requests that a map understands: writes that validate, keys of the schema's shape, no
floating-point numbers in the keys that are written, and no cache on disk. -/
def Request.Mapped (schema : KeySchema) : Request → Prop
  | .insert doc validate => validate = true ∧ schema.FloatFree doc
  | .update doc oldKey validate =>
      validate = true ∧ schema.FloatFree doc ∧ schema.Suits oldKey
  | .delete key => schema.Suits key
  | .existsDocument key => schema.Shapes key
  | .select key _ => schema.Shapes key
  | .clearCache => True
  | .setCacheStrategy strategy => strategy ≠ .disk
  | .selectKeys _ | .exists | .create | .drop => False

namespace TableState

variable {τ : Type}

/-- The map that a table is. -/
def contents (s : TableState (τ × MemoryBackend)) : KeyMap :=
  s.collection.contents s.table.schema

/-- The collection is a map from keys, and the cache shows some of that map. -/
structure Coherent (s : TableState (τ × MemoryBackend)) : Prop where
  dots : s.table.schema.DotFree
  isVolatile : s.Volatile
  keyed : s.collection.Keyed s.table.schema
  current : s.held.Within s.contents

/-- A request has done to the map what its operation does: nothing, if it failed. -/
def Refines (s s' : TableState (τ × MemoryBackend)) (request : Request) :
    Except Error Answer → Prop
  | .ok answer => s.contents.apply s.table.schema request = some (answer, s'.contents)
  | .error _ => s'.contents = s.contents

end TableState

namespace TableState.Coherent

variable {τ : Type} {n : Network τ} {s s' : TableState (τ × MemoryBackend)} {c : Collection}
  {held : KeyMap} {key : PrimaryKey} {doc : Document} {mode : CacheMode}

/-- What is left is coherent if the new collection is a map and the cache shows some of it. -/
theorem of_leaves
    (h : s.Coherent) (hleaves : s.Leaves s' c held) (hkeyed : c.Keyed s.table.schema)
    (hcurrent : held.Within (c.contents s.table.schema)) :
    s'.Coherent ∧ s'.table.schema = s.table.schema ∧
      s'.contents = c.contents s.table.schema := by
  have hcontents : s'.contents = c.contents s.table.schema := by
    rw [TableState.contents, hleaves.collection, hleaves.schema]
  refine ⟨⟨?_, hleaves.isVolatile h.isVolatile, ?_, ?_⟩, hleaves.schema, hcontents⟩
  · rw [hleaves.schema]
    exact h.dots
  · rw [hleaves.schema, hleaves.collection]
    exact hkeyed
  · rw [hcontents, hleaves.held]
    exact hcurrent

/-- A step that leaves the collection alone, and the cache with what the map has. -/
theorem of_same
    (h : s.Coherent) (hleaves : s.Leaves s' s.collection held) (hcurrent : held.Within s.contents) :
    s'.Coherent ∧ s'.table.schema = s.table.schema ∧ s'.contents = s.contents := by
  exact h.of_leaves hleaves h.keyed hcurrent

theorem insert_refines
    (h : s.Coherent) (hfree : s.table.schema.FloatFree doc) {result : Except Error Unit}
    (hrun : (Table.insertWith n.manager doc true).run s = (result, s')) :
    s'.Coherent ∧ s'.table.schema = s.table.schema ∧
      Refines s s' (.insert doc true) (result.map fun _ => .done) := by
  cases result with
  | error e =>
      exact h.of_same (Table.insertWith_error hrun) h.current
  | ok u =>
      obtain ⟨⟨own, hown⟩, hinsert, hleaves⟩ := Table.insertWith_ok hrun
      obtain ⟨own, rfl, hdoc⟩ := KeySchema.keyToWrite_eq_ok_iff.mp hown
      obtain ⟨hkeyed, hfresh, hcontents⟩ := h.keyed.insert h.dots hdoc (hfree own hdoc.1) hinsert
      have hcurrent := h.current.store_right hfresh doc
      obtain ⟨hcoherent, hschema, hmap⟩ := h.of_leaves hleaves hkeyed (by rwa [hcontents])
      have hnext : s'.contents = s.contents.store own doc := hmap.trans hcontents
      change s.contents.find own = none at hfresh
      refine ⟨hcoherent, hschema, ?_⟩
      simp [Refines, Except.map, KeyMap.apply, KeySchema.validKey?_eq_some_iff.mpr hdoc, hfresh,
        hnext]

theorem update_refines
    (h : s.Coherent) (hfree : s.table.schema.FloatFree doc) (hsuits : s.table.schema.Suits key)
    {result : Except Error Unit}
    (hrun : (Table.updateWith n.manager doc key true).run s = (result, s')) :
    s'.Coherent ∧ s'.table.schema = s.table.schema ∧
      Refines s s' (.update doc key true) (result.map fun _ => .done) := by
  cases result with
  | error e =>
      rcases Table.updateWith_error h.isVolatile hrun with hleaves | hleaves
      · exact h.of_same hleaves h.current
      · exact h.of_same hleaves h.current.erase_left
  | ok u =>
      obtain ⟨⟨safe, hkey⟩, own, hown, hcases⟩ := Table.updateWith_ok h.isVolatile hrun
      obtain ⟨own, rfl, hdoc⟩ := KeySchema.keyToWrite_eq_ok_iff.mp hown
      have hvalid := KeySchema.validKey?_eq_some_iff.mpr hdoc
      rcases hcases with ⟨hnone, hleaves⟩ | ⟨position, hposition, hreplace, hleaves⟩
      · obtain ⟨hcoherent, hschema, hmap⟩ := h.of_same hleaves h.current.erase_left
        refine ⟨hcoherent, hschema, ?_⟩
        have hfind : s.contents.find key = none :=
          (h.keyed.position?_eq_none_iff h.dots hsuits.shapes).mp hnone
        simp [Refines, Except.map, KeyMap.apply, hkey, Except.toOption, hvalid, hfind, hmap]
      · obtain ⟨hkeyed, hfound, hfresh, hcontents⟩ :=
          h.keyed.replace h.dots hsuits hdoc (hfree own hdoc.1) hposition hreplace
        have hforgot : (s.held.erase key).Within
            ((s.contents.erase key).store own doc) :=
          h.current.erase.store_right hfresh doc
        have hcurrent : (Table.heldAfterReplace s key doc (some own)).Within
            (s'.collection.contents s.table.schema) := by
          rw [hcontents, Table.heldAfterReplace, TableState.heldWith]
          split
          · exact hforgot.store_left (KeyMap.find_store_self _ _ _)
          · exact hforgot
        obtain ⟨hcoherent, hschema, hmap⟩ := h.of_leaves hleaves hkeyed hcurrent
        have hnext : s'.contents = (s.contents.erase key).store own doc := hmap.trans hcontents
        change s.contents.find key ≠ none at hfound
        change (s.contents.erase key).find own = none at hfresh
        refine ⟨hcoherent, hschema, ?_⟩
        simp [Refines, Except.map, KeyMap.apply, hkey, Except.toOption, hvalid, hfound, hfresh,
          hnext]

theorem delete_refines
    (h : s.Coherent) (hsuits : s.table.schema.Suits key) {result : Except Error (Option Document)}
    (hrun : (Table.delete n.manager key).run s = (result, s')) :
    s'.Coherent ∧ s'.table.schema = s.table.schema ∧
      Refines s s' (.delete key) (result.map .found) := by
  cases result with
  | error e =>
      rcases Table.delete_error h.isVolatile hrun with hleaves | hleaves
      · exact h.of_same hleaves h.current
      · exact h.of_same hleaves h.current.erase_left
  | ok found =>
      obtain ⟨⟨safe, hkey⟩, hcases⟩ := Table.delete_ok h.isVolatile hrun
      rcases hcases with ⟨hnone, rfl, hleaves⟩ | ⟨position, hposition, rfl, hleaves⟩
      · obtain ⟨hcoherent, hschema, hmap⟩ := h.of_same hleaves h.current.erase_left
        refine ⟨hcoherent, hschema, ?_⟩
        have hfind : s.contents.find key = none :=
          (h.keyed.position?_eq_none_iff h.dots hsuits.shapes).mp hnone
        simp [Refines, Except.map, KeyMap.apply, hkey, Except.toOption, hfind, hmap,
          KeyMap.erase_of_find_eq_none hfind]
      · obtain ⟨hkeyed, hfound, hcontents⟩ := h.keyed.eraseIdx h.dots hsuits hposition
        obtain ⟨hcoherent, hschema, hmap⟩ := h.of_leaves hleaves hkeyed
          (by rw [hcontents]; exact h.current.erase)
        have hnext : s'.contents = s.contents.erase key := hmap.trans hcontents
        change _ = s.contents.find key at hfound
        refine ⟨hcoherent, hschema, ?_⟩
        simp [Refines, Except.map, KeyMap.apply, hkey, Except.toOption, hfound, hnext]

theorem existsDocument_refines
    (h : s.Coherent) (hshape : s.table.schema.Shapes key) {result : Except Error Bool}
    (hrun : (Table.existsDocument n.manager key).run s = (result, s')) :
    s'.Coherent ∧ s'.table.schema = s.table.schema ∧
      Refines s s' (.existsDocument key) (result.map .holds) := by
  cases result with
  | error e =>
      exact h.of_same (Table.existsDocument_error hrun) h.current
  | ok answer =>
      obtain ⟨⟨safe, hkey⟩, rfl, hleaves⟩ := Table.existsDocument_ok hrun
      obtain ⟨hcoherent, hschema, hmap⟩ := h.of_same hleaves h.current
      have hfind := h.keyed.find?_filter h.dots hshape
      change _ = s.contents.find key at hfind
      refine ⟨hcoherent, hschema, ?_⟩
      simp [Refines, Except.map, KeyMap.apply, hkey, Except.toOption, hmap, hfind]

theorem select_refines
    (h : s.Coherent) (hshape : s.table.schema.Shapes key) {result : Except Error (Option Document)}
    (hrun : (Table.selectWith n.manager key mode).run s = (result, s')) :
    s'.Coherent ∧ s'.table.schema = s.table.schema ∧
      Refines s s' (.select key mode) (result.map .found) := by
  cases result with
  | error e =>
      exact h.of_same (Table.selectWith_error h.isVolatile hrun) h.current
  | ok found =>
      obtain ⟨⟨safe, hkey⟩, hcases⟩ := Table.selectWith_ok h.isVolatile hrun
      rcases hcases with ⟨-, hne, hheld, hleaves⟩ | ⟨hfound, hleaves⟩
      · obtain ⟨hcoherent, hschema, hmap⟩ := h.of_same hleaves h.current
        refine ⟨hcoherent, hschema, ?_⟩
        obtain ⟨d, rfl⟩ := Option.ne_none_iff_exists'.mp hne
        simp [Refines, Except.map, KeyMap.apply, hkey, Except.toOption, hmap,
          h.current key d hheld]
      · rw [h.keyed.find?_filter h.dots hshape] at hfound
        change s.contents.find key = found at hfound
        have hcurrent : (Table.heldAfterFetch s key mode found).Within s.contents := by
          cases found with
          | none =>
              rw [Table.heldAfterFetch]
              split
              · exact h.current.erase_left
              · exact h.current
          | some d =>
              rw [Table.heldAfterFetch, TableState.heldWith]
              split
              · exact h.current.store_left hfound
              · exact h.current
        obtain ⟨hcoherent, hschema, hmap⟩ := h.of_same hleaves hcurrent
        refine ⟨hcoherent, hschema, ?_⟩
        simp [Refines, Except.map, KeyMap.apply, hkey, Except.toOption, hmap, hfound]

theorem setCacheStrategy_refines
    (h : s.Coherent) {strategy : CacheStrategy} (hstrategy : strategy ≠ .disk)
    {result : Except Error Unit}
    (hrun : (Table.setCacheStrategy strategy).run s = (result, s')) :
    s'.Coherent ∧ s'.table.schema = s.table.schema ∧
      Refines s s' (.setCacheStrategy strategy) (result.map fun _ => .done) := by
  obtain ⟨rfl, -, hschema, hstrategy', hcollection, hheld⟩ :=
    Table.setCacheStrategy_ok h.isVolatile hrun
  have hmap : s'.contents = s.contents := by
    rw [TableState.contents, hcollection, hschema]
    rfl
  refine ⟨⟨?_, ?_, ?_, ?_⟩, hschema, ?_⟩
  · rw [hschema]
    exact h.dots
  · rw [TableState.Volatile, Cache.Volatile, hstrategy']
    exact hstrategy
  · rw [hschema, hcollection]
    exact h.keyed
  · rw [hmap]
    rcases hheld with hheld | hheld
    · rw [hheld]
      exact h.current
    · rw [hheld]
      exact KeyMap.Within.of_empty
  · simp [Refines, Except.map, KeyMap.apply, hmap]

/-- A request keeps table and map together. -/
theorem request
    (h : s.Coherent) {request : Request} (hmapped : request.Mapped s.table.schema)
    {result : Except Error Answer}
    (hrun : (request.perform n.manager).run s = (result, s')) :
    s'.Coherent ∧ s'.table.schema = s.table.schema ∧ Refines s s' request result := by
  cases request with
  | insert doc validate =>
      obtain ⟨rfl, hfree⟩ : validate = true ∧ _ := hmapped
      obtain ⟨r, hr, rfl⟩ := TableAction.run_map_eq_iff.mp hrun
      exact h.insert_refines hfree hr
  | update doc key validate =>
      obtain ⟨rfl, hfree, hsuits⟩ : validate = true ∧ _ := hmapped
      obtain ⟨r, hr, rfl⟩ := TableAction.run_map_eq_iff.mp hrun
      exact h.update_refines hfree hsuits hr
  | delete key =>
      obtain ⟨r, hr, rfl⟩ := TableAction.run_map_eq_iff.mp hrun
      exact h.delete_refines hmapped hr
  | existsDocument key =>
      obtain ⟨r, hr, rfl⟩ := TableAction.run_map_eq_iff.mp hrun
      exact h.existsDocument_refines hmapped hr
  | select key mode =>
      obtain ⟨r, hr, rfl⟩ := TableAction.run_map_eq_iff.mp hrun
      exact h.select_refines hmapped hr
  | clearCache =>
      obtain ⟨r, hr, rfl⟩ := TableAction.run_map_eq_iff.mp hrun
      rw [Table.run_clearCache h.isVolatile] at hr
      cases hr
      obtain ⟨hcoherent, hschema, hmap⟩ :=
        h.of_same Table.clearCache_leaves KeyMap.Within.of_empty
      exact ⟨hcoherent, hschema, by simp [Refines, Except.map, KeyMap.apply, hmap]⟩
  | setCacheStrategy strategy =>
      obtain ⟨r, hr, rfl⟩ := TableAction.run_map_eq_iff.mp hrun
      exact h.setCacheStrategy_refines hmapped hr
  | selectKeys filter =>
      exact hmapped.elim
  | «exists» =>
      exact hmapped.elim
  | create =>
      exact hmapped.elim
  | drop =>
      exact hmapped.elim

/-- Where the operation of the map is defined, the request succeeds, if the network lets its first
attempt through and the identity is the only index. -/
theorem exists_answer
    (h : s.Coherent) {request : Request} (hmapped : request.Mapped s.table.schema)
    (hconnects : n.manager.Connects s.connection)
    (hindexes : ∀ index ∈ s.collection.uniqueIndexes, index = s.table.schema.indexFields)
    {answer : Answer} {map : KeyMap}
    (happly : s.contents.apply s.table.schema request = some (answer, map)) :
    ∃ answer s', (request.perform n.manager).run s = (.ok answer, s') := by
  have hmap :
      ∀ {α : Type} {f : α → Answer} {operation : TableAction (τ × MemoryBackend) α},
        (∃ a s', operation.run s = (.ok a, s')) →
          ∃ answer s', (f <$> operation).run s = (.ok answer, s') := by
    rintro α f operation ⟨a, s', hrun⟩
    exact ⟨f a, s', TableAction.run_map_eq_iff.mpr ⟨_, hrun, rfl⟩⟩
  cases request with
  | insert doc validate =>
      obtain ⟨rfl, -⟩ : validate = true ∧ _ := hmapped
      obtain ⟨own, hown, hfresh⟩ := KeyMap.of_apply_insert happly
      have hdoc := KeySchema.validKey?_eq_some_iff.mp hown
      obtain ⟨c, hinsert⟩ := h.keyed.exists_insert h.dots hdoc hindexes hfresh
      obtain ⟨s', hrun⟩ := Table.insertWith_of_connects hconnects
        (KeySchema.keyToWrite_eq_ok_iff.mpr ⟨own, rfl, hdoc⟩) hinsert
      exact hmap ⟨(), s', hrun⟩
  | update doc key validate =>
      obtain ⟨rfl, -, hsuits⟩ : validate = true ∧ _ := hmapped
      obtain ⟨⟨safe, hkey⟩, own, hown, hfresh⟩ := KeyMap.of_apply_update happly
      have hdoc := KeySchema.validKey?_eq_some_iff.mp hown
      have hreplace : ∀ position, s.collection.position? key.filter = some position →
          ∃ c, s.collection.replace position doc = .ok c := by
        intro position hposition
        have hne : s.contents.find key ≠ none := by
          intro hnone
          rw [(h.keyed.position?_eq_none_iff h.dots hsuits.shapes).mpr hnone] at hposition
          simp at hposition
        exact h.keyed.exists_replace h.dots hsuits hdoc hindexes hposition (hfresh hne)
      obtain ⟨s', hrun⟩ := Table.updateWith_of_connects h.isVolatile hconnects hkey
        (KeySchema.keyToWrite_eq_ok_iff.mpr ⟨own, rfl, hdoc⟩) hreplace
      exact hmap ⟨(), s', hrun⟩
  | delete key =>
      simp only [KeyMap.apply, Option.bind_eq_bind, Option.bind_eq_some_iff] at happly
      obtain ⟨safe, hkey, -⟩ := happly
      exact hmap (Table.delete_of_connects h.isVolatile hconnects
        (eq_ok_of_toOption hkey))
  | existsDocument key =>
      simp only [KeyMap.apply, Option.bind_eq_bind, Option.bind_eq_some_iff] at happly
      obtain ⟨safe, hkey, -⟩ := happly
      exact hmap (Table.existsDocument_of_connects hconnects
        (eq_ok_of_toOption hkey))
  | select key mode =>
      simp only [KeyMap.apply, Option.bind_eq_bind, Option.bind_eq_some_iff] at happly
      obtain ⟨safe, hkey, -⟩ := happly
      exact hmap (Table.selectWith_of_connects hconnects
        (eq_ok_of_toOption hkey))
  | clearCache =>
      exact hmap ⟨(), _, Table.run_clearCache h.isVolatile⟩
  | setCacheStrategy strategy =>
      refine hmap ⟨(), ((Table.setCacheStrategy strategy).run s).2, ?_⟩
      exact Prod.ext (Table.setCacheStrategy_ok h.isVolatile rfl).1 rfl
  | selectKeys filter =>
      exact hmapped.elim
  | «exists» =>
      exact hmapped.elim
  | create =>
      exact hmapped.elim
  | drop =>
      exact hmapped.elim

/-- A new collection with its index is the empty map. -/
theorem of_create
    (hdots : s.table.schema.DotFree) (hs : s.Volatile) (hheld : s.held = .empty)
    (hempty : s.collection.documents = [])
    (hcreate : (Table.create n.manager).run s = (.ok (), s')) :
    s'.Coherent ∧ s'.table.schema = s.table.schema ∧ s'.contents = .empty := by
  have hleaves := Table.create_ok hcreate
  have hdocuments : (s.collection.addIndex s.table.schema.indexFields).documents = [] := by
    rw [Collection.addIndex]
    split <;> exact hempty
  have hcontents : s'.contents = .empty := by
    ext k : 2
    change s'.collection.documents.find? _ = none
    rw [hleaves.collection, hdocuments]
    rfl
  refine ⟨⟨?_, hleaves.isVolatile hs, ⟨?_, ?_, ?_⟩, ?_⟩, hleaves.schema, hcontents⟩
  · rw [hleaves.schema]
    exact hdots
  · rw [hleaves.collection, hleaves.schema, Collection.addIndex]
    split <;> simp_all
  · rw [hleaves.collection, hdocuments]
    simp
  · rw [hleaves.collection, hdocuments]
    exact List.Pairwise.nil
  · rw [hleaves.held, hheld]
    exact KeyMap.Within.of_empty

/-- A run keeps table and map together. -/
theorem run
    (h : s.Coherent) {trace : List Event}
    (hrun : Run n (fun _ => Request.Mapped s.table.schema) s trace s') :
    s'.Coherent ∧ s'.table.schema = s.table.schema ∧
      KeyMap.Follows s.table.schema s.contents trace s'.contents := by
  induction hrun with
  | start =>
      exact ⟨h, rfl, .start⟩
  | elsewhere _ htable hcollection ih =>
      -- neither the collection nor what the cache holds changes, so the map is the same
      obtain ⟨hcoherent, hschema, hfollows⟩ := ih
      obtain ⟨hnext, hschema', hmap⟩ :=
        hcoherent.of_same (TableState.leaves_of_elsewhere htable hcollection) hcoherent.current
      refine ⟨hnext, hschema'.trans hschema, ?_⟩
      rw [hmap]
      exact hfollows
  | @request trace s₁ s₂ request result _ hmapped hperform ih =>
      obtain ⟨hcoherent, hschema, hfollows⟩ := ih
      rw [← hschema] at hmapped
      obtain ⟨hnext, hschema', hrefines⟩ := hcoherent.request hmapped hperform
      refine ⟨hnext, hschema'.trans hschema, ?_⟩
      cases result with
      | ok answer =>
          rw [Refines, hschema] at hrefines
          exact .answer hfollows hrefines
      | error e =>
          rw [Refines] at hrefines
          rw [hrefines]
          exact .failure hfollows

end TableState.Coherent

/-- A table that alone writes its collection is a map from keys to documents, from its creation on
and whatever the network does.  The map takes the same course as the run; it is finite; the
backend finds for a key what the map has; and the cache holds nothing else.  A request for which
the map's operation is defined is answered, as the operation answers, if the network lets its
first attempt through and the identity is the only index. -/
theorem run_follows_map
    {τ : Type} {n : Network τ} {s₀ s₁ s : TableState (τ × MemoryBackend)} {trace : List Event}
    (hdots : s₀.table.schema.DotFree) (hvolatile : s₀.Volatile) (hheld : s₀.held = .empty)
    (hempty : s₀.collection.documents = [])
    (hcreate : (Table.create n.manager).run s₀ = (.ok (), s₁))
    (hrun : Run n (fun _ => Request.Mapped s₀.table.schema) s₁ trace s) :
    ∃ map : KeyMap,
      KeyMap.Follows s₀.table.schema .empty trace map ∧ map.Finite ∧
      (∀ key, s₀.table.schema.Shapes key →
        s.connection.database.findOne s.table.name key.filter = map.find key) ∧
      s.held.Within map ∧
      ∀ request, request.Mapped s₀.table.schema → n.manager.Connects s.connection →
        (∀ index ∈ s.collection.uniqueIndexes, index = s₀.table.schema.indexFields) →
        ∀ answer next, map.apply s₀.table.schema request = some (answer, next) →
          ∃ s', (request.perform n.manager).run s = (.ok answer, s') := by
  obtain ⟨hcoherent₁, hschema₁, hcontents₁⟩ :=
    TableState.Coherent.of_create hdots hvolatile hheld hempty hcreate
  rw [← hschema₁] at hrun ⊢
  obtain ⟨hcoherent, hschema, hfollows⟩ := hcoherent₁.run hrun
  rw [hcontents₁] at hfollows
  rw [← hschema] at hfollows ⊢
  refine ⟨s.contents, hfollows, Collection.contents_finite _ _, ?_, hcoherent.current, ?_⟩
  · intro key hshape
    exact hcoherent.keyed.find?_filter hcoherent.dots hshape
  · intro request hmapped hconnects hindexes answer next happly
    obtain ⟨answer', s', hperform⟩ :=
      hcoherent.exists_answer hmapped hconnects hindexes happly
    have hrefines := (hcoherent.request hmapped hperform).2.2
    rw [TableState.Refines, happly] at hrefines
    cases hrefines
    exact ⟨s', hperform⟩

/-- A table of layers whose fourth attempt to connect is refused. -/
def refusedLayers : TableState (List (Option BackendError) × MemoryBackend) :=
  Sample.layers [none, none, none, some (.transient "restart")]

/-- The table after its creation. -/
def layersCreated : TableState (List (Option BackendError) × MemoryBackend) :=
  ((Table.create Sample.network.manager).run refusedLayers).2

/-- A layer is added and looked up, and gets another key, at the second request for that. -/
def layerRequests : List Request :=
  [.insert (Sample.layer "a" true) true, .select (Sample.singleKey "a") .use,
    .update (Sample.layer "b" true) (Sample.singleKey "a") true,
    .select (Sample.singleKey "a") .use,
    .update (Sample.layer "b" true) (Sample.singleKey "a") true,
    .select (Sample.singleKey "a") .use, .select (Sample.singleKey "b") .use]

/-- The failed update changes nothing, and the later one moves the layer to its new key. -/
theorem run_follows_map_layers :
    refusedLayers.table.schema.DotFree ∧ refusedLayers.Volatile ∧ refusedLayers.held = .empty ∧
    refusedLayers.collection.documents = [] ∧
    (Table.create Sample.network.manager).run refusedLayers = (.ok (), layersCreated) ∧
    (∀ request ∈ layerRequests, request.Mapped refusedLayers.table.schema) ∧
    (Request.performAll Sample.network.manager layerRequests layersCreated).1.map (·.2) =
      [.ok .done, .ok (.found (some (Sample.layer "a" true))),
        .error (.retriesExhausted 1 (.transient "restart")),
        .ok (.found (some (Sample.layer "a" true))), .ok .done, .ok (.found none),
        .ok (.found (some (Sample.layer "b" true)))] ∧
    ∃ map : KeyMap,
      KeyMap.Follows refusedLayers.table.schema .empty
        (Request.performAll Sample.network.manager layerRequests layersCreated).1 map ∧
      map.Finite ∧ map.find (Sample.singleKey "a") = none ∧
      map.find (Sample.singleKey "b") = some (Sample.layer "b" true) := by
  have hdots : refusedLayers.table.schema.DotFree := by decide
  have hvolatile : refusedLayers.Volatile := Sample.isVolatile_layers _
  have hheld : refusedLayers.held = .empty := Sample.held_layers _
  have hcreate :
      (Table.create Sample.network.manager).run refusedLayers = (.ok (), layersCreated) := by
    rfl
  have hmapped : ∀ request ∈ layerRequests, request.Mapped refusedLayers.table.schema := by
    simp [layerRequests, Request.Mapped, refusedLayers, Sample.layers, Table.withCache, Table.new,
      Sample.floatFree_layer, Sample.suits_singleKey, (Sample.suits_singleKey _).shapes]
  obtain ⟨map, hfollows, hfinite, hfind, -, -⟩ :=
    run_follows_map hdots hvolatile hheld rfl hcreate
      (Run.start.performAll fun request hrequest _ => hmapped request hrequest)
  refine ⟨hdots, hvolatile, hheld, rfl, hcreate, hmapped, ?_, map, hfollows, hfinite, ?_, ?_⟩
  · cbv
  · rw [← hfind (Sample.singleKey "a") rfl]
    cbv
  · rw [← hfind (Sample.singleKey "b") rfl]
    cbv

end DocumentTables
