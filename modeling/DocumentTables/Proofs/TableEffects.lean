import DocumentTables.Proofs.KeyIdentity
import DocumentTables.Proofs.Network
import DocumentTables.Proofs.TableRuns

/-!
# What the operations of a table do

Over a network, an operation of a table works on two things: the table's collection and what its
cache holds.  Each operation is described by what it answers and what it makes of the two.  A
failed operation leaves the collection as it is, and the cache with what it held or without the
key.

**Results.**

* `Table.existsDocument_ok`, `Table.selectWith_ok`, `Table.insertWith_ok`, `Table.updateWith_ok`,
  `Table.delete_ok`: operations that succeed.
* `Table.existsDocument_error`, `Table.selectWith_error`, `Table.insertWith_error`,
  `Table.updateWith_error`, `Table.delete_error`: operations that fail.
-/

namespace DocumentTables

theorem eq_ok_of_toOption {ε α : Type} {x : Except ε α} {a : α}
    (h : x.toOption = some a) :
    x = .ok a := by
  cases x with
  | error e =>
      simp [Except.toOption] at h
  | ok b =>
      simp only [Except.toOption, Option.some.injEq] at h
      rw [h]

namespace KeySchema

variable {schema : KeySchema} {doc : Document}

/-- The valid key of a document, if it has one. -/
def validKey? (schema : KeySchema) (doc : Document) : Option PrimaryKey :=
  match Table.keyToWrite schema doc true with
  | .ok own => own
  | .error _ => none

theorem keyToWrite_eq_ok_iff {own : Option PrimaryKey} :
    Table.keyToWrite schema doc true = .ok own ↔
      ∃ key, own = some key ∧ schema.Identifies doc key := by
  rw [Table.keyToWrite]
  constructor
  · intro h
    cases hextract : schema.extractKey doc with
    | error e =>
        simp [hextract] at h
    | ok key =>
        cases hvalid : key.ensureValid with
        | error e =>
            simp [hextract, hvalid, Except.map] at h
        | ok u =>
            simp only [hextract, hvalid, Except.map, if_true, Except.ok.injEq] at h
            exact ⟨key, h.symm, hextract, hvalid⟩
  · rintro ⟨key, rfl, hextract, hvalid⟩
    simp [hextract, hvalid, Except.map]

theorem validKey?_eq_some_iff {key : PrimaryKey} :
    schema.validKey? doc = some key ↔ schema.Identifies doc key := by
  rw [validKey?]
  constructor
  · intro h
    split at h
    · next hown =>
        obtain ⟨own, rfl, hidentifies⟩ := keyToWrite_eq_ok_iff.mp hown
        cases h
        exact hidentifies
    · simp at h
  · intro h
    rw [keyToWrite_eq_ok_iff.mpr ⟨key, rfl, h⟩]

/-- The key that a write works with is that of the document. -/
theorem toOption_extractKey_of_keyToWrite
    {validate : Bool} {own : Option PrimaryKey}
    (h : Table.keyToWrite schema doc validate = .ok own) :
    (schema.extractKey doc).toOption = own := by
  rw [Table.keyToWrite] at h
  cases hkey : schema.extractKey doc with
  | error e =>
      cases validate <;> simp_all [Except.toOption]
  | ok key =>
      cases validate with
      | false =>
          simp_all [Except.toOption]
      | true =>
          cases hvalid : key.ensureValid <;> simp_all [Except.toOption, Except.map]

end KeySchema

namespace Database

variable {db db' : Database} {name : String} {doc : Document} {filter : Filter}

@[simp] theorem collection_insert
    (db : Database) (name : String) (c : Collection) :
    collection (NameMap.insert db name c) name = c := by
  simp [collection]

@[simp] theorem collection_createCollection
    (db : Database) (name : String) :
    collection (db.createCollection name) name = collection db name := by
  simp [createCollection]

@[simp] theorem collection_createUniqueIndex
    (db : Database) (name : String) (index : List String) :
    collection (db.createUniqueIndex name index) name = (collection db name).addIndex index := by
  simp [createUniqueIndex]

@[simp] theorem collection_dropCollection
    (db : Database) (name : String) :
    collection (db.dropCollection name) name = .empty := by
  have : NameMap.get? (NameMap.erase db name) name = none := by
    rw [← Option.not_isSome_iff_eq_none, NameMap.get?_isSome_iff]
    simp [NameMap.erase]
  simp [collection, dropCollection, this]

theorem collection_of_insertOne
    (h : db.insertOne name doc = .ok db') :
    (collection db name).insert doc = .ok (collection db' name) := by
  rw [insertOne] at h
  cases hinsert : (collection db name).insert doc with
  | error e =>
      simp [hinsert, duplicateKey, Except.map] at h
  | ok c =>
      simp only [hinsert, duplicateKey, Except.map, Except.ok.injEq] at h
      simp [← h]

theorem exists_insertOne
    {c : Collection} (h : (collection db name).insert doc = .ok c) :
    ∃ db', db.insertOne name doc = .ok db' := by
  exact ⟨NameMap.insert db name c, by simp [insertOne, h, duplicateKey, Except.map]⟩

theorem collection_of_replaceOne
    {matched : Bool} (h : db.replaceOne name filter doc = .ok (matched, db')) :
    (matched = false ∧ (collection db name).position? filter = none ∧
        collection db' name = collection db name) ∨
      (matched = true ∧ ∃ position, (collection db name).position? filter = some position ∧
        (collection db name).replace position doc = .ok (collection db' name)) := by
  rw [replaceOne] at h
  cases hposition : (collection db name).position? filter with
  | none =>
      simp only [hposition, Except.ok.injEq, Prod.mk.injEq] at h
      obtain ⟨rfl, rfl⟩ := h
      exact .inl ⟨rfl, rfl, rfl⟩
  | some position =>
      cases hreplace : (collection db name).replace position doc with
      | error e =>
          simp [hposition, hreplace, duplicateKey, Except.map] at h
      | ok c =>
          simp only [hposition, hreplace, duplicateKey, Except.map, Except.ok.injEq,
            Prod.mk.injEq] at h
          obtain ⟨rfl, rfl⟩ := h
          exact .inr ⟨rfl, position, rfl, by simp [hreplace]⟩

theorem exists_replaceOne
    (h : ∀ position, (collection db name).position? filter = some position →
      ∃ c, (collection db name).replace position doc = .ok c) :
    ∃ matched db', db.replaceOne name filter doc = .ok (matched, db') := by
  rw [replaceOne]
  cases hposition : (collection db name).position? filter with
  | none =>
      exact ⟨false, db, rfl⟩
  | some position =>
      obtain ⟨c, hc⟩ := h position hposition
      exact ⟨true, NameMap.insert db name c, by simp [hc, duplicateKey, Except.map]⟩

theorem collection_findOneAndDelete
    (db : Database) (name : String) (filter : Filter) :
    ((collection db name).position? filter = none ∧
        (db.findOneAndDelete name filter).1 = none ∧
        collection (db.findOneAndDelete name filter).2 name = collection db name) ∨
      ∃ position, (collection db name).position? filter = some position ∧
        (db.findOneAndDelete name filter).1 = (collection db name).documents[position]? ∧
        collection (db.findOneAndDelete name filter).2 name =
          ⟨(collection db name).documents.eraseIdx position,
            (collection db name).uniqueIndexes⟩ := by
  rw [findOneAndDelete]
  cases hposition : (collection db name).position? filter with
  | none =>
      exact .inl ⟨rfl, rfl, rfl⟩
  | some position =>
      exact .inr ⟨position, rfl, by simp, by simp⟩

end Database

namespace TableState

variable {τ : Type}

/-- The collection of the table. -/
def collection (s : TableState (τ × MemoryBackend)) : Collection :=
  s.connection.database.collection s.table.name

/-- What is held after a document was held, which only a store in memory does. -/
def heldWith {σ : Type} (s : TableState σ) (held : KeyMap) (key : PrimaryKey) (doc : Document) :
    KeyMap :=
  if s.table.cache.strategy = .memory then held.store key doc else held

/-- The same table with the same strategy is left, with the given collection and what its cache
holds. -/
structure Leaves (s s' : TableState (τ × MemoryBackend)) (c : Collection) (held : KeyMap) :
    Prop where
  name : s'.table.name = s.table.name
  schema : s'.table.schema = s.table.schema
  strategy : s'.table.cache.strategy = s.table.cache.strategy
  collection : s'.collection = c
  held : s'.held = held

variable {s s' : TableState (τ × MemoryBackend)} {c : Collection} {held : KeyMap} {key : PrimaryKey}

theorem leaves_self :
    s.Leaves s s.collection s.held := by
  exact ⟨rfl, rfl, rfl, rfl, rfl⟩

/-- What happens elsewhere leaves the table and its collection alone. -/
theorem leaves_of_elsewhere
    (htable : s'.table = s.table) (hcollection : s'.collection = s.collection) :
    s.Leaves s' s.collection s.held := by
  refine ⟨?_, ?_, ?_, hcollection, ?_⟩
  · rw [htable]
  · rw [htable]
  · rw [htable]
  · rw [TableState.held, TableState.held, htable]

namespace Leaves

theorem trans
    {s'' : TableState (τ × MemoryBackend)} {c' : Collection} {held' : KeyMap}
    (h : s.Leaves s' c held) (h' : s'.Leaves s'' c' held') :
    s.Leaves s'' c' held' := by
  exact ⟨h'.name.trans h.name, h'.schema.trans h.schema, h'.strategy.trans h.strategy,
    h'.collection, h'.held⟩

theorem asking
    (h : s.Leaves s' c held) :
    s.Leaves (s'.asking key) c held := by
  exact ⟨h.name, h.schema, by simpa [TableState.asking, stepped] using h.strategy, h.collection,
    by simpa [TableState.asking, stepped, TableState.held] using h.held⟩

theorem forgetting
    (h : s.Leaves s' c held) :
    s.Leaves (s'.forgetting key) c (held.erase key) := by
  exact ⟨h.name, h.schema, by simpa [TableState.forgetting, stepped] using h.strategy, h.collection,
    by rw [← h.held]; exact Cache.held_remove⟩

theorem holding
    (h : s.Leaves s' c held) (hs : s'.Volatile) (doc : Document) :
    s.Leaves (s'.holding key doc) c (s.heldWith held key doc) := by
  refine ⟨h.name, h.schema, ?_, h.collection, ?_⟩
  · simpa [TableState.holding, stepped] using h.strategy
  · rw [heldWith, ← h.held, ← h.strategy]
    exact Cache.held_put hs

theorem clearing
    (h : s.Leaves s' c held) :
    s.Leaves s'.clearing c .empty := by
  exact ⟨h.name, h.schema, by simpa [TableState.clearing, stepped] using h.strategy, h.collection,
    Cache.held_clear⟩

theorem calling
    (h : s.Leaves s' c held) {connection : ConnectionState (τ × MemoryBackend)} {c' : Collection}
    (hc : connection.database.collection s.table.name = c') :
    s.Leaves (s'.calling connection) c' held := by
  refine ⟨h.name, h.schema, h.strategy, ?_, h.held⟩
  rw [← hc, ← h.name]
  rfl

theorem isVolatile
    (h : s.Leaves s' c held) (hs : s.Volatile) :
    s'.Volatile := by
  simp only [Volatile, Cache.Volatile] at hs ⊢
  rwa [h.strategy]

end Leaves
end TableState

namespace Table

open Network

variable {τ α : Type} {n : Network τ} {s s' : TableState (τ × MemoryBackend)} {key : PrimaryKey}
  {doc : Document} {validate : Bool} {mode : CacheMode}

/-! ## Questions -/

theorem existsDocument_ok
    {answer : Bool} (h : (existsDocument n.manager key).run s = (.ok answer, s')) :
    (∃ safe, key.validate = .ok safe) ∧
      answer = (s.collection.documents.find? fun doc => key.filter.holds doc).isSome ∧
      s.Leaves s' s.collection s.held := by
  rw [run_existsDocument, backend_count] at h
  split at h
  · simp at h
  · next safe hkey =>
      split at h
      · next count c hcall =>
          obtain ⟨hdb, hcount⟩ := execute_ask hcall
          cases h
          refine ⟨⟨safe, hkey⟩, ?_, TableState.leaves_self.calling (by rw [hdb]; rfl)⟩
          rw [← hcount count rfl, Bool.eq_iff_iff, decide_eq_true_iff,
            List.length_pos_iff_exists_mem,
            List.find?_isSome]
          simp only [Database.find, List.mem_filter]
          rfl
      · simp at h

theorem existsDocument_error
    {e : Error} (h : (existsDocument n.manager key).run s = (.error e, s')) :
    s.Leaves s' s.collection s.held := by
  rw [run_existsDocument, backend_count] at h
  split at h
  · cases h
    exact TableState.leaves_self
  · split at h
    · simp at h
    · next hcall =>
        cases h
        exact TableState.leaves_self.calling (by rw [(execute_ask hcall).1]; rfl)

/-- What the cache holds after a look-up that asks the backend. -/
def heldAfterFetch {σ : Type} (s : TableState σ) (key : PrimaryKey) (mode : CacheMode) :
    Option Document → KeyMap
  | some doc => s.heldWith s.held key doc
  | none => if mode = .bypass then s.held.erase key else s.held

theorem heldAfterFetch_of_leaves
    {c : Collection} (h : s.Leaves s' c s.held) :
    heldAfterFetch s' key mode = heldAfterFetch s key mode := by
  funext found
  cases found <;> simp [heldAfterFetch, TableState.heldWith, h.held, h.strategy]

theorem fetch_ok
    (hs : s.Volatile) {found : Option Document}
    (h : (fetch n.manager key key.filter mode).run s = (.ok found, s')) :
    (s.collection.documents.find? fun doc => key.filter.holds doc) = found ∧
      s.Leaves s' s.collection (heldAfterFetch s key mode found) := by
  rw [run_fetch, backend_findOne] at h
  split at h
  · next doc c hcall =>
      obtain ⟨hdb, hfound⟩ := execute_ask hcall
      have hcalled : s.Leaves (s.calling c) s.collection s.held :=
        TableState.leaves_self.calling (by rw [hdb]; rfl)
      cases h
      exact ⟨hfound _ rfl, hcalled.holding hs doc⟩
  · next c hcall =>
      obtain ⟨hdb, hfound⟩ := execute_ask hcall
      have hcalled : s.Leaves (s.calling c) s.collection s.held :=
        TableState.leaves_self.calling (by rw [hdb]; rfl)
      cases h
      refine ⟨hfound _ rfl, ?_⟩
      rw [heldAfterFetch]
      split
      · exact hcalled.forgetting
      · exact hcalled
  · simp at h

theorem fetch_error
    {e : Error} (h : (fetch n.manager key key.filter mode).run s = (.error e, s')) :
    s.Leaves s' s.collection s.held := by
  rw [run_fetch, backend_findOne] at h
  split at h
  · simp at h
  · simp at h
  · next hcall =>
      cases h
      exact TableState.leaves_self.calling (by rw [(execute_ask hcall).1]; rfl)

/-- A look-up answers with what the cache holds, or with the first document that the backend has. -/
theorem selectWith_ok
    (hs : s.Volatile) {found : Option Document}
    (h : (selectWith n.manager key mode).run s = (.ok found, s')) :
    (∃ safe, key.validate = .ok safe) ∧
      ((mode = .use ∧ found ≠ none ∧ s.held.find key = found ∧ s.Leaves s' s.collection s.held) ∨
        ((s.collection.documents.find? fun doc => key.filter.holds doc) = found ∧
          s.Leaves s' s.collection (heldAfterFetch s key mode found))) := by
  rw [run_selectWith hs] at h
  split at h
  · simp at h
  · next safe hkey =>
      refine ⟨⟨safe, hkey⟩, ?_⟩
      split at h
      · next hmode =>
          split at h
          · next doc hheld =>
              cases h
              exact .inl ⟨hmode, by simp, hheld, TableState.leaves_self.asking⟩
          · have hasked : s.Leaves (s.asking key) s.collection s.held :=
              TableState.leaves_self.asking
            obtain ⟨hfound, hleaves⟩ := fetch_ok (hasked.isVolatile hs) h
            rw [heldAfterFetch_of_leaves hasked] at hleaves
            exact .inr ⟨hfound, hasked.trans hleaves⟩
      · exact .inr (fetch_ok hs h)

theorem selectWith_error
    (hs : s.Volatile) {e : Error}
    (h : (selectWith n.manager key mode).run s = (.error e, s')) :
    s.Leaves s' s.collection s.held := by
  rw [run_selectWith hs] at h
  split at h
  · cases h
    exact TableState.leaves_self
  · split at h
    · split at h
      · simp at h
      · have hasked : s.Leaves (s.asking key) s.collection s.held :=
          TableState.leaves_self.asking
        have hleaves := fetch_error h
        rw [hasked.held] at hleaves
        exact hasked.trans hleaves
    · exact fetch_error h

/-! ## Writes -/

theorem insertWith_ok
    (h : (insertWith n.manager doc validate).run s = (.ok (), s')) :
    (∃ own, keyToWrite s.table.schema doc validate = .ok own) ∧
      s.collection.insert doc = .ok s'.collection ∧ s.Leaves s' s'.collection s.held := by
  rw [run_insertWith, backend_insertOne] at h
  split at h
  · simp at h
  · next own hown =>
      rw [run_execute] at h
      obtain ⟨hcall, rfl⟩ := Prod.mk.inj h
      have happlies := execute_applies (Prod.ext hcall rfl)
      rw [applies_ok_iff] at happlies
      cases hinsert : s.connection.database.insertOne s.table.name doc with
      | error e =>
          simp [hinsert, Except.map] at happlies
      | ok db =>
          simp only [hinsert, Except.map, Except.ok.injEq, Prod.mk.injEq, true_and] at happlies
          have hcollection := Database.collection_of_insertOne hinsert
          rw [happlies] at hcollection
          exact ⟨⟨own, hown⟩, hcollection, TableState.leaves_self.calling rfl⟩

theorem insertWith_error
    {e : Error} (h : (insertWith n.manager doc validate).run s = (.error e, s')) :
    s.Leaves s' s.collection s.held := by
  rw [run_insertWith, backend_insertOne] at h
  split at h
  · cases h
    exact TableState.leaves_self
  · rw [run_execute] at h
    obtain ⟨hcall, rfl⟩ := Prod.mk.inj h
    have happlies := execute_applies (Prod.ext hcall rfl)
    rw [applies_error_iff] at happlies
    exact TableState.leaves_self.calling (by rw [happlies]; rfl)

/-- What the cache holds after an update that replaced a document. -/
def heldAfterReplace {σ : Type} (s : TableState σ) (key : PrimaryKey) (doc : Document) :
    Option PrimaryKey → KeyMap
  | some own => s.heldWith (s.held.erase key) own doc
  | none => s.held.erase key

/-- An update finds no document and only forgets the old key, or puts the new document in the
place of the first one that it finds. -/
theorem updateWith_ok
    (hs : s.Volatile) (h : (updateWith n.manager doc key validate).run s = (.ok (), s')) :
    (∃ safe, key.validate = .ok safe) ∧
      ∃ own, keyToWrite s.table.schema doc validate = .ok own ∧
        ((s.collection.position? key.filter = none ∧
            s.Leaves s' s.collection (s.held.erase key)) ∨
          ∃ position, s.collection.position? key.filter = some position ∧
            s.collection.replace position doc = .ok s'.collection ∧
            s.Leaves s' s'.collection (heldAfterReplace s key doc own)) := by
  rw [run_updateWith hs, backend_replaceOne] at h
  split at h
  · simp at h
  · next safe hkey =>
      refine ⟨⟨safe, hkey⟩, ?_⟩
      split at h
      · simp at h
      · next own hown =>
          refine ⟨own, hown, ?_⟩
          split at h
          · next matched c hcall =>
              have happlies := applies_ok_iff.mp (execute_applies hcall)
              have hcalled : s.Leaves ((s.forgetting key).calling c)
                  (c.database.collection s.table.name) (s.held.erase key) :=
                TableState.leaves_self.forgetting.calling rfl
              rcases Database.collection_of_replaceOne happlies with
                ⟨rfl, hnone, hsame⟩ | ⟨rfl, position, hposition, hreplace⟩
              · cases h
                rw [hsame] at hcalled
                exact .inl ⟨hnone, hcalled⟩
              · refine .inr ⟨position, hposition, ?_⟩
                cases own with
                | none =>
                    cases h
                    exact ⟨hreplace, hcalled⟩
                | some own =>
                    cases h
                    exact ⟨hreplace, hcalled.holding (hcalled.isVolatile hs) doc⟩
          · simp at h

/-- A failed update leaves the cache as it was or without the old key. -/
theorem updateWith_error
    (hs : s.Volatile) {e : Error}
    (h : (updateWith n.manager doc key validate).run s = (.error e, s')) :
    s.Leaves s' s.collection s.held ∨ s.Leaves s' s.collection (s.held.erase key) := by
  rw [run_updateWith hs, backend_replaceOne] at h
  split at h
  · cases h
    exact .inl TableState.leaves_self
  · split at h
    · cases h
      exact .inr TableState.leaves_self.forgetting
    · split at h
      · simp at h
      · next hcall =>
          have happlies := applies_error_iff.mp (execute_applies hcall)
          cases h
          exact .inr (TableState.leaves_self.forgetting.calling (by rw [happlies]; rfl))

/-- A removal takes the first document that it finds. -/
theorem delete_ok
    (hs : s.Volatile) {found : Option Document}
    (h : (delete n.manager key).run s = (.ok found, s')) :
    (∃ safe, key.validate = .ok safe) ∧
      ((s.collection.position? key.filter = none ∧ found = none ∧
          s.Leaves s' s.collection (s.held.erase key)) ∨
        ∃ position, s.collection.position? key.filter = some position ∧
          found = s.collection.documents[position]? ∧
          s.Leaves s' ⟨s.collection.documents.eraseIdx position, s.collection.uniqueIndexes⟩
            (s.held.erase key)) := by
  rw [run_delete hs, backend_findOneAndDelete] at h
  split at h
  · simp at h
  · next safe hkey =>
      refine ⟨⟨safe, hkey⟩, ?_⟩
      rw [run_execute] at h
      obtain ⟨hcall, rfl⟩ := Prod.mk.inj h
      have happlies := applies_ok_iff.mp (execute_applies (Prod.ext hcall rfl))
      simp only [Except.ok.injEq, Prod.ext_iff] at happlies
      obtain ⟨rfl, hdb⟩ := happlies
      rcases Database.collection_findOneAndDelete s.connection.database s.table.name key.filter with
        ⟨hnone, hfound, hsame⟩ | ⟨position, hposition, hfound, herased⟩
      · refine .inl ⟨hnone, hfound, TableState.leaves_self.forgetting.calling ?_⟩
        rw [← hdb]
        exact hsame
      · refine .inr ⟨position, hposition, hfound, TableState.leaves_self.forgetting.calling ?_⟩
        rw [← hdb]
        exact herased

theorem delete_error
    (hs : s.Volatile) {e : Error} (h : (delete n.manager key).run s = (.error e, s')) :
    s.Leaves s' s.collection s.held ∨ s.Leaves s' s.collection (s.held.erase key) := by
  rw [run_delete hs, backend_findOneAndDelete] at h
  split at h
  · cases h
    exact .inl TableState.leaves_self
  · rw [run_execute] at h
    obtain ⟨hcall, rfl⟩ := Prod.mk.inj h
    have happlies := applies_error_iff.mp (execute_applies (Prod.ext hcall rfl))
    exact .inr (TableState.leaves_self.forgetting.calling (by rw [happlies]; rfl))

/-! ## Administration -/

theorem clearCache_leaves :
    s.Leaves s.clearing s.collection .empty := by
  exact TableState.leaves_self.clearing

/-- A change of the strategy leaves the cache as it was, or empty. -/
theorem setCacheStrategy_ok
    (hs : s.Volatile) {strategy : CacheStrategy} {result : Except Error Unit}
    (h : (setCacheStrategy strategy).run s = (result, s')) :
    result = .ok () ∧ s'.table.name = s.table.name ∧ s'.table.schema = s.table.schema ∧
      s'.table.cache.strategy = strategy ∧ s'.collection = s.collection ∧
      (s'.held = s.held ∨ s'.held = .empty) := by
  rw [run_setCacheStrategy hs] at h
  split at h
  · next hstrategy =>
      cases h
      exact ⟨rfl, rfl, rfl, hstrategy, rfl, .inl rfl⟩
  · cases h
    refine ⟨rfl, rfl, rfl, ?_, rfl, .inr ?_⟩
    · simp [withCache]
    · simp [TableState.held, withCache]

theorem exists_leaves
    {result : Except Error Bool} (h : («exists» n.manager).run s = (result, s')) :
    s.Leaves s' s.collection s.held := by
  rw [run_exists, backend_collectionNames] at h
  split at h
  all_goals
    cases h
    refine TableState.leaves_self.calling ?_
    rw [(execute_ask ‹_›).1]
    rfl

theorem selectKeys_leaves
    {filter : Filter} {result : Except Error (List PrimaryKey)}
    (h : (selectKeys n.manager filter).run s = (result, s')) :
    s.Leaves s' s.collection s.held := by
  rw [run_selectKeys, backend_findProjected] at h
  split at h
  all_goals
    cases h
    refine TableState.leaves_self.calling ?_
    rw [(execute_ask ‹_›).1]
    rfl

theorem create_ok
    (h : (create n.manager).run s = (.ok (), s')) :
    s.Leaves s' (s.collection.addIndex s.table.schema.indexFields) s.held := by
  rw [run_create, createCollection, indexedCollection, backend_createCollection] at h
  obtain ⟨hcall, rfl⟩ := Prod.mk.inj h
  have happlies := applies_ok_iff.mp (execute_applies (Prod.ext hcall rfl))
  simp only [Except.ok.injEq, Prod.mk.injEq, true_and] at happlies
  refine TableState.leaves_self.calling ?_
  rw [← happlies]
  simp [TableState.collection]

theorem create_error
    {e : Error} (h : (create n.manager).run s = (.error e, s')) :
    s.Leaves s' s.collection s.held := by
  rw [run_create, createCollection, indexedCollection, backend_createCollection] at h
  obtain ⟨hcall, rfl⟩ := Prod.mk.inj h
  have happlies := applies_error_iff.mp (execute_applies (Prod.ext hcall rfl))
  exact TableState.leaves_self.calling (by rw [happlies]; rfl)

theorem drop_ok
    (hs : s.Volatile) (h : (drop n.manager).run s = (.ok (), s')) :
    s.Leaves s' .empty .empty := by
  rw [run_drop hs, backend_dropCollection] at h
  split at h
  · next hcall =>
      have happlies := applies_ok_iff.mp (execute_applies hcall)
      simp only [Except.ok.injEq, Prod.mk.injEq, true_and] at happlies
      cases h
      refine (TableState.leaves_self.calling ?_).clearing
      rw [← happlies]
      simp
  · simp at h

theorem drop_error
    (hs : s.Volatile) {e : Error} (h : (drop n.manager).run s = (.error e, s')) :
    s.Leaves s' s.collection s.held := by
  rw [run_drop hs, backend_dropCollection] at h
  split at h
  · simp at h
  · next hcall =>
      have happlies := applies_error_iff.mp (execute_applies hcall)
      cases h
      exact TableState.leaves_self.calling (by rw [happlies]; rfl)

/-! ## Operations over a network that lets the first attempt through -/

section Connects

variable {safe : Bool}

theorem existsDocument_of_connects
    (hconnects : n.manager.Connects s.connection) (hkey : key.validate = .ok safe) :
    ∃ answer s', (existsDocument n.manager key).run s = (.ok answer, s') := by
  obtain ⟨c, hcall⟩ := execute_ask_of_connects hconnects fun db =>
    (db.find s.table.name key.filter).length
  rw [run_existsDocument, backend_count, hkey]
  simp only [hcall]
  exact ⟨_, _, rfl⟩

theorem fetch_of_connects
    (hconnects : n.manager.Connects s.connection) :
    ∃ found s', (fetch n.manager key key.filter mode).run s = (.ok found, s') := by
  obtain ⟨c, hcall⟩ := execute_ask_of_connects hconnects fun db =>
    db.findOne s.table.name key.filter
  rw [run_fetch, backend_findOne, hcall]
  cases s.connection.database.findOne s.table.name key.filter <;> exact ⟨_, _, rfl⟩

theorem selectWith_of_connects
    (hconnects : n.manager.Connects s.connection) (hkey : key.validate = .ok safe) :
    ∃ found s', (selectWith n.manager key mode).run s = (.ok found, s') := by
  rw [run_selectWith_eq, hkey]
  simp only
  split
  · split
    · exact ⟨_, _, rfl⟩
    · exact fetch_of_connects hconnects
  · exact fetch_of_connects hconnects

/-- A document that the cache does not have is asked for and held. -/
theorem selectWith_of_absent
    (hconnects : n.manager.Connects s.connection) (hkey : key.validate = .ok safe)
    (hget : (s.table.cache.get s.files key).1 = .ok none)
    (hfind : s.connection.database.findOne s.table.name key.filter = some doc) :
    ∃ connection, (selectWith n.manager key .use).run s =
      (.ok (some doc), ((s.asking key).calling connection).holding key doc) := by
  obtain ⟨connection, hcall⟩ := execute_ask_of_connects hconnects fun db =>
    db.findOne s.table.name key.filter
  refine ⟨connection, ?_⟩
  have hconnection : (s.asking key).connection = s.connection := rfl
  have hname : (s.asking key).table.name = s.table.name := rfl
  rw [run_selectWith_eq, hkey]
  simp only [hget, if_true]
  rw [run_fetch, backend_findOne, hconnection, hname, hcall, hfind]

theorem insertWith_of_connects
    (hconnects : n.manager.Connects s.connection) {own : Option PrimaryKey}
    (hown : keyToWrite s.table.schema doc validate = .ok own) {c : Collection}
    (hinsert : s.collection.insert doc = .ok c) :
    ∃ s', (insertWith n.manager doc validate).run s = (.ok (), s') := by
  obtain ⟨db, hdb⟩ := Database.exists_insertOne hinsert
  have hstep : (s.connection.database.insertOne s.table.name doc).map (fun db => ((), db)) =
      .ok ((), db) := by
    rw [hdb]
    rfl
  obtain ⟨c', hcall⟩ := execute_of_connects
    (fun db => (db.insertOne s.table.name doc).map fun db => ((), db)) hconnects hstep
  rw [run_insertWith, backend_insertOne, hown]
  exact ⟨s.calling c', by rw [run_execute, hcall]⟩

theorem updateWith_of_connects
    (hs : s.Volatile) (hconnects : n.manager.Connects s.connection)
    (hkey : key.validate = .ok safe) {own : Option PrimaryKey}
    (hown : keyToWrite s.table.schema doc validate = .ok own)
    (hreplace : ∀ position, s.collection.position? key.filter = some position →
      ∃ c, s.collection.replace position doc = .ok c) :
    ∃ s', (updateWith n.manager doc key validate).run s = (.ok (), s') := by
  obtain ⟨matched, db, hdb⟩ := Database.exists_replaceOne hreplace
  obtain ⟨c, hcall⟩ := execute_of_connects
    (fun db => db.replaceOne s.table.name key.filter doc) hconnects hdb
  rw [run_updateWith hs, backend_replaceOne, hkey, hown]
  simp only [hcall]
  exact ⟨_, rfl⟩

theorem delete_of_connects
    (hs : s.Volatile) (hconnects : n.manager.Connects s.connection)
    (hkey : key.validate = .ok safe) :
    ∃ found s', (delete n.manager key).run s = (.ok found, s') := by
  obtain ⟨c, hcall⟩ := execute_of_connects (s := (s.forgetting key).connection)
    (a := (s.connection.database.findOneAndDelete s.table.name key.filter).1)
    (fun db => .ok (db.findOneAndDelete s.table.name key.filter)) hconnects rfl
  rw [run_delete hs, backend_findOneAndDelete, hkey]
  exact ⟨_, (s.forgetting key).calling c, by rw [run_execute, hcall]⟩

end Connects
end Table
end DocumentTables
