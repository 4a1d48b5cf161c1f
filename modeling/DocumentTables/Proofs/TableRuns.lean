import DocumentTables.Proofs.KeyMap
import DocumentTables.Table.Basic

/-!
# The steps of the table's operations

An operation of a table is a sequence of steps on its cache and calls over the connection.  For a
cache that looks at no files, no step on the cache fails, so what an operation comes to depends on
the keys, the document and the calls alone.

**Results.**

* `Table.run_existsDocument`, `Table.run_selectWith`, `Table.run_insertWith`,
  `Table.run_updateWith`, `Table.run_delete`, `Table.run_clearCache`,
  `Table.run_setCacheStrategy`: the operations as sequences of steps.
* `Table.run_selectWith_eq`, `Table.run_updateWith_eq`, `Table.run_delete_eq`,
  `Table.run_clearCache_eq`: the same for any cache, whose steps may fail.
-/

namespace DocumentTables

namespace TableState

variable {σ : Type}

/-- No step on the cache looks at the files. -/
def Volatile (s : TableState σ) : Prop :=
  s.table.cache.Volatile

/-- What the cache holds. -/
def held (s : TableState σ) : KeyMap :=
  s.table.cache.held

/-- After a step on the cache. -/
def stepped (s : TableState σ) (after : Cache × FileTree) : TableState σ :=
  { s with table := { s.table with cache := after.1 }, files := after.2 }

/-- After a question to the cache. -/
def asking (s : TableState σ) (key : PrimaryKey) : TableState σ :=
  s.stepped ((s.table.cache.get s.files key).2, s.files)

/-- After the cache was given a document to hold. -/
def holding (s : TableState σ) (key : PrimaryKey) (doc : Document) : TableState σ :=
  s.stepped (s.table.cache.put s.files key doc).2

/-- After the cache was told to forget a key. -/
def forgetting (s : TableState σ) (key : PrimaryKey) : TableState σ :=
  s.stepped (s.table.cache.remove s.files key).2

/-- After the cache was told to forget everything. -/
def clearing (s : TableState σ) : TableState σ :=
  s.stepped (s.table.cache.clear s.files).2

/-- After a call over the connection. -/
def calling (s : TableState σ) (connection : ConnectionState σ) : TableState σ :=
  { s with connection }

end TableState

namespace TableAction

variable {σ α β : Type}

/-- What follows an operation goes on from what that leaves behind. -/
theorem run_andThen
    (x : TableAction σ α) (next : Except Error α → TableAction σ β) (s : TableState σ) :
    (x.andThen next).run s = (next (x.run s).1).run (x.run s).2 := by
  induction x generalizing s with
  | done result =>
      rfl
  | step change rest ih =>
      exact ih _ _
  | call m operation rest ih =>
      exact ih _ _

theorem run_bind
    (x : TableAction σ α) (f : α → TableAction σ β) (s : TableState σ) :
    (x >>= f).run s =
      match x.run s with
      | (.ok a, s₁) => (f a).run s₁
      | (.error e, s₁) => (.error e, s₁) := by
  have hbind : (x >>= f).run s = (onSuccess f (x.run s).1).run (x.run s).2 := run_andThen x _ s
  rw [hbind]
  rcases x.run s with ⟨_ | _, _⟩ <;> rfl

theorem run_tryCatch
    (x : TableAction σ α) (handler : Error → TableAction σ α) (s : TableState σ) :
    (tryCatch x handler).run s =
      match x.run s with
      | (.ok a, s₁) => (.ok a, s₁)
      | (.error e, s₁) => (handler e).run s₁ := by
  have hcatch : (tryCatch x handler).run s = (onFailure handler (x.run s).1).run (x.run s).2 :=
    run_andThen x _ s
  rw [hcatch]
  rcases x.run s with ⟨_ | _, _⟩ <;> rfl

@[simp] theorem run_table
    (s : TableState σ) :
    (table : TableAction σ Table).run s = (.ok s.table, s) := by
  rfl

theorem run_ofValidation
    (result : Except ValidationError α) (s : TableState σ) :
    (ofValidation result : TableAction σ α).run s =
      match result with
      | .ok a => (.ok a, s)
      | .error e => (.error (.validation e), s) := by
  cases result <;> rfl

@[simp] theorem run_onCache
    (step : Cache → FileTree → Except CacheError α × Cache × FileTree) (s : TableState σ) :
    (onCache step : TableAction σ (Except CacheError α)).run s =
      (.ok (step s.table.cache s.files).1, s.stepped (step s.table.cache s.files).2) := by
  rfl

end TableAction

namespace Table

open TableAction

variable {σ α : Type} {m : ConnectionManager σ} {s : TableState σ} {key : PrimaryKey}

@[simp] theorem run_execute
    (operation : BackendAction σ α) (s : TableState σ) :
    (execute m operation).run s =
      ((m.execute operation s.connection).1, s.calling (m.execute operation s.connection).2) := by
  rfl

theorem run_cached_eq :
    (cached key).run s = (.ok (s.table.cache.get s.files key).1, s.asking key) := by
  rfl

theorem run_forget_eq :
    (forget key).run s = (.ok (s.table.cache.remove s.files key).1, s.forgetting key) := by
  rfl

theorem run_orFail_forget :
    (orFail (forget key)).run s =
      match (s.table.cache.remove s.files key).1 with
      | .error e => (.error (.cache e), s.forgetting key)
      | .ok _ => (.ok (), s.forgetting key) := by
  rw [orFail, run_bind, run_forget_eq]
  cases (s.table.cache.remove s.files key).1 <;> rfl

theorem run_clearCache_eq :
    clearCache.run s =
      match (s.table.cache.clear s.files).1 with
      | .error e => (.error (.cache e), s.clearing)
      | .ok _ => (.ok (), s.clearing) := by
  rw [clearCache, orFail, run_bind, run_onCache]
  simp only [TableState.clearing]
  cases (s.table.cache.clear s.files).1 <;> rfl

/-- Nothing is held after everything was forgotten. -/
theorem run_clearCache
    (h : s.Volatile) :
    clearCache.run s = (.ok (), s.clearing) := by
  rw [run_clearCache_eq, Cache.clear_fst h]

theorem run_setCacheStrategy
    (h : s.Volatile) (strategy : CacheStrategy) :
    (setCacheStrategy strategy).run s =
      if s.table.cache.strategy = strategy then (.ok (), s)
      else (.ok (), { s.clearing with table := s.clearing.table.withCache strategy }) := by
  rw [setCacheStrategy, run_bind, run_table]
  simp only
  split
  · rfl
  · rw [run_bind, run_clearCache h]
    rfl

theorem run_exists :
    («exists» m).run s =
      match m.execute m.backend.collectionNames s.connection with
      | (.ok names, c) => (.ok (names.contains s.table.name), s.calling c)
      | (.error e, c) => (.error e, s.calling c) := by
  rw [«exists», run_bind, run_table]
  simp only [run_bind, run_execute]
  rcases m.execute m.backend.collectionNames s.connection with ⟨_ | _, c⟩ <;> rfl

theorem run_selectKeys
    (filter : Filter) :
    (selectKeys m filter).run s =
      match m.execute (m.backend.findProjected s.table.name filter s.table.schema.indexFields)
        s.connection with
      | (.ok docs, c) => (.ok (keysOf s.table.schema docs), s.calling c)
      | (.error e, c) => (.error e, s.calling c) := by
  rw [selectKeys, run_bind, run_table]
  simp only [run_bind, run_execute]
  rcases m.execute (m.backend.findProjected s.table.name filter s.table.schema.indexFields)
    s.connection with ⟨_ | _, c⟩ <;> rfl

theorem run_create :
    (create m).run s =
      ((createCollection m s.table.name s.table.schema.indexFields s.connection).1,
        s.calling (createCollection m s.table.name s.table.schema.indexFields s.connection).2) := by
  rw [create, run_bind, run_table]
  rfl

theorem run_drop_eq :
    (drop m).run s =
      match m.execute (m.backend.dropCollection s.table.name) s.connection with
      | (.ok _, c) => clearCache.run (s.calling c)
      | (.error e, c) => (.error e, s.calling c) := by
  rw [drop, run_bind, run_table]
  simp only [run_bind, run_execute]
  rcases m.execute (m.backend.dropCollection s.table.name) s.connection with ⟨_ | _, c⟩ <;> rfl

theorem run_drop
    (h : s.Volatile) :
    (drop m).run s =
      match m.execute (m.backend.dropCollection s.table.name) s.connection with
      | (.ok _, c) => (.ok (), (s.calling c).clearing)
      | (.error e, c) => (.error e, s.calling c) := by
  rw [run_drop_eq]
  rcases m.execute (m.backend.dropCollection s.table.name) s.connection with ⟨_ | _, c⟩
  · rfl
  · exact run_clearCache h

theorem run_existsDocument :
    (existsDocument m key).run s =
      match key.validate with
      | .error e => (.error (.validation e), s)
      | .ok _ =>
          match m.execute (m.backend.count s.table.name key.filter) s.connection with
          | (.ok count, c) => (.ok (decide (0 < count)), s.calling c)
          | (.error e, c) => (.error e, s.calling c) := by
  rw [existsDocument, run_bind, run_ofValidation, addressableFilter]
  cases key.validate with
  | error e =>
      rfl
  | ok _ =>
      simp only [Except.map, run_bind, run_table, run_execute]
      rcases m.execute (m.backend.count s.table.name key.filter) s.connection with
        ⟨_ | _, c⟩ <;> rfl

/-- What is asked of the backend for a key, and what becomes of the answer in the cache. -/
theorem run_fetch
    (filter : Filter) (mode : CacheMode) :
    (fetch m key filter mode).run s =
      match m.execute (m.backend.findOne s.table.name filter) s.connection with
      | (.ok (some doc), c) => (.ok (some doc), (s.calling c).holding key doc)
      | (.ok none, c) =>
          (.ok none, if mode = .bypass then (s.calling c).forgetting key else s.calling c)
      | (.error e, c) => (.error e, s.calling c) := by
  rw [fetch, run_bind, run_table]
  simp only [run_bind, run_execute]
  rcases m.execute (m.backend.findOne s.table.name filter) s.connection with ⟨_ | found, c⟩
  · rfl
  · cases found with
    | some doc =>
        rfl
    | none =>
        simp only
        split
        · rw [run_bind, run_forget_eq]
          rfl
        · rfl

/-- A look-up is answered by the cache only with a document that the cache has. -/
theorem run_selectWith_eq
    (mode : CacheMode) :
    (selectWith m key mode).run s =
      match key.validate with
      | .error e => (.error (.validation e), s)
      | .ok _ =>
          if mode = .use then
            match (s.table.cache.get s.files key).1 with
            | .ok (some doc) => (.ok (some doc), s.asking key)
            | _ => (fetch m key key.filter mode).run (s.asking key)
          else (fetch m key key.filter mode).run s := by
  rw [selectWith, run_bind, run_ofValidation, addressableFilter]
  cases key.validate with
  | error e =>
      rfl
  | ok _ =>
      simp only [Except.map]
      split
      · rw [run_bind, run_cached_eq]
        rcases (s.table.cache.get s.files key).1 with _ | _ | _ <;> rfl
      · rfl

theorem run_selectWith
    (h : s.Volatile) (mode : CacheMode) :
    (selectWith m key mode).run s =
      match key.validate with
      | .error e => (.error (.validation e), s)
      | .ok _ =>
          if mode = .use then
            match s.held.find key with
            | some doc => (.ok (some doc), s.asking key)
            | none => (fetch m key key.filter mode).run (s.asking key)
          else (fetch m key key.filter mode).run s := by
  rw [run_selectWith_eq, Cache.get_fst h, TableState.held]
  cases s.table.cache.held.find key <;> rfl

theorem run_insertWith
    (doc : Document) (validate : Bool) :
    (insertWith m doc validate).run s =
      match keyToWrite s.table.schema doc validate with
      | .error e => (.error (.validation e), s)
      | .ok _ => (execute m (m.backend.insertOne s.table.name doc)).run s := by
  rw [insertWith, run_bind, run_table]
  simp only [run_bind, run_ofValidation]
  cases keyToWrite s.table.schema doc validate <;> rfl

/-- An insertion leaves the table and the files as they are. -/
theorem exists_calling_of_insertWith
    {doc : Document} {validate : Bool} {s' : TableState σ} {result : Except Error Unit}
    (h : (insertWith m doc validate).run s = (result, s')) :
    ∃ connection, s' = s.calling connection := by
  rw [run_insertWith] at h
  split at h
  · cases h
    exact ⟨s.connection, rfl⟩
  · rw [run_execute] at h
    exact ⟨_, (Prod.mk.inj h).2.symm⟩

/-- An update asks the backend only after the old key was forgotten. -/
theorem run_updateWith_eq
    (doc : Document) (validate : Bool) :
    (updateWith m doc key validate).run s =
      match key.validate with
      | .error e => (.error (.validation e), s)
      | .ok _ =>
          match (s.table.cache.remove s.files key).1 with
          | .error e => (.error (.cache e), s.forgetting key)
          | .ok _ =>
              match keyToWrite s.table.schema doc validate with
              | .error e => (.error (.validation e), s.forgetting key)
              | .ok own =>
                  match m.execute (m.backend.replaceOne s.table.name key.filter doc)
                    s.connection with
                  | (.ok matched, c) =>
                      (.ok (),
                        match matched, own with
                        | true, some own => ((s.forgetting key).calling c).holding own doc
                        | _, _ => (s.forgetting key).calling c)
                  | (.error e, c) => (.error e, (s.forgetting key).calling c) := by
  rw [updateWith, run_bind, run_ofValidation, addressableFilter]
  cases key.validate with
  | error e =>
      rfl
  | ok _ =>
      have hschema : (s.forgetting key).table.schema = s.table.schema := rfl
      have hname : (s.forgetting key).table.name = s.table.name := rfl
      have hconnection : (s.forgetting key).connection = s.connection := rfl
      simp only [Except.map, run_bind, run_orFail_forget]
      cases (s.table.cache.remove s.files key).1 with
      | error e =>
          rfl
      | ok _ =>
          simp only [run_table, run_ofValidation, hschema]
          cases keyToWrite s.table.schema doc validate with
          | error e =>
              rfl
          | ok own =>
              simp only [run_execute, hname, hconnection]
              rcases m.execute (m.backend.replaceOne s.table.name key.filter doc) s.connection
                with ⟨_ | matched, c⟩
              · rfl
              · cases matched <;> cases own <;> rfl

theorem run_updateWith
    (h : s.Volatile) (doc : Document) (validate : Bool) :
    (updateWith m doc key validate).run s =
      match key.validate with
      | .error e => (.error (.validation e), s)
      | .ok _ =>
          match keyToWrite s.table.schema doc validate with
          | .error e => (.error (.validation e), s.forgetting key)
          | .ok own =>
              match m.execute (m.backend.replaceOne s.table.name key.filter doc) s.connection with
              | (.ok matched, c) =>
                  (.ok (),
                    match matched, own with
                    | true, some own => ((s.forgetting key).calling c).holding own doc
                    | _, _ => (s.forgetting key).calling c)
              | (.error e, c) => (.error e, (s.forgetting key).calling c) := by
  rw [run_updateWith_eq, Cache.remove_fst h]

/-- A removal asks the backend only after the key was forgotten. -/
theorem run_delete_eq :
    (delete m key).run s =
      match key.validate with
      | .error e => (.error (.validation e), s)
      | .ok _ =>
          match (s.table.cache.remove s.files key).1 with
          | .error e => (.error (.cache e), s.forgetting key)
          | .ok _ =>
              (execute m (m.backend.findOneAndDelete s.table.name key.filter)).run
                (s.forgetting key) := by
  rw [delete, run_bind, run_ofValidation, addressableFilter]
  cases key.validate with
  | error e =>
      rfl
  | ok _ =>
      simp only [Except.map, run_bind, run_orFail_forget]
      cases (s.table.cache.remove s.files key).1 <;> rfl

theorem run_delete
    (h : s.Volatile) :
    (delete m key).run s =
      match key.validate with
      | .error e => (.error (.validation e), s)
      | .ok _ =>
          (execute m (m.backend.findOneAndDelete s.table.name key.filter)).run
            (s.forgetting key) := by
  rw [run_delete_eq, Cache.remove_fst h]

end Table
end DocumentTables
