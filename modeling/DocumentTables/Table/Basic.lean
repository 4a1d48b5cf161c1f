import DocumentTables.Cache.Store
import DocumentTables.Config.Settings
import DocumentTables.Connection.Manager
import DocumentTables.Key.Schema

/-!
# Tables

A table is a collection of documents with a key schema, reached through a connection manager and a
cache.  A point look-up is answered by the cache if possible.  A write forgets the key before the
backend is asked, and holds the new document after that has succeeded, so a failed write leaves the
cache emptier but never stale.
-/

namespace DocumentTables

/-- Whether a point look-up may be answered by the cache. -/
inductive CacheMode where
  /-- Answer from the cache if possible, and hold what the backend answers. -/
  | use
  /-- Ask the backend, and hold what it answers. -/
  | bypass
deriving DecidableEq, Repr, Inhabited

namespace CacheMode

/-- The mode as diagnostics show it. -/
def describe : CacheMode → String
  | .use => "Use"
  | .bypass => "Bypass"

end CacheMode

/-- A collection with its key schema and its cache. -/
structure Table where
  name : String
  schema : KeySchema
  cacheRoot : String
  cache : Cache
  mode : CacheMode
  /-- The number of the process that the table lives in. -/
  process : Nat
deriving Inhabited

namespace Table

/-- A table without a cache. -/
def new (name : String) (schema : KeySchema) (root : String) (process : Nat) : Table :=
  ⟨name, schema, root, .none, .use, process⟩

/-- The table with a fresh store for a strategy. -/
def withCache (t : Table) (strategy : CacheStrategy) : Table :=
  { t with cache := Cache.ofStrategy strategy t.cacheRoot t.name t.process }

/-- The table with its entries on disk below another root. -/
def withCacheRoot (t : Table) (root : String) : Table :=
  withCache { t with cacheRoot := root } t.cache.strategy

/-- The table with the given cache settings. -/
def withCacheSettings (t : Table) (settings : CacheSettings) : Table :=
  (t.withCacheRoot settings.root).withCache settings.strategy

/-- The table with another mode for its look-ups. -/
def withMode (t : Table) (mode : CacheMode) : Table :=
  { t with mode }

/-- The table as diagnostics show it. -/
def describe (t : Table) : String :=
  Text.partialRecord "Table"
    [("name", Text.quoted t.name), ("schema", t.schema.describe),
      ("cache_strategy", t.cache.strategy.describe), ("cache_root", Text.quoted t.cacheRoot),
      ("default_mode", t.mode.describe)]

end Table

/-- What the operations of a table change: the table's cache, the connection and the files. -/
structure TableState (σ : Type) where
  table : Table
  connection : ConnectionState σ
  files : FileTree

/-- An operation on a table, as the sequence of what it does.  It may fail after it has changed
things. -/
inductive TableAction (σ α : Type) : Type 1 where
  /-- Nothing more is done. -/
  | done (result : Except Error α)
  /-- A step that makes no call, and what follows on what it yields. -/
  | step {β : Type} (change : TableState σ → β × TableState σ) (next : β → TableAction σ α)
  /-- A call over the connection, and what follows on its answer or its failure. -/
  | call {β : Type} (m : ConnectionManager σ) (operation : BackendAction σ β)
      (next : Except Error β → TableAction σ α)

namespace TableAction

variable {σ α β : Type}

/-- The answer of an operation and what it leaves behind. -/
def run : TableAction σ α → TableState σ → Except Error α × TableState σ
  | done result, s => (result, s)
  | step change next, s => (next (change s).1).run (change s).2
  | call m operation next, s =>
      (next (m.execute operation s.connection).1).run
        { s with connection := (m.execute operation s.connection).2 }

/-- Go on with what an operation comes to. -/
def andThen (next : Except Error α → TableAction σ β) : TableAction σ α → TableAction σ β
  | done result => next result
  | step change rest => .step change fun b => (rest b).andThen next
  | call m operation rest => .call m operation fun result => (rest result).andThen next

/-- Go on only after success. -/
def onSuccess (next : α → TableAction σ β) : Except Error α → TableAction σ β
  | .ok a => next a
  | .error e => .done (.error e)

/-- Go on only after a failure. -/
def onFailure (handler : Error → TableAction σ α) : Except Error α → TableAction σ α
  | .ok a => .done (.ok a)
  | .error e => handler e

instance : Monad (TableAction σ) where
  pure a := .done (.ok a)
  bind action next := action.andThen (onSuccess next)

instance : MonadExceptOf Error (TableAction σ) where
  throw e := .done (.error e)
  tryCatch action handler := action.andThen (onFailure handler)

/-- A step that yields its own result. -/
def onState (change : TableState σ → α × TableState σ) : TableAction σ α :=
  .step change pure

instance : MonadStateOf (TableState σ) (TableAction σ) where
  get := onState fun s => (s, s)
  set s := onState fun _ => ((), s)
  modifyGet := onState

/-- An operation on the cache and the files; its failure is an answer. -/
def onCache (step : Cache → FileTree → Except CacheError α × Cache × FileTree) :
    TableAction σ (Except CacheError α) :=
  .onState fun s =>
    let (result, cache, files) := step s.table.cache s.files
    (result, { s with table := { s.table with cache }, files })

/-- A failure of the cache is a failure of the operation. -/
def orFail (action : TableAction σ (Except CacheError α)) : TableAction σ α := do
  match ← action with
  | .ok a => return a
  | .error e => throw (.cache e)

/-- An answer or a failure of validation. -/
def ofValidation (result : Except ValidationError α) : TableAction σ α :=
  match result with
  | .ok a => pure a
  | .error e => throw (.validation e)

/-- The table as it is now. -/
def table : TableAction σ Table := do
  return (← get).table

end TableAction

namespace Table

variable {σ : Type}

/-- The filter for a key that can identify a document.  Strings that are no safe identities are
tolerated, so that documents written without validation can be reached. -/
def addressableFilter (key : PrimaryKey) : Except ValidationError Filter :=
  key.validate.map fun _ => key.filter

/-- Run a backend operation under the manager's policy. -/
def execute {α : Type} (m : ConnectionManager σ) (operation : BackendAction σ α) :
    TableAction σ α :=
  .call m operation .done

/-! ## Cache steps -/

/-- Ask the cache for the document of a key. -/
def cached (key : PrimaryKey) : TableAction σ (Except CacheError (Option Document)) :=
  .onCache fun cache files =>
    let (result, cache) := cache.get files key
    (result, cache, files)

/-- Hold a document; a failure only costs a later question to the backend. -/
def remember (key : PrimaryKey) (doc : Document) : TableAction σ Unit := do
  let _ ← TableAction.onCache fun cache files => cache.put files key doc

/-- Forget the document of a key. -/
def forget (key : PrimaryKey) : TableAction σ (Except CacheError Unit) :=
  .onCache fun cache files => cache.remove files key

/-- Forget all documents. -/
def clearCache : TableAction σ Unit :=
  TableAction.orFail (.onCache Cache.clear)

/-- The statistics of the cache. -/
def cacheStats (s : TableState σ) : CacheStats :=
  s.table.cache.stats s.files

/-- Change the cache strategy and forget everything held so far.  The active strategy keeps it. -/
def setCacheStrategy (strategy : CacheStrategy) : TableAction σ Unit := do
  let t ← TableAction.table
  if t.cache.strategy = strategy then return ()
  else
    clearCache
    modify fun s => { s with table := s.table.withCache strategy }

/-! ## Queries -/

/-- Whether the backend has a collection with the table's name. -/
def «exists» (m : ConnectionManager σ) : TableAction σ Bool := do
  let t ← TableAction.table
  let names ← execute m m.backend.collectionNames
  return names.contains t.name

/-- Whether a document with the key exists; the backend is always asked. -/
def existsDocument (m : ConnectionManager σ) (key : PrimaryKey) : TableAction σ Bool := do
  let filter ← TableAction.ofValidation (addressableFilter key)
  let t ← TableAction.table
  let count ← execute m (m.backend.count t.name filter)
  return decide (0 < count)

/-- Ask the backend for the document with a key and hold the answer.  A look-up past the cache that
finds nothing leaves nothing held. -/
def fetch (m : ConnectionManager σ) (key : PrimaryKey) (filter : Filter) (mode : CacheMode) :
    TableAction σ (Option Document) := do
  let t ← TableAction.table
  let found ← execute m (m.backend.findOne t.name filter)
  match found with
  | some doc =>
      remember key doc
      return some doc
  | none =>
      if mode = .bypass then
        let _ ← forget key
        return none
      else return none

/-- The document with a key.  Its absence is an answer and is never held.  A cache that cannot be
read counts as one without the document. -/
def selectWith (m : ConnectionManager σ) (key : PrimaryKey) (mode : CacheMode) :
    TableAction σ (Option Document) := do
  let filter ← TableAction.ofValidation (addressableFilter key)
  if mode = .use then
    match ← cached key with
    | .ok (some doc) => return some doc
    | _ => fetch m key filter mode
  else fetch m key filter mode

/-- The document with a key, in the table's own mode. -/
def select (m : ConnectionManager σ) (key : PrimaryKey) : TableAction σ (Option Document) := do
  let t ← TableAction.table
  selectWith m key t.mode

/-- The keys of documents, without those that have none. -/
def keysOf (schema : KeySchema) (docs : List Document) : List PrimaryKey :=
  docs.filterMap fun doc => (schema.extractKey doc).toOption

/-- The keys of the documents that a filter accepts, in the order of the backend. -/
def selectKeys (m : ConnectionManager σ) (filter : Filter) : TableAction σ (List PrimaryKey) := do
  let t ← TableAction.table
  let docs ← execute m (m.backend.findProjected t.name filter t.schema.indexFields)
  return keysOf t.schema docs

/-! ## Writes -/

/-- The key of a document to be written, if it has one.  On request the document must have a valid
one. -/
def keyToWrite (schema : KeySchema) (doc : Document) (validate : Bool) :
    Except ValidationError (Option PrimaryKey) :=
  match schema.extractKey doc with
  | .error e => if validate then .error e else .ok none
  | .ok key => if validate then key.ensureValid.map fun _ => some key else .ok (some key)

/-- Add a document.  The cache is left alone. -/
def insertWith (m : ConnectionManager σ) (doc : Document) (validate : Bool) :
    TableAction σ Unit := do
  let t ← TableAction.table
  let _ ← TableAction.ofValidation (keyToWrite t.schema doc validate)
  execute m (m.backend.insertOne t.name doc)

/-- Replace the document with the old key.  That key is forgotten before anything else happens, and
after success the new document is held for its own key. -/
def updateWith (m : ConnectionManager σ) (doc : Document) (oldKey : PrimaryKey) (validate : Bool) :
    TableAction σ Unit := do
  let filter ← TableAction.ofValidation (addressableFilter oldKey)
  TableAction.orFail (forget oldKey)
  let t ← TableAction.table
  let newKey ← TableAction.ofValidation (keyToWrite t.schema doc validate)
  let matched ← execute m (m.backend.replaceOne t.name filter doc)
  match matched, newKey with
  | true, some key => remember key doc
  | _, _ => return ()

/-- Remove the document with a key, and return it if there was one. -/
def delete (m : ConnectionManager σ) (key : PrimaryKey) : TableAction σ (Option Document) := do
  let filter ← TableAction.ofValidation (addressableFilter key)
  TableAction.orFail (forget key)
  let t ← TableAction.table
  execute m (m.backend.findOneAndDelete t.name filter)

/-! ## Administration -/

/-- Make a collection and add a unique index to it, over one connection. -/
def indexedCollection (m : ConnectionManager σ) (name : String) (paths : List String) :
    BackendAction σ Unit :=
  (m.backend.createCollection name).andThen fun () => m.backend.createUniqueIndex name paths

/-- Make a collection with a unique index. -/
def createCollection (m : ConnectionManager σ) (name : String) (paths : List String) :
    ConnectionState σ → Except Error Unit × ConnectionState σ :=
  m.execute (indexedCollection m name paths)

/-- Make the table's collection with a unique index on its identity. -/
def create (m : ConnectionManager σ) : TableAction σ Unit := do
  let t ← TableAction.table
  execute m (indexedCollection m t.name t.schema.indexFields)

/-- Remove the table's collection, and forget everything held for it. -/
def drop (m : ConnectionManager σ) : TableAction σ Unit := do
  let t ← TableAction.table
  execute m (m.backend.dropCollection t.name)
  clearCache

end Table
end DocumentTables
