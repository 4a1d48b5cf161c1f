import DocumentTables.Backend.Basic
import DocumentTables.Backend.Database

/-!
# The backend in memory

A database in memory that opens a connection only with the right user's name and password, if it
requires some, and counts the connections it opened.
-/

namespace DocumentTables

/-- A database, the credentials it requires, and the number of connections opened. -/
structure MemoryBackend where
  database : Database
  credentials : Option (String × String)
  opened : Nat
deriving Inhabited

namespace MemoryBackend

/-- An empty database that accepts everyone. -/
def empty : MemoryBackend := ⟨[], none, 0⟩

/-- The parameters carry the credentials that are required. -/
def admits (m : MemoryBackend) (params : ConnectionParameters) : Bool :=
  match m.credentials with
  | none => true
  | some (username, password) => params.username == username && params.password == password

/-- The number of documents in a collection. -/
def documentCount (m : MemoryBackend) (name : String) : Nat :=
  (m.database.collection name).documents.length

/-- Open a connection, if the credentials are right. -/
def connect (params : ConnectionParameters) : BackendAction MemoryBackend Unit :=
  fun m =>
    if m.admits params then (.ok (), { m with opened := m.opened + 1 })
    else (.error (.unauthorized params.username), m)

/-- Ask the database. -/
def ask {α : Type} (question : Database → α) : BackendAction MemoryBackend α :=
  fun m => (.ok (question m.database), m)

/-- Change the database, unless the change is refused. -/
def change {α : Type} (step : Database → Except BackendError (α × Database)) :
    BackendAction MemoryBackend α :=
  fun m =>
    match step m.database with
    | .ok (a, db) => (.ok a, { m with database := db })
    | .error e => (.error e, m)

/-- The calls of the database. -/
def backend : Backend MemoryBackend where
  connect := connect
  collectionNames := ask Database.collectionNames
  findOne name filter := ask fun db => db.findOne name filter
  findProjected name filter paths :=
    ask fun db => (db.find name filter).map fun doc => Document.project doc paths
  count name filter := ask fun db => (db.find name filter).length
  insertOne name doc := change fun db => (db.insertOne name doc).map fun db => ((), db)
  replaceOne name filter doc := change fun db => db.replaceOne name filter doc
  findOneAndDelete name filter := change fun db => .ok (db.findOneAndDelete name filter)
  createCollection name := change fun db => .ok ((), db.createCollection name)
  createUniqueIndex name paths := change fun db => .ok ((), db.createUniqueIndex name paths)
  dropCollection name := change fun db => .ok ((), db.dropCollection name)

end MemoryBackend
end DocumentTables
