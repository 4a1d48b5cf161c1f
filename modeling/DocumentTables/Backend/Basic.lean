import DocumentTables.Config.ConnectionParameters
import DocumentTables.Filter

/-!
# Backends

A backend opens connections and runs operations on them.  It is described by what each call answers
and how it changes the state of the outside world, so that any behaviour can stand behind it: a
database in memory, a failing network, or both.
-/

namespace DocumentTables

/-- An operation on the outside world, which may fail. The world goes on in either case. -/
abbrev BackendAction (σ α : Type) := σ → Except BackendError α × σ

namespace BackendAction

variable {σ τ α β : Type}

/-- Answer without looking at the world. -/
def pure (a : α) : BackendAction σ α := fun s => (.ok a, s)

/-- One operation after another, as long as none fails. -/
def andThen (first : BackendAction σ α) (next : α → BackendAction σ β) : BackendAction σ β :=
  fun s =>
    match first s with
    | (.ok a, s) => next a s
    | (.error e, s) => (.error e, s)

/-- An operation on the second part of a world. -/
def onSecond (action : BackendAction σ α) : BackendAction (τ × σ) α :=
  fun (t, s) =>
    let (result, s) := action s
    (result, (t, s))

end BackendAction

/-- The calls of a backend. -/
structure Backend (σ : Type) where
  /-- Open a connection with the given parameters. -/
  connect : ConnectionParameters → BackendAction σ Unit
  /-- The names of all collections. -/
  collectionNames : BackendAction σ (List String)
  /-- The first document that a filter accepts. -/
  findOne : String → Filter → BackendAction σ (Option Document)
  /-- The documents that a filter accepts, reduced to the given paths. -/
  findProjected : String → Filter → List String → BackendAction σ (List Document)
  /-- The number of documents that a filter accepts. -/
  count : String → Filter → BackendAction σ Nat
  /-- Add a document. -/
  insertOne : String → Document → BackendAction σ Unit
  /-- Replace the first document that a filter accepts, and tell whether there is one. -/
  replaceOne : String → Filter → Document → BackendAction σ Bool
  /-- Remove the first document that a filter accepts, and return it. -/
  findOneAndDelete : String → Filter → BackendAction σ (Option Document)
  /-- Make a collection, if it does not exist. -/
  createCollection : String → BackendAction σ Unit
  /-- Add a unique index over some paths. -/
  createUniqueIndex : String → List String → BackendAction σ Unit
  /-- Remove a collection. -/
  dropCollection : String → BackendAction σ Unit

namespace Backend

variable {σ τ : Type}

/-- A backend on the second part of a world. -/
def onSecond (b : Backend σ) : Backend (τ × σ) where
  connect params := (b.connect params).onSecond
  collectionNames := b.collectionNames.onSecond
  findOne name filter := (b.findOne name filter).onSecond
  findProjected name filter paths := (b.findProjected name filter paths).onSecond
  count name filter := (b.count name filter).onSecond
  insertOne name doc := (b.insertOne name doc).onSecond
  replaceOne name filter doc := (b.replaceOne name filter doc).onSecond
  findOneAndDelete name filter := (b.findOneAndDelete name filter).onSecond
  createCollection name := (b.createCollection name).onSecond
  createUniqueIndex name paths := (b.createUniqueIndex name paths).onSecond
  dropCollection name := (b.dropCollection name).onSecond

end Backend
end DocumentTables
