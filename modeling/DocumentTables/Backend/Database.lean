import DocumentTables.Error
import DocumentTables.Filter
import DocumentTables.Json.Writer

/-!
# Databases in memory

A database is a map from names to collections.  A collection keeps its documents in the order of
insertion, and unique indexes: no write makes a document agree with another one on all paths of an
index, where a missing value differs from every value.
-/

namespace DocumentTables

/-- The documents of a collection and its unique indexes, each a list of paths. -/
structure Collection where
  documents : List Document
  uniqueIndexes : List (List String)
deriving Inhabited

namespace Collection

/-- No documents, no indexes. -/
def empty : Collection := ⟨[], []⟩

/-- The values of a document at the paths of an index. -/
def indexValues (doc : Document) (index : List String) : List (Option Value) :=
  index.map doc.lookup

/-- Two values are equal, or both are missing. -/
def sameValue : Option Value → Option Value → Bool
  | some a, some b => a.same b
  | none, none => true
  | _, _ => false

/-- Values are equal place by place. -/
def sameValues : List (Option Value) → List (Option Value) → Bool
  | [], [] => true
  | a :: as, b :: bs => sameValue a b && sameValues as bs
  | _, _ => false

/-- Two documents agree on all paths of an index. -/
def agree (index : List String) (a b : Document) : Bool :=
  sameValues (indexValues a index) (indexValues b index)

/-- The first index on which a document agrees with one of the others. -/
def clash? (indexes : List (List String)) (others : List Document) (doc : Document) :
    Option (List String) :=
  indexes.find? fun index => others.any fun other => agree index other doc

/-- The values of a document at the paths of an index, as the message of a clash gives them. -/
def clashText (doc : Document) (index : List String) : String :=
  (Value.array ((indexValues doc index).map fun value => value.getD .null)).text

/-- Add a document at the end, unless it agrees with another one on an index. -/
def insert (c : Collection) (doc : Document) : Except String Collection :=
  match clash? c.uniqueIndexes c.documents doc with
  | some index => .error (clashText doc index)
  | none => .ok { c with documents := c.documents ++ [doc] }

/-- Replace the document at a position, unless the new one agrees with another one on an index. -/
def replace (c : Collection) (position : Nat) (doc : Document) : Except String Collection :=
  match clash? c.uniqueIndexes (c.documents.eraseIdx position) doc with
  | some index => .error (clashText doc index)
  | none => .ok { c with documents := c.documents.set position doc }

/-- The position of the first document that a filter accepts. -/
def position? (c : Collection) (filter : Filter) : Option Nat :=
  c.documents.findIdx? fun doc => filter.holds doc

/-- Add a unique index, once. -/
def addIndex (c : Collection) (index : List String) : Collection :=
  if index ∈ c.uniqueIndexes then c
  else { c with uniqueIndexes := c.uniqueIndexes ++ [index] }

end Collection

/-- Collections by name. -/
abbrev Database := NameMap Collection

namespace Database

/-- The collection with the given name; one that does not exist is empty. -/
def collection (db : Database) (name : String) : Collection :=
  (NameMap.get? db name).getD .empty

/-- The names of all collections, in order. -/
def collectionNames (db : Database) : List String :=
  db.map (·.1)

/-- The documents of a collection that a filter accepts, in order. -/
def find (db : Database) (name : String) (filter : Filter) : List Document :=
  (collection db name).documents.filter fun doc => filter.holds doc

/-- The first document that a filter accepts. -/
def findOne (db : Database) (name : String) (filter : Filter) : Option Document :=
  (collection db name).documents.find? fun doc => filter.holds doc

/-- A failed write. -/
def duplicateKey (name : String) : Except String Collection → Except BackendError Collection
  | .ok c => .ok c
  | .error key => .error (.duplicateKey name key)

/-- Add a document to a collection, which is made if it does not exist. -/
def insertOne (db : Database) (name : String) (doc : Document) : Except BackendError Database :=
  (duplicateKey name ((collection db name).insert doc)).map fun c => db.insert name c

/-- Replace the first document that a filter accepts, and tell whether there is one. -/
def replaceOne (db : Database) (name : String) (filter : Filter) (doc : Document) :
    Except BackendError (Bool × Database) :=
  let c := collection db name
  match c.position? filter with
  | none => .ok (false, db)
  | some position =>
      (duplicateKey name (c.replace position doc)).map fun c => (true, db.insert name c)

/-- Remove the first document that a filter accepts, and return it. -/
def findOneAndDelete (db : Database) (name : String) (filter : Filter) :
    Option Document × Database :=
  let c := collection db name
  match c.position? filter with
  | none => (none, db)
  | some position =>
      (c.documents[position]?,
        db.insert name { c with documents := c.documents.eraseIdx position })

/-- Make a collection, if it does not exist. -/
def createCollection (db : Database) (name : String) : Database :=
  db.insert name (collection db name)

/-- Add a unique index to a collection, which is made if it does not exist. -/
def createUniqueIndex (db : Database) (name : String) (index : List String) : Database :=
  db.insert name ((collection db name).addIndex index)

/-- Remove a collection with its documents and indexes. -/
def dropCollection (db : Database) (name : String) : Database :=
  NameMap.erase db name

end Database
end DocumentTables
