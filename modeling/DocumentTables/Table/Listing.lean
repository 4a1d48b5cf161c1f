import DocumentTables.Table.Basic

/-!
# Listings

A listing knows the keys of its documents from the start and fetches each document when it is asked
for the next one.  A document that has vanished, or that could not be fetched, leaves a gap.
-/

namespace DocumentTables

/-- The keys whose documents are still to come. -/
structure Listing where
  keys : List PrimaryKey
deriving Inhabited

namespace Listing

variable {σ : Type}

/-- List the documents of a table that a filter accepts. -/
def ofFilter (m : ConnectionManager σ) (filter : Filter) : TableAction σ Listing := do
  return ⟨← Table.selectKeys m filter⟩

/-- The document with a key, or a gap. -/
def document (m : ConnectionManager σ) (key : PrimaryKey) : TableAction σ (Option Document) :=
  tryCatch (Table.select m key) fun _ => pure none

/-- The next document and the rest of the listing, unless it is at its end. -/
def next? (m : ConnectionManager σ) (l : Listing) :
    TableAction σ (Option (Option Document × Listing)) :=
  match l.keys with
  | [] => pure none
  | key :: keys => do
      let doc ← document m key
      return some (doc, ⟨keys⟩)

/-- All documents that are still to come. -/
def collect (m : ConnectionManager σ) (l : Listing) : TableAction σ (List (Option Document)) :=
  l.keys.mapM (document m)

/-- The listing of a table's documents as diagnostics show it. -/
def describe (l : Listing) (table : String) : String :=
  Text.record "LazyResults"
    [("table", Text.quoted table), ("remaining", toString l.keys.length)]

end Listing
end DocumentTables
