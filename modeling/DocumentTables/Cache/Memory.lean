import DocumentTables.Cache.Stats
import DocumentTables.Key.Basic

/-!
# The cache in memory

The store is a hash table with one document for each key, where keys that are alike are one.
-/

namespace DocumentTables

/-- The entries of a store in memory, and what it counted. -/
structure MemoryCache where
  entries : List (PrimaryKey × Document)
  counters : CacheCounters
deriving Inhabited

namespace MemoryCache

/-- A store without entries. -/
def empty : MemoryCache := ⟨[], .zero⟩

/-- The document held for a key. -/
def find? (c : MemoryCache) (key : PrimaryKey) : Option Document :=
  (c.entries.find? fun entry => entry.1.alike key).map (·.2)

/-- The entries with a document for a key, in the place of the one held before. -/
def replace : List (PrimaryKey × Document) → PrimaryKey → Document → List (PrimaryKey × Document)
  | [], key, doc => [(key, doc)]
  | (k, d) :: rest, key, doc =>
      if k.alike key then (k, doc) :: rest else (k, d) :: replace rest key doc

/-- Ask for the document of a key. -/
def get (c : MemoryCache) (key : PrimaryKey) : Option Document × MemoryCache :=
  match c.find? key with
  | some doc => (some doc, { c with counters := c.counters.hit })
  | none => (none, { c with counters := c.counters.miss })

/-- Hold a document for a key. -/
def put (c : MemoryCache) (key : PrimaryKey) (doc : Document) : MemoryCache :=
  { c with entries := replace c.entries key doc }

/-- Forget the document of a key, which counts only if there is one. -/
def remove (c : MemoryCache) (key : PrimaryKey) : MemoryCache :=
  match c.find? key with
  | some _ =>
      { entries := c.entries.filter fun entry => !entry.1.alike key, counters := c.counters.evict }
  | none => c

/-- Forget all documents; the counters stay. -/
def clear (c : MemoryCache) : MemoryCache :=
  { c with entries := [] }

/-- The number of documents held. -/
def size (c : MemoryCache) : Nat := c.entries.length

/-- The statistics of the store. -/
def stats (c : MemoryCache) : CacheStats := .ofCounters c.counters c.size

end MemoryCache
end DocumentTables
