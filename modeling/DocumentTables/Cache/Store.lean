import DocumentTables.Cache.Disk
import DocumentTables.Cache.Memory
import DocumentTables.Config.CacheStrategy

/-!
# Cache stores

A table owns one store, chosen by its strategy.  A store answers questions for keys, holds and forgets
documents, and keeps statistics.  Only a store on disk looks at files.
-/

namespace DocumentTables

/-- The store of a table. -/
inductive Cache where
  | none
  | memory (store : MemoryCache)
  | disk (store : DiskCache)
deriving Inhabited

namespace Cache

/-- The store for a strategy.  The root, the table and the process matter only on disk. -/
def ofStrategy (strategy : CacheStrategy) (root table : String) (process : Nat) : Cache :=
  match strategy with
  | .none => .none
  | .memory => .memory .empty
  | .disk => .disk (DiskCache.ofTable root table process)

/-- The strategy that a store follows. -/
def strategy : Cache → CacheStrategy
  | .none => .none
  | .memory _ => .memory
  | .disk _ => .disk

/-- Ask for the document of a key. -/
def get (c : Cache) (files : FileTree) (key : PrimaryKey) :
    Except CacheError (Option Document) × Cache :=
  match c with
  | .none => (.ok Option.none, .none)
  | .memory store =>
      let (found, store) := store.get key
      (.ok found, .memory store)
  | .disk store =>
      let (found, store) := store.get files key
      (found, .disk store)

/-- Hold a document for a key. -/
def put (c : Cache) (files : FileTree) (key : PrimaryKey) (doc : Document) :
    Except CacheError Unit × Cache × FileTree :=
  match c with
  | .none => (.ok (), .none, files)
  | .memory store => (.ok (), .memory (store.put key doc), files)
  | .disk store =>
      let (result, store, files) := store.put files key doc
      (result, .disk store, files)

/-- Forget the document of a key. -/
def remove (c : Cache) (files : FileTree) (key : PrimaryKey) :
    Except CacheError Unit × Cache × FileTree :=
  match c with
  | .none => (.ok (), .none, files)
  | .memory store => (.ok (), .memory (store.remove key), files)
  | .disk store =>
      let (result, store, files) := store.remove files key
      (result, .disk store, files)

/-- Forget all documents. -/
def clear (c : Cache) (files : FileTree) : Except CacheError Unit × Cache × FileTree :=
  match c with
  | .none => (.ok (), .none, files)
  | .memory store => (.ok (), .memory store.clear, files)
  | .disk store =>
      let (result, files) := store.clear files
      (result, .disk store, files)

/-- The statistics of a store; without a cache there are none. -/
def stats (c : Cache) (files : FileTree) : CacheStats :=
  match c with
  | .none => .zero
  | .memory store => store.stats
  | .disk store => store.stats files

end Cache
end DocumentTables
