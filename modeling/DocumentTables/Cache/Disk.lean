import DocumentTables.Cache.Stats
import DocumentTables.Digest.Sha256
import DocumentTables.Error
import DocumentTables.Files.Calls
import DocumentTables.Json.Reader
import DocumentTables.Key.Basic
import DocumentTables.Text.Blank
import DocumentTables.Text.Identifier

/-!
# The cache on disk

The store of a table is a directory below the cache root with one file for each key.  The name of a
file is a readable part of the key's canonical text and, since that may agree for different keys, a
part of its digest.  The file holds the JSON text of the document.

A document is written to a temporary file in the directory, which is then renamed to the entry.  A
temporary file that cannot be renamed is removed, one that cannot be written to its end is not.
Before a directory is removed the links in it are removed.
-/

namespace DocumentTables

/-- A store on disk: its directory, the number of the process that uses it, what it counted, and how
many temporary files it has named, a number of 64 bits. -/
structure DiskCache where
  directory : String
  process : Nat
  counters : CacheCounters
  temporaries : Nat
deriving DecidableEq, Repr, Inhabited

namespace DiskCache

/-- The longest readable part of a file name, in characters of one byte. -/
def maxReadable : Nat := 120

/-- The number of digest digits in a file name. -/
def digestDigits : Nat := 16

/-- The name of a key's file without its extension. -/
def fileStem (key : PrimaryKey) : String :=
  let canonical := key.canonicalText
  let readable := (Text.collapse Text.isFileChar canonical.toList).take maxReadable
  String.ofList (readable ++ '-' :: (Sha256.ofText canonical).take digestDigits)

/-- The store of a table below a cache root.  Files that are there already belong to it. -/
def ofTable (root table : String) (process : Nat) : DiskCache :=
  ⟨FilePath.join root (Text.fileSafe table), process, .zero, 0⟩

/-- The file that holds the document of a key. -/
def entryPath (c : DiskCache) (key : PrimaryKey) : String :=
  FilePath.join c.directory (fileStem key ++ ".json")

/-- The next temporary file for a key. -/
def temporaryPath (c : DiskCache) (key : PrimaryKey) : String :=
  FilePath.join c.directory
    ("." ++ fileStem key ++ "." ++ toString c.process ++ "." ++ toString c.temporaries ++ ".tmp")

/-- A failed call on a path. -/
def ioError (path : String) (e : FileError) : CacheError :=
  .io path e.message

/-- Ask for the document of a key.  A blank file counts as none. -/
def get (c : DiskCache) (files : FileTree) (key : PrimaryKey) :
    Except CacheError (Option Document) × DiskCache :=
  let path := c.entryPath key
  match files.readText path with
  | .error .notFound => (.ok none, { c with counters := c.counters.miss })
  | .error e => (.error (ioError path e), c)
  | .ok text =>
      if Text.allBlank text then (.ok none, { c with counters := c.counters.miss })
      else
        match Document.ofText? text with
        | some doc => (.ok (some doc), { c with counters := c.counters.hit })
        | none => (.error (.serialization (path ++ ": the file does not hold a document")), c)

/-- Give a complete temporary file the name of its entry, or remove it if that fails. -/
def publishOn (faults : DeviceFaults) (files : FileTree) (temporary entry : String) :
    Except CacheError Unit × FileTree :=
  match files.renameOn faults temporary entry with
  | .ok files => (.ok (), files)
  | .error e =>
      match files.removeFileOn faults temporary with
      | .ok files => (.error (ioError entry e), files)
      | .error _ => (.error (ioError entry e), files)

/-- Give a temporary file the name of its entry on a device without faults. -/
def publish (files : FileTree) (temporary entry : String) : Except CacheError Unit × FileTree :=
  publishOn .none files temporary entry

theorem publish_eq
    (files : FileTree) (temporary entry : String) :
    publish files temporary entry =
      match files.rename temporary entry with
      | .ok files => (.ok (), files)
      | .error e =>
          match files.removeFile temporary with
          | .ok files => (.error (ioError entry e), files)
          | .error _ => (.error (ioError entry e), files) := by
  simp only [publish, publishOn, FileTree.renameOn_none, FileTree.removeFileOn_none]

/-- Hold a document for a key, on a device with the given faults. -/
def putOn (faults : DeviceFaults) (c : DiskCache) (files : FileTree) (key : PrimaryKey)
    (doc : Document) : Except CacheError Unit × DiskCache × FileTree :=
  match files.createDirectoriesOn faults c.directory with
  | (.error e, files) => (.error (ioError c.directory e), c, files)
  | (.ok (), files) =>
      let temporary := c.temporaryPath key
      let c := { c with temporaries := (c.temporaries + 1) % Nat.pow 2 64 }
      match files.writeFileOn faults temporary (Document.text doc).toUTF8 with
      | (.error e, files) => (.error (ioError temporary e), c, files)
      | (.ok (), files) =>
          let (result, files) := publishOn faults files temporary (c.entryPath key)
          (result, c, files)

/-- Hold a document for a key. -/
def put (c : DiskCache) (files : FileTree) (key : PrimaryKey) (doc : Document) :
    Except CacheError Unit × DiskCache × FileTree :=
  c.putOn .none files key doc

/-- Forget the document of a key, which counts only if there is one. -/
def remove (c : DiskCache) (files : FileTree) (key : PrimaryKey) :
    Except CacheError Unit × DiskCache × FileTree :=
  let path := c.entryPath key
  match files.removeFile path with
  | .ok files => (.ok (), { c with counters := c.counters.evict }, files)
  | .error .notFound => (.ok (), c, files)
  | .error e => (.error (ioError path e), c, files)

/-- Forget all documents: remove the links in the directory and then the directory.  If the directory
itself cannot be removed, what was in it is gone all the same. -/
def clear (c : DiskCache) (files : FileTree) : Except CacheError Unit × FileTree :=
  if files.isPresent c.directory then
    match files.removeLinks c.directory with
    | (.error e, files) => (.error (ioError c.directory e), files)
    | (.ok (), files) =>
        match files.removeDirectory c.directory with
        | (.ok (), files) => (.ok (), files)
        | (.error .notFound, files) => (.ok (), files)
        | (.error e, files) => (.error (ioError c.directory e), files)
  else (.ok (), files)

/-- The number of entries: of names in the directory with the extension `json`. -/
def size (c : DiskCache) (files : FileTree) : Nat :=
  match files.list c.directory with
  | .ok names => (names.filter fun name => FilePath.extension? name == some "json").length
  | .error _ => 0

/-- The statistics of the store. -/
def stats (c : DiskCache) (files : FileTree) : CacheStats :=
  .ofCounters c.counters (c.size files)

end DiskCache
end DocumentTables
