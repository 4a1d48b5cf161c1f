import DocumentTables.Config.CacheStrategy
import DocumentTables.Config.ConnectionParameters
import DocumentTables.Config.RetryPolicy
import DocumentTables.Files.Calls
import DocumentTables.Toml.Reader

/-!
# Settings

The settings of a process are the parameters of its connection, its retry policy and its cache.  They
are read from a TOML text, where the parameters are required and the rest has defaults.  Unknown
entries are ignored.  A group of settings is a table, or the array of its members in order.
-/

namespace DocumentTables

/-- Where answers are kept, and the directory of those on disk. -/
structure CacheSettings where
  strategy : CacheStrategy
  root : String
deriving DecidableEq, Repr, Inhabited

namespace CacheSettings

/-- The name of the cache directory below the directory for temporary files. -/
def directoryName : String := "tabula-db-cache"

/-- The cache directory if none is given. -/
def defaultRoot (temporary : String) : String := FilePath.join temporary directoryName

/-- No cache. -/
def default (temporary : String) : CacheSettings := ⟨.none, defaultRoot temporary⟩

end CacheSettings

/-- All settings of a process. -/
structure Settings where
  database : ConnectionParameters
  retry : RetryPolicy
  cache : CacheSettings
deriving DecidableEq, Repr, Inhabited

namespace Settings

/-- The members of a group, by name. -/
abbrev Members := String → Option Toml.Value

/-- The members of a group whose names are given in order: a table has them by name, an array by
place, and a date has none. -/
def members? (names : List String) : Toml.Value → Option Members
  | .table entries => some fun name => entries.lookup name
  | .array items => some fun name => (names.zip items).lookup name
  | .date => some fun _ => none
  | _ => none

/-- A text. -/
def text? : Toml.Value → Option String
  | .string s => some s
  | _ => none

/-- A whole number from zero up to a limit. -/
def natural? (limit : Nat) : Toml.Value → Option Nat
  | .integer n => if 0 ≤ n ∧ n ≤ limit then some n.toNat else none
  | _ => none

/-- A strategy: its name, or a table with that name alone and nothing in it. -/
def strategy? : Toml.Value → Option CacheStrategy
  | .string name => CacheStrategy.ofName? name
  | .table [(name, .table [])] => CacheStrategy.ofName? name
  | .table [(name, .array [])] => CacheStrategy.ofName? name
  | _ => none

/-- A member that may be missing. -/
def optional {α : Type} (read : Toml.Value → Option α) (default : α) : Option Toml.Value → Option α
  | some value => read value
  | none => some default

/-- The parameters of a connection. -/
def database? (value : Toml.Value) : Option ConnectionParameters := do
  let member ← members? ["host", "port", "database", "username", "password"] value
  let host ← (member "host").bind text?
  let port ← (member "port").bind (natural? Numeral.max16)
  let database ← (member "database").bind text?
  let username ← (member "username").bind text?
  let password ← (member "password").bind text?
  return { host, port, database, username, password }

/-- A retry policy, with its delay in whole seconds. -/
def retry? (value : Toml.Value) : Option RetryPolicy := do
  let member ← members? ["max_attempts", "initial_delay"] value
  let attempts ← (member "max_attempts").bind (natural? Numeral.max32)
  let seconds ← (member "initial_delay").bind (natural? Numeral.max64)
  return ⟨attempts, Duration.ofSeconds seconds⟩

/-- The settings of a cache. -/
def cache? (temporary : String) (value : Toml.Value) : Option CacheSettings := do
  let member ← members? ["strategy", "root"] value
  let strategy ← optional strategy? .none (member "strategy")
  let root ← optional text? (CacheSettings.defaultRoot temporary) (member "root")
  return ⟨strategy, root⟩

/-- The settings in the entries of a document. -/
def ofEntries? (temporary : String) (entries : Toml.Entries) : Option Settings := do
  let database ← (entries.lookup "database").bind database?
  let retry ← optional retry? RetryPolicy.default (entries.lookup "retry")
  let cache ← optional (cache? temporary) (CacheSettings.default temporary) (entries.lookup "cache")
  return ⟨database, retry, cache⟩

/-- The settings that a text gives, with a valid retry policy. -/
def ofText (temporary text : String) : Except ConfigError Settings :=
  match (Toml.entriesOfText? text).bind (ofEntries? temporary) with
  | none => .error (.parse "the text does not give the settings")
  | some settings => settings.retry.validate.map fun _ => settings

/-- The settings that a file gives.  A file that cannot be read is no settings text. -/
def ofFile (temporary : String) (files : FileTree) (path : String) : Except ConfigError Settings :=
  match files.readText path with
  | .error e => .error (.parse (path ++ ": " ++ e.message))
  | .ok text => ofText temporary text

end Settings
end DocumentTables
