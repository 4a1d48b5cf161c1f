import DocumentTables.Error
import DocumentTables.Text.Blank

/-!
# Cache strategies

The answers of point look-ups are kept nowhere, in memory, or on disk with one file per key.
-/

namespace DocumentTables

/-- Where answers are kept. -/
inductive CacheStrategy where
  | none
  | memory
  | disk
deriving DecidableEq, Repr, Inhabited

namespace CacheStrategy

/-- The name of a strategy in settings. -/
def name : CacheStrategy → String
  | .none => "none"
  | .memory => "memory"
  | .disk => "disk"

/-- The strategy with exactly the given name. -/
def ofName? (name : String) : Option CacheStrategy :=
  [CacheStrategy.none, .memory, .disk].find? fun strategy => strategy.name == name

/-- The strategy that a text names; the case of ASCII letters and white space around the name do not
matter. -/
def ofText (text : String) : Except ConfigError CacheStrategy :=
  let name := String.ofList ((Text.trimChars text.toList).map Char.toLower)
  match ofName? name with
  | some strategy => .ok strategy
  | Option.none => .error (.invalidValue "cache.strategy" name "expected one of none, memory, disk")

/-- The strategy as diagnostics show it. -/
def describe : CacheStrategy → String
  | .none => "None"
  | .memory => "Memory"
  | .disk => "Disk"

end CacheStrategy
end DocumentTables
