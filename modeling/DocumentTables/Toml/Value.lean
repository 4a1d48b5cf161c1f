/-!
# TOML values

Settings are read from TOML.  No setting is a fraction or a date, so of these only the kind is kept.
-/

namespace DocumentTables
namespace Toml

/-- A TOML value. -/
inductive Value where
  | string (s : String)
  | integer (n : Int)
  | float
  | boolean (b : Bool)
  | date
  | array (items : List Value)
  | table (entries : List (String × Value))
deriving Repr, Inhabited

/-- The named entries of a table. -/
abbrev Entries := List (String × Value)

end Toml
end DocumentTables
