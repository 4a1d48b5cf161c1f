import DocumentTables.Config.Numeral
import DocumentTables.Error
import DocumentTables.Text.Blank

/-!
# Settings from variables

Settings come from named variables.  A required variable must be set to a text that is not blank; a
numeral may have white space around it.
-/

namespace DocumentTables

/-- What a process knows of its variables: the text of each one that is set. -/
abbrev Environment := String → Option String

namespace Environment

/-- The variables of a list; of one name the last counts. -/
def ofList (vars : List (String × String)) : Environment :=
  fun name => vars.reverse.lookup name

/-- The text of a variable that must be set and not blank. -/
def required (env : Environment) (name : String) : Except ConfigError String :=
  match env name with
  | some text => if Text.allBlank text then .error (.missingRequired name) else .ok text
  | none => .error (.missingRequired name)

/-- The number that the text of a variable denotes, apart from white space around it. -/
def readNumeral (name : String) (limit : Nat) (text : String) : Except ConfigError Nat :=
  match Numeral.read limit (Text.trimChars text.toList) with
  | .ok n => .ok n
  | .error e => .error (.invalidValue name text e.message)

/-- The number in a variable, or a default if the variable is not set. -/
def numeralOr (env : Environment) (name : String) (limit default : Nat) : Except ConfigError Nat :=
  match env name with
  | none => .ok default
  | some text => readNumeral name limit text

end Environment
end DocumentTables
