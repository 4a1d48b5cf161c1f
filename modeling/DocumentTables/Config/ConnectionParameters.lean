import DocumentTables.Config.Environment

/-!
# Connection parameters

A backend is reached at a host and port, and a database on it is opened with a user's name and
password.  Every parameter is required.
-/

namespace DocumentTables

/-- How to reach and open a database. -/
structure ConnectionParameters where
  host : String
  port : Nat
  database : String
  username : String
  password : String
deriving DecidableEq, Repr, Inhabited

namespace ConnectionParameters

/-- A letter of an application's name inside a variable's name. -/
def variableChar (c : Char) : Char :=
  if c = '-' ∨ c = '.' ∨ c = ' ' then '_' else c.toUpper

/-- The name of an application's own variable. -/
def applicationVariable (application suffix : String) : String :=
  "TABULA_DB_" ++ String.ofList (application.toList.map variableChar) ++ suffix

/-- The variable with the name of the host. -/
def hostVariable : String := "TABULA_DB_HOST"

/-- The variable with the number of the port. -/
def portVariable : String := "TABULA_DB_PORT"

/-- The variable with the name of the database. -/
def databaseVariable : String := "TABULA_DB_NAME"

/-- The variable with the user's name for an application. -/
def userVariable (application : String) : String := applicationVariable application "_USER"

/-- The variable with the password for an application. -/
def passwordVariable (application : String) : String := applicationVariable application "_PASSWORD"

/-- The parameters of an application.  The port is looked at first. -/
def ofEnvironment (application : String) (env : Environment) :
    Except ConfigError ConnectionParameters := do
  let port ← Environment.readNumeral portVariable Numeral.max16 (← env.required portVariable)
  let host ← env.required hostVariable
  let database ← env.required databaseVariable
  let username ← env.required (userVariable application)
  let password ← env.required (passwordVariable application)
  return { host, port, database, username, password }

/-- The parameters as diagnostics show them, without the password. -/
def describe (p : ConnectionParameters) : String :=
  Text.record "DbConfig"
    [("host", Text.quoted p.host), ("port", toString p.port), ("database", Text.quoted p.database),
      ("username", Text.quoted p.username), ("password", Text.quoted "<redacted>")]

end ConnectionParameters
end DocumentTables
