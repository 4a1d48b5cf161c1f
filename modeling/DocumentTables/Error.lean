import DocumentTables.Text.Quoted

/-!
# Errors

An error is a cause with the values that its message names.  Each kind of error has one function that
writes its message, and one that gives the name of the part that failed and of the cause.
-/

namespace DocumentTables

/-- A failure of the document backend. -/
inductive BackendError where
  | connection (host : String) (port : Nat) (reason : String)
  | unauthorized (username : String)
  | duplicateKey (collection : String) (key : String)
  | transient (reason : String)
  | resourceExhausted (reason : String)
deriving DecidableEq, Repr

/-- A key or document that no backend is asked about. -/
inductive ValidationError where
  | invalidKeyCharacters (field : String) (value : String)
  | unsupportedKeyValue (field : String) (kind : String)
  | missingKeyField (field : String)
  | missingSubField (parent : String) (field : String)
  | notAnObject (field : String) (kind : String)
  | emptyCompositeKey (field : String)
deriving DecidableEq, Repr

/-- A setting that is missing or wrong. -/
inductive ConfigError where
  | missingRequired (field : String)
  | invalidValue (field : String) (value : String) (reason : String)
  | parse (reason : String)
deriving DecidableEq, Repr

/-- A failure of a cache store. -/
inductive CacheError where
  | io (path : String) (reason : String)
  | serialization (reason : String)
  | lockPoisoned
deriving DecidableEq, Repr

/-- Any failure of an operation. -/
inductive Error where
  | backend (cause : BackendError)
  | retriesExhausted (attempts : Nat) (cause : BackendError)
  | validation (cause : ValidationError)
  | config (cause : ConfigError)
  | cache (cause : CacheError)
deriving DecidableEq, Repr

/-- The one failure of a backend that is never retried. -/
def BackendError.isResourceExhaustion : BackendError → Bool
  | .resourceExhausted _ => true
  | _ => false

def BackendError.name : BackendError → String
  | .connection .. => "Backend.Connection"
  | .unauthorized .. => "Backend.Unauthorized"
  | .duplicateKey .. => "Backend.DuplicateKey"
  | .transient .. => "Backend.Transient"
  | .resourceExhausted .. => "Backend.ResourceExhausted"

def ValidationError.name : ValidationError → String
  | .invalidKeyCharacters .. => "Validation.InvalidKeyCharacters"
  | .unsupportedKeyValue .. => "Validation.UnsupportedKeyValue"
  | .missingKeyField .. => "Validation.MissingKeyField"
  | .missingSubField .. => "Validation.MissingSubField"
  | .notAnObject .. => "Validation.NotAnObject"
  | .emptyCompositeKey .. => "Validation.EmptyCompositeKey"

def ConfigError.name : ConfigError → String
  | .missingRequired .. => "Config.MissingRequired"
  | .invalidValue .. => "Config.InvalidValue"
  | .parse .. => "Config.Parse"

def CacheError.name : CacheError → String
  | .io .. => "Cache.Io"
  | .serialization .. => "Cache.Serialization"
  | .lockPoisoned => "Cache.LockPoisoned"

/-- The name of an error. When all attempts failed, it does not tell the cause of the last one. -/
def Error.name : Error → String
  | .backend cause => cause.name
  | .retriesExhausted .. => "RetriesExhausted"
  | .validation cause => cause.name
  | .config cause => cause.name
  | .cache cause => cause.name

def BackendError.message : BackendError → String
  | .connection host port reason =>
      "Connection to " ++ host ++ ":" ++ toString port ++ " failed: " ++ reason
  | .unauthorized username => "Authentication rejected for user " ++ username
  | .duplicateKey collection key => "Duplicate key in " ++ collection ++ ": " ++ key
  | .transient reason => "Transient backend failure: " ++ reason
  | .resourceExhausted reason => "Resource exhausted: " ++ reason

def ValidationError.message : ValidationError → String
  | .invalidKeyCharacters field value =>
      "Invalid characters in key field " ++ field ++ ": " ++ Text.quoted value
  | .unsupportedKeyValue field kind => "Unsupported value for key field " ++ field ++ ": " ++ kind
  | .missingKeyField field => "Document is missing key field: " ++ field
  | .missingSubField parent field =>
      "Key field " ++ parent ++ " is missing declared sub-field: " ++ field
  | .notAnObject field kind => "Key field " ++ field ++ " must be an object, got " ++ kind
  | .emptyCompositeKey field => "Composite key field " ++ field ++ " declares no sub-fields"

def ConfigError.message : ConfigError → String
  | .missingRequired field => "Missing required configuration field: " ++ field
  | .invalidValue field value reason =>
      "Invalid value for " ++ field ++ ": " ++ value ++ " - " ++ reason
  | .parse reason => "Failed to parse configuration: " ++ reason

def CacheError.message : CacheError → String
  | .io path reason => "Cache I/O error at " ++ path ++ ": " ++ reason
  | .serialization reason => "Cache serialization error: " ++ reason
  | .lockPoisoned => "Cache lock poisoned"

/-- The message of an error names the part of the system that failed. -/
def Error.message : Error → String
  | .backend cause => "Backend error: " ++ cause.message
  | .retriesExhausted attempts cause =>
      "Backend operation failed after " ++ toString attempts ++ " attempts: " ++ cause.message
  | .validation cause => "Validation error: " ++ cause.message
  | .config cause => "Config error: " ++ cause.message
  | .cache cause => "Cache error: " ++ cause.message

end DocumentTables
