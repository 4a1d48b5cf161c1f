import DocumentTables.Config.ConnectionParameters
import DocumentTables.Key.Basic

/-!
# Samples

Documents, keys and connection parameters to try tables with.
-/

namespace DocumentTables
namespace Sample

/-- Parameters that a backend without required credentials accepts. -/
def parameters : ConnectionParameters :=
  { host := "localhost", port := 27017, database := "tabula_test", username := "tabula"
    password := "tabula" }

/-- A layer, with its identity in one field. -/
def layer (id : String) (enabled : Bool) : Document :=
  NameMap.ofList
    [("id", .string id), ("enabled", .bool enabled), ("title", .string ("Layer " ++ id)),
      ("abstract", .string "Fixture layer")]

/-- The identity object of metadata. -/
def metadataId (datatype id : String) : Fields :=
  NameMap.ofList [("datatype", .string datatype), ("id", .string id)]

/-- Metadata, with its identity in an object. -/
def metadata (datatype id : String) : Document :=
  NameMap.ofList
    [("id", .object (metadataId datatype id)), ("title", .string (datatype ++ " " ++ id))]

/-- A download with a nested source. -/
def download (id : String) (enabled : Bool) : Document :=
  NameMap.ofList
    [("id", .string id), ("enabled", .bool enabled),
      ("source", .object (NameMap.ofList
        [("type", .string "wms"), ("url", .string ("https://example.org/" ++ id))]))]

/-- Four downloads that are enabled and one that is not. -/
def downloads : List Document :=
  [download "d1" true, download "d2" true, download "d3" false, download "d4" true,
    download "d5" true]

/-- The key of a document with its identity in one field. -/
def singleKey (id : String) : PrimaryKey :=
  .single "id" (.string id)

/-- The key of metadata. -/
def metadataKey (datatype id : String) : PrimaryKey :=
  .composite "id" (metadataId datatype id)

end Sample
end DocumentTables
