import DocumentTables.Toml.Value

/-!
# TOML documents

A document is a sequence of sections.  Each section has a header, apart from the first, and
assignments to dotted keys.  The sections together define one table: a table is defined by one header
at most, by the headers of tables inside it, or by dotted keys, and no key is assigned twice.
-/

namespace DocumentTables
namespace Toml

/-- How a table came about. -/
inductive Origin where
  /-- It has a header or is the whole document. -/
  | header
  /-- A header of a table inside it names it. -/
  | parent
  /-- Dotted keys of one section name it. -/
  | dotted
deriving DecidableEq, Repr

/-- A part of a document while its sections are put together. -/
inductive Node where
  | value (v : Value)
  | table (origin : Origin) (entries : List (String × Node))
  /-- The tables under one header in double brackets, the last one first. -/
  | tables (last : List (String × Node)) (before : List (List (String × Node)))

/-- The named parts of a table. -/
abbrev Nodes := List (String × Node)

/-- An assignment to a dotted key. -/
structure Assignment where
  path : List String
  key : String
  value : Value

/-- The header of a section. -/
inductive Header where
  | table (path : List String) (key : String)
  | element (path : List String) (key : String)

/-- A header and the assignments under it. -/
structure Section where
  header : Header
  assignments : List Assignment

namespace Nodes

/-- Replace what a key names, or add it at the end. -/
def put : Nodes → String → Node → Nodes
  | [], key, node => [(key, node)]
  | (k, n) :: rest, key, node => if k = key then (k, node) :: rest else (k, n) :: put rest key node

/-- Change the table at a path below a table, if `step` can.  Missing tables on the way are made, with
the given origin.  Dotted keys do not lead into a table that has a header. -/
def update (origin : Origin) (step : Origin → Nodes → Option Nodes) :
    Origin → List String → Nodes → Option Nodes
  | here, [], entries => step here entries
  | _, key :: path, entries =>
      match entries.lookup key with
      | none => (update origin step origin path []).map fun inner => put entries key (.table origin inner)
      | some (.value _) => none
      | some (.table o inner) =>
          if origin = .dotted ∧ o = .header then none
          else (update origin step o path inner).map fun inner => put entries key (.table o inner)
      | some (.tables last before) =>
          (update origin step .header path last).map fun last => put entries key (.tables last before)

/-- Add an assignment to the table of its section.  The table that a dotted key leads to must have
come about by dotted keys. -/
def assign (entries : Nodes) (a : Assignment) : Option Nodes :=
  update .dotted
    (fun origin inner =>
      if (origin = .dotted ↔ a.path = []) ∨ (inner.lookup a.key).isSome then none
      else some (put inner a.key (.value a.value)))
    .header a.path entries

/-- Add the assignments of a section to its table. -/
def assignAll (entries : Nodes) (as : List Assignment) : Option Nodes :=
  as.foldlM assign entries

/-- Add a section to a document.  A table with a header may have come about before only by the headers
of tables inside it. -/
def addSection (root : Nodes) (s : Section) : Option Nodes :=
  match s.header with
  | .table path key =>
      update .parent
        (fun _ entries =>
          match entries.lookup key with
          | none => (assignAll [] s.assignments).map fun inner => put entries key (.table .header inner)
          | some (.table .parent inner) =>
              (assignAll inner s.assignments).map fun inner => put entries key (.table .header inner)
          | some _ => none)
        .header path root
  | .element path key =>
      update .parent
        (fun _ entries =>
          match entries.lookup key with
          | none => (assignAll [] s.assignments).map fun inner => put entries key (.tables inner [])
          | some (.tables last before) =>
              (assignAll [] s.assignments).map fun inner =>
                put entries key (.tables inner (last :: before))
          | some _ => none)
        .header path root

end Nodes

/-- The table of an inline table's assignments: like a section, but complete in itself. -/
def inlineNodes (as : List Assignment) : Option Nodes :=
  Nodes.assignAll [] as

mutual

/-- The value that a part of a document has in the end. -/
def Node.toValue : Node → Value
  | .value v => v
  | .table _ entries => .table (Node.toEntries entries)
  | .tables last before => .array (Node.toTables before [.table (Node.toEntries last)])

/-- The entries of a table. -/
def Node.toEntries : List (String × Node) → List (String × Value)
  | [] => []
  | (key, node) :: rest => (key, node.toValue) :: Node.toEntries rest

/-- The tables under one header, in the order of the document, in front of the given ones. -/
def Node.toTables : List (List (String × Node)) → List Value → List Value
  | [], after => after
  | entries :: before, after => Node.toTables before (.table (Node.toEntries entries) :: after)

end

/-- The entries of the table that assignments without a header and sections define. -/
def assemble (assignments : List Assignment) (sections : List Section) : Option Entries := do
  let root ← Nodes.assignAll [] assignments
  let nodes ← sections.foldlM Nodes.addSection root
  return Node.toEntries nodes

/-- The inline table with the given assignments. -/
def inlineTable? (as : List Assignment) : Option Value :=
  (inlineNodes as).map fun nodes => .table (Node.toEntries nodes)

end Toml
end DocumentTables
