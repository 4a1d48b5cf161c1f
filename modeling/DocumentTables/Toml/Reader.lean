import DocumentTables.Toml.Document
import DocumentTables.Toml.Scalar

/-!
# Reading TOML

A text is read into assignments and sections, and these define its table.  Arrays and inline tables
are nested less than `nestingLimit` deep, and a dotted key has fewer parts than that.
-/

namespace DocumentTables
namespace Toml

/-- The limit of nesting. -/
def nestingLimit : Nat := 80

/-! ## Keys -/

/-- A character of a bare key. -/
def isBareKeyChar (c : Char) : Bool :=
  c.isAlphanum || c == '_' || c == '-'

/-- One part of a key: bare or in quotes. -/
def scanKeyPart : Scan (List Char)
  | '"' :: rest => scanBasic rest
  | '\'' :: rest => scanLiteral rest
  | cs =>
      match cs.takeWhile isBareKeyChar with
      | [] => none
      | part => some (part, cs.dropWhile isBareKeyChar)

/-- The parts of a key between points, with white space around them. The number bounds the parts. -/
def scanKeyParts : Nat → Scan (List String)
  | 0, _ => none
  | fuel + 1, cs =>
      match scanKeyPart (skipLineSpace cs) with
      | none => none
      | some (part, rest) =>
          match skipLineSpace rest with
          | '.' :: rest =>
              (scanKeyParts fuel rest).map fun (parts, rest) => (String.ofList part :: parts, rest)
          | rest => some ([String.ofList part], rest)

/-- A key: the path of all its parts but the last, and the last. -/
def scanKey (cs : List Char) : Option ((List String × String) × List Char) := do
  let (parts, rest) ← scanKeyParts (nestingLimit - 1) cs
  let last ← parts.getLast?
  return ((parts.dropLast, last), rest)

/-! ## Values -/

/-- Skip white space, comments and the ends of lines inside an array. The number bounds the lines. -/
def skipLinesAndComments : Nat → List Char → List Char
  | 0, cs => cs
  | fuel + 1, cs =>
      match skipLines cs with
      | '#' :: rest =>
          match newline? (skipComment ('#' :: rest)) with
          | some rest => skipLinesAndComments fuel rest
          | none => '#' :: rest
      | cs => cs

/-- Skip everything between the items of an array. -/
def skipBetween (cs : List Char) : List Char :=
  skipLinesAndComments cs.length cs

/-- The items of an array up to its end; a comma may follow the last one. The number bounds the
items. -/
def scanItems (scan : Scan Value) : Nat → Scan (List Value)
  | 0, _ => none
  | fuel + 1, cs =>
      match skipBetween cs with
      | ']' :: rest => some ([], rest)
      | cs =>
          match scan cs with
          | none => none
          | some (item, rest) =>
              match skipBetween rest with
              | ',' :: rest =>
                  (scanItems scan fuel rest).map fun (items, rest) => (item :: items, rest)
              | ']' :: rest => some ([item], rest)
              | _ => none

/-- An assignment: a key, an equals sign and a value. -/
def scanAssignment (scan : Scan Value) (cs : List Char) : Option (Assignment × List Char) := do
  let ((path, key), rest) ← scanKey cs
  match rest with
  | '=' :: rest =>
      let (value, rest) ← scan (skipLineSpace rest)
      return (⟨path, key, value⟩, rest)
  | _ => none

/-- The assignments of an inline table up to its end, at least one. The number bounds them. -/
def scanInline (scan : Scan Value) : Nat → Scan (List Assignment)
  | 0, _ => none
  | fuel + 1, cs =>
      match scanAssignment scan cs with
      | none => none
      | some (a, rest) =>
          match skipLineSpace rest with
          | ',' :: rest => (scanInline scan fuel rest).map fun (as, rest) => (a :: as, rest)
          | '}' :: rest => some ([a], rest)
          | _ => none

/-- An inline table after its opening brace. -/
def scanInlineTable (scan : Scan Value) (cs : List Char) : Option (Value × List Char) :=
  match skipLineSpace cs with
  | '}' :: rest => some (.table [], rest)
  | cs => do
      let (as, rest) ← scanInline scan cs.length cs
      let table ← inlineTable? as
      return (table, rest)

/-- A value, with arrays and inline tables nested at most as deep as the number says. -/
def scanValue : Nat → Scan Value
  | 0, cs => scanScalar cs
  | depth + 1, cs =>
      match cs with
      | '[' :: rest =>
          (scanItems (scanValue depth) (rest.length + 1) rest).map fun (items, rest) =>
            (.array items, rest)
      | '{' :: rest => scanInlineTable (scanValue depth) rest
      | cs => scanScalar cs

/-! ## Lines -/

/-- What follows the rest of a line: white space and a comment. -/
def endLine? (cs : List Char) : Option (List Char) :=
  match skipComment (skipLineSpace cs) with
  | [] => some []
  | cs => newline? cs

/-- The header of a section. -/
def scanHeader : List Char → Option (Header × List Char)
  | '[' :: '[' :: rest => do
      let ((path, key), rest) ← scanKey rest
      match rest with
      | ']' :: ']' :: rest => return (.element path key, rest)
      | _ => none
  | '[' :: rest => do
      let ((path, key), rest) ← scanKey rest
      match rest with
      | ']' :: rest => return (.table path key, rest)
      | _ => none
  | _ => none

/-- A line that says something. -/
inductive Line where
  | header (h : Header)
  | assignment (a : Assignment)

/-- The lines of a text. The number bounds them. -/
def scanTextLines : Nat → List Char → Option (List Line)
  | 0, _ => none
  | fuel + 1, cs =>
      match skipLines cs with
      | [] => some []
      | '#' :: rest => (endLine? ('#' :: rest)).bind (scanTextLines fuel)
      | '[' :: rest =>
          match scanHeader ('[' :: rest) with
          | some (h, rest) =>
              ((endLine? rest).bind (scanTextLines fuel)).map fun lines => .header h :: lines
          | none => none
      | cs =>
          match scanAssignment (scanValue (nestingLimit - 1)) cs with
          | some (a, rest) =>
              ((endLine? rest).bind (scanTextLines fuel)).map fun lines => .assignment a :: lines
          | none => none

/-- The assignments before the first header, and the sections. -/
def sectionsOf : List Line → List Assignment × List Section
  | [] => ([], [])
  | .assignment a :: lines =>
      let (as, sections) := sectionsOf lines
      (a :: as, sections)
  | .header h :: lines =>
      let (as, sections) := sectionsOf lines
      ([], ⟨h, as⟩ :: sections)

/-- A text without a byte order mark at its start. -/
def skipMark : List Char → List Char
  | c :: rest => if c.toNat = 0xFEFF then rest else c :: rest
  | [] => []

/-- The entries of the table that a whole text defines. -/
def entriesOfText? (text : String) : Option Entries := do
  let cs := skipMark text.toList
  let lines ← scanTextLines (cs.length + 1) cs
  let (assignments, sections) := sectionsOf lines
  assemble assignments sections

end Toml
end DocumentTables
