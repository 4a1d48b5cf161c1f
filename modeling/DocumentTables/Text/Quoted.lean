import DocumentTables.Text.Hidden

/-!
# Quoted texts and records

Messages and diagnostics show a text in quotes, such that it can be told from any other text, and a
structure as its name with named fields in braces.
-/

namespace DocumentTables
namespace Text

/-- A character inside quotes. -/
def quotedChar (c : Char) : List Char :=
  match c with
  | '"' => ['\\', '"']
  | '\\' => ['\\', '\\']
  | '\t' => ['\\', 't']
  | '\r' => ['\\', 'r']
  | '\n' => ['\\', 'n']
  | '\x00' => ['\\', '0']
  | c =>
      if isHidden c then ['\\', 'u', '\x7b'] ++ Nat.toDigits 16 c.toNat ++ ['\x7d']
      else [c]

/-- A text in quotes. -/
def quoted (s : String) : String :=
  String.ofList ('"' :: (s.toList.flatMap quotedChar ++ ['"']))

/-- Texts joined by commas. -/
def commaSeparated (items : List String) : String :=
  ", ".intercalate items

/-- A list of quoted texts. -/
def quotedList (items : List String) : String :=
  "[" ++ commaSeparated (items.map quoted) ++ "]"

/-- A structure with its fields, each a name and a text. -/
def record (name : String) (fields : List (String × String)) : String :=
  name ++ " \x7b " ++ commaSeparated (fields.map fun (field, text) => field ++ ": " ++ text)
    ++ " \x7d"

/-- A structure of which only some fields are shown. -/
def partialRecord (name : String) (fields : List (String × String)) : String :=
  name ++ " \x7b " ++ commaSeparated (fields.map fun (field, text) => field ++ ": " ++ text)
    ++ ", .. \x7d"

end Text
end DocumentTables
