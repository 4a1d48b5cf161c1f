import DocumentTables.Json.Value
import DocumentTables.Number.Shortest

/-!
# Written JSON

A value has one written form: no white space, the fields of an object in the order of the value, and
in strings only the quote, the backslash and control characters escaped.  The same text is the
canonical form of a key, the contents of a cache file and a part of messages.
-/

namespace DocumentTables

/-- The last four hexadecimal digits of a number, in lower case. -/
def hex4 (n : Nat) : List Char :=
  [Nat.digitChar (n / 4096 % 16), Nat.digitChar (n / 256 % 16), Nat.digitChar (n / 16 % 16),
    Nat.digitChar (n % 16)]

/-- The written form of one character of a string. -/
def escapedChar (c : Char) : List Char :=
  match c with
  | '"' => ['\\', '"']
  | '\\' => ['\\', '\\']
  | '\n' => ['\\', 'n']
  | '\r' => ['\\', 'r']
  | '\t' => ['\\', 't']
  | '\x08' => ['\\', 'b']
  | '\x0c' => ['\\', 'f']
  | c => if c.toNat < 0x20 then '\\' :: 'u' :: hex4 c.toNat else [c]

/-- The written form of a string. -/
def writtenString (s : String) : List Char :=
  '"' :: (s.toList.flatMap escapedChar ++ ['"'])

/-- The written form of a whole number. -/
def writtenInt : Int → List Char
  | .ofNat n => Nat.toDigits 10 n
  | .negSucc n => '-' :: Nat.toDigits 10 (n + 1)

/-- The written form of a number. -/
def Number.written : Number → List Char
  | .whole n => writtenInt n
  | .float x => x.chars

mutual

/-- The written form of a value. -/
def Value.written : Value → List Char
  | .null => ['n', 'u', 'l', 'l']
  | .bool true => ['t', 'r', 'u', 'e']
  | .bool false => ['f', 'a', 'l', 's', 'e']
  | .number n => n.written
  | .string s => writtenString s
  | .array [] => ['[', ']']
  | .array (item :: items) => '[' :: (item.written ++ Value.writtenItems items)
  | .object [] => ['{', '}']
  | .object ((name, value) :: fields) =>
      '{' :: (writtenString name ++ ':' :: (value.written ++ Value.writtenFields fields))

/-- The items of an array after the first, and its end. -/
def Value.writtenItems : List Value → List Char
  | [] => [']']
  | item :: items => ',' :: (item.written ++ Value.writtenItems items)

/-- The fields of an object after the first, and its end. -/
def Value.writtenFields : List (String × Value) → List Char
  | [] => ['}']
  | (name, value) :: fields =>
      ',' :: (writtenString name ++ ':' :: (value.written ++ Value.writtenFields fields))

end

/-- The text of a value. -/
def Value.text (v : Value) : String :=
  String.ofList v.written

/-- The text of a document. -/
def Document.text (doc : Document) : String :=
  (Value.object doc).text

end DocumentTables
