import DocumentTables.Json.Literal

/-!
# Reading JSON

The reader accepts exactly the JSON grammar, with arrays and objects nested at most
`Json.maxDepth` deep.  Escapes of surrogates must come in pairs.  Of fields with one name the last
counts.
-/

namespace DocumentTables
namespace Json

/-- Arrays and objects are nested at most this deep. -/
def maxDepth : Nat := 127

/-- White space between tokens. -/
def isSpace (c : Char) : Bool :=
  c == ' ' || c == '\n' || c == '\r' || c == '\t'

/-- A text without the white space at its start. -/
def skipSpace (cs : List Char) : List Char :=
  cs.dropWhile isSpace

/-- The value of a hexadecimal digit. -/
def hexDigit? (c : Char) : Option Nat :=
  if '0' ≤ c ∧ c ≤ '9' then some (c.toNat - '0'.toNat)
  else if 'a' ≤ c ∧ c ≤ 'f' then some (c.toNat - 'a'.toNat + 10)
  else if 'A' ≤ c ∧ c ≤ 'F' then some (c.toNat - 'A'.toNat + 10)
  else none

/-- The number that four hexadecimal digits denote. -/
def codeUnit? (a b c d : Char) : Option Nat := do
  return (((← hexDigit? a) * 16 + (← hexDigit? b)) * 16 + (← hexDigit? c)) * 16 + (← hexDigit? d)

/-- The first half of a surrogate pair. -/
def isHighSurrogate (n : Nat) : Bool := 0xD800 ≤ n && n < 0xDC00

/-- The second half of a surrogate pair. -/
def isLowSurrogate (n : Nat) : Bool := 0xDC00 ≤ n && n < 0xE000

/-- The character that a surrogate pair denotes. -/
def ofSurrogates (high low : Nat) : Char :=
  Char.ofNat (0x10000 + (high - 0xD800) * 0x400 + (low - 0xDC00))

/-- The character that a backslash and one letter denote. -/
def simpleEscape? : Char → Option Char
  | '"' => some '"'
  | '\\' => some '\\'
  | '/' => some '/'
  | 'b' => some '\x08'
  | 'f' => some '\x0c'
  | 'n' => some '\n'
  | 'r' => some '\r'
  | 't' => some '\t'
  | _ => none

/-- Put a character in front of what a reader has read. -/
def prepend (c : Char) (read : List Char × List Char) : List Char × List Char :=
  (c :: read.1, read.2)

/-- The characters of a string after its opening quote, and what follows the closing one. -/
def readString : List Char → Option (List Char × List Char)
  | [] => none
  | '"' :: rest => some ([], rest)
  | '\\' :: 'u' :: a :: b :: c :: d :: rest =>
      match codeUnit? a b c d with
      | none => none
      | some n =>
          if isHighSurrogate n then
            match rest with
            | '\\' :: 'u' :: e :: f :: g :: h :: rest =>
                match codeUnit? e f g h with
                | none => none
                | some m =>
                    if isLowSurrogate m then (readString rest).map (prepend (ofSurrogates n m))
                    else none
            | _ => none
          else if isLowSurrogate n then none
          else (readString rest).map (prepend (Char.ofNat n))
  | '\\' :: e :: rest =>
      match simpleEscape? e with
      | none => none
      | some c => (readString rest).map (prepend c)
  | c :: rest => if c.toNat < 0x20 then none else (readString rest).map (prepend c)

/-- A value that is neither array nor object. -/
def readScalar : List Char → Option (Value × List Char)
  | 'n' :: 'u' :: 'l' :: 'l' :: rest => some (.null, rest)
  | 't' :: 'r' :: 'u' :: 'e' :: rest => some (.bool true, rest)
  | 'f' :: 'a' :: 'l' :: 's' :: 'e' :: rest => some (.bool false, rest)
  | '"' :: rest => (readString rest).map fun (s, rest) => (.string (String.ofList s), rest)
  | cs => do
      let (literal, rest) ← Literal.scan cs
      let n ← literal.value?
      return (.number n, rest)

/-- The items of an array up to its end, at least one.  The number bounds their count. -/
def readItems (read : List Char → Option (Value × List Char)) :
    Nat → List Char → Option (List Value × List Char)
  | 0, _ => none
  | fuel + 1, cs =>
      match read cs with
      | none => none
      | some (item, rest) =>
          match skipSpace rest with
          | ',' :: rest => (readItems read fuel rest).map fun (items, rest) => (item :: items, rest)
          | ']' :: rest => some ([item], rest)
          | _ => none

/-- A name in quotes and the colon after it. -/
def readName (cs : List Char) : Option (String × List Char) :=
  match skipSpace cs with
  | '"' :: rest =>
      match readString rest with
      | none => none
      | some (name, rest) =>
          match skipSpace rest with
          | ':' :: rest => some (String.ofList name, rest)
          | _ => none
  | _ => none

/-- The fields of an object up to its end, at least one.  The number bounds their count. -/
def readFields (read : List Char → Option (Value × List Char)) :
    Nat → List Char → Option (List (String × Value) × List Char)
  | 0, _ => none
  | fuel + 1, cs =>
      match readName cs with
      | none => none
      | some (name, rest) =>
          match read rest with
          | none => none
          | some (value, rest) =>
              match skipSpace rest with
              | ',' :: rest =>
                  (readFields read fuel rest).map fun (fields, rest) => ((name, value) :: fields, rest)
              | '}' :: rest => some ([(name, value)], rest)
              | _ => none

/-- An array after its opening bracket. -/
def readArray (read : List Char → Option (Value × List Char)) (cs : List Char) :
    Option (Value × List Char) :=
  match skipSpace cs with
  | ']' :: rest => some (.array [], rest)
  | cs => (readItems read cs.length cs).map fun (items, rest) => (.array items, rest)

/-- An object after its opening brace. -/
def readObject (read : List Char → Option (Value × List Char)) (cs : List Char) :
    Option (Value × List Char) :=
  match skipSpace cs with
  | '}' :: rest => some (.object [], rest)
  | cs =>
      (readFields read cs.length cs).map fun (fields, rest) => (.object (NameMap.ofList fields), rest)

/-- The value at the start of a text, with arrays and objects nested at most as deep as the number
says, and what follows it. -/
def readValue : Nat → List Char → Option (Value × List Char)
  | 0, cs => readScalar (skipSpace cs)
  | depth + 1, cs =>
      match skipSpace cs with
      | '[' :: rest => readArray (readValue depth) rest
      | '{' :: rest => readObject (readValue depth) rest
      | cs => readScalar cs

end Json

/-- The value that a whole text denotes. -/
def Value.ofText? (s : String) : Option Value :=
  match Json.readValue Json.maxDepth s.toList with
  | some (v, rest) => if Json.skipSpace rest = [] then some v else none
  | none => none

/-- The document that a whole text denotes. -/
def Document.ofText? (s : String) : Option Document :=
  (Value.ofText? s).bind Value.fields?

end DocumentTables
