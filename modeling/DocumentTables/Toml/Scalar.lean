import DocumentTables.Json.Reader
import DocumentTables.Toml.Value

/-!
# TOML scalars

Strings, numbers and dates of TOML 1.0.  A scanner takes the characters of a text and returns what it
read with the characters that follow, or nothing if the text does not start with such a scalar.
-/

namespace DocumentTables
namespace Toml

/-- A scanner reads the start of a text. -/
abbrev Scan (α : Type) := List Char → Option (α × List Char)

/-- White space inside a line. -/
def isLineSpace (c : Char) : Bool :=
  c == ' ' || c == '\t'

/-- A text without the white space at its start. -/
def skipLineSpace (cs : List Char) : List Char :=
  cs.dropWhile isLineSpace

/-- What follows the end of a line at the start of a text. -/
def newline? : List Char → Option (List Char)
  | '\n' :: rest => some rest
  | '\r' :: '\n' :: rest => some rest
  | _ => none

/-- A character that may stand in a comment or a string: the tab, and no other control. -/
def isPlain (c : Char) : Bool :=
  c == '\t' || (0x20 ≤ c.toNat && c.toNat ≠ 0x7F)

/-- What follows a comment, if there is one at the start of a text. -/
def skipComment : List Char → List Char
  | '#' :: rest => rest.dropWhile isPlain
  | cs => cs

/-- Skip white space and the ends of lines. -/
def skipLines : List Char → List Char
  | [] => []
  | '\r' :: '\n' :: rest => skipLines rest
  | c :: rest => if isLineSpace c || c == '\n' then skipLines rest else c :: rest

/-! ## Strings -/

/-- The number that hexadecimal digits denote. -/
def ofHexDigits (cs : List Char) : Option Nat :=
  cs.foldlM (fun n c => (Json.hexDigit? c).map fun d => 16 * n + d) 0

/-- The character with the given number, unless it is a surrogate or too large. -/
def character? (n : Nat) : Option Char :=
  if h : n.isValidChar then some (Char.ofNatAux n h) else none

/-- The character that a backslash and one letter denote. -/
def simpleEscape? : Char → Option Char
  | 'b' => some '\x08'
  | 'f' => some '\x0c'
  | 'n' => some '\n'
  | 'r' => some '\r'
  | 't' => some '\t'
  | '"' => some '"'
  | '\\' => some '\\'
  | _ => none

/-- The character that an escape denotes, after its backslash. -/
def scanEscape : Scan Char
  | 'u' :: a :: b :: c :: d :: rest =>
      ((ofHexDigits [a, b, c, d]).bind character?).map fun ch => (ch, rest)
  | 'U' :: a :: b :: c :: d :: e :: f :: g :: h :: rest =>
      ((ofHexDigits [a, b, c, d, e, f, g, h]).bind character?).map fun ch => (ch, rest)
  | e :: rest => (simpleEscape? e).map fun ch => (ch, rest)
  | [] => none

/-- The text of a basic string after its opening quote. The number bounds the characters read. -/
def scanBasicFrom : Nat → Scan (List Char)
  | 0, _ => none
  | fuel + 1, cs =>
      match cs with
      | '"' :: rest => some ([], rest)
      | '\\' :: rest =>
          match scanEscape rest with
          | some (c, rest) => (scanBasicFrom fuel rest).map (Json.prepend c)
          | none => none
      | c :: rest => if isPlain c then (scanBasicFrom fuel rest).map (Json.prepend c) else none
      | [] => none

/-- The text of a basic string after its opening quote. -/
def scanBasic (cs : List Char) : Option (List Char × List Char) :=
  scanBasicFrom (cs.length + 1) cs

/-- The text of a literal string after its opening quote. -/
def scanLiteral : Scan (List Char)
  | [] => none
  | '\'' :: rest => some ([], rest)
  | c :: rest => if isPlain c then (scanLiteral rest).map (Json.prepend c) else none

/-- A run of quotes inside a string of several lines.  Three of them end the string, and up to two
before these belong to it. -/
def closingQuotes (quote : Char) (cs : List Char) : Option (List Char × List Char) :=
  let run := (cs.takeWhile (· == quote)).length
  if 3 ≤ run ∧ run ≤ 5 then some (List.replicate (run - 3) quote, cs.drop run) else none

/-- A backslash at the end of a line joins the next text to this one. -/
def joinedLine? (cs : List Char) : Option (List Char) :=
  (newline? (skipLineSpace cs)).map skipLines

/-- The text of a string of several lines after its opening quotes. The number bounds the characters
read. -/
def scanLinesFrom (quote : Char) : Nat → Scan (List Char)
  | 0, _ => none
  | fuel + 1, cs =>
      match cs with
      | [] => none
      | '\r' :: '\n' :: rest => (scanLinesFrom quote fuel rest).map (Json.prepend '\n')
      | c :: rest =>
          if c = quote then
            if rest.take 2 = [quote, quote] then closingQuotes quote cs
            else (scanLinesFrom quote fuel rest).map (Json.prepend c)
          else if c = '\\' ∧ quote = '"' then
            match joinedLine? rest with
            | some rest => scanLinesFrom quote fuel rest
            | none =>
                match scanEscape rest with
                | some (c, rest) => (scanLinesFrom quote fuel rest).map (Json.prepend c)
                | none => none
          else if isPlain c ∨ c = '\n' then (scanLinesFrom quote fuel rest).map (Json.prepend c)
          else none

/-- The text of a string of several lines after its opening quotes; a line end right after them does
not belong to it. -/
def scanLines (quote : Char) (cs : List Char) : Option (List Char × List Char) :=
  let body := (newline? cs).getD cs
  scanLinesFrom quote (body.length + 1) body

/-- A string of any of the four kinds. -/
def scanString : Scan (List Char)
  | '"' :: '"' :: '"' :: rest => scanLines '"' rest
  | '\'' :: '\'' :: '\'' :: rest => scanLines '\'' rest
  | '"' :: rest => scanBasic rest
  | '\'' :: rest => scanLiteral rest
  | _ => none

/-! ## Numbers -/

/-- Digits in which single underscores may stand between two digits. -/
def scanUnderscored (isDigit : Char → Bool) : List Char → Option (List Char × List Char)
  | [] => none
  | '_' :: _ => none
  | c :: '_' :: rest =>
      if isDigit c then (scanUnderscored isDigit rest).map (Json.prepend c) else none
  | c :: rest =>
      if isDigit c then
        match scanUnderscored isDigit rest with
        | some (cs, after) => some (c :: cs, after)
        | none =>
            match rest with
            | d :: _ => if isDigit d then none else some ([c], rest)
            | [] => some ([c], [])
      else none

/-- A sign, which may be missing: whether it is a minus. -/
def scanSign : List Char → Bool × List Char
  | '+' :: rest => (false, rest)
  | '-' :: rest => (true, rest)
  | cs => (false, cs)

/-- The digits of a decimal whole number: zero, or no zero in front. -/
def scanDecimalDigits : Scan (List Char)
  | '0' :: rest => some (['0'], rest)
  | cs => scanUnderscored Char.isDigit cs

/-- A whole number that fits 64 bits. -/
def integer? (negative : Bool) (magnitude : Nat) : Option Value :=
  if negative then
    if magnitude ≤ Nat.pow 2 63 then some (.integer (-(magnitude : Int))) else none
  else if magnitude < Nat.pow 2 63 then some (.integer magnitude)
  else none

/-- The number that digits of a base denote. -/
def ofBaseDigits (base : Nat) (cs : List Char) : Nat :=
  cs.foldl (fun n c => base * n + (Json.hexDigit? c).getD 0) 0

/-- A whole number in another base, after its mark. -/
def scanBased (base : Nat) (isDigit : Char → Bool) (cs : List Char) : Option (Value × List Char) := do
  let (digits, rest) ← scanUnderscored isDigit cs
  let value ← integer? false (ofBaseDigits base digits)
  return (value, rest)

/-- A whole number: hexadecimal, octal, binary or decimal. -/
def scanInteger : Scan Value
  | '0' :: 'x' :: rest => scanBased 16 (fun c => (Json.hexDigit? c).isSome) rest
  | '0' :: 'o' :: rest => scanBased 8 (fun c => '0' ≤ c && c ≤ '7') rest
  | '0' :: 'b' :: rest => scanBased 2 (fun c => c == '0' || c == '1') rest
  | cs => do
      let (negative, rest) := scanSign cs
      let (digits, rest) ← scanDecimalDigits rest
      let value ← integer? negative (ofBaseDigits 10 digits)
      return (value, rest)

/-- The exponent of a fraction, or the number as it stands without one. -/
def scanFloatExponent (cs : List Char) : Option (List Char × List Char) :=
  match cs with
  | e :: rest =>
      if e = 'e' ∨ e = 'E' then
        let (negative, rest) := scanSign rest
        (scanUnderscored Char.isDigit rest).map fun (digits, rest) =>
          ('e' :: ((if negative then ['-'] else []) ++ digits), rest)
      else some ([], e :: rest)
  | [] => some ([], [])

/-- Whether a decimal number is below the upper end of the doubles.  A number below their lower end is
taken for the lowest one. -/
def isFiniteFloat (negative : Bool) (whole fraction exponent : List Char) : Bool :=
  let digits := ofBaseDigits 10 (whole ++ fraction)
  let power : Int :=
    (match exponent with
      | 'e' :: '-' :: ds => -(ofBaseDigits 10 ds : Int)
      | 'e' :: ds => ofBaseDigits 10 ds
      | _ => 0) - fraction.length
  if negative ∨ digits = 0 ∨ (whole ++ fraction).length + power ≤ 300 then true
  else
    match power with
    | .ofNat k => k ≤ 400 && (Binary64.ofRatio? false (digits * Nat.pow 10 k) 1).isSome
    | .negSucc k => (Binary64.ofRatio? false digits (Nat.pow 10 (k + 1))).isSome

/-- A number with a fraction or an exponent. -/
def scanFloat (cs : List Char) : Option (Value × List Char) := do
  let (negative, rest) := scanSign cs
  let (whole, rest) ← scanDecimalDigits rest
  match rest with
  | '.' :: rest =>
      let (fraction, rest) ← scanUnderscored Char.isDigit rest
      let (exponent, rest) ← scanFloatExponent rest
      if isFiniteFloat negative whole fraction exponent then return (.float, rest) else none
  | rest =>
      let (exponent, rest) ← scanFloatExponent rest
      if exponent = [] then none
      else if isFiniteFloat negative whole [] exponent then return (.float, rest)
      else none

/-- Infinity, or no number. -/
def scanSpecialFloat (cs : List Char) : Option (Value × List Char) :=
  match (scanSign cs).2 with
  | 'i' :: 'n' :: 'f' :: rest => some (.float, rest)
  | 'n' :: 'a' :: 'n' :: rest => some (.float, rest)
  | _ => none

/-! ## Dates and times -/

/-- A number of the given count of digits, between two bounds. -/
def scanFixed (count low high : Nat) (cs : List Char) : Option (Nat × List Char) :=
  let digits := cs.take count
  let n := ofBaseDigits 10 digits
  if digits.length = count ∧ digits.all Char.isDigit ∧ low ≤ n ∧ n ≤ high then
    some (n, cs.drop count)
  else none

/-- A given character. -/
def scanChar (c : Char) : List Char → Option (List Char)
  | d :: rest => if d = c then some rest else none
  | [] => none

/-- The days of a month. -/
def daysOfMonth (year month : Nat) : Nat :=
  if month = 2 then
    if year % 4 = 0 ∧ (year % 100 ≠ 0 ∨ year % 400 = 0) then 29 else 28
  else if month = 4 ∨ month = 6 ∨ month = 9 ∨ month = 11 then 30
  else 31

/-- A day: year, month and day of the month. -/
def scanDay (cs : List Char) : Option (List Char) := do
  let (year, rest) ← scanFixed 4 0 9999 cs
  let rest ← scanChar '-' rest
  let (month, rest) ← scanFixed 2 1 12 rest
  let rest ← scanChar '-' rest
  let (_, rest) ← scanFixed 2 1 (daysOfMonth year month) rest
  return rest

/-- The fraction of a second, which may be missing. -/
def scanSecondFraction : List Char → Option (List Char)
  | '.' :: rest =>
      match rest with
      | d :: _ => if d.isDigit then some (rest.dropWhile Char.isDigit) else none
      | [] => none
  | rest => some rest

/-- A time of day: hours, minutes and seconds. -/
def scanTime (cs : List Char) : Option (List Char) := do
  let (_, rest) ← scanFixed 2 0 23 cs
  let rest ← scanChar ':' rest
  let (_, rest) ← scanFixed 2 0 59 rest
  let rest ← scanChar ':' rest
  let (_, rest) ← scanFixed 2 0 60 rest
  scanSecondFraction rest

/-- The offset of a time of day, which may be missing. -/
def scanOffset : List Char → Option (List Char)
  | c :: rest =>
      if c = 'Z' ∨ c = 'z' then some rest
      else if c = '+' ∨ c = '-' then do
        let (_, rest) ← scanFixed 2 0 23 rest
        let rest ← scanChar ':' rest
        let (_, rest) ← scanFixed 2 0 59 rest
        return rest
      else some (c :: rest)
  | [] => some []

/-- A time with its offset after a day, if one follows. -/
def scanDayTime : List Char → Option (List Char)
  | c :: rest =>
      if c = 'T' ∨ c = 't' ∨ c = ' ' then
        match scanTime rest with
        | some rest => scanOffset rest
        | none => if c = ' ' then some (c :: rest) else none
      else some (c :: rest)
  | [] => some []

/-- A day, a day with a time, or a time. -/
def scanDate (cs : List Char) : Option (Value × List Char) :=
  match scanDay cs with
  | some rest => (scanDayTime rest).map fun rest => (.date, rest)
  | none => (scanTime cs).map fun rest => (.date, rest)

/-- A value that is neither array nor table. -/
def scanScalar (cs : List Char) : Option (Value × List Char) :=
  match cs with
  | '"' :: _ => (scanString cs).map fun (s, rest) => (.string (String.ofList s), rest)
  | '\'' :: _ => (scanString cs).map fun (s, rest) => (.string (String.ofList s), rest)
  | 't' :: 'r' :: 'u' :: 'e' :: rest => some (.boolean true, rest)
  | 'f' :: 'a' :: 'l' :: 's' :: 'e' :: rest => some (.boolean false, rest)
  | _ => scanDate cs <|> scanFloat cs <|> scanSpecialFloat cs <|> scanInteger cs

end Toml
end DocumentTables
