/-!
# Numerals

Settings give whole numbers as an optional `+` and one or more ASCII digits.  A numeral is read from
left to right, and the first thing that is wrong with it counts.
-/

namespace DocumentTables

/-- Why a text is no numeral of a given width. -/
inductive NumeralError where
  | empty
  | invalidDigit
  | tooLarge
deriving DecidableEq, Repr

def NumeralError.message : NumeralError → String
  | .empty => "cannot parse integer from empty string"
  | .invalidDigit => "invalid digit found in string"
  | .tooLarge => "number too large to fit in target type"

namespace Numeral

/-- The largest numbers of 16, 32 and 64 bits. -/
def max16 : Nat := Nat.pow 2 16 - 1

@[inherit_doc max16]
def max32 : Nat := Nat.pow 2 32 - 1

@[inherit_doc max16]
def max64 : Nat := Nat.pow 2 64 - 1

/-- Append digits to a number that must not exceed a limit. -/
def appendDigits (limit : Nat) : Nat → List Char → Except NumeralError Nat
  | n, [] => .ok n
  | n, c :: cs =>
      if c.isDigit then
        let m := 10 * n + (c.toNat - '0'.toNat)
        if m ≤ limit then appendDigits limit m cs else .error .tooLarge
      else .error .invalidDigit

/-- The number that characters denote, at most the given limit. -/
def read (limit : Nat) : List Char → Except NumeralError Nat
  | [] => .error .empty
  | ['+'] => .error .invalidDigit
  | '+' :: cs => appendDigits limit 0 cs
  | cs => appendDigits limit 0 cs

end Numeral
end DocumentTables
