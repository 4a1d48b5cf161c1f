import DocumentTables.Json.Value

/-!
# Number literals

A literal without point and exponent is a whole number if it fits 64 bits (signed below zero), except
that `-0` is the floating-point zero.  Every other literal is a floating-point number.  Its leading
digits, as many as fit 64 bits, form a significand; the significand is rounded to a double and then
scaled by a power of ten in one rounded step.  A literal above all doubles is refused, one below them
is zero.
-/

namespace DocumentTables

/-- The parts of a number literal, digits as numbers. -/
structure Literal where
  negative : Bool
  whole : List Nat
  fraction : Option (List Nat)
  exponent : Option Int
deriving DecidableEq, Repr

/-- The value of an ASCII digit. -/
def digitValue (c : Char) : Nat :=
  c.toNat - '0'.toNat

/-- The digits at the start of a text, and what follows them. -/
def scanDigits (cs : List Char) : List Nat × List Char :=
  ((cs.takeWhile Char.isDigit).map digitValue, cs.dropWhile Char.isDigit)

/-- The number that decimal digits denote. -/
def ofDigits (ds : List Nat) : Nat :=
  ds.foldl (fun n d => 10 * n + d) 0

namespace Literal

/-- The digits before the point: at least one, and no zero in front of others. -/
def scanWhole (cs : List Char) : Option (List Nat × List Char) :=
  match scanDigits cs with
  | ([], _) => none
  | (0 :: _ :: _, _) => none
  | (ds, rest) => some (ds, rest)

/-- A point and the digits after it, of which there is at least one. -/
def scanFraction : List Char → Option (Option (List Nat) × List Char)
  | '.' :: rest =>
      match scanDigits rest with
      | ([], _) => none
      | (ds, rest) => some (some ds, rest)
  | rest => some (none, rest)

/-- The digits of an exponent, of which there is at least one. -/
def scanPower (negative : Bool) (cs : List Char) : Option (Option Int × List Char) :=
  match scanDigits cs with
  | ([], _) => none
  | (ds, rest) => some (some (if negative then -(ofDigits ds : Int) else ofDigits ds), rest)

/-- An exponent with its sign. -/
def scanExponent : List Char → Option (Option Int × List Char)
  | e :: rest =>
      if e = 'e' ∨ e = 'E' then
        match rest with
        | '+' :: rest => scanPower false rest
        | '-' :: rest => scanPower true rest
        | rest => scanPower false rest
      else some (none, e :: rest)
  | [] => some (none, [])

/-- The literal after its sign. -/
def scanUnsigned (negative : Bool) (cs : List Char) : Option (Literal × List Char) := do
  let (whole, rest) ← scanWhole cs
  let (fraction, rest) ← scanFraction rest
  let (exponent, rest) ← scanExponent rest
  return (⟨negative, whole, fraction, exponent⟩, rest)

/-- The literal at the start of a text, and what follows it. -/
def scan : List Char → Option (Literal × List Char)
  | '-' :: rest => scanUnsigned true rest
  | cs => scanUnsigned false cs

/-- Significands are below this number. -/
def significandBound : Nat := Nat.pow 2 64

/-- Append digits to a significand up to the first one that no longer fits.  The second number
counts the digits appended. -/
def absorb : Nat → List Nat → Nat × Nat
  | s, [] => (s, 0)
  | s, d :: ds =>
      if 10 * s + d < significandBound then
        let (s', n) := absorb (10 * s + d) ds
        (s', n + 1)
      else (s, 0)

/-- The largest power of ten that is a finite double. -/
def maxPower : Nat := 308

/-- The rounded quotient by a power of ten; a power above `10 ^ 308` is taken in several steps, until
nothing is left of the number. -/
def scaleDown (x : Binary64) (k : Nat) : Option Binary64 :=
  if k ≤ maxPower then (Binary64.powerOfTen? k).bind x.divMagnitude?
  else if x.isZero then some x
  else
    ((Binary64.powerOfTen? maxPower).bind x.divMagnitude?).bind fun y => scaleDown y (k - maxPower)
termination_by k
decreasing_by
  simp only [maxPower] at *
  omega

/-- The rounded product with a power of ten, or `none` above all doubles. -/
def scale (x : Binary64) : Int → Option Binary64
  | .ofNat k =>
      if k ≤ maxPower then (Binary64.powerOfTen? k).bind x.mulMagnitude?
      else if x.isZero then some x
      else none
  | .negSucc k => scaleDown x (k + 1)

/-- The double with the given significand, power of ten and sign. -/
def float? (negative : Bool) (significand : Nat) (power : Int) : Option Number := do
  let x ← Binary64.ofNat? significand
  let y ← scale x power
  return .float { y with negative := negative }

/-- The whole number with the given magnitude and sign, as far as the 64 bits of its kind reach. -/
def whole? (negative : Bool) (magnitude : Nat) : Option Number :=
  if negative then
    if magnitude ≠ 0 ∧ magnitude ≤ Nat.pow 2 63 then some (.whole (-(magnitude : Int)))
    else float? true magnitude 0
  else some (.whole magnitude)

/-- The number that a literal denotes, or `none` above all doubles. -/
def value? (l : Literal) : Option Number :=
  let (s, taken) := absorb 0 l.whole
  let dropped := l.whole.length - taken
  match l.fraction, l.exponent with
  | none, none => if dropped = 0 then whole? l.negative s else float? l.negative s dropped
  | fraction, exponent =>
      let (s, places) := absorb s (fraction.getD [])
      float? l.negative s ((dropped : Int) - places + exponent.getD 0)

end Literal
end DocumentTables
