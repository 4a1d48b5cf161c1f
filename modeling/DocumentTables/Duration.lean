/-!
# Durations

A duration is a whole number of nanoseconds, at most as many as 64 bits of seconds hold.  Sums and
multiples that would be longer stop at the longest duration.
-/

namespace DocumentTables

/-- A length of time. -/
structure Duration where
  nanoseconds : Nat
deriving DecidableEq, Repr, Inhabited

namespace Duration

/-- The nanoseconds of one second. -/
def perSecond : Nat := 1000000000

/-- The longest duration. -/
def max : Duration := ⟨Nat.pow 2 64 * perSecond - 1⟩

/-- No time at all. -/
def zero : Duration := ⟨0⟩

/-- Whole seconds and further nanoseconds. -/
def ofParts (seconds nanoseconds : Nat) : Duration := ⟨seconds * perSecond + nanoseconds⟩

/-- Whole seconds. -/
def ofSeconds (seconds : Nat) : Duration := ofParts seconds 0

/-- The whole seconds of a duration. -/
def seconds (d : Duration) : Nat := d.nanoseconds / perSecond

/-- The nanoseconds beyond the whole seconds. -/
def subsecond (d : Duration) : Nat := d.nanoseconds % perSecond

/-- The given duration, or the longest one if it exceeds that. -/
def capped (nanoseconds : Nat) : Duration := ⟨min nanoseconds max.nanoseconds⟩

/-- The sum, at most the longest duration. -/
def add (a b : Duration) : Duration := capped (a.nanoseconds + b.nanoseconds)

/-- The multiple, at most the longest duration. -/
def times (d : Duration) (n : Nat) : Duration := capped (d.nanoseconds * n)

/-- Digits padded with zeros in front to the given length. -/
def padded (length n : Nat) : List Char :=
  let ds := Nat.toDigits 10 n
  List.replicate (length - ds.length) '0' ++ ds

/-- A point and the digits of a fraction with the given number of places, without zeros at its end;
nothing for a fraction of zero. -/
def fractionText (places n : Nat) : List Char :=
  if n = 0 then []
  else '.' :: ((padded places n).reverse.dropWhile (· == '0')).reverse

/-- A number of units, a fraction of one with the given number of places, and the unit's name. -/
def amountText (whole fraction places : Nat) (unit : String) : String :=
  String.ofList (Nat.toDigits 10 whole ++ fractionText places fraction) ++ unit

/-- A duration as diagnostics show it: in the largest unit of which there is one or more. -/
def describe (d : Duration) : String :=
  let n := d.nanoseconds
  if perSecond ≤ n then amountText d.seconds d.subsecond 9 "s"
  else if 1000000 ≤ n then amountText (n / 1000000) (n % 1000000) 6 "ms"
  else if 1000 ≤ n then amountText (n / 1000) (n % 1000) 3 "µs"
  else amountText n 0 0 "ns"

/-- Whole seconds, a point and nine digits. -/
def decimalText (d : Duration) : String :=
  String.ofList (Nat.toDigits 10 d.seconds ++ '.' :: padded 9 d.subsecond)

end Duration
end DocumentTables
