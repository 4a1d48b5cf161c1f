import DocumentTables.Number.Binary64

/-!
# Shortest decimal texts

A double is written with the fewest decimal digits that are read back as the same double; of two
such decimals the nearer one is taken, and the even one if both are equally near.  The layout of the
digits is fixed by `Layout`.
-/

namespace DocumentTables
namespace Binary64

/-- The number `digits * 10 ^ exponent`. -/
structure Decimal where
  digits : Nat
  exponent : Int
deriving DecidableEq, Repr

/-- A decimal without zeros at the end of its digits. The first argument bounds the zeros taken. -/
def Decimal.dropZeros : Nat → Decimal → Decimal
  | 0, d => d
  | fuel + 1, d =>
      if d.digits ≠ 0 ∧ d.digits % 10 = 0 then dropZeros fuel ⟨d.digits / 10, d.exponent + 1⟩ else d

/-- The interval of numbers that round to a double, and the double itself, in quarters of a unit. -/
structure Neighbourhood where
  low : Nat
  centre : Nat
  high : Nat
  closed : Bool

/-- The numbers that round to the magnitude of a double.  Below a power of two the doubles lie twice
as close, and the ends belong to the interval if the mantissa is even. -/
def neighbourhood (x : Binary64) : Neighbourhood :=
  let quarter := Nat.pow 2 x.exponent
  let below :=
    if x.mantissa = Nat.pow 2 (precision - 1) ∧ x.exponent ≠ 0 then quarter else 2 * quarter
  { low := 4 * x.units - below
    centre := 4 * x.units
    high := 4 * x.units + 2 * quarter
    closed := x.mantissa % 2 = 0 }

/-- The decimals `c * 10 ^ exponent` are compared with quarters of a unit by comparing
`c * step` with the quarters times `scale`. -/
structure Grid where
  exponent : Int
  step : Nat
  scale : Nat

/-- The grid of the multiples of a power of ten. -/
def grid (exponent : Int) : Grid :=
  match exponent with
  | .ofNat k => ⟨exponent, 4 * unitsPerOne * Nat.pow 10 k, 1⟩
  | .negSucc k => ⟨exponent, 4 * unitsPerOne, Nat.pow 10 (k + 1)⟩

/-- A multiple of the grid lies in the interval. -/
def Neighbourhood.holds (n : Neighbourhood) (g : Grid) (c : Nat) : Bool :=
  if n.closed then n.low * g.scale ≤ c * g.step && c * g.step ≤ n.high * g.scale
  else n.low * g.scale < c * g.step && c * g.step < n.high * g.scale

/-- The neighbour of the centre on the grid that lies in the interval: of two the nearer, of two
equally near the even one. -/
def Neighbourhood.nearest? (n : Neighbourhood) (g : Grid) : Option Nat :=
  let c := n.centre * g.scale / g.step
  match n.holds g c, n.holds g (c + 1) with
  | true, true =>
      let down := n.centre * g.scale - c * g.step
      let up := (c + 1) * g.step - n.centre * g.scale
      if down < up then some c
      else if up < down then some (c + 1)
      else if c % 2 = 0 then some c else some (c + 1)
  | true, false => some c
  | false, true => some (c + 1)
  | false, false => none

/-- The number of decimal digits before the point, at most 0 for numbers below one. -/
def magnitude10 (x : Binary64) : Int :=
  (Nat.toDigits 10 (x.units * Nat.pow 10 400 / unitsPerOne)).length - 400

/-- Search the grids of `count`, `count + 1`, … digits, as many as the first argument says. -/
def searchDigits (n : Neighbourhood) (magnitude : Int) : Nat → Nat → Option Decimal
  | 0, _ => none
  | fuel + 1, count =>
      let g := grid (magnitude - count)
      match n.nearest? g with
      | some c => some ⟨c, g.exponent⟩
      | none => searchDigits n magnitude fuel (count + 1)

/-- No double needs more digits than this to be told from all others. -/
def maxDigits : Nat := 17

/-- The shortest decimal that is read back as the magnitude of a double other than zero. -/
def shortest (x : Binary64) : Decimal :=
  ((searchDigits x.neighbourhood x.magnitude10 maxDigits 1).getD ⟨0, 0⟩).dropZeros maxDigits

/-- Where the point stands in a written number. -/
structure Layout where
  /-- The least power of ten written with a point only. -/
  leastPositional : Int
  /-- The power of ten from which on an exponent is written. -/
  leastScientific : Int

/-- Numbers from `10 ^ -5` up to `10 ^ 16` are written with a point, all others with a signed
exponent. -/
def layout : Layout := ⟨-5, 16⟩

/-- Digits with a point after the first `-exponent` places from the right. -/
def positional (d : Decimal) : List Char :=
  let ds := Nat.toDigits 10 d.digits
  match d.exponent with
  | .ofNat k => ds ++ List.replicate k '0' ++ ['.', '0']
  | .negSucc k =>
      let places := k + 1
      if places < ds.length then
        ds.take (ds.length - places) ++ '.' :: ds.drop (ds.length - places)
      else '0' :: '.' :: (List.replicate (places - ds.length) '0' ++ ds)

/-- One digit, the others after a point, and a signed exponent. -/
def scientific (d : Decimal) : List Char :=
  let ds := Nat.toDigits 10 d.digits
  let power : Int := d.exponent + ds.length - 1
  let sign := if power < 0 then '-' else '+'
  let fraction := if ds.length = 1 then [] else '.' :: ds.tail
  ds.take 1 ++ fraction ++ 'e' :: sign :: Nat.toDigits 10 power.natAbs

/-- The text of a double: always with a point or an exponent, so that it is read as a double again. -/
def chars (x : Binary64) : List Char :=
  let sign := if x.negative then ['-'] else []
  if x.isZero then sign ++ ['0', '.', '0']
  else
    let d := x.shortest
    let power : Int := d.exponent + (Nat.toDigits 10 d.digits).length - 1
    if layout.leastPositional ≤ power ∧ power < layout.leastScientific then sign ++ positional d
    else sign ++ scientific d

end Binary64
end DocumentTables
