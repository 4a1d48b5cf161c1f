/-!
# Finite binary64 numbers

A finite double is a sign and a whole number of units of `2 ^ -1074`, of which at most 53 bits are
significant.  All arithmetic is exact arithmetic on natural numbers followed by one rounding to the
nearest double, ties to the even mantissa.

**Results.**

* `Binary64.same_refl`, `Binary64.same_comm`, `Binary64.same_trans`: numerical equality, under
  which the two zeros are one number, is an equivalence.
-/

namespace DocumentTables

/-- The number `± mantissa * 2 ^ exponent` in units of `2 ^ -1074`. -/
structure Binary64 where
  negative : Bool
  mantissa : Nat
  exponent : Nat
deriving DecidableEq, Repr

namespace Binary64

/-- A mantissa has at most this many bits. -/
def precision : Nat := 53

/-- The largest exponent of a finite double, in units of `2 ^ -1074`. -/
def maxExponent : Nat := 2045

/-- The unit of all doubles is one over this number. -/
def unitsPerOne : Nat := Nat.pow 2 1074

/-- The form in which each finite double is written once: the mantissa fits, and is full unless the
exponent is the least one. -/
def Canonical (x : Binary64) : Prop :=
  x.mantissa < Nat.pow 2 precision ∧ x.exponent ≤ maxExponent ∧
    (x.exponent = 0 ∨ Nat.pow 2 (precision - 1) ≤ x.mantissa)

/-- Zero with the given sign. -/
def zero (negative : Bool) : Binary64 := ⟨negative, 0, 0⟩

/-- Either zero. -/
def isZero (x : Binary64) : Bool := x.mantissa == 0

/-- The magnitude as a whole number of units. -/
def units (x : Binary64) : Nat := x.mantissa * Nat.pow 2 x.exponent

/-- Numerical equality: the same number in canonical form, where the zeros of both signs agree. -/
def same (x y : Binary64) : Bool :=
  (x.isZero && y.isZero) || x == y

theorem same_refl (x : Binary64) : same x x = true := by
  simp [same]

theorem same_comm (x y : Binary64) : same x y = same y x := by
  rw [Bool.eq_iff_iff]
  simp only [same, Bool.or_eq_true, Bool.and_eq_true, beq_iff_eq]
  constructor <;> rintro (⟨hx, hy⟩ | h)
  · exact .inl ⟨hy, hx⟩
  · exact .inr h.symm
  · exact .inl ⟨hy, hx⟩
  · exact .inr h.symm

theorem same_trans
    {x y z : Binary64} (hxy : same x y = true) (hyz : same y z = true) :
    same x z = true := by
  simp only [same, Bool.or_eq_true, Bool.and_eq_true, beq_iff_eq] at *
  rcases hxy with ⟨hx, hy⟩ | rfl
  · rcases hyz with ⟨_, hz⟩ | rfl
    · exact .inl ⟨hx, hz⟩
    · exact .inl ⟨hx, hy⟩
  · exact hyz

/-- The quotient rounded to the nearest whole number, a tie to the even one. -/
def roundHalfEven (num den : Nat) : Nat :=
  let q := num / den
  let r := 2 * (num % den)
  if r < den then q
  else if den < r then q + 1
  else if q % 2 = 0 then q else q + 1

/-- The double nearest to `num / den`, or `none` if it exceeds every finite double. -/
def ofRatio? (negative : Bool) (num den : Nat) : Option Binary64 :=
  let scaled := num * unitsPerOne
  let shift := Nat.log2 (scaled / den) - (precision - 1)
  let m := roundHalfEven scaled (den * Nat.pow 2 shift)
  let x : Binary64 :=
    if m < Nat.pow 2 precision then ⟨negative, m, shift⟩ else ⟨negative, m / 2, shift + 1⟩
  if x.exponent ≤ maxExponent then some x else none

/-- The double nearest to a natural number. -/
def ofNat? (n : Nat) : Option Binary64 := ofRatio? false n 1

/-- The rounded product of magnitudes, with the sign of the first factor. -/
def mulMagnitude? (x y : Binary64) : Option Binary64 :=
  ofRatio? x.negative (x.units * y.units) (unitsPerOne * unitsPerOne)

/-- The rounded quotient of magnitudes, with the sign of the dividend. -/
def divMagnitude? (x y : Binary64) : Option Binary64 :=
  ofRatio? x.negative x.units y.units

/-- The double nearest to `10 ^ k`. -/
def powerOfTen? (k : Nat) : Option Binary64 := ofNat? (Nat.pow 10 k)

end Binary64
end DocumentTables
