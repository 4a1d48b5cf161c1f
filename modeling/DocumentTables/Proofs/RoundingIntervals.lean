import Mathlib
import DocumentTables.Number.Shortest

/-!
# The intervals that round to a double

Each double other than zero has an interval of numbers that are rounded to it.  The intervals of
different doubles do not meet, and each is so wide that a decimal of seventeen digits lies in it.  So
the search for the shortest decimal succeeds, and what it finds belongs to one double only.

**Results.**

* `Binary64.contains_shortest`: the shortest decimal lies in the interval of its double.
* `Binary64.units_eq_of_contains`: a number lies in the interval of one magnitude only.
-/

namespace DocumentTables
namespace Binary64

/-! ## Decimals in quarters of a unit -/

namespace Decimal

/-- The number that a decimal stands for. -/
def value (d : Decimal) : ℚ :=
  d.digits * (10 : ℚ) ^ d.exponent

/-- The number that a decimal stands for, in quarters of a unit. -/
def quarters (d : Decimal) : ℚ :=
  4 * unitsPerOne * d.value

/-- Zeros at the end of the digits only say what the exponent may say. -/
theorem value_shift
    (digits k : Nat) (exponent : Int) :
    value ⟨10 ^ k * digits, exponent⟩ = value ⟨digits, exponent + k⟩ := by
  simp only [value]
  rw [zpow_add₀ (by norm_num), zpow_natCast]
  push_cast
  ring

theorem value_dropZeros
    (fuel : Nat) (d : Decimal) :
    (d.dropZeros fuel).value = d.value := by
  induction fuel generalizing d with
  | zero =>
      rfl
  | succ fuel ih =>
      rw [dropZeros]
      split
      · next h =>
          have hdigits : 10 ^ 1 * (d.digits / 10) = d.digits := by omega
          have hshift := value_shift (d.digits / 10) 1 d.exponent
          rw [hdigits] at hshift
          exact (ih _).trans hshift.symm
      · rfl

end Decimal

theorem unitsPerOne_pos :
    0 < unitsPerOne := by
  unfold unitsPerOne
  generalize 1074 = k
  exact Nat.pow_pos (by norm_num)

/-! ## Intervals and grids -/

namespace Neighbourhood

variable {n : Neighbourhood} {q : ℚ}

/-- A number of quarters lies in the interval. -/
def Contains (n : Neighbourhood) (q : ℚ) : Prop :=
  if n.closed then n.low ≤ q ∧ q ≤ n.high else n.low < q ∧ q < n.high

theorem Contains.bounds
    (h : n.Contains q) :
    n.low ≤ q ∧ q ≤ n.high := by
  rw [Contains] at h
  split at h
  · exact h
  · exact ⟨h.1.le, h.2.le⟩

/-- Only a closed interval contains its ends. -/
theorem Contains.closed
    (h : n.Contains q) (hend : q = n.low ∨ q = n.high) :
    n.closed = true := by
  rw [Contains] at h
  split at h
  · assumption
  · rcases hend with rfl | rfl
    · exact absurd h.1 (lt_irrefl _)
    · exact absurd h.2 (lt_irrefl _)

end Neighbourhood

theorem scale_grid_pos
    (e : Int) :
    0 < (grid e).scale := by
  cases e with
  | ofNat k =>
      exact Nat.one_pos
  | negSucc k =>
      exact Nat.pow_pos (by norm_num)

theorem step_grid_pos
    (e : Int) :
    0 < (grid e).step := by
  have hquarters : 0 < 4 * unitsPerOne := Nat.mul_pos (by norm_num) unitsPerOne_pos
  cases e with
  | ofNat k =>
      exact Nat.mul_pos hquarters (Nat.pow_pos (by norm_num))
  | negSucc k =>
      exact hquarters

theorem exponent_grid
    (e : Int) :
    (grid e).exponent = e := by
  cases e <;> rfl

/-- The step of a grid is its power of ten. -/
theorem step_grid
    (e : Int) :
    ((grid e).step : ℚ) = 4 * unitsPerOne * (10 : ℚ) ^ e * (grid e).scale := by
  cases e with
  | ofNat k =>
      simp only [grid, Int.ofNat_eq_natCast, zpow_natCast, Nat.pow_eq]
      push_cast
      ring
  | negSucc k =>
      simp only [grid, zpow_negSucc, Nat.pow_eq]
      push_cast
      rw [mul_assoc, inv_mul_cancel₀ (by positivity), mul_one]

/-- A multiple of the grid lies in the interval if the decimal does. -/
theorem holds_grid_iff
    (n : Neighbourhood) (e : Int) (c : Nat) :
    n.holds (grid e) c = true ↔ n.Contains (Decimal.quarters ⟨c, e⟩) := by
  have hscale : (0 : ℚ) < (grid e).scale := by exact_mod_cast scale_grid_pos e
  have hpoint : ((c * (grid e).step : Nat) : ℚ) =
      Decimal.quarters ⟨c, e⟩ * (grid e).scale := by
    rw [Nat.cast_mul, step_grid, Decimal.quarters, Decimal.value]
    ring
  rw [Neighbourhood.holds, Neighbourhood.Contains]
  split
  · rw [Bool.and_eq_true, decide_eq_true_iff, decide_eq_true_iff, ← Nat.cast_le (α := ℚ),
      ← Nat.cast_le (α := ℚ), hpoint, Nat.cast_mul, Nat.cast_mul, mul_le_mul_iff_left₀ hscale,
      mul_le_mul_iff_left₀ hscale]
  · rw [Bool.and_eq_true, decide_eq_true_iff, decide_eq_true_iff, ← Nat.cast_lt (α := ℚ),
      ← Nat.cast_lt (α := ℚ), hpoint, Nat.cast_mul, Nat.cast_mul, mul_lt_mul_iff_left₀ hscale,
      mul_lt_mul_iff_left₀ hscale]

/-! ## The search -/

variable {n : Neighbourhood} {g : Grid} {c : Nat}

theorem holds_of_nearest?
    (h : n.nearest? g = some c) :
    n.holds g c = true := by
  simp only [Neighbourhood.nearest?] at h
  split at h
  · split_ifs at h <;> cases h <;> assumption
  · cases h
    assumption
  · cases h
    assumption
  · cases h

/-- If nothing is found then neither neighbour of the centre lies in the interval. -/
theorem not_holds_of_nearest?
    (h : n.nearest? g = none) :
    n.holds g (n.centre * g.scale / g.step) = false ∧
      n.holds g (n.centre * g.scale / g.step + 1) = false := by
  simp only [Neighbourhood.nearest?] at h
  split at h
  · split_ifs at h
  · cases h
  · cases h
  · next hdown hup =>
      exact ⟨hdown, hup⟩

/-- An interval that is wider than the step of a grid has a neighbour of its centre in it. -/
theorem exists_nearest?
    (hlow : n.low < n.centre) (hhigh : n.centre < n.high) (hscale : 0 < g.scale)
    (hstep : 0 < g.step) (hwide : g.step < (n.high - n.low) * g.scale) :
    ∃ c, n.nearest? g = some c := by
  refine Option.ne_none_iff_exists'.mp fun hnone => ?_
  obtain ⟨hdown, hup⟩ := not_holds_of_nearest? hnone
  generalize hc : n.centre * g.scale / g.step = c at hdown hup
  have hlow : n.low * g.scale < n.centre * g.scale := Nat.mul_lt_mul_of_pos_right hlow hscale
  have hhigh : n.centre * g.scale < n.high * g.scale := Nat.mul_lt_mul_of_pos_right hhigh hscale
  have hbelow : c * g.step ≤ n.centre * g.scale := hc ▸ Nat.div_mul_le_self _ _
  have habove : n.centre * g.scale < c * g.step + g.step := by
    rw [← hc, ← Nat.succ_mul, Nat.mul_comm _ g.step]
    exact Nat.lt_mul_div_succ _ hstep
  rw [Nat.sub_mul] at hwide
  -- the interval would lie between the two neighbours
  cases hclosed : n.closed with
  | true =>
      simp only [Neighbourhood.holds, hclosed, if_true, Nat.succ_mul, Bool.and_eq_false_iff,
        decide_eq_false_iff_not] at hdown hup
      omega
  | false =>
      simp only [Neighbourhood.holds, hclosed, Bool.false_eq_true, if_false, Nat.succ_mul,
        Bool.and_eq_false_iff, decide_eq_false_iff_not] at hdown hup
      omega

theorem contains_of_searchDigits
    {magnitude : Int} {fuel count : Nat} {d : Decimal}
    (h : searchDigits n magnitude fuel count = some d) :
    n.Contains d.quarters := by
  induction fuel generalizing count with
  | zero =>
      cases h
  | succ fuel ih =>
      rw [searchDigits] at h
      split at h
      · next c hc =>
          cases h
          rw [exponent_grid]
          exact (holds_grid_iff n _ c).mp (holds_of_nearest? hc)
      · exact ih h

theorem exists_searchDigits
    {magnitude : Int} {digits fuel count : Nat}
    (h : ∃ c, n.nearest? (grid (magnitude - digits)) = some c) (hcount : count ≤ digits)
    (hfuel : digits < count + fuel) :
    ∃ d, searchDigits n magnitude fuel count = some d := by
  induction fuel generalizing count with
  | zero =>
      omega
  | succ fuel ih =>
      rw [searchDigits]
      split
      · exact ⟨_, rfl⟩
      · next hnone =>
          have hne : count ≠ digits := by
            rintro rfl
            simp [hnone] at h
          exact ih (by omega) (by omega)

/-! ## The interval of a double -/

variable {x y : Binary64}

/-- How far the interval of a double reaches down from it, in halves of the distance to the double
above: below a power of two the doubles lie twice as close. -/
def reach (x : Binary64) : Nat :=
  if x.mantissa = Nat.pow 2 (precision - 1) ∧ x.exponent ≠ 0 then 1 else 2

theorem reach_cases
    (x : Binary64) :
    x.mantissa = 2 ^ 52 ∧ x.exponent ≠ 0 ∧ x.reach = 1 ∨
      ¬ (x.mantissa = 2 ^ 52 ∧ x.exponent ≠ 0) ∧ x.reach = 2 := by
  by_cases h : x.mantissa = 2 ^ 52 ∧ x.exponent ≠ 0
  · exact .inl ⟨h.1, h.2, if_pos h⟩
  · exact .inr ⟨h, if_neg h⟩

theorem reach_bounds
    (x : Binary64) :
    0 < x.reach ∧ x.reach ≤ 2 := by
  obtain ⟨-, -, hreach⟩ | ⟨-, hreach⟩ := reach_cases x <;> omega

theorem low_neighbourhood
    (x : Binary64) :
    x.neighbourhood.low = (4 * x.mantissa - x.reach) * 2 ^ x.exponent := by
  simp only [neighbourhood, units, reach, Nat.pow_eq, Nat.sub_mul, Nat.mul_assoc]
  split
  · rw [Nat.one_mul]
  · rfl

theorem high_neighbourhood
    (x : Binary64) :
    x.neighbourhood.high = (4 * x.mantissa + 2) * 2 ^ x.exponent := by
  simp only [neighbourhood, units, Nat.pow_eq]
  ring

theorem centre_neighbourhood
    (x : Binary64) :
    x.neighbourhood.centre = 4 * x.mantissa * 2 ^ x.exponent := by
  simp only [neighbourhood, units, Nat.pow_eq]
  ring

theorem closed_neighbourhood_iff :
    x.neighbourhood.closed = true ↔ x.mantissa % 2 = 0 := by
  simp [neighbourhood]

theorem Canonical.bounds
    (hx : x.Canonical) :
    x.mantissa < 2 ^ 53 ∧ (x.exponent = 0 ∨ 2 ^ 52 ≤ x.mantissa) := by
  exact ⟨hx.1, hx.2.2⟩

/-! ## Seventeen digits suffice -/

theorem two_pow_le_ten_pow
    {k n : Nat} (h : k ≤ 3 * n) :
    2 ^ k ≤ 10 ^ n := by
  calc 2 ^ k ≤ 2 ^ (3 * n) := Nat.pow_le_pow_right (by norm_num) h
    _ = 8 ^ n := by rw [Nat.pow_mul]
    _ ≤ 10 ^ n := Nat.pow_le_pow_left (by norm_num) n

/-- A number has as many digits as its size demands. -/
theorem ten_pow_length_le
    {k : Nat} (h : 0 < k) :
    10 ^ ((Nat.toDigits 10 k).length - 1) ≤ k := by
  by_cases hone : (Nat.toDigits 10 k).length - 1 = 0
  · rw [hone]
    exact h
  · by_contra hlt
    have := (Nat.length_toDigits_le_iff (by norm_num) (Nat.pos_of_ne_zero hone)).mpr
      (Nat.lt_of_not_le hlt)
    omega

/-- The digits before the point, counted in the number times a power of ten. -/
theorem ten_zpow_le
    {u v : Nat} (p : Nat) (hv : 0 < v) (hp : v ≤ u * Nat.pow 10 p) :
    (v : ℚ) * 10 ^ (((Nat.toDigits 10 (u * Nat.pow 10 p / v)).length : Int) - p - 1) ≤ u := by
  have hpos : 0 < u * Nat.pow 10 p / v := Nat.div_pos hp hv
  generalize hlength : (Nat.toDigits 10 (u * Nat.pow 10 p / v)).length = l
  have hdigits : 10 ^ (l - 1) ≤ u * Nat.pow 10 p / v := hlength ▸ ten_pow_length_le hpos
  have hl : 0 < l := hlength ▸ Nat.length_toDigits_pos
  have hnat : 10 ^ (l - 1) * v ≤ u * 10 ^ p :=
    (Nat.mul_le_mul_right v hdigits).trans (Nat.div_mul_le_self _ _)
  have hrat : (10 : ℚ) ^ (l - 1) * v ≤ u * 10 ^ p := by exact_mod_cast hnat
  have hexponent : (l : Int) - p - 1 = (l - 1 : Nat) - (p : Nat) := by omega
  rw [hexponent, zpow_sub₀ (by norm_num), zpow_natCast, zpow_natCast, ← mul_div_assoc,
    div_le_iff₀ (by positivity), mul_comm (v : ℚ)]
  exact hrat

theorem unitsPerOne_le :
    unitsPerOne ≤ Nat.pow 10 400 := by
  have hexponents : 1074 ≤ 3 * 400 := by norm_num
  unfold unitsPerOne
  generalize 1074 = k at *
  generalize 400 = n at *
  exact two_pow_le_ten_pow hexponents

theorem units_pos
    (hzero : x.mantissa ≠ 0) :
    0 < x.units := by
  exact Nat.mul_pos (Nat.pos_of_ne_zero hzero) (Nat.pow_pos (by norm_num))

/-- The magnitude counts no more digits than the number has. -/
theorem ten_zpow_magnitude_le
    (hzero : x.mantissa ≠ 0) :
    (unitsPerOne : ℚ) * 10 ^ (x.magnitude10 - 1) ≤ x.units := by
  have hdigits : unitsPerOne ≤ x.units * Nat.pow 10 400 :=
    unitsPerOne_le.trans (Nat.le_mul_of_pos_left _ (units_pos hzero))
  have hplaces : (400 : Int) = (400 : Nat) := rfl
  rw [magnitude10, hplaces]
  generalize 400 = p at hdigits ⊢
  exact ten_zpow_le p unitsPerOne_pos hdigits

theorem width_neighbourhood
    (hzero : x.mantissa ≠ 0) :
    x.neighbourhood.high - x.neighbourhood.low = (2 + x.reach) * 2 ^ x.exponent := by
  have hreach := x.reach_bounds
  rw [high_neighbourhood, low_neighbourhood, ← Nat.sub_mul]
  congr 1
  omega

/-- The mantissa has sixteen digits at most. -/
theorem four_mul_mantissa_lt
    (hx : x.Canonical) :
    4 * x.mantissa < (2 + x.reach) * 10 ^ 16 := by
  obtain ⟨hm, -⟩ := hx.bounds
  obtain ⟨hpower, -, hreach⟩ | ⟨-, hreach⟩ := reach_cases x
  · rw [hreach, hpower]
    norm_num
  · rw [hreach]
    omega

/-- The grid of seventeen digits is finer than the interval is wide. -/
theorem step_lt_width
    (hx : x.Canonical) (hzero : x.mantissa ≠ 0) :
    (grid (x.magnitude10 - 17)).step <
      (x.neighbourhood.high - x.neighbourhood.low) * (grid (x.magnitude10 - 17)).scale := by
  have hscale : (0 : ℚ) < (grid (x.magnitude10 - 17)).scale := by
    exact_mod_cast scale_grid_pos _
  have hpower : (10 : ℚ) ^ (x.magnitude10 - 17) = 10 ^ (x.magnitude10 - 1) / 10 ^ 16 := by
    rw [← zpow_natCast, ← zpow_sub₀ (by norm_num)]
    congr 1
    ring
  have hmantissa : (4 * x.mantissa : ℚ) < (2 + x.reach) * 10 ^ 16 := by
    exact_mod_cast four_mul_mantissa_lt hx
  have hfine : 4 * unitsPerOne * (10 : ℚ) ^ (x.magnitude10 - 17) <
      (2 + x.reach) * 2 ^ x.exponent := by
    rw [hpower, mul_div_assoc', div_lt_iff₀ (by positivity)]
    calc 4 * unitsPerOne * (10 : ℚ) ^ (x.magnitude10 - 1)
        = 4 * (unitsPerOne * 10 ^ (x.magnitude10 - 1)) := by ring
      _ ≤ 4 * x.units := by gcongr; exact ten_zpow_magnitude_le hzero
      _ = 4 * x.mantissa * 2 ^ x.exponent := by
          rw [units, Nat.pow_eq]
          push_cast
          ring
      _ < (2 + x.reach) * 10 ^ 16 * 2 ^ x.exponent := by gcongr
      _ = (2 + x.reach) * 2 ^ x.exponent * 10 ^ 16 := by ring
  rw [width_neighbourhood hzero, ← Nat.cast_lt (α := ℚ), step_grid, Nat.cast_mul]
  push_cast
  exact mul_lt_mul_of_pos_right hfine hscale

/-- The shortest decimal lies in the interval of its double. -/
theorem contains_shortest
    (hx : x.Canonical) (hzero : x.mantissa ≠ 0) :
    x.neighbourhood.Contains x.shortest.quarters := by
  have hpower : 0 < 2 ^ x.exponent := Nat.two_pow_pos _
  have hreach := x.reach_bounds
  have hnearest : ∃ c, x.neighbourhood.nearest? (grid (x.magnitude10 - 17)) = some c := by
    refine exists_nearest? ?_ ?_ (scale_grid_pos _) (step_grid_pos _) (step_lt_width hx hzero)
    · rw [low_neighbourhood, centre_neighbourhood]
      exact Nat.mul_lt_mul_of_pos_right (by omega) hpower
    · rw [high_neighbourhood, centre_neighbourhood]
      exact Nat.mul_lt_mul_of_pos_right (by omega) hpower
  obtain ⟨d, hd⟩ : ∃ d, searchDigits x.neighbourhood x.magnitude10 maxDigits 1 = some d :=
    exists_searchDigits hnearest (by norm_num) (by decide)
  have hcontains := contains_of_searchDigits hd
  rw [Decimal.quarters] at hcontains ⊢
  rwa [shortest, hd, Option.getD_some, Decimal.value_dropZeros]

/-! ## The intervals do not meet -/

/-- Doubles are ordered by exponent first. -/
theorem units_lt_of_exponent_lt
    (hx : x.Canonical) (hy : y.Canonical) (h : x.exponent < y.exponent) :
    x.units < y.units := by
  obtain ⟨hm, -⟩ := hx.bounds
  obtain ⟨-, hfull⟩ := hy.bounds
  have hfull : 2 ^ 52 ≤ y.mantissa := hfull.resolve_left (by omega)
  calc x.mantissa * 2 ^ x.exponent
      < 2 ^ 53 * 2 ^ x.exponent := Nat.mul_lt_mul_of_pos_right hm (Nat.two_pow_pos _)
    _ = 2 ^ 52 * 2 ^ (x.exponent + 1) := by ring
    _ ≤ y.mantissa * 2 ^ y.exponent := Nat.mul_le_mul hfull (Nat.pow_le_pow_right (by norm_num) h)

/-- Of two doubles with one exponent, the interval of the lesser ends where that of the greater
begins, or before; a common end belongs to one of them only. -/
theorem high_le_low_of_exponent_eq
    (hx : x.Canonical) (hexponent : x.exponent = y.exponent) (h : x.mantissa < y.mantissa) :
    x.neighbourhood.high ≤ y.neighbourhood.low ∧
      (x.neighbourhood.high = y.neighbourhood.low → x.neighbourhood.closed = true →
        y.neighbourhood.closed = false) := by
  obtain ⟨-, hfull⟩ := hx.bounds
  -- the mantissa of the greater double is no power of two
  have hreach : y.reach = 2 := by
    obtain ⟨hpower, hne, -⟩ | ⟨-, hreach⟩ := reach_cases y
    · omega
    · exact hreach
  have hpower : 0 < 2 ^ y.exponent := Nat.two_pow_pos _
  rw [high_neighbourhood, low_neighbourhood, hexponent, hreach]
  refine ⟨Nat.mul_le_mul_right _ (by omega), fun hends hclosed => ?_⟩
  have hends := Nat.eq_of_mul_eq_mul_right hpower hends
  rw [closed_neighbourhood_iff] at hclosed
  rw [Bool.eq_false_iff, Ne, closed_neighbourhood_iff]
  omega

/-- Of two doubles with different exponents, the interval of the lesser ends where that of the greater
begins, or before; the lesser one does not own a common end. -/
theorem high_le_low_of_exponent_lt
    (hx : x.Canonical) (hy : y.Canonical) (h : x.exponent < y.exponent) :
    x.neighbourhood.high ≤ y.neighbourhood.low ∧
      (x.neighbourhood.high = y.neighbourhood.low → x.neighbourhood.closed = false) := by
  obtain ⟨hm, -⟩ := hx.bounds
  obtain ⟨-, hfull⟩ := hy.bounds
  have hfull : 2 ^ 52 ≤ y.mantissa := hfull.resolve_left (by omega)
  have hlow : 2 ^ 54 - 1 ≤ 4 * y.mantissa - y.reach := by
    obtain ⟨-, -, hreach⟩ | ⟨hpower, hreach⟩ := reach_cases y <;> omega
  obtain ⟨k, hk⟩ := Nat.exists_eq_add_of_lt h
  have hdouble : 2 * (4 * y.mantissa - y.reach) ≤ (4 * y.mantissa - y.reach) * 2 ^ (k + 1) := by
    rw [Nat.mul_comm, Nat.pow_succ']
    exact Nat.mul_le_mul_left _ (Nat.le_mul_of_pos_right _ (Nat.two_pow_pos k))
  have hends : y.neighbourhood.low =
      (4 * y.mantissa - y.reach) * 2 ^ (k + 1) * 2 ^ x.exponent := by
    rw [low_neighbourhood, hk]
    ring
  rw [high_neighbourhood, hends]
  refine ⟨Nat.mul_le_mul_right _ (by omega), fun hends => ?_⟩
  have hends := Nat.eq_of_mul_eq_mul_right (Nat.two_pow_pos _) hends
  rw [Bool.eq_false_iff, Ne, closed_neighbourhood_iff]
  omega

/-- The interval of the lesser of two doubles ends where that of the greater begins, or before, and a
common end belongs to one of them only. -/
theorem high_le_low
    (hx : x.Canonical) (hy : y.Canonical) (h : x.units < y.units) :
    x.neighbourhood.high ≤ y.neighbourhood.low ∧
      (x.neighbourhood.high = y.neighbourhood.low → x.neighbourhood.closed = true →
        y.neighbourhood.closed = false) := by
  rcases Nat.lt_trichotomy x.exponent y.exponent with hlt | heq | hgt
  · obtain ⟨hle, hends⟩ := high_le_low_of_exponent_lt hx hy hlt
    refine ⟨hle, fun heq hclosed => ?_⟩
    rw [hends heq] at hclosed
    cases hclosed
  · refine high_le_low_of_exponent_eq hx heq ?_
    rw [units, units, heq] at h
    exact Nat.lt_of_mul_lt_mul_right h
  · exact absurd (units_lt_of_exponent_lt hy hx hgt) (Nat.lt_asymm h)

/-- A number does not lie in the intervals of two doubles. -/
theorem not_contains_of_units_lt
    {q : ℚ} (hx : x.Canonical) (hy : y.Canonical) (h : x.units < y.units)
    (hqx : x.neighbourhood.Contains q) :
    ¬ y.neighbourhood.Contains q := by
  intro hqy
  obtain ⟨hle, hends⟩ := high_le_low hx hy h
  have hrat : (x.neighbourhood.high : ℚ) ≤ y.neighbourhood.low := by exact_mod_cast hle
  -- the number is the common end, which both intervals would own
  have hhigh : q = x.neighbourhood.high := le_antisymm hqx.bounds.2 (hrat.trans hqy.bounds.1)
  have hlow : q = y.neighbourhood.low := le_antisymm (hhigh ▸ hrat) hqy.bounds.1
  have hcommon : x.neighbourhood.high = y.neighbourhood.low := by
    exact_mod_cast hhigh.symm.trans hlow
  have hclosed := hends hcommon (hqx.closed (.inr hhigh))
  rw [hqy.closed (.inl hlow)] at hclosed
  cases hclosed

/-- A number lies in the interval of one magnitude only. -/
theorem units_eq_of_contains
    {q : ℚ} (hx : x.Canonical) (hy : y.Canonical) (hqx : x.neighbourhood.Contains q)
    (hqy : y.neighbourhood.Contains q) :
    x.units = y.units := by
  rcases Nat.lt_trichotomy x.units y.units with hlt | heq | hgt
  · exact absurd hqy (not_contains_of_units_lt hx hy hlt hqx)
  · exact heq
  · exact absurd hqx (not_contains_of_units_lt hy hx hgt hqy)

/-- Each double is written once. -/
theorem eq_of_units_eq
    (hx : x.Canonical) (hy : y.Canonical) (hsign : x.negative = y.negative)
    (h : x.units = y.units) :
    x = y := by
  have hexponent : x.exponent = y.exponent := by
    rcases Nat.lt_trichotomy x.exponent y.exponent with hlt | heq | hgt
    · exact absurd h (Nat.ne_of_lt (units_lt_of_exponent_lt hx hy hlt))
    · exact heq
    · exact absurd h.symm (Nat.ne_of_lt (units_lt_of_exponent_lt hy hx hgt))
  have hmantissa : x.mantissa = y.mantissa := by
    rw [units, units, hexponent] at h
    exact Nat.eq_of_mul_eq_mul_right (Nat.two_pow_pos _) h
  cases x
  cases y
  exact congr (congr (congrArg mk hsign) hmantissa) hexponent

/-- Zero lies in the interval of no other double. -/
theorem not_contains_zero
    (hzero : x.mantissa ≠ 0) :
    ¬ x.neighbourhood.Contains 0 := by
  intro h
  have hlow : x.neighbourhood.low ≠ 0 := by
    have hreach := x.reach_bounds
    rw [low_neighbourhood]
    exact Nat.mul_ne_zero (by omega) (Nat.two_pow_pos _).ne'
  exact hlow (by exact_mod_cast le_antisymm h.bounds.1 (Nat.cast_nonneg _))

end Binary64
end DocumentTables
