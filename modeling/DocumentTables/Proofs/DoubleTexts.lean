import Mathlib
import DocumentTables.Proofs.JsonText
import DocumentTables.Proofs.RoundingIntervals

/-!
# The texts of doubles

The text of a double is a number literal with its sign that stands for its shortest decimal, in
whichever layout the decimal is written.  Since the decimal lies in the interval of one magnitude
only, different doubles have different texts.

**Results.**

* `Literal.scan_chars`: the text of a double is a literal that stands for its decimal.
* `Binary64.eq_of_denotes`: a literal stands for the decimal of one double only.
-/

namespace DocumentTables

/-! ## What a literal stands for -/

namespace Literal

variable {cs rest : List Char}

/-- The decimal that a literal stands for, without its sign. -/
def decimal (l : Literal) : Binary64.Decimal :=
  ⟨ofDigits (l.whole ++ l.fraction.getD []), l.exponent.getD 0 - (l.fraction.getD []).length⟩

/-- A literal with a point or an exponent stands for a number and its sign. -/
structure Denotes (l : Literal) (negative : Bool) (q : ℚ) : Prop where
  sign : l.negative = negative
  float : l.fraction.isSome = true ∨ l.exponent.isSome = true
  value : l.decimal.value = q

theorem ofDigits_map
    (cs : List Char) :
    ofDigits (cs.map digitValue) = Nat.ofDigitChars 10 cs 0 := by
  rw [ofDigits, List.foldl_map]
  rfl

theorem ofDigits_toDigits
    (n : Nat) :
    ofDigits ((Nat.toDigits 10 n).map digitValue) = n := by
  exact foldl_toDigits n

/-! ## The parts of a literal -/

theorem scanFraction_point
    (hcs : Digits cs) (hrest : NoDigit rest) :
    scanFraction ('.' :: (cs ++ rest)) = some (some (cs.map digitValue), rest) := by
  cases cs with
  | nil =>
      exact absurd rfl hcs.ne_nil
  | cons c cs =>
      rw [scanFraction, scanDigits_append hcs hrest]
      rfl

theorem scanPower_toDigits
    (negative : Bool) (n : Nat) (hrest : NoDigit rest) :
    scanPower negative (Nat.toDigits 10 n ++ rest) =
      some (some (if negative then -(n : Int) else n), rest) := by
  rw [scanPower, scanDigits_append (digits_toDigits n) hrest]
  have hvalue := ofDigits_toDigits n
  cases hdigits : Nat.toDigits 10 n with
  | nil =>
      exact absurd hdigits Nat.toDigits_ne_nil
  | cons d ds =>
      rw [hdigits, List.map_cons] at hvalue
      simp only [List.map_cons, hvalue]

theorem scanExponent_signed
    (power : Int) (hrest : NoDigit rest) :
    scanExponent ('e' :: (if power < 0 then '-' else '+') :: (Nat.toDigits 10 power.natAbs ++ rest)) =
      some (some power, rest) := by
  split_ifs with h
  · have hpower := scanPower_toDigits true power.natAbs hrest
    rw [if_pos rfl, Int.ofNat_natAbs_of_nonpos h.le, neg_neg] at hpower
    simpa [scanExponent] using hpower
  · have hpower := scanPower_toDigits false power.natAbs hrest
    rw [if_neg Bool.false_ne_true, Int.natAbs_of_nonneg (not_lt.mp h)] at hpower
    simpa [scanExponent] using hpower

theorem scanUnsigned_of_parts
    {negative : Bool} {afterWhole afterFraction : List Char} {whole : List Nat}
    {fraction : Option (List Nat)} {exponent : Option Int}
    (hwhole : scanWhole cs = some (whole, afterWhole))
    (hfraction : scanFraction afterWhole = some (fraction, afterFraction))
    (hexponent : scanExponent afterFraction = some (exponent, rest)) :
    scanUnsigned negative cs = some (⟨negative, whole, fraction, exponent⟩, rest) := by
  simp [scanUnsigned, hwhole, hfraction, hexponent]

/-! ## Both layouts -/

theorem isDigit_zeros
    (k : Nat) :
    ∀ c ∈ List.replicate k '0', c.isDigit = true := by
  intro c hc
  rw [List.eq_of_mem_replicate hc]
  decide

theorem digits_zero :
    Digits ['0'] := by
  exact ⟨isDigit_zeros 1, List.cons_ne_nil _ _⟩

theorem Digits.append_zeros
    (hcs : Digits cs) (k : Nat) :
    Digits (cs ++ List.replicate k '0') := by
  refine ⟨fun c hc => ?_, by simp [hcs.ne_nil]⟩
  exact (List.mem_append.mp hc).elim (hcs.isDigit c) (isDigit_zeros k c)

theorem Digits.zeros_append
    (hcs : Digits cs) (k : Nat) :
    Digits (List.replicate k '0' ++ cs) := by
  refine ⟨fun c hc => ?_, by simp [hcs.ne_nil]⟩
  exact (List.mem_append.mp hc).elim (isDigit_zeros k c) (hcs.isDigit c)

theorem Digits.take
    {k : Nat} (hcs : Digits cs) (hk : 0 < k) :
    Digits (cs.take k) := by
  refine ⟨fun c hc => hcs.isDigit c (List.mem_of_mem_take hc), ?_⟩
  rw [Ne, List.take_eq_nil_iff, not_or]
  exact ⟨hk.ne', hcs.ne_nil⟩

theorem Digits.drop
    {k : Nat} (hcs : Digits cs) (hk : k < cs.length) :
    Digits (cs.drop k) := by
  refine ⟨fun c hc => hcs.isDigit c (List.mem_of_mem_drop hc), ?_⟩
  rw [Ne, List.drop_eq_nil_iff]
  omega

section Layouts

variable (negative : Bool) (d : Binary64.Decimal)

/-- Digits with a point among them stand for the number of all digits, divided by a power of ten. -/
theorem exists_scan_point
    {whole fraction : List Char} (hwhole : Digits whole) (hfraction : Digits fraction)
    (hzero : whole.head? = some '0' → whole.length = 1) (hrest : Json.Closes rest) :
    ∃ l, scanUnsigned negative (whole ++ '.' :: (fraction ++ rest)) = some (l, rest) ∧
      l.Denotes negative
        (Binary64.Decimal.value ⟨Nat.ofDigitChars 10 (whole ++ fraction) 0, -fraction.length⟩) := by
  refine ⟨_, scanUnsigned_of_parts
    (scanWhole_append hwhole hzero (noDigit_cons (by decide) _))
    (scanFraction_point hfraction (noDigit_of_closes hrest))
    (scanExponent_of_closes hrest), rfl, .inl rfl, ?_⟩
  simp only [decimal, Option.getD_some, Option.getD_none, ← List.map_append, ofDigits_map,
    List.length_map, zero_sub]

/-- A decimal that is written with a point is read. -/
theorem exists_scan_positional
    (hd : d.digits ≠ 0) (hrest : Json.Closes rest) :
    ∃ l, scanUnsigned negative (Binary64.positional d ++ rest) = some (l, rest) ∧
      l.Denotes negative d.value := by
  obtain ⟨digits, exponent⟩ := d
  have hhead := head?_toDigits_ne hd
  have hds := digits_toDigits digits
  have hvalue : Nat.ofDigitChars 10 (Nat.toDigits 10 digits) 0 = digits :=
    Nat.ofDigitChars_ten_toDigits
  rw [Binary64.positional]
  generalize Nat.toDigits 10 digits = ds at *
  cases exponent with
  | ofNat k =>
      have hwhole : (ds ++ List.replicate k '0').head? ≠ some '0' := by
        rwa [List.head?_append_of_ne_nil _ hds.ne_nil]
      obtain ⟨l, hscan, hl⟩ := exists_scan_point negative (hds.append_zeros k) digits_zero
        (fun h => absurd h hwhole) hrest
      refine ⟨l, by simpa using hscan, ?_⟩
      have hzeros : ds ++ List.replicate k '0' ++ ['0'] = ds ++ List.replicate (k + 1) '0' := by
        rw [List.append_assoc, List.replicate_succ']
      have hexponent : -['0'].length + ((k + 1 : Nat) : Int) = .ofNat k := by
        rw [List.length_singleton, Int.ofNat_eq_natCast]
        omega
      rwa [hzeros, Nat.ofDigitChars_append, hvalue, Nat.ofDigitChars_replicate_zero,
        Binary64.Decimal.value_shift, hexponent] at hl
  | negSucc k =>
      by_cases hplaces : k + 1 < ds.length
      · have hwhole : (ds.take (ds.length - (k + 1))).head? ≠ some '0' := by
          rwa [List.head?_take, if_neg (by omega)]
        have hfraction : Digits (ds.drop (ds.length - (k + 1))) := hds.drop (by omega)
        obtain ⟨l, hscan, hl⟩ := exists_scan_point negative (hds.take (by omega)) hfraction
          (fun h => absurd h hwhole) hrest
        refine ⟨l, by simpa [hplaces] using hscan, ?_⟩
        have hlength : (ds.drop (ds.length - (k + 1))).length = k + 1 := by
          rw [List.length_drop]
          omega
        rwa [List.take_append_drop, hvalue, hlength] at hl
      · obtain ⟨l, hscan, hl⟩ := exists_scan_point negative digits_zero
          (hds.zeros_append (k + 1 - ds.length)) (fun _ => rfl) hrest
        refine ⟨l, by simpa [hplaces] using hscan, ?_⟩
        have hlength : (List.replicate (k + 1 - ds.length) '0' ++ ds).length = k + 1 := by
          rw [List.length_append, List.length_replicate]
          omega
        have hzeros : ['0'] ++ (List.replicate (k + 1 - ds.length) '0' ++ ds) =
            List.replicate (k + 1 - ds.length + 1) '0' ++ ds := rfl
        rwa [hzeros, Nat.ofDigitChars_append, Nat.ofDigitChars_replicate_zero, Nat.mul_zero, hvalue,
          hlength] at hl

theorem scanWhole_digit
    {c : Char} (hc : Digits [c]) (hrest : NoDigit rest) :
    scanWhole (c :: rest) = some ([digitValue c], rest) := by
  exact scanWhole_append hc (fun _ => rfl) hrest

/-- One digit, the others after a point, and a power of ten. -/
theorem exists_scan_power
    {c : Char} {cs : List Char} (power : Int) (hdigits : Digits (c :: cs))
    (hrest : Json.Closes rest) :
    ∃ l, scanUnsigned negative (c :: ((if (c :: cs).length = 1 then [] else '.' :: cs) ++
        'e' :: (if power < 0 then '-' else '+') :: (Nat.toDigits 10 power.natAbs ++ rest))) =
          some (l, rest) ∧
      l.Denotes negative
        (Binary64.Decimal.value ⟨Nat.ofDigitChars 10 (c :: cs) 0, power - cs.length⟩) := by
  have hc : Digits [c] := hdigits.take Nat.one_pos
  have hpower : NoDigit ('e' :: (if power < 0 then '-' else '+') ::
      (Nat.toDigits 10 power.natAbs ++ rest)) := noDigit_cons (by decide) _
  have hexponent := scanExponent_signed power (noDigit_of_closes hrest)
  cases cs with
  | nil =>
      refine ⟨_, scanUnsigned_of_parts (scanWhole_digit hc hpower) rfl hexponent, rfl, .inr rfl, ?_⟩
      rw [← ofDigits_map]
      rfl
  | cons d cs =>
      have hcs : Digits (d :: cs) := hdigits.drop (k := 1) (by simp)
      rw [if_neg (by simp)]
      refine ⟨_, scanUnsigned_of_parts (scanWhole_digit hc (noDigit_cons (by decide) _))
        (scanFraction_point hcs hpower) hexponent, rfl, .inr rfl, ?_⟩
      rw [← ofDigits_map]
      simp [decimal]

/-- A decimal that is written with an exponent is read. -/
theorem exists_scan_scientific
    (hrest : Json.Closes rest) :
    ∃ l, scanUnsigned negative (Binary64.scientific d ++ rest) = some (l, rest) ∧
      l.Denotes negative d.value := by
  obtain ⟨digits, exponent⟩ := d
  have hdigits := digits_toDigits digits
  have hvalue : Nat.ofDigitChars 10 (Nat.toDigits 10 digits) 0 = digits :=
    Nat.ofDigitChars_ten_toDigits
  simp only [Binary64.scientific]
  cases hcs : Nat.toDigits 10 digits with
  | nil =>
      exact absurd hcs Nat.toDigits_ne_nil
  | cons c cs =>
      rw [hcs] at hdigits hvalue
      obtain ⟨l, hscan, hl⟩ :=
        exists_scan_power negative (exponent + (c :: cs).length - 1) hdigits hrest
      refine ⟨l, by simpa using hscan, ?_⟩
      have hexponent : exponent + (c :: cs).length - 1 - cs.length = exponent := by
        rw [List.length_cons]
        push_cast
        ring
      rwa [hexponent, hvalue] at hl

end Layouts

end Literal

/-! ## The text of a double -/

namespace Binary64

variable {x y : Binary64} {rest : List Char}

/-- The decimal that is written for a double. -/
def decimal (x : Binary64) : Decimal :=
  if x.isZero then ⟨0, 0⟩ else x.shortest

/-- The text of a double after its sign. -/
def unsignedChars (x : Binary64) : List Char :=
  let d := x.shortest
  let power : Int := d.exponent + (Nat.toDigits 10 d.digits).length - 1
  if x.isZero then ['0', '.', '0']
  else if layout.leastPositional ≤ power ∧ power < layout.leastScientific then positional d
  else scientific d

theorem chars_eq
    (x : Binary64) :
    x.chars = (if x.negative then ['-'] else []) ++ x.unsignedChars := by
  simp only [chars, unsignedChars]
  split_ifs <;> rfl

theorem isZero_iff :
    x.isZero = true ↔ x.mantissa = 0 := by
  simp [isZero]

/-- The decimal of a double other than zero lies in its interval. -/
theorem contains_decimal
    (hx : x.Canonical) (hzero : x.mantissa ≠ 0) :
    x.neighbourhood.Contains x.decimal.quarters := by
  rw [decimal, if_neg (mt isZero_iff.mp hzero)]
  exact contains_shortest hx hzero

theorem value_decimal_eq_zero_iff
    (hx : x.Canonical) :
    x.decimal.value = 0 ↔ x.mantissa = 0 := by
  constructor
  · intro hvalue
    by_contra hzero
    have hcontains := contains_decimal hx hzero
    rw [Decimal.quarters, hvalue, mul_zero] at hcontains
    exact not_contains_zero hzero hcontains
  · intro hzero
    rw [decimal, if_pos (isZero_iff.mpr hzero), Decimal.value, Nat.cast_zero, zero_mul]

theorem shortest_digits_ne_zero
    (hx : x.Canonical) (hzero : x.mantissa ≠ 0) :
    x.shortest.digits ≠ 0 := by
  intro hdigits
  refine hzero ((value_decimal_eq_zero_iff hx).mp ?_)
  rw [decimal, if_neg (mt isZero_iff.mp hzero), Decimal.value, hdigits, Nat.cast_zero, zero_mul]

theorem exists_scan_unsignedChars
    (negative : Bool) (hx : x.Canonical) (hrest : Json.Closes rest) :
    ∃ l, Literal.scanUnsigned negative (x.unsignedChars ++ rest) = some (l, rest) ∧
      l.Denotes negative x.decimal.value := by
  rw [unsignedChars, decimal]
  split_ifs with hzero hlayout
  · obtain ⟨l, hscan, hl⟩ := Literal.exists_scan_point negative Literal.digits_zero
      Literal.digits_zero (fun _ => rfl) hrest
    refine ⟨l, hscan, ?_⟩
    simpa [Decimal.value, Nat.ofDigitChars] using hl
  · exact Literal.exists_scan_positional negative _
      (shortest_digits_ne_zero hx (mt isZero_iff.mpr hzero)) hrest
  · exact Literal.exists_scan_scientific negative _ hrest

end Binary64

/-- The text of a double is a literal with its sign that stands for its decimal. -/
theorem Literal.scan_chars
    {x : Binary64} {rest : List Char} (hx : x.Canonical) (hrest : Json.Closes rest) :
    ∃ l, scan (x.chars ++ rest) = some (l, rest) ∧ l.Denotes x.negative x.decimal.value := by
  obtain ⟨l, hscan, hl⟩ := Binary64.exists_scan_unsignedChars x.negative hx hrest
  refine ⟨l, ?_, hl⟩
  rw [Binary64.chars_eq]
  cases hsign : x.negative with
  | true =>
      rw [hsign] at hscan
      exact hscan
  | false =>
      rw [hsign] at hscan
      exact scan_of_scanUnsigned hscan

namespace Binary64

variable {x y : Binary64}

/-- Different magnitudes have different decimals. -/
theorem units_eq_of_value_decimal_eq
    (hx : x.Canonical) (hy : y.Canonical) (h : x.decimal.value = y.decimal.value) :
    x.units = y.units := by
  by_cases hzero : x.mantissa = 0
  · have hother : y.mantissa = 0 := by
      rwa [← value_decimal_eq_zero_iff hy, ← h, value_decimal_eq_zero_iff hx]
    rw [units, units, hzero, hother, Nat.zero_mul, Nat.zero_mul]
  · have hother : y.mantissa ≠ 0 := by
      rwa [Ne, ← value_decimal_eq_zero_iff hy, ← h, value_decimal_eq_zero_iff hx]
    have hcontains := contains_decimal hx hzero
    rw [Decimal.quarters, h, ← Decimal.quarters] at hcontains
    exact units_eq_of_contains hx hy hcontains (contains_decimal hy hother)

/-- A literal stands for the decimal of one double only. -/
theorem eq_of_denotes
    {l : Literal} (hx : x.Canonical) (hy : y.Canonical) (hlx : l.Denotes x.negative x.decimal.value)
    (hly : l.Denotes y.negative y.decimal.value) :
    x = y := by
  exact eq_of_units_eq hx hy (hlx.sign.symm.trans hly.sign)
    (units_eq_of_value_decimal_eq hx hy (hlx.value.symm.trans hly.value))

end Binary64
end DocumentTables
