import Mathlib
import DocumentTables.Proofs.CanonicalTexts
import DocumentTables.Proofs.KeyOrder

/-!
# Where the order of keys agrees with equality

Keys that the order does not tell apart are equal.  The converse fails in two places only.  The order
tells the two floating-point zeros apart, since their texts differ, while equality does not.  And it
tells a composite key without sub-fields, which has no leaves, from the single key that asks for an
empty object, which is a leaf.

**Results.**

* `Value.eq_iff_same`: what equality of values leaves open.
* `PrimaryKey.cmp_eq_eq_iff_same`: what equality of keys leaves open for the order.
-/

namespace DocumentTables

/-! ## The signs of zeros -/

/-- Two zeros have the same sign. -/
def Number.ZerosAgree : Number → Number → Prop
  | .float x, .float y => x.isZero = true → y.isZero = true → x.negative = y.negative
  | _, _ => True

mutual

/-- Zeros at the same place of two values have the same sign. -/
def Value.ZerosAgree : Value → Value → Prop
  | .number n, .number m => n.ZerosAgree m
  | .array as, .array bs => Value.ZerosAgreeItems as bs
  | .object as, .object bs => Value.ZerosAgreeFields as bs
  | _, _ => True

/-- Zeros at the same place of two lists of values have the same sign. -/
def Value.ZerosAgreeItems : List Value → List Value → Prop
  | a :: as, b :: bs => a.ZerosAgree b ∧ Value.ZerosAgreeItems as bs
  | _, _ => True

/-- Zeros at the same place below two lists of fields have the same sign. -/
def Value.ZerosAgreeFields : List (String × Value) → List (String × Value) → Prop
  | (_, a) :: as, (_, b) :: bs => a.ZerosAgree b ∧ Value.ZerosAgreeFields as bs
  | _, _ => True

end

theorem Binary64.eq_of_same
    {x y : Binary64} (hx : x.Canonical) (hy : y.Canonical) (h : x.same y = true)
    (hzeros : x.isZero = true → y.isZero = true → x.negative = y.negative) :
    x = y := by
  rw [same, Bool.or_eq_true, Bool.and_eq_true, beq_iff_eq] at h
  rcases h with ⟨hxzero, hyzero⟩ | rfl
  · have hsign := hzeros hxzero hyzero
    rw [isZero_iff] at hxzero hyzero
    refine eq_of_units_eq hx hy hsign ?_
    rw [units, units, hxzero, hyzero, Nat.zero_mul, Nat.zero_mul]
  · rfl

namespace Number

theorem zerosAgree_refl
    (n : Number) :
    n.ZerosAgree n := by
  cases n with
  | whole z =>
      trivial
  | float x =>
      exact fun _ _ => rfl

theorem eq_of_same
    {n m : Number} (hn : n.Canonical) (hm : m.Canonical) (h : n.same m = true)
    (hzeros : n.ZerosAgree m) :
    n = m := by
  cases n <;> cases m <;> simp only [same, Bool.false_eq_true, beq_iff_eq] at h
  · rw [h]
  · rw [Binary64.eq_of_same hn hm h hzeros]

end Number

namespace Value

mutual

theorem zerosAgree_refl : ∀ v : Value, v.ZerosAgree v
  | .null => trivial
  | .bool _ => trivial
  | .number n => n.zerosAgree_refl
  | .string _ => trivial
  | .array items => zerosAgreeItems_refl items
  | .object fields => zerosAgreeFields_refl fields

theorem zerosAgreeItems_refl : ∀ items : List Value, ZerosAgreeItems items items
  | [] => trivial
  | v :: items => ⟨zerosAgree_refl v, zerosAgreeItems_refl items⟩

theorem zerosAgreeFields_refl : ∀ fields : List (String × Value), ZerosAgreeFields fields fields
  | [] => trivial
  | (_, v) :: fields => ⟨zerosAgree_refl v, zerosAgreeFields_refl fields⟩

end

mutual

/-- Equal values are one if their zeros have the same signs. -/
theorem eq_of_same_of_zerosAgree :
    ∀ {v w : Value}, v.Canonical → w.Canonical → v.same w = true → v.ZerosAgree w → v = w
  | .null, w, _, _, h, _ => by
      cases w <;> simp [same] at h
      rfl
  | .bool b, w, _, _, h, _ => by
      cases w <;> simp [same] at h
      rw [h]
  | .number n, w, hv, hw, h, hzeros => by
      cases w <;> simp [same] at h
      rw [Number.eq_of_same hv hw h hzeros]
  | .string s, w, _, _, h, _ => by
      cases w <;> simp [same] at h
      rw [h]
  | .array items, w, hv, hw, h, hzeros => by
      cases w <;> simp [same] at h
      rw [eq_of_sameItems_of_zerosAgree hv hw h hzeros]
  | .object fields, w, hv, hw, h, hzeros => by
      cases w <;> simp [same] at h
      rw [eq_of_sameFields_of_zerosAgree hv hw h hzeros]

theorem eq_of_sameItems_of_zerosAgree :
    ∀ {vs ws : List Value}, EachNumberOfItems Number.Canonical vs →
      EachNumberOfItems Number.Canonical ws → sameItems vs ws = true → ZerosAgreeItems vs ws →
      vs = ws
  | [], ws, _, _, h, _ => by
      cases ws <;> simp [sameItems] at h
      rfl
  | v :: vs, ws, hvs, hws, h, hzeros => by
      cases ws with
      | nil =>
          simp [sameItems] at h
      | cons w ws =>
          simp only [sameItems, Bool.and_eq_true] at h
          rw [eq_of_same_of_zerosAgree hvs.1 hws.1 h.1 hzeros.1,
            eq_of_sameItems_of_zerosAgree hvs.2 hws.2 h.2 hzeros.2]

theorem eq_of_sameFields_of_zerosAgree :
    ∀ {vs ws : List (String × Value)}, EachNumberOfFields Number.Canonical vs →
      EachNumberOfFields Number.Canonical ws → sameFields vs ws = true → ZerosAgreeFields vs ws →
      vs = ws
  | [], ws, _, _, h, _ => by
      cases ws <;> simp [sameFields] at h
      rfl
  | (k, v) :: vs, ws, hvs, hws, h, hzeros => by
      cases ws with
      | nil =>
          simp [sameFields] at h
      | cons field ws =>
          obtain ⟨l, w⟩ := field
          simp only [sameFields, Bool.and_eq_true, beq_iff_eq] at h
          rw [h.1.1, eq_of_same_of_zerosAgree hvs.1 hws.1 h.1.2 hzeros.1,
            eq_of_sameFields_of_zerosAgree hvs.2 hws.2 h.2 hzeros.2]

end

/-- Equality of values leaves the signs of zeros open, and nothing else. -/
theorem eq_iff_same
    {v w : Value} (hv : v.Canonical) (hw : w.Canonical) :
    v = w ↔ v.same w = true ∧ v.ZerosAgree w := by
  constructor
  · rintro rfl
    exact ⟨same_refl v, zerosAgree_refl v⟩
  · rintro ⟨h, hzeros⟩
    exact eq_of_same_of_zerosAgree hv hw h hzeros

end Value

namespace PrimaryKey

variable {a b : PrimaryKey}

theorem toJson_eq_iff :
    a.toJson = b.toJson ↔ a.field = b.field ∧ a.value = b.value := by
  simp [toJson]

/-- The canonical texts of keys agree exactly if the keys are equal and their zeros agree. -/
theorem canonicalText_eq_iff
    (ha : a.Canonical) (hb : b.Canonical) :
    a.canonicalText = b.canonicalText ↔ a.same b = true ∧ a.value.ZerosAgree b.value := by
  have hjson : a.canonicalText = b.canonicalText ↔ a.toJson = b.toJson :=
    ⟨toJson_eq_of_canonicalText_eq ha hb, fun h => by rw [canonicalText, h, canonicalText]⟩
  rw [hjson, toJson_eq_iff, same_iff, Value.eq_iff_same ha hb, and_assoc]

/-! ## Leaves -/

/-- The leaves of a key are those of its value, unless the key is without sub-fields. -/
theorem unsortedLeaves_eq
    (h : ¬ a.WithoutParts) :
    a.unsortedLeaves = leavesOf a.field a.value := by
  cases a with
  | single field value =>
      rfl
  | composite field parts =>
      cases parts with
      | nil =>
          exact absurd rfl h
      | cons part parts =>
          rfl

theorem WithoutParts.leaves_eq_nil
    (h : a.WithoutParts) :
    a.leaves = [] := by
  have hleaves : a.unsortedLeaves = [] := congrArg unsortedLeaves h
  rw [leaves, hleaves, List.mergeSort_nil]

/-- An empty object is a leaf. -/
theorem leaves_ne_nil
    (h : ¬ a.WithoutParts) (hvalue : a.value = .object []) :
    a.leaves ≠ [] := by
  intro hnil
  have hlength := congrArg List.length hnil
  rw [leaves, List.length_mergeSort, unsortedLeaves_eq h, hvalue] at hlength
  cases hlength

/-- Keys with one mapping have the same leaves, unless only one of them is without sub-fields. -/
theorem map_spot_leaves_eq_iff
    (h : a.toJson = b.toJson) :
    a.leaves.map spot = b.leaves.map spot ↔ (a.WithoutParts ↔ b.WithoutParts) := by
  obtain ⟨hfield, hvalue⟩ := toJson_eq_iff.mp h
  by_cases ha : a.WithoutParts <;> by_cases hb : b.WithoutParts
  · simp [ha, hb, ha.leaves_eq_nil, hb.leaves_eq_nil]
  · have hempty : b.value = .object [] := hvalue.symm.trans (congrArg value ha)
    simp [ha, hb, ha.leaves_eq_nil, leaves_ne_nil hb hempty]
  · have hempty : a.value = .object [] := hvalue.trans (congrArg value hb)
    simp [ha, hb, hb.leaves_eq_nil, leaves_ne_nil ha hempty]
  · have hleaves : a.leaves = b.leaves := by
      rw [leaves, leaves, unsortedLeaves_eq ha, unsortedLeaves_eq hb, hfield, hvalue]
    simp [ha, hb, hleaves]

/-! ## The order and equality -/

/-- **Order and equality.**  The order does not tell two keys apart if and only if they are equal,
their zeros have the same signs, and both or none is a composite key without sub-fields. -/
theorem cmp_eq_eq_iff_same
    (ha : a.Canonical) (hb : b.Canonical) :
    cmp a b = .eq ↔
      a.same b = true ∧ a.value.ZerosAgree b.value ∧ (a.WithoutParts ↔ b.WithoutParts) := by
  rw [cmp_eq_eq_iff]
  constructor
  · rintro ⟨hleaves, htext⟩
    obtain ⟨hsame, hzeros⟩ := (canonicalText_eq_iff ha hb).mp htext
    exact ⟨hsame, hzeros,
      (map_spot_leaves_eq_iff (toJson_eq_of_canonicalText_eq ha hb htext)).mp hleaves⟩
  · rintro ⟨hsame, hzeros, hparts⟩
    have htext := (canonicalText_eq_iff ha hb).mpr ⟨hsame, hzeros⟩
    exact ⟨(map_spot_leaves_eq_iff (toJson_eq_of_canonicalText_eq ha hb htext)).mpr hparts, htext⟩

/-- A composite key that asks for a floating-point number. -/
def offsetParts (x : Binary64) : PrimaryKey :=
  .composite "id" [("offset", .number (.float x))]

/-- The same mapping as a single key. -/
def offsetObject (x : Binary64) : PrimaryKey :=
  .single "id" (.object [("offset", .number (.float x))])

theorem cmp_eq_eq_iff_same_offset :
    (offsetParts ⟨false, Nat.pow 2 52, 1022⟩).Canonical ∧
      (offsetObject ⟨false, Nat.pow 2 52, 1022⟩).Canonical ∧
      cmp (offsetParts ⟨false, Nat.pow 2 52, 1022⟩) (offsetObject ⟨false, Nat.pow 2 52, 1022⟩) =
        .eq := by
  have hone : (⟨false, Nat.pow 2 52, 1022⟩ : Binary64).Canonical :=
    ⟨by decide, by decide, .inr (by decide)⟩
  have hparts : (offsetParts ⟨false, Nat.pow 2 52, 1022⟩).Canonical := ⟨hone, trivial⟩
  have hobject : (offsetObject ⟨false, Nat.pow 2 52, 1022⟩).Canonical := ⟨hone, trivial⟩
  refine ⟨hparts, hobject, (cmp_eq_eq_iff_same hparts hobject).mpr ⟨?_, ?_, ?_⟩⟩
  · exact (same_iff _ _).mpr ⟨rfl, Value.same_refl _⟩
  · exact Value.zerosAgree_refl _
  · simp [WithoutParts, offsetParts, offsetObject]

/-- The order tells apart keys that are equal: those that differ in the sign of a zero, and a key
without sub-fields and one that asks for an empty object. -/
theorem cmp_ne_eq_of_same :
    (offsetParts (.zero false)).same (offsetParts (.zero true)) = true ∧
      cmp (offsetParts (.zero false)) (offsetParts (.zero true)) ≠ .eq ∧
      (single "id" (.object [])).same (composite "id" []) = true ∧
      cmp (single "id" (.object [])) (composite "id" []) ≠ .eq := by
  refine ⟨by decide, fun hzeros => ?_, by decide, fun hempty => ?_⟩
  · have htexts := (cmp_eq_eq_iff.mp hzeros).2
    revert htexts
    decide
  · have hleaves := (cmp_eq_eq_iff.mp hempty).1
    have hparts : (composite "id" []).WithoutParts := rfl
    rw [hparts.leaves_eq_nil, List.map_nil, List.map_eq_nil_iff] at hleaves
    exact leaves_ne_nil (by simp [WithoutParts]) rfl hleaves

end PrimaryKey
end DocumentTables
