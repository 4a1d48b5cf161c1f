import DocumentTables.Key.Basic

/-!
# Equality of values and keys

Equality of values compares kinds first and identifies the two floating-point zeros.  It is an
equivalence, and so is the equality of keys.  A hash table is stricter: it takes keys for one if they
are equal and have one canonical text.  Without floating-point numbers that is the same.

**Results.**

* `Value.same_refl`, `Value.same_symm`, `Value.same_trans`: the equality of values.
* `PrimaryKey.same_refl`, `PrimaryKey.same_symm`, `PrimaryKey.same_trans`: the equality of keys.
* `PrimaryKey.alike_refl`, `PrimaryKey.alike_symm`, `PrimaryKey.alike_trans`: the keys that a hash
  table takes for one.
* `PrimaryKey.FloatFree.alike_eq_same`: these are the equal ones, without floating-point numbers.
-/

namespace DocumentTables

namespace Number

theorem same_refl
    (n : Number) :
    n.same n = true := by
  cases n with
  | whole n =>
      simp [same]
  | float x =>
      exact Binary64.same_refl x

theorem same_comm
    (a b : Number) :
    a.same b = b.same a := by
  cases a <;> cases b
  · simp [same, Bool.beq_comm]
  · rfl
  · rfl
  · exact Binary64.same_comm _ _

theorem same_trans
    {a b c : Number} (hab : a.same b = true) (hbc : b.same c = true) :
    a.same c = true := by
  cases a <;> cases b <;> cases c <;> simp only [same, Bool.false_eq_true, beq_iff_eq] at *
  · exact hab.trans hbc
  · exact Binary64.same_trans hab hbc

end Number

namespace Value

mutual

theorem same_refl : ∀ v : Value, v.same v = true
  | .null => rfl
  | .bool b => by simp [same]
  | .number n => by simp [same, Number.same_refl]
  | .string s => by simp [same]
  | .array items => by rw [same, sameItems_refl items]
  | .object fields => by rw [same, sameFields_refl fields]

theorem sameItems_refl : ∀ items : List Value, sameItems items items = true
  | [] => rfl
  | v :: items => by simp [sameItems, same_refl v, sameItems_refl items]

theorem sameFields_refl : ∀ fields : List (String × Value), sameFields fields fields = true
  | [] => rfl
  | (_, v) :: fields => by simp [sameFields, same_refl v, sameFields_refl fields]

end

mutual

theorem same_comm : ∀ v w : Value, v.same w = w.same v
  | .null, w => by cases w <;> rfl
  | .bool b, w => by cases w <;> simp [same, Bool.beq_comm]
  | .number n, w => by cases w <;> simp [same, Number.same_comm n]
  | .string s, w => by cases w <;> simp [same, Bool.beq_comm]
  | .array items, w => by cases w <;> simp [same, sameItems_comm items]
  | .object fields, w => by cases w <;> simp [same, sameFields_comm fields]

theorem sameItems_comm : ∀ vs ws : List Value, sameItems vs ws = sameItems ws vs
  | [], ws => by cases ws <;> rfl
  | v :: vs, ws => by
      cases ws with
      | nil =>
          rfl
      | cons w ws =>
          simp [sameItems, same_comm v w, sameItems_comm vs ws]

theorem sameFields_comm : ∀ vs ws : List (String × Value), sameFields vs ws = sameFields ws vs
  | [], ws => by cases ws <;> rfl
  | (k, v) :: vs, ws => by
      cases ws with
      | nil =>
          rfl
      | cons w ws =>
          simp [sameFields, same_comm v w.2, sameFields_comm vs ws, Bool.beq_comm (a := k)]

end

mutual

theorem same_trans : ∀ {u v w : Value}, u.same v = true → v.same w = true → u.same w = true
  | .null, v, w, huv, hvw => by
      cases v <;> simp [same] at huv
      exact hvw
  | .bool b, v, w, huv, hvw => by
      cases v <;> simp [same] at huv
      exact huv ▸ hvw
  | .number n, v, w, huv, hvw => by
      cases v <;> simp [same] at huv
      cases w <;> simp [same] at hvw ⊢
      exact Number.same_trans huv hvw
  | .string s, v, w, huv, hvw => by
      cases v <;> simp [same] at huv
      exact huv ▸ hvw
  | .array us, v, w, huv, hvw => by
      cases v <;> simp [same] at huv
      cases w <;> simp [same] at hvw ⊢
      exact sameItems_trans huv hvw
  | .object us, v, w, huv, hvw => by
      cases v <;> simp [same] at huv
      cases w <;> simp [same] at hvw ⊢
      exact sameFields_trans huv hvw

theorem sameItems_trans :
    ∀ {us vs ws : List Value}, sameItems us vs = true → sameItems vs ws = true →
      sameItems us ws = true
  | [], vs, ws, huv, hvw => by
      cases vs <;> simp [sameItems] at huv
      exact hvw
  | u :: us, vs, ws, huv, hvw => by
      cases vs <;> simp [sameItems] at huv
      cases ws <;> simp [sameItems] at hvw ⊢
      exact ⟨same_trans huv.1 hvw.1, sameItems_trans huv.2 hvw.2⟩

theorem sameFields_trans :
    ∀ {us vs ws : List (String × Value)}, sameFields us vs = true → sameFields vs ws = true →
      sameFields us ws = true
  | [], vs, ws, huv, hvw => by
      cases vs <;> simp [sameFields] at huv
      exact hvw
  | (k, u) :: us, vs, ws, huv, hvw => by
      cases vs <;> simp [sameFields] at huv
      cases ws <;> simp [sameFields] at hvw ⊢
      exact ⟨⟨huv.1.1.trans hvw.1.1, same_trans huv.1.2 hvw.1.2⟩,
        sameFields_trans huv.2 hvw.2⟩

end

theorem same_symm
    {v w : Value} (h : v.same w = true) :
    w.same v = true := by
  rwa [same_comm]

end Value

/-! ## Values without floating-point numbers -/

mutual

/-- All numbers in a value have a property. -/
def Value.EachNumber (p : Number → Prop) : Value → Prop
  | .number n => p n
  | .array items => Value.EachNumberOfItems p items
  | .object fields => Value.EachNumberOfFields p fields
  | _ => True

/-- All numbers in a list of values have a property. -/
def Value.EachNumberOfItems (p : Number → Prop) : List Value → Prop
  | [] => True
  | item :: items => item.EachNumber p ∧ Value.EachNumberOfItems p items

/-- All numbers below the given fields have a property. -/
def Value.EachNumberOfFields (p : Number → Prop) : List (String × Value) → Prop
  | [] => True
  | (_, value) :: fields => value.EachNumber p ∧ Value.EachNumberOfFields p fields

end

/-- All numbers in a value are whole, of any size. -/
def Value.FloatFree (v : Value) : Prop :=
  v.EachNumber fun n => ∃ z, n = .whole z

namespace Value

mutual

/-- Without floating-point numbers equal values are one. -/
theorem eq_of_same : ∀ {v w : Value}, v.FloatFree → v.same w = true → v = w
  | .null, w, _, h => by
      cases w <;> simp [same] at h
      rfl
  | .bool b, w, _, h => by
      cases w <;> simp [same] at h
      rw [h]
  | .number n, w, hfree, h => by
      obtain ⟨z, rfl⟩ := hfree
      cases w with
      | number m =>
          cases m with
          | whole z' =>
              simp only [same, Number.same, beq_iff_eq] at h
              rw [h]
          | float x =>
              simp [same, Number.same] at h
      | _ =>
          simp [same] at h
  | .string s, w, _, h => by
      cases w <;> simp [same] at h
      rw [h]
  | .array items, w, hfree, h => by
      cases w <;> simp [same] at h
      rw [eq_of_sameItems hfree h]
  | .object fields, w, hfree, h => by
      cases w <;> simp [same] at h
      rw [eq_of_sameFields hfree h]

theorem eq_of_sameItems :
    ∀ {vs ws : List Value}, EachNumberOfItems (fun n => ∃ z, n = .whole z) vs →
      sameItems vs ws = true → vs = ws
  | [], ws, _, h => by
      cases ws <;> simp [sameItems] at h
      rfl
  | v :: vs, ws, hfree, h => by
      cases ws with
      | nil =>
          simp [sameItems] at h
      | cons w ws =>
          simp only [sameItems, Bool.and_eq_true] at h
          rw [eq_of_same hfree.1 h.1, eq_of_sameItems hfree.2 h.2]

theorem eq_of_sameFields :
    ∀ {vs ws : List (String × Value)}, EachNumberOfFields (fun n => ∃ z, n = .whole z) vs →
      sameFields vs ws = true → vs = ws
  | [], ws, _, h => by
      cases ws <;> simp [sameFields] at h
      rfl
  | (k, v) :: vs, ws, hfree, h => by
      cases ws with
      | nil =>
          simp [sameFields] at h
      | cons field ws =>
          obtain ⟨l, w⟩ := field
          simp only [sameFields, Bool.and_eq_true, beq_iff_eq] at h
          rw [h.1.1, eq_of_same hfree.1 h.1.2, eq_of_sameFields hfree.2 h.2]

end

end Value

namespace PrimaryKey

@[simp] theorem same_refl
    (k : PrimaryKey) :
    k.same k = true := by
  exact Value.same_refl _

theorem same_comm
    (k l : PrimaryKey) :
    k.same l = l.same k := by
  exact Value.same_comm _ _

theorem same_symm
    {k l : PrimaryKey} (h : k.same l = true) :
    l.same k = true := by
  rwa [same_comm]

theorem same_trans
    {k l m : PrimaryKey} (hkl : k.same l = true) (hlm : l.same m = true) :
    k.same m = true := by
  exact Value.same_trans hkl hlm

/-- Equal keys are equal to the same keys. -/
theorem same_congr
    {k l : PrimaryKey} (h : k.same l = true) (m : PrimaryKey) :
    k.same m = l.same m := by
  rw [Bool.eq_iff_iff]
  exact ⟨fun hk => same_trans (same_symm h) hk, fun hl => same_trans h hl⟩

/-- A composite key without sub-fields. -/
def WithoutParts (key : PrimaryKey) : Prop :=
  key = .composite key.field []

/-- Keys are equal if they name the same field and ask for the same value. -/
theorem same_iff
    (k l : PrimaryKey) :
    k.same l = true ↔ k.field = l.field ∧ k.value.same l.value = true := by
  simp [same, toJson, Value.same, Value.sameFields]

/-- A key asks for no floating-point number. -/
def FloatFree (key : PrimaryKey) : Prop :=
  key.value.FloatFree

/-- Equal keys without floating-point numbers have one canonical text. -/
theorem canonicalText_eq_of_same
    {key other : PrimaryKey} (hfree : key.FloatFree) (h : key.same other = true) :
    key.canonicalText = other.canonicalText := by
  have hjson : key.toJson = other.toJson := Value.eq_of_same ⟨hfree, trivial⟩ h
  rw [canonicalText, hjson, canonicalText]

@[simp] theorem hashedTexts_eq
    (k : PrimaryKey) :
    k.hashedTexts = [k.canonicalText] := by
  rfl

theorem alike_iff
    {k l : PrimaryKey} :
    k.alike l = true ↔ k.canonicalText = l.canonicalText ∧ k.same l = true := by
  simp [alike]

theorem same_of_alike
    {k l : PrimaryKey} (h : k.alike l = true) :
    k.same l = true := by
  exact (alike_iff.mp h).2

@[simp] theorem alike_refl
    (k : PrimaryKey) :
    k.alike k = true := by
  exact alike_iff.mpr ⟨rfl, same_refl k⟩

theorem alike_symm
    {k l : PrimaryKey} (h : k.alike l = true) :
    l.alike k = true := by
  obtain ⟨htext, hsame⟩ := alike_iff.mp h
  exact alike_iff.mpr ⟨htext.symm, same_symm hsame⟩

theorem alike_comm
    (k l : PrimaryKey) :
    k.alike l = l.alike k := by
  rw [Bool.eq_iff_iff]
  exact ⟨alike_symm, alike_symm⟩

theorem alike_trans
    {k l m : PrimaryKey} (hkl : k.alike l = true) (hlm : l.alike m = true) :
    k.alike m = true := by
  obtain ⟨htext, hsame⟩ := alike_iff.mp hkl
  obtain ⟨htext', hsame'⟩ := alike_iff.mp hlm
  exact alike_iff.mpr ⟨htext.trans htext', same_trans hsame hsame'⟩

/-- Keys that are alike are alike to the same keys. -/
theorem alike_congr
    {k l : PrimaryKey} (h : k.alike l = true) (m : PrimaryKey) :
    k.alike m = l.alike m := by
  rw [Bool.eq_iff_iff]
  exact ⟨fun hk => alike_trans (alike_symm h) hk, fun hl => alike_trans h hl⟩

/-- A key without floating-point numbers is alike to those that it equals. -/
theorem FloatFree.alike_eq_same
    {key : PrimaryKey} (hfree : key.FloatFree) (other : PrimaryKey) :
    key.alike other = key.same other := by
  rw [Bool.eq_iff_iff, alike_iff, and_iff_right_iff_imp]
  exact canonicalText_eq_of_same hfree

theorem FloatFree.alike_eq_same_right
    {key : PrimaryKey} (hfree : key.FloatFree) (other : PrimaryKey) :
    other.alike key = other.same key := by
  rw [alike_comm, same_comm, hfree.alike_eq_same]

theorem FloatFree.alike_of_same
    {key other : PrimaryKey} (hfree : key.FloatFree) (h : key.same other = true) :
    key.alike other = true := by
  rwa [hfree.alike_eq_same]

end PrimaryKey
end DocumentTables
