import Mathlib
import DocumentTables.Proofs.DoubleTexts
import DocumentTables.Proofs.Equality
import DocumentTables.Proofs.StoreNames

/-!
# Canonical texts name values

The text of a value tells where the value ends and which value it is.  Its first character tells the
kind; a string ends at the first quote that is not escaped, a number where a comma or a closing
bracket follows, and an array or object at its own bracket.  So the canonical text of a key names the
key: what is hashed, and what a file is named after, is one text for equal keys and different texts
for others.

**Results.**

* `Number.eq_of_written_append`, `Value.eq_of_written_append`: the text of a number or of a value is
  read in one way.
* `PrimaryKey.toJson_eq_of_canonicalText_eq`: the canonical text of a key determines its mapping.
* `PrimaryKey.canonicalText_eq_iff_same`: keys without floating-point numbers.
-/

namespace DocumentTables

open Json (Closes)

/-! ## Numbers -/

/-- A number that can be stored: each double has its canonical form. -/
def Number.Canonical : Number → Prop
  | .whole _ => True
  | .float x => x.Canonical

/-- The numbers in a value can be stored. -/
def Value.Canonical (v : Value) : Prop :=
  v.EachNumber Number.Canonical

namespace Literal

variable {rest : List Char}

/-- A literal is the text of a number. -/
def Spells (l : Literal) : Number → Prop
  | .whole z => l.fraction = none ∧ l.exponent = none ∧
      (if l.negative then -(ofDigits l.whole : Int) else ofDigits l.whole) = z
  | .float x => l.Denotes x.negative x.decimal.value

theorem scan_written
    {n : Number} (hn : n.Canonical) (hrest : Closes rest) :
    ∃ l, scan (n.written ++ rest) = some (l, rest) ∧ l.Spells n := by
  cases n with
  | whole z =>
      refine ⟨_, scan_writtenInt_eq z hrest, rfl, rfl, ?_⟩
      simp only [ofDigits_toDigits, decide_eq_true_iff]
      split <;> omega
  | float x =>
      exact scan_chars hn hrest

/-- A literal is the text of one number only: whole numbers have neither point nor exponent. -/
theorem Spells.unique
    {l : Literal} {n m : Number} (hn : n.Canonical) (hm : m.Canonical) (hln : l.Spells n)
    (hlm : l.Spells m) :
    n = m := by
  cases n with
  | whole z =>
      obtain ⟨hfraction, hexponent, hz⟩ := hln
      cases m with
      | whole z' =>
          exact congrArg Number.whole (hz.symm.trans hlm.2.2)
      | float y =>
          have hfloat := Denotes.float hlm
          simp [hfraction, hexponent] at hfloat
  | float x =>
      cases m with
      | whole z' =>
          have hfloat := Denotes.float hln
          simp [hlm.1, hlm.2.1] at hfloat
      | float y =>
          exact congrArg Number.float (Binary64.eq_of_denotes hn hm hln hlm)

end Literal

/-- The text of a number is read in one way. -/
theorem Number.eq_of_written_append
    {n m : Number} {rest rest' : List Char} (hn : n.Canonical) (hm : m.Canonical)
    (hrest : Closes rest) (hrest' : Closes rest') (h : n.written ++ rest = m.written ++ rest') :
    n = m ∧ rest = rest' := by
  obtain ⟨l, hscan, hl⟩ := Literal.scan_written hn hrest
  obtain ⟨l', hscan', hl'⟩ := Literal.scan_written hm hrest'
  rw [h, hscan'] at hscan
  cases hscan
  exact ⟨Literal.Spells.unique hn hm hl hl', rfl⟩

/-! ## Strings -/

/-- The text of a string is read in one way. -/
theorem eq_of_writtenString_append
    {s t : String} {rest rest' : List Char} (h : writtenString s ++ rest = writtenString t ++ rest') :
    s = t ∧ rest = rest' := by
  have hread := Json.readString_escaped s.toList rest
  have hread' := Json.readString_escaped t.toList rest'
  have htails : s.toList.flatMap escapedChar ++ '"' :: rest =
      t.toList.flatMap escapedChar ++ '"' :: rest' := by
    simpa [writtenString] using h
  rw [htails, hread', Option.some_inj, Prod.mk.injEq] at hread
  exact ⟨String.toList_injective hread.1.symm, hread.2.symm⟩

/-! ## Values -/

/-- The kind of the value whose text begins with a character. -/
def kindOfHead : Char → String
  | 'n' => "null"
  | 't' => "boolean"
  | 'f' => "boolean"
  | '"' => "string"
  | '[' => "array"
  | '{' => "object"
  | _ => "number"

/-- A literal begins with a digit or a minus sign. -/
theorem Literal.exists_cons_of_scan
    {cs : List Char} {read : Literal × List Char} (h : scan cs = some read) :
    ∃ c cs', cs = c :: cs' ∧ (c.isDigit = true ∨ c = '-') := by
  cases cs with
  | nil =>
      simp [scan, scanUnsigned, scanWhole, scanDigits] at h
  | cons c cs =>
      refine ⟨c, cs, rfl, ?_⟩
      by_contra hne
      rw [not_or] at hne
      rw [scan] at h
      · simp [scanUnsigned, scanWhole, scanDigits, hne.1] at h
      · exact fun _ heq => hne.2 (List.cons.inj heq).1

namespace Value

/-- The first character of a text tells the kind of the value, and closes nothing. -/
theorem exists_written_eq_cons
    {v : Value} (hv : v.Canonical) :
    ∃ c cs, v.written = c :: cs ∧ kindOfHead c = v.kind ∧ c ≠ ']' := by
  cases v with
  | null =>
      exact ⟨'n', _, rfl, rfl, by decide⟩
  | bool b =>
      cases b
      · exact ⟨'f', _, rfl, rfl, by decide⟩
      · exact ⟨'t', _, rfl, rfl, by decide⟩
  | number n =>
      have hend : Closes [] := trivial
      obtain ⟨l, hscan, -⟩ := Literal.scan_written hv hend
      rw [List.append_nil] at hscan
      obtain ⟨c, cs, hcs, hc⟩ := Literal.exists_cons_of_scan hscan
      have hne : ∀ d : Char, d.isDigit = false → d ≠ '-' → c ≠ d := by
        rintro d hdigit hminus rfl
        simp [hdigit, hminus] at hc
      refine ⟨c, cs, hcs, ?_, hne ']' (by decide) (by decide)⟩
      rw [kindOfHead]
      · rfl
      · exact hne 'n' (by decide) (by decide)
      · exact hne 't' (by decide) (by decide)
      · exact hne 'f' (by decide) (by decide)
      · exact hne '"' (by decide) (by decide)
      · exact hne '[' (by decide) (by decide)
      · exact hne '{' (by decide) (by decide)
  | string s =>
      exact ⟨'"', _, rfl, rfl, by decide⟩
  | array items =>
      cases items
      · exact ⟨'[', _, rfl, rfl, by decide⟩
      · exact ⟨'[', _, rfl, rfl, by decide⟩
  | object fields =>
      cases fields
      · exact ⟨'{', _, rfl, rfl, by decide⟩
      · exact ⟨'{', _, rfl, rfl, by decide⟩

theorem kind_eq_of_written_append
    {v w : Value} {rest rest' : List Char} (hv : v.Canonical) (hw : w.Canonical)
    (h : v.written ++ rest = w.written ++ rest') :
    v.kind = w.kind := by
  obtain ⟨c, cs, hcs, hkind, -⟩ := exists_written_eq_cons hv
  obtain ⟨d, ds, hds, hkind', -⟩ := exists_written_eq_cons hw
  rw [hcs, hds] at h
  rw [← hkind, ← hkind', (List.cons.inj h).1]

/-- The text of a value begins with no bracket that ends an array. -/
theorem written_append_ne
    {v : Value} (hv : v.Canonical) (rest rest' : List Char) :
    v.written ++ rest ≠ ']' :: rest' := by
  obtain ⟨c, cs, hcs, -, hc⟩ := exists_written_eq_cons hv
  rw [hcs]
  exact fun heq => hc (List.cons.inj heq).1

theorem closes_writtenItems
    (items : List Value) (rest : List Char) :
    Closes (writtenItems items ++ rest) := by
  cases items
  · exact .inr (.inl rfl)
  · exact .inl rfl

theorem closes_writtenFields
    (fields : List (String × Value)) (rest : List Char) :
    Closes (writtenFields fields ++ rest) := by
  cases fields
  · exact .inr (.inr rfl)
  · exact .inl rfl

/-- The texts of arrays differ from those of their items in the first character only, unless one is
empty. -/
theorem writtenItems_append_eq
    {items items' : List Value} {rest rest' : List Char} (hv : (array items).Canonical)
    (hw : (array items').Canonical)
    (h : (array items).written ++ rest = (array items').written ++ rest') :
    writtenItems items ++ rest = writtenItems items' ++ rest' := by
  cases items with
  | nil =>
      cases items' with
      | nil =>
          exact (List.cons.inj h).2
      | cons item' items' =>
          simp only [written, List.cons_append, List.append_assoc] at h
          exact absurd (List.cons.inj h).2.symm (written_append_ne hw.1 _ _)
  | cons item items =>
      cases items' with
      | nil =>
          simp only [written, List.cons_append, List.append_assoc] at h
          exact absurd (List.cons.inj h).2 (written_append_ne hv.1 _ _)
      | cons item' items' =>
          exact congrArg (List.cons ',') (List.cons.inj h).2

/-- The texts of objects differ from those of their fields in the first character only, unless one
is empty. -/
theorem writtenFields_append_eq
    {fields fields' : List (String × Value)} {rest rest' : List Char}
    (h : (object fields).written ++ rest = (object fields').written ++ rest') :
    writtenFields fields ++ rest = writtenFields fields' ++ rest' := by
  cases fields with
  | nil =>
      cases fields' with
      | nil =>
          exact (List.cons.inj h).2
      | cons field' fields' =>
          simp [written, writtenString] at h
  | cons field fields =>
      cases fields' with
      | nil =>
          simp [written, writtenString] at h
      | cons field' fields' =>
          exact congrArg (List.cons ',') (List.cons.inj h).2

mutual

/-- The text of a value is read in one way. -/
theorem eq_of_written_append :
    ∀ {v w : Value} {rest rest' : List Char}, v.Canonical → w.Canonical → Closes rest →
      Closes rest' → v.written ++ rest = w.written ++ rest' → v = w ∧ rest = rest'
  | .null, w, _, _, hv, hw, _, _, h => by
      have hkind := kind_eq_of_written_append hv hw h
      cases w <;> simp [kind] at hkind
      exact ⟨rfl, List.append_cancel_left h⟩
  | .bool b, w, _, _, hv, hw, _, _, h => by
      have hkind := kind_eq_of_written_append hv hw h
      cases w <;> simp [kind] at hkind
      next b' =>
        cases b <;> cases b' <;> simp [written] at h ⊢
        · exact h
        · exact h
  | .number n, w, _, _, hv, hw, hrest, hrest', h => by
      have hkind := kind_eq_of_written_append hv hw h
      cases w <;> simp [kind] at hkind
      next m =>
        obtain ⟨rfl, hrest⟩ := Number.eq_of_written_append hv hw hrest hrest' h
        exact ⟨rfl, hrest⟩
  | .string s, w, _, _, hv, hw, _, _, h => by
      have hkind := kind_eq_of_written_append hv hw h
      cases w <;> simp [kind] at hkind
      next t =>
        obtain ⟨rfl, hrest⟩ := eq_of_writtenString_append h
        exact ⟨rfl, hrest⟩
  | .array items, w, _, _, hv, hw, _, _, h => by
      have hkind := kind_eq_of_written_append hv hw h
      cases w <;> simp [kind] at hkind
      next items' =>
        obtain ⟨rfl, hrest⟩ := eq_of_writtenItems_append hv hw (writtenItems_append_eq hv hw h)
        exact ⟨rfl, hrest⟩
  | .object fields, w, _, _, hv, hw, _, _, h => by
      have hkind := kind_eq_of_written_append hv hw h
      cases w <;> simp [kind] at hkind
      next fields' =>
        obtain ⟨rfl, hrest⟩ := eq_of_writtenFields_append hv hw (writtenFields_append_eq h)
        exact ⟨rfl, hrest⟩

/-- The texts of the items after the first are read in one way. -/
theorem eq_of_writtenItems_append :
    ∀ {vs ws : List Value} {rest rest' : List Char}, EachNumberOfItems Number.Canonical vs →
      EachNumberOfItems Number.Canonical ws →
      writtenItems vs ++ rest = writtenItems ws ++ rest' → vs = ws ∧ rest = rest'
  | [], ws, _, _, hvs, hws, h => by
      cases ws with
      | nil =>
          exact ⟨rfl, List.append_cancel_left h⟩
      | cons w ws =>
          simp [writtenItems] at h
  | v :: vs, ws, _, _, hvs, hws, h => by
      cases ws with
      | nil =>
          simp [writtenItems] at h
      | cons w ws =>
          simp only [writtenItems, List.cons_append, List.append_assoc] at h
          obtain ⟨hvalue, htail⟩ := eq_of_written_append hvs.1 hws.1 (closes_writtenItems _ _)
            (closes_writtenItems _ _) (List.cons.inj h).2
          obtain ⟨hitems, hrest⟩ := eq_of_writtenItems_append hvs.2 hws.2 htail
          exact ⟨by rw [hvalue, hitems], hrest⟩

/-- The texts of the fields after the first are read in one way. -/
theorem eq_of_writtenFields_append :
    ∀ {vs ws : List (String × Value)} {rest rest' : List Char},
      EachNumberOfFields Number.Canonical vs → EachNumberOfFields Number.Canonical ws →
      writtenFields vs ++ rest = writtenFields ws ++ rest' → vs = ws ∧ rest = rest'
  | [], ws, _, _, hvs, hws, h => by
      cases ws with
      | nil =>
          exact ⟨rfl, List.append_cancel_left h⟩
      | cons w ws =>
          simp [writtenFields] at h
  | (k, v) :: vs, ws, _, _, hvs, hws, h => by
      cases ws with
      | nil =>
          simp [writtenFields] at h
      | cons field ws =>
          simp only [writtenFields, List.cons_append, List.append_assoc] at h
          obtain ⟨hname, htail⟩ := eq_of_writtenString_append (List.cons.inj h).2
          obtain ⟨hvalue, htail⟩ := eq_of_written_append hvs.1 hws.1 (closes_writtenFields _ _)
            (closes_writtenFields _ _) (List.cons.inj htail).2
          obtain ⟨hfields, hrest⟩ := eq_of_writtenFields_append hvs.2 hws.2 htail
          exact ⟨by rw [hname, hvalue, hfields], hrest⟩

end

mutual

theorem EachNumber.mono
    {p q : Number → Prop} (h : ∀ n, p n → q n) :
    ∀ {v : Value}, v.EachNumber p → v.EachNumber q
  | .null, _ => trivial
  | .bool _, _ => trivial
  | .number n, hv => h n hv
  | .string _, _ => trivial
  | .array _, hv => EachNumberOfItems.mono h hv
  | .object _, hv => EachNumberOfFields.mono h hv

theorem EachNumberOfItems.mono
    {p q : Number → Prop} (h : ∀ n, p n → q n) :
    ∀ {items : List Value}, EachNumberOfItems p items → EachNumberOfItems q items
  | [], _ => trivial
  | _ :: _, hitems => ⟨EachNumber.mono h hitems.1, EachNumberOfItems.mono h hitems.2⟩

theorem EachNumberOfFields.mono
    {p q : Number → Prop} (h : ∀ n, p n → q n) :
    ∀ {fields : List (String × Value)}, EachNumberOfFields p fields → EachNumberOfFields q fields
  | [], _ => trivial
  | _ :: _, hfields => ⟨EachNumber.mono h hfields.1, EachNumberOfFields.mono h hfields.2⟩

end

/-- Different values have different texts. -/
theorem eq_of_text_eq
    {v w : Value} (hv : v.Canonical) (hw : w.Canonical) (h : v.text = w.text) :
    v = w := by
  have hend : Closes [] := trivial
  have hwritten : v.written ++ [] = w.written ++ [] := by
    rw [String.ofList_injective h]
  exact (eq_of_written_append hv hw hend hend hwritten).1

end Value

/-! ## Keys -/

namespace PrimaryKey

variable {a b : PrimaryKey}

/-- The numbers in a key can be stored. -/
def Canonical (key : PrimaryKey) : Prop :=
  key.value.Canonical

theorem FloatFree.canonical
    (h : a.FloatFree) :
    a.Canonical := by
  refine Value.EachNumber.mono ?_ h
  rintro _ ⟨z, rfl⟩
  trivial

/-- The canonical text of a key determines its mapping. -/
theorem toJson_eq_of_canonicalText_eq
    (ha : a.Canonical) (hb : b.Canonical) (h : a.canonicalText = b.canonicalText) :
    a.toJson = b.toJson := by
  exact Value.eq_of_text_eq ⟨ha, trivial⟩ ⟨hb, trivial⟩ h

/-- Keys are hashed alike by every hasher exactly if they have one canonical text. -/
theorem forall_hashWith_eq_iff :
    (∀ (σ : Type) (feed : σ → String → σ) (state : σ),
      a.hashWith feed state = b.hashWith feed state) ↔ a.canonicalText = b.canonicalText := by
  constructor
  · intro h
    -- one hasher keeps the texts that it is fed
    have htexts : a.hashedTexts = b.hashedTexts := h _ _ _
    simpa using htexts
  · intro h σ feed state
    rw [hashWith, hashWith, h]

/-- **Canonical texts name keys.**  Keys without floating-point numbers have one canonical text if
and only if they are equal, and if and only if every hasher takes them for one; and equal keys have
one file. -/
theorem canonicalText_eq_iff_same
    (ha : a.FloatFree) (hb : b.FloatFree) :
    (a.canonicalText = b.canonicalText ↔ a.same b = true) ∧
      ((∀ (σ : Type) (feed : σ → String → σ) (state : σ),
        a.hashWith feed state = b.hashWith feed state) ↔ a.same b = true) ∧
      (a.same b = true → DiskCache.fileStem a = DiskCache.fileStem b) := by
  have htext : a.canonicalText = b.canonicalText ↔ a.same b = true := by
    refine ⟨fun h => ?_, canonicalText_eq_of_same ha⟩
    rw [same, toJson_eq_of_canonicalText_eq ha.canonical hb.canonical h]
    exact Value.same_refl _
  exact ⟨htext, forall_hashWith_eq_iff.trans htext, fileStem_eq_of_same ha⟩

/-- A composite key with a whole number and a string of digits. -/
def slotParts : PrimaryKey :=
  .composite "slot" [("row", .number (.whole (-1))), ("seat", .string "1")]

/-- The same mapping as a single key. -/
def slotObject : PrimaryKey :=
  .single "slot" (.object [("row", .number (.whole (-1))), ("seat", .string "1")])

/-- The same mapping but for the kind of one digit. -/
def slotNumbers : PrimaryKey :=
  .composite "slot" [("row", .number (.whole (-1))), ("seat", .number (.whole 1))]

theorem canonicalText_eq_iff_same_slots :
    slotParts.FloatFree ∧ slotObject.FloatFree ∧ slotNumbers.FloatFree ∧
      slotParts.canonicalText = slotObject.canonicalText ∧
      DiskCache.fileStem slotParts = DiskCache.fileStem slotObject ∧
      slotParts.canonicalText ≠ slotNumbers.canonicalText := by
  have hparts : slotParts.FloatFree := ⟨⟨-1, rfl⟩, trivial, trivial⟩
  have hobject : slotObject.FloatFree := ⟨⟨-1, rfl⟩, trivial, trivial⟩
  have hnumbers : slotNumbers.FloatFree := ⟨⟨-1, rfl⟩, ⟨1, rfl⟩, trivial⟩
  have hsame : slotParts.same slotObject = true := by decide
  have hdiffer : slotParts.same slotNumbers ≠ true := by decide
  have heq := canonicalText_eq_iff_same hparts hobject
  have hne := canonicalText_eq_iff_same hparts hnumbers
  exact ⟨hparts, hobject, hnumbers, heq.1.mpr hsame, heq.2.2 hsame, mt hne.1.mp hdiffer⟩

end PrimaryKey
end DocumentTables
