import DocumentTables.Json.Reader
import DocumentTables.Proofs.Equality
import DocumentTables.Text.Blank

/-!
# Written values are read back

The text of a value denotes that value, if the numbers in it are whole and its arrays and objects
are nested as deep as the reader allows.  A text that is nested deeper denotes nothing.

**Results.**

* `Json.readString_escaped`, `Literal.scan_writtenInt`: the texts of strings and of whole numbers.
* `Json.readValue_written`: the text of a value.
* `Document.ofText?_text`: the text of a document.
-/

namespace DocumentTables

/-! ## Values that a text preserves -/

/-- A whole number that fits 64 bits, signed below zero. -/
def Number.Integral : Number → Prop
  | .whole n => -(Nat.pow 2 63 : Int) ≤ n ∧ n < (Nat.pow 2 64 : Int)
  | .float _ => False

/-- All numbers in a value are whole. -/
def Value.Integral (v : Value) : Prop :=
  v.EachNumber Number.Integral

mutual

/-- How deep arrays and objects are nested in a value. -/
def Value.depth : Value → Nat
  | .array items => Value.depthItems items + 1
  | .object fields => Value.depthFields fields + 1
  | _ => 0

/-- How deep arrays and objects are nested in a list of values. -/
def Value.depthItems : List Value → Nat
  | [] => 0
  | item :: items => max item.depth (Value.depthItems items)

/-- How deep arrays and objects are nested below the given fields. -/
def Value.depthFields : List (String × Value) → Nat
  | [] => 0
  | (_, value) :: fields => max value.depth (Value.depthFields fields)

end

namespace NameMap

variable {α : Type}

/-- A name above all others is added at the end. -/
theorem insert_of_lt
    {m : NameMap α} {name : String} {value : α} (h : ∀ other ∈ m.map (·.1), other < name) :
    insert m name value = m ++ [(name, value)] := by
  induction m with
  | nil =>
      rfl
  | cons pair rest ih =>
      obtain ⟨k, v⟩ := pair
      have hk : k < name := h k (by simp)
      have hrest : ∀ other ∈ rest.map (·.1), other < name :=
        fun other hother => h other (List.mem_cons_of_mem _ hother)
      rw [insert_cons_of_gt v rest value hk, ih hrest, List.cons_append]

/-- Increasing pairs are their own map. -/
theorem ofList_of_sorted
    {m : NameMap α} (h : m.Sorted) :
    ofList m = m := by
  have hfold : ∀ (rest front : NameMap α), Sorted (front ++ rest) →
      rest.foldl (fun m pair => insert m pair.1 pair.2) front = front ++ rest := by
    intro rest
    induction rest with
    | nil =>
        simp
    | cons pair rest ih =>
        intro front hsorted
        have hlt : ∀ other ∈ front.map (·.1), other < pair.1 := by
          rw [Sorted, List.map_append, List.pairwise_append] at hsorted
          exact fun other hother => hsorted.2.2 other hother pair.1 (by simp)
        rw [List.foldl_cons, insert_of_lt hlt, ih _ (by simpa using hsorted)]
        simp
  exact hfold m [] h

end NameMap

namespace Json

/-- What may follow a value inside a text: nothing, a comma or a closing bracket. -/
def Closes : List Char → Prop
  | [] => True
  | c :: _ => c = ',' ∨ c = ']' ∨ c = '}'

/-! ## Strings -/

theorem codeUnit?_hex4
    {n : Nat} (h : n < 0x20) :
    codeUnit? (Nat.digitChar (n / 4096 % 16)) (Nat.digitChar (n / 256 % 16))
      (Nat.digitChar (n / 16 % 16)) (Nat.digitChar (n % 16)) = some n := by
  revert n
  decide

/-- The written form of a character is read as that character. -/
theorem readString_escapedChar
    (c : Char) (rest : List Char) :
    readString (escapedChar c ++ rest) = (readString rest).map (prepend c) := by
  unfold escapedChar
  split
  · simp [readString, simpleEscape?]
  · simp [readString, simpleEscape?]
  · simp [readString, simpleEscape?]
  · simp [readString, simpleEscape?]
  · simp [readString, simpleEscape?]
  · simp [readString, simpleEscape?]
  · simp [readString, simpleEscape?]
  · next hquote hbackslash _ _ _ _ _ =>
      split
      · next hcontrol =>
          have hhigh : isHighSurrogate c.toNat = false := by simp [isHighSurrogate]; omega
          have hlow : isLowSurrogate c.toNat = false := by simp [isLowSurrogate]; omega
          simp [hex4, readString, codeUnit?_hex4 hcontrol, hhigh, hlow, Char.ofNat_toNat]
      · next hcontrol =>
          rw [List.singleton_append, readString, if_neg hcontrol]
          · exact hquote
          · exact fun _ _ _ _ _ h => absurd h hbackslash
          · exact fun _ _ h => absurd h hbackslash

/-- The written form of a string is read as that string. -/
theorem readString_escaped
    (cs rest : List Char) :
    readString (cs.flatMap escapedChar ++ '"' :: rest) = some (cs, rest) := by
  induction cs with
  | nil =>
      simp [readString]
  | cons c cs ih =>
      rw [List.flatMap_cons, List.append_assoc, readString_escapedChar, ih]
      rfl

end Json

/-! ## Whole numbers -/

namespace Literal

variable {cs rest : List Char} {n : Nat}

/-- A text is made of digits, of which there is at least one. -/
structure Digits (cs : List Char) : Prop where
  isDigit : ∀ c ∈ cs, c.isDigit = true
  ne_nil : cs ≠ []

theorem digits_toDigits
    (n : Nat) :
    Digits (Nat.toDigits 10 n) := by
  exact ⟨fun _ hc => Nat.isDigit_of_mem_toDigits (by decide) (by decide) hc, Nat.toDigits_ne_nil⟩

/-- A text does not begin with a digit. -/
def NoDigit (cs : List Char) : Prop :=
  ∀ c, cs.head? = some c → c.isDigit = false

theorem noDigit_cons
    {c : Char} (h : c.isDigit = false) (cs : List Char) :
    NoDigit (c :: cs) := by
  intro d hd
  cases hd
  exact h

theorem noDigit_of_closes
    (hrest : Json.Closes rest) :
    NoDigit rest := by
  cases rest with
  | nil =>
      intro c hc
      cases hc
  | cons c rest =>
      refine noDigit_cons ?_ rest
      rcases hrest with rfl | rfl | rfl <;> decide

theorem scanDigits_append
    (hcs : Digits cs) (hrest : NoDigit rest) :
    scanDigits (cs ++ rest) = (cs.map digitValue, rest) := by
  rw [scanDigits, List.takeWhile_append_of_pos hcs.isDigit,
    List.dropWhile_append_of_pos hcs.isDigit]
  cases rest with
  | nil =>
      simp
  | cons d rest =>
      simp [hrest d rfl]

/-- The digits of a number other than zero do not begin with zero. -/
theorem head?_toDigits_ne
    (h : n ≠ 0) :
    (Nat.toDigits 10 n).head? ≠ some '0' := by
  induction n using Nat.strongRecOn with
  | ind n ih =>
      by_cases hsmall : n < 10
      · rw [Nat.toDigits_of_lt_base hsmall]
        simpa using h
      · have hhead := ih (n / 10) (by omega) (by omega)
        rw [Nat.toDigits_of_base_le (by decide) (by omega)]
        cases hdigits : Nat.toDigits 10 (n / 10) with
        | nil =>
            exact absurd hdigits Nat.toDigits_ne_nil
        | cons d ds =>
            rw [hdigits] at hhead
            exact hhead

theorem digitValue_eq_zero_iff
    {c : Char} (h : c.isDigit = true) :
    digitValue c = 0 ↔ c = '0' := by
  have hrange : 48 ≤ c.toNat ∧ c.toNat ≤ 57 := Char.isDigit_iff_toNat.mp h
  rw [digitValue, ← Char.toNat_inj]
  change c.toNat - 48 = 0 ↔ c.toNat = 48
  omega

/-- Digits are read if no zero stands in front of others. -/
theorem scanWhole_append
    (hcs : Digits cs) (hzero : cs.head? = some '0' → cs.length = 1) (hrest : NoDigit rest) :
    scanWhole (cs ++ rest) = some (cs.map digitValue, rest) := by
  rw [scanWhole, scanDigits_append hcs hrest]
  cases cs with
  | nil =>
      exact absurd rfl hcs.ne_nil
  | cons d ds =>
      cases ds with
      | nil =>
          simp
      | cons e ds =>
          have hd : digitValue d ≠ 0 := by
            rw [Ne, digitValue_eq_zero_iff (hcs.isDigit d List.mem_cons_self)]
            rintro rfl
            simp at hzero
          simp [hd]

theorem scanWhole_toDigits
    (n : Nat) (hrest : NoDigit rest) :
    scanWhole (Nat.toDigits 10 n ++ rest) = some ((Nat.toDigits 10 n).map digitValue, rest) := by
  refine scanWhole_append (digits_toDigits n) (fun hhead => ?_) hrest
  -- only zero itself begins with a zero
  by_cases hn : n = 0
  · rw [hn]
    rfl
  · exact absurd hhead (head?_toDigits_ne hn)

theorem scanFraction_of_closes
    (hrest : Json.Closes rest) :
    scanFraction rest = some (none, rest) := by
  cases rest with
  | nil =>
      rfl
  | cons c rest =>
      rcases hrest with rfl | rfl | rfl <;> rfl

theorem scanExponent_of_closes
    (hrest : Json.Closes rest) :
    scanExponent rest = some (none, rest) := by
  cases rest with
  | nil =>
      rfl
  | cons c rest =>
      rcases hrest with rfl | rfl | rfl <;> rfl

theorem scanUnsigned_toDigits
    (negative : Bool) (n : Nat) (hrest : Json.Closes rest) :
    scanUnsigned negative (Nat.toDigits 10 n ++ rest) =
      some (⟨negative, (Nat.toDigits 10 n).map digitValue, none, none⟩, rest) := by
  simp [scanUnsigned, scanWhole_toDigits n (noDigit_of_closes hrest), scanFraction_of_closes hrest,
    scanExponent_of_closes hrest]

theorem le_foldl
    (ds : List Nat) (s : Nat) :
    s ≤ ds.foldl (fun n d => 10 * n + d) s := by
  induction ds generalizing s with
  | nil =>
      exact Nat.le_refl s
  | cons d ds ih =>
      exact Nat.le_trans (by omega) (ih (10 * s + d))

/-- Digits are absorbed as long as the number that they make fits. -/
theorem absorb_of_lt
    {ds : List Nat} {s : Nat} (h : ds.foldl (fun n d => 10 * n + d) s < significandBound) :
    absorb s ds = (ds.foldl (fun n d => 10 * n + d) s, ds.length) := by
  induction ds generalizing s with
  | nil =>
      rfl
  | cons d ds ih =>
      have hs : 10 * s + d < significandBound := Nat.lt_of_le_of_lt (le_foldl ds _) h
      rw [absorb, if_pos hs, ih h]
      rfl

theorem foldl_toDigits
    (n : Nat) :
    ((Nat.toDigits 10 n).map digitValue).foldl (fun n d => 10 * n + d) 0 = n := by
  rw [List.foldl_map]
  exact Nat.ofDigitChars_ten_toDigits

theorem value?_toDigits
    (negative : Bool) (h : n < Nat.pow 2 64) :
    value? ⟨negative, (Nat.toDigits 10 n).map digitValue, none, none⟩ = whole? negative n := by
  have habsorb : absorb 0 ((Nat.toDigits 10 n).map digitValue) =
      (n, ((Nat.toDigits 10 n).map digitValue).length) := by
    rw [absorb_of_lt (by rw [foldl_toDigits]; exact h), foldl_toDigits]
  simp [value?, habsorb]

/-- No literal begins with a sign after its sign. -/
theorem scan_of_scanUnsigned
    {read : Literal × List Char} (h : scanUnsigned false cs = some read) :
    scan cs = some read := by
  rw [scan]
  · exact h
  · rintro rest rfl
    simp [scanUnsigned, scanWhole, scanDigits] at h

/-- The text of a whole number is a literal of its sign and digits. -/
theorem scan_writtenInt_eq
    (z : Int) (hrest : Json.Closes rest) :
    scan (writtenInt z ++ rest) =
      some (⟨decide (z < 0), (Nat.toDigits 10 z.natAbs).map digitValue, none, none⟩, rest) := by
  cases z with
  | ofNat n =>
      exact scan_of_scanUnsigned (scanUnsigned_toDigits false n hrest)
  | negSucc n =>
      rw [writtenInt, List.cons_append, scan, decide_eq_true (Int.negSucc_lt_zero n)]
      exact scanUnsigned_toDigits true (n + 1) hrest

/-- The text of a whole number is read as that number. -/
theorem scan_writtenInt
    {z : Int} (h : (Number.whole z).Integral) (hrest : Json.Closes rest) :
    ∃ l, scan (writtenInt z ++ rest) = some (l, rest) ∧ l.value? = some (.whole z) := by
  refine ⟨_, scan_writtenInt_eq z hrest, ?_⟩
  cases z with
  | ofNat n =>
      have hn : n < Nat.pow 2 64 := Int.ofNat_lt.mp h.2
      exact value?_toDigits false hn
  | negSucc n =>
      have hn : n + 1 ≤ Nat.pow 2 63 := by
        have hbound : -(Nat.pow 2 63 : Int) ≤ -((n : Int) + 1) := h.1
        omega
      have hvalue := value?_toDigits true (Nat.lt_of_le_of_lt hn (by decide))
      rw [whole?, if_pos rfl, if_pos ⟨by omega, hn⟩] at hvalue
      rw [decide_eq_true (Int.negSucc_lt_zero n)]
      exact hvalue

end Literal

/-! ## Values -/

namespace Json

variable {v : Value} {rest : List Char}

theorem skipSpace_of_head
    {c : Char} (h : isSpace c = false) (cs : List Char) :
    skipSpace (c :: cs) = c :: cs := by
  simp [skipSpace, h]

/-- The first character of a written whole number. -/
theorem exists_writtenInt_cons
    (z : Int) :
    ∃ c cs, writtenInt z = c :: cs ∧ (c.isDigit = true ∨ c = '-') := by
  cases z with
  | ofNat n =>
      cases hdigits : Nat.toDigits 10 n with
      | nil =>
          exact absurd hdigits Nat.toDigits_ne_nil
      | cons d ds =>
          refine ⟨d, ds, hdigits, .inl ?_⟩
          exact Nat.isDigit_of_mem_toDigits (b := 10) (n := n) (by decide) (by decide)
            (by simp [hdigits])
  | negSucc n =>
      exact ⟨'-', _, rfl, .inr rfl⟩

/-- The first character of a written value is no white space and closes nothing. -/
theorem exists_written_cons
    (h : v.Integral) :
    ∃ c cs, v.written = c :: cs ∧ isSpace c = false ∧ c ≠ ']' := by
  cases v with
  | null =>
      exact ⟨'n', _, rfl, rfl, by decide⟩
  | bool b =>
      cases b
      · exact ⟨'f', _, rfl, rfl, by decide⟩
      · exact ⟨'t', _, rfl, rfl, by decide⟩
  | number n =>
      cases n with
      | whole z =>
          obtain ⟨c, cs, hz, hc⟩ := exists_writtenInt_cons z
          refine ⟨c, cs, hz, ?_⟩
          rcases hc with hc | rfl
          · constructor
            · simp only [isSpace, Bool.or_eq_false_iff, beq_eq_false_iff_ne]
              refine ⟨⟨⟨?_, ?_⟩, ?_⟩, ?_⟩ <;> (rintro rfl; simp at hc)
            · rintro rfl
              simp at hc
          · decide
      | float x =>
          exact h.elim
  | string s =>
      exact ⟨'"', _, rfl, rfl, by decide⟩
  | array items =>
      cases items
      · exact ⟨'[', _, rfl, rfl, by decide⟩
      · exact ⟨'[', _, rfl, rfl, by decide⟩
  | object fields =>
      cases fields
      · exact ⟨'{', _, rfl, rfl, by decide⟩
      · exact ⟨'{', _, rfl, rfl, by decide⟩

/-- A value that begins like a scalar is read as one. -/
theorem readValue_scalar
    {c : Char} (hspace : isSpace c = false) (harray : c ≠ '[') (hobject : c ≠ '{') (n : Nat)
    (cs : List Char) :
    readValue n (c :: cs) = readScalar (c :: cs) := by
  cases n with
  | zero =>
      rw [readValue, skipSpace_of_head hspace]
  | succ n =>
      rw [readValue, skipSpace_of_head hspace]
      split
      · next heq =>
          exact absurd (List.cons.inj heq).1 harray
      · next heq =>
          exact absurd (List.cons.inj heq).1 hobject
      · rfl

theorem readScalar_number
    {z : Int} (h : (Number.whole z).Integral) (hrest : Closes rest) :
    readScalar (writtenInt z ++ rest) = some (.number (.whole z), rest) := by
  obtain ⟨l, hscan, hvalue⟩ := Literal.scan_writtenInt h hrest
  obtain ⟨c, cs, hz, hc⟩ := exists_writtenInt_cons z
  have hne : ∀ d : Char, d.isDigit = false → d ≠ '-' → c ≠ d := by
    rintro d hdigit hminus rfl
    rcases hc with hc | hc
    · simp [hdigit] at hc
    · exact hminus hc
  rw [hz, List.cons_append] at hscan ⊢
  rw [readScalar]
  · simp [hscan, hvalue]
  · exact fun _ h => hne 'n' rfl (by decide) (List.cons.inj h).1
  · exact fun _ h => hne 't' rfl (by decide) (List.cons.inj h).1
  · exact fun _ h => hne 'f' rfl (by decide) (List.cons.inj h).1
  · exact fun _ h => hne '"' rfl (by decide) (List.cons.inj h).1

/-- The text of a name is read as that name. -/
theorem readName_written
    (name : String) (rest : List Char) :
    readName (writtenString name ++ ':' :: rest) = some (name, rest) := by
  have hquote : writtenString name ++ ':' :: rest =
      '"' :: (name.toList.flatMap escapedChar ++ '"' :: ':' :: rest) := by
    simp [writtenString]
  have hcolon : skipSpace (':' :: rest) = ':' :: rest := skipSpace_of_head rfl rest
  rw [hquote, readName, skipSpace_of_head rfl]
  simp only [readString_escaped, hcolon, String.ofList_toList]

/-- The reader of items and fields reads these values if they are nested at most as deep as the
number says, and refuses all others. -/
def Reads (read : List Char → Option (Value × List Char)) (n : Nat) (v : Value) : Prop :=
  ∀ rest, Closes rest → read (v.written ++ rest) = if v.depth ≤ n then some (v, rest) else none

/-- The written items of an array are read. -/
theorem readItems_written
    {read : List Char → Option (Value × List Char)} {n fuel : Nat} {item : Value}
    {items : List Value} (hread : ∀ v ∈ item :: items, Reads read n v)
    (hfuel : items.length < fuel) (rest : List Char) :
    readItems read fuel (item.written ++ (Value.writtenItems items ++ rest)) =
      if Value.depthItems (item :: items) ≤ n then some (item :: items, rest) else none := by
  induction items generalizing item fuel with
  | nil =>
      obtain ⟨fuel, rfl⟩ : ∃ k, fuel = k + 1 := ⟨fuel - 1, by simp at hfuel; omega⟩
      have hitem := hread item (by simp) (']' :: rest) (.inr (.inl rfl))
      have hbracket : skipSpace (']' :: rest) = ']' :: rest := skipSpace_of_head rfl rest
      rw [readItems]
      simp only [Value.writtenItems, List.singleton_append, hitem, Value.depthItems, Nat.max_zero]
      by_cases hdepth : item.depth ≤ n
      · simp only [if_pos hdepth, hbracket]
      · simp only [if_neg hdepth]
  | cons next items ih =>
      obtain ⟨fuel, rfl⟩ : ∃ k, fuel = k + 1 := ⟨fuel - 1, by simp at hfuel; omega⟩
      have hless : items.length < fuel := by
        simp at hfuel
        omega
      have htail := ih (fun v hv => hread v (List.mem_cons_of_mem _ hv)) hless
      have hitem := hread item (by simp)
        (',' :: (next.written ++ (Value.writtenItems items ++ rest))) (.inl rfl)
      have hcomma : skipSpace (',' :: (next.written ++ (Value.writtenItems items ++ rest))) =
          ',' :: (next.written ++ (Value.writtenItems items ++ rest)) := skipSpace_of_head rfl _
      rw [Value.depthItems, readItems]
      simp only [Value.writtenItems, List.cons_append, List.append_assoc, hitem]
      by_cases hdepth : item.depth ≤ n
      · simp only [if_pos hdepth, hcomma, htail]
        by_cases hrest : Value.depthItems (next :: items) ≤ n
        · rw [if_pos hrest, if_pos (Nat.max_le.mpr ⟨hdepth, hrest⟩)]
          rfl
        · rw [if_neg hrest, if_neg fun h => hrest (Nat.max_le.mp h).2]
          rfl
      · rw [if_neg hdepth, if_neg fun h => hdepth (Nat.max_le.mp h).1]

/-- The written fields of an object are read. -/
theorem readFields_written
    {read : List Char → Option (Value × List Char)} {n fuel : Nat} {name : String} {value : Value}
    {fields : List (String × Value)}
    (hread : ∀ field ∈ (name, value) :: fields, Reads read n field.2)
    (hfuel : fields.length < fuel) (rest : List Char) :
    readFields read fuel
        (writtenString name ++ ':' :: (value.written ++ (Value.writtenFields fields ++ rest))) =
      if Value.depthFields ((name, value) :: fields) ≤ n then some ((name, value) :: fields, rest)
      else none := by
  induction fields generalizing name value fuel with
  | nil =>
      obtain ⟨fuel, rfl⟩ : ∃ k, fuel = k + 1 := ⟨fuel - 1, by simp at hfuel; omega⟩
      have hvalue := hread (name, value) (by simp) ('}' :: rest) (.inr (.inr rfl))
      have hbrace : skipSpace ('}' :: rest) = '}' :: rest := skipSpace_of_head rfl rest
      rw [readFields, readName_written]
      simp only [Value.writtenFields, List.singleton_append, hvalue, Value.depthFields,
        Nat.max_zero]
      by_cases hdepth : value.depth ≤ n
      · simp only [if_pos hdepth, hbrace]
      · simp only [if_neg hdepth]
  | cons next fields ih =>
      obtain ⟨nextName, nextValue⟩ := next
      obtain ⟨fuel, rfl⟩ : ∃ k, fuel = k + 1 := ⟨fuel - 1, by simp at hfuel; omega⟩
      have hless : fields.length < fuel := by
        simp at hfuel
        omega
      have htail := ih (fun field hfield => hread field (List.mem_cons_of_mem _ hfield)) hless
      let tail := writtenString nextName ++
        ':' :: (nextValue.written ++ (Value.writtenFields fields ++ rest))
      have hvalue := hread (name, value) (by simp) (',' :: tail) (.inl rfl)
      have hcomma : skipSpace (',' :: tail) = ',' :: tail := skipSpace_of_head rfl _
      rw [Value.depthFields, readFields, readName_written]
      simp only [Value.writtenFields, List.cons_append, List.append_assoc]
      simp only [tail] at hvalue hcomma
      simp only [hvalue]
      by_cases hdepth : value.depth ≤ n
      · simp only [if_pos hdepth, hcomma, htail]
        by_cases hrest : Value.depthFields ((nextName, nextValue) :: fields) ≤ n
        · rw [if_pos hrest, if_pos (Nat.max_le.mpr ⟨hdepth, hrest⟩)]
          rfl
        · rw [if_neg hrest, if_neg fun h => hrest (Nat.max_le.mp h).2]
          rfl
      · rw [if_neg hdepth, if_neg fun h => hdepth (Nat.max_le.mp h).1]

theorem length_lt_writtenItems
    (items : List Value) :
    items.length < (Value.writtenItems items).length := by
  induction items with
  | nil =>
      simp [Value.writtenItems]
  | cons item items ih =>
      simp [Value.writtenItems]
      omega

theorem length_lt_writtenFields
    (fields : List (String × Value)) :
    fields.length < (Value.writtenFields fields).length := by
  induction fields with
  | nil =>
      simp [Value.writtenFields]
  | cons field fields ih =>
      simp [Value.writtenFields]
      omega

theorem eachNumber_of_mem
    {p : Number → Prop} {items : List Value} (h : Value.EachNumberOfItems p items) :
    ∀ v ∈ items, v.EachNumber p := by
  induction items with
  | nil =>
      simp
  | cons item items ih =>
      rintro v hv
      rcases List.mem_cons.mp hv with rfl | hv
      · exact h.1
      · exact ih h.2 v hv

theorem eachNumber_of_mem_fields
    {p : Number → Prop} {fields : List (String × Value)} (h : Value.EachNumberOfFields p fields) :
    ∀ field ∈ fields, field.2.EachNumber p := by
  induction fields with
  | nil =>
      simp
  | cons field fields ih =>
      rintro f hf
      rcases List.mem_cons.mp hf with rfl | hf
      · exact h.1
      · exact ih h.2 f hf

/-- A value that is nested no deeper is read as a scalar. -/
theorem readScalar_written
    (h : v.Integral) (hdepth : v.depth = 0) (hrest : Closes rest) :
    ∃ c cs, v.written ++ rest = c :: cs ∧ isSpace c = false ∧ c ≠ '[' ∧ c ≠ '{' ∧
      readScalar (c :: cs) = some (v, rest) := by
  cases v with
  | null =>
      exact ⟨'n', _, rfl, rfl, by decide, by decide, rfl⟩
  | bool b =>
      cases b
      · exact ⟨'f', _, rfl, rfl, by decide, by decide, rfl⟩
      · exact ⟨'t', _, rfl, rfl, by decide, by decide, rfl⟩
  | number number =>
      cases number with
      | whole z =>
          obtain ⟨c, cs, hz, hc⟩ := exists_writtenInt_cons z
          have hread := readScalar_number h hrest
          obtain ⟨d, ds, hwritten, hspace, -⟩ := exists_written_cons h
          obtain ⟨rfl, rfl⟩ : c = d ∧ cs = ds := by
            rw [Value.written, Number.written, hz] at hwritten
            exact List.cons.inj hwritten
          rw [hz, List.cons_append] at hread
          refine ⟨c, cs ++ rest, by rw [hwritten, List.cons_append], hspace, ?_, ?_, hread⟩
          · rintro rfl
            rcases hc with hc | hc <;> simp at hc
          · rintro rfl
            rcases hc with hc | hc <;> simp at hc
      | float x =>
          exact h.elim
  | string s =>
      refine ⟨'"', s.toList.flatMap escapedChar ++ '"' :: rest, ?_, rfl, by decide, by decide, ?_⟩
      · simp [Value.written, writtenString]
      · simp [readScalar, readString_escaped]
  | array items =>
      simp [Value.depth] at hdepth
  | object fields =>
      simp [Value.depth] at hdepth

/-- Such a value is read whatever depth is allowed. -/
theorem reads_of_depth_eq_zero
    (h : v.Integral) (hdepth : v.depth = 0) (n : Nat) :
    Reads (readValue n) n v := by
  intro rest hrest
  obtain ⟨c, cs, hwritten, hspace, harray, hobject, hread⟩ := readScalar_written h hdepth hrest
  rw [hwritten, readValue_scalar hspace harray hobject, hread, if_pos (by omega)]

theorem readScalar_bracket
    (cs : List Char) :
    readScalar ('[' :: cs) = none := by
  rfl

theorem readScalar_brace
    (cs : List Char) :
    readScalar ('{' :: cs) = none := by
  rfl

/-- An array is read if its items are. -/
theorem reads_array
    {n : Nat} {items : List Value} (hitems : Value.EachNumberOfItems Number.Integral items)
    (hread : ∀ v ∈ items, Reads (readValue n) n v) :
    Reads (readValue (n + 1)) (n + 1) (.array items) := by
  intro rest _
  cases items with
  | nil =>
      simp [Value.written, readValue, skipSpace_of_head (c := '[') rfl, readArray,
        skipSpace_of_head (c := ']') rfl, Value.depth, Value.depthItems]
  | cons item items =>
      obtain ⟨c, cs, hwritten, hspace, hbracket⟩ := exists_written_cons hitems.1
      -- the array is not empty, since its first item closes nothing
      have hhead : skipSpace (item.written ++ (Value.writtenItems items ++ rest)) =
          item.written ++ (Value.writtenItems items ++ rest) := by
        rw [hwritten, List.cons_append, skipSpace_of_head hspace]
      have harray : readArray (readValue n) (item.written ++ (Value.writtenItems items ++ rest)) =
          (readItems (readValue n) (item.written ++ (Value.writtenItems items ++ rest)).length
            (item.written ++ (Value.writtenItems items ++ rest))).map
              fun read => (.array read.1, read.2) := by
        rw [readArray, hhead]
        split
        · next heq =>
            rw [hwritten, List.cons_append] at heq
            exact absurd (List.cons.inj heq).1 hbracket
        · rfl
      have hfuel :
          items.length < (item.written ++ (Value.writtenItems items ++ rest)).length := by
        have := length_lt_writtenItems items
        simp only [List.length_append]
        omega
      rw [Value.written, List.cons_append, readValue, skipSpace_of_head rfl, List.append_assoc]
      simp only [harray, readItems_written hread hfuel, Value.depth, Nat.add_le_add_iff_right]
      split <;> rfl

/-- An object is read if the values of its fields are, and its names are strictly increasing. -/
theorem reads_object
    {n : Nat} {fields : Fields} (hsorted : NameMap.Sorted fields)
    (hread : ∀ field ∈ fields, Reads (readValue n) n field.2) :
    Reads (readValue (n + 1)) (n + 1) (.object fields) := by
  intro rest _
  cases fields with
  | nil =>
      simp [Value.written, readValue, skipSpace_of_head (c := '{') rfl, readObject,
        skipSpace_of_head (c := '}') rfl, Value.depth, Value.depthFields]
  | cons field fields =>
      obtain ⟨name, value⟩ := field
      let body := writtenString name ++
        ':' :: (value.written ++ (Value.writtenFields fields ++ rest))
      obtain ⟨cs, hbody⟩ : ∃ cs, body = '"' :: cs := ⟨_, rfl⟩
      have hhead : skipSpace body = body := by
        rw [hbody, skipSpace_of_head rfl]
      have hobject : readObject (readValue n) body =
          (readFields (readValue n) body.length body).map
            fun read => (.object (NameMap.ofList read.1), read.2) := by
        rw [readObject, hhead, hbody]
        rfl
      have hfuel : fields.length < body.length := by
        have := length_lt_writtenFields fields
        simp only [body, List.length_append, List.length_cons]
        omega
      have hwritten : (Value.object ((name, value) :: fields)).written ++ rest = '{' :: body := by
        simp [Value.written, body]
      rw [hwritten, readValue, skipSpace_of_head rfl]
      simp only [hobject, readFields_written hread hfuel, body, Value.depth,
        Nat.add_le_add_iff_right]
      split
      · simp only [Option.map_some, NameMap.ofList_of_sorted hsorted]
      · rfl

/-- **Reading what was written.**  A value with whole numbers only is read from its text if it is
nested at most as deep as allowed, and refused otherwise. -/
theorem readValue_written
    (n : Nat) :
    ∀ v : Value, v.Integral → v.Sorted → Reads (readValue n) n v := by
  induction n with
  | zero =>
      intro v hintegral hsorted
      cases v with
      | array items =>
          intro rest _
          cases items <;>
            simp [Value.written, readValue, skipSpace_of_head (c := '[') rfl, readScalar_bracket,
              Value.depth]
      | object fields =>
          intro rest _
          cases fields <;>
            simp [Value.written, readValue, skipSpace_of_head (c := '{') rfl, readScalar_brace,
              Value.depth]
      | _ =>
          exact reads_of_depth_eq_zero hintegral rfl 0
  | succ n ih =>
      intro v hintegral hsorted
      cases v with
      | array items =>
          exact reads_array hintegral fun v hv =>
            ih v (eachNumber_of_mem hintegral v hv) (Value.sorted_of_mem hsorted v hv)
      | object fields =>
          exact reads_object hsorted.1 fun field hfield =>
            ih field.2 (eachNumber_of_mem_fields hintegral field hfield)
              (Value.sorted_of_mem_fields hsorted.2 field hfield)
      | _ =>
          exact reads_of_depth_eq_zero hintegral rfl (n + 1)

end Json

namespace Document

/-- The numbers of a document are whole. -/
def Integral (doc : Document) : Prop :=
  (Value.object doc).Integral

/-- A document is nested as deep as the reader allows, or less. -/
def Shallow (doc : Document) : Prop :=
  (Value.object doc).depth ≤ Json.maxDepth

instance (doc : Document) : Decidable doc.Shallow :=
  inferInstanceAs (Decidable (_ ≤ _))

/-- The text of a document denotes it, unless it is nested too deep. -/
theorem ofText?_text
    {doc : Document} (hintegral : doc.Integral) (hsorted : doc.Sorted) :
    Document.ofText? (Document.text doc) = if doc.Shallow then some doc else none := by
  have hread := Json.readValue_written Json.maxDepth (.object doc) hintegral hsorted [] trivial
  rw [List.append_nil] at hread
  rw [Document.ofText?, Document.text, Value.ofText?, Value.text, String.toList_ofList, hread]
  by_cases hdepth : doc.Shallow
  · rw [if_pos hdepth]
    rw [Shallow] at hdepth
    rw [if_pos hdepth]
    rfl
  · rw [if_neg hdepth]
    rw [Shallow] at hdepth
    rw [if_neg hdepth]
    rfl

/-- The text of a document is not blank. -/
theorem allBlank_text
    (doc : Document) :
    Text.allBlank (Document.text doc) = false := by
  have hbrace : ∃ cs, (Value.object doc).written = '{' :: cs := by
    cases doc
    · exact ⟨_, rfl⟩
    · exact ⟨_, rfl⟩
  obtain ⟨cs, hwritten⟩ := hbrace
  rw [Text.allBlank, Document.text, Value.text, String.toList_ofList, hwritten]
  rfl

end Document
end DocumentTables
