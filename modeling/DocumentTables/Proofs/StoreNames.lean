import Mathlib.Data.Nat.Digits.Defs
import DocumentTables.Cache.Disk
import DocumentTables.Proofs.JsonText
import DocumentTables.Proofs.KeyMap
import DocumentTables.Proofs.PathNames

/-!
# The names in a store

The files of a store have plain names.  The name of an entry is short, has the extension by which
entries are counted, and is never that of a temporary file.  Equal keys without floating-point
numbers have the same canonical text, and so one file.

**Results.**

* `DiskCache.plain_entryName`, `DiskCache.plain_temporaryName`: the names are plain.
* `DiskCache.utf8ByteSize_temporaryName`: how long the name of a temporary file is at most.
* `DiskCache.entryName_ne_temporaryName`: an entry is no temporary file.
* `PrimaryKey.fileStem_eq_of_same`: equal keys have one file.
* `Separate.alike_iff`: where different keys have different stems, keys are alike if their entries
  are one.
-/

namespace DocumentTables

namespace Text

theorem utf8Size_of_isFileChar
    {c : Char} (h : isFileChar c = true) :
    c.utf8Size = 1 := by
  simp only [isFileChar, Bool.or_eq_true, beq_iff_eq] at h
  rw [Char.utf8Size_eq_one_iff]
  rcases h with (h | rfl) | rfl
  · have hlast : c ≤ 'z' := by
      rcases (isAlphanum_iff c).mp h with h | h | h
      · exact Char.le_trans h.2 (by decide)
      · exact h.2
      · exact Char.le_trans h.2 (by decide)
    exact UInt32.le_trans hlast (by decide)
  · decide
  · decide

theorem utf8Len_of_isFileChar
    {cs : List Char} (h : ∀ c ∈ cs, isFileChar c = true) :
    String.utf8Len cs = cs.length := by
  induction cs with
  | nil =>
      rfl
  | cons c cs ih =>
      rw [String.utf8Len_cons, ih fun d hd => h d (List.mem_cons_of_mem _ hd),
        utf8Size_of_isFileChar (h c List.mem_cons_self), List.length_cons]

theorem isFileChar_of_mem_fileSafe
    (s : String) :
    ∀ c ∈ (fileSafe s).toList, isFileChar c = true := by
  rw [fileSafe, String.toList_ofList]
  exact keep_of_mem_collapse (by decide)

theorem not_mem_fileSafe
    {s : String} {c : Char} (h : isFileChar c = false) :
    c ∉ (fileSafe s).toList := by
  intro hc
  rw [isFileChar_of_mem_fileSafe s c hc] at h
  cases h

/-- A name that is made of the characters of file names, if it is one, is plain. -/
theorem plain_fileSafe
    {s : String} (h : fileSafe s ≠ "") :
    FilePath.Plain (fileSafe s) := by
  have hnot : '.' ∉ (fileSafe s).toList := not_mem_fileSafe rfl
  refine ⟨not_mem_fileSafe rfl, not_mem_fileSafe rfl, h, ?_, ?_⟩
  · intro hpoint
    exact hnot (by simp [hpoint])
  · intro hpoints
    exact hnot (by simp [hpoints])

end Text

namespace Sha256

theorem isFileChar_of_mem_ofText
    {s : String} :
    ∀ c ∈ ofText s, Text.isFileChar c = true := by
  intro c hc
  rw [ofText, hexDigits] at hc
  obtain ⟨w, -, hc⟩ := List.mem_flatMap.mp hc
  obtain ⟨i, -, rfl⟩ := List.mem_map.mp hc
  have hdigit : ∀ n < 16, Text.isFileChar (Nat.digitChar n) = true := by decide
  exact hdigit _ (Nat.mod_lt _ (by decide))

end Sha256

namespace DiskCache

variable {key : PrimaryKey}

theorem isFileChar_of_mem_fileStem
    (key : PrimaryKey) :
    ∀ c ∈ (fileStem key).toList, Text.isFileChar c = true := by
  intro c hc
  rw [fileStem, String.toList_ofList, List.mem_append, List.mem_cons] at hc
  rcases hc with hc | rfl | hc
  · exact Text.keep_of_mem_collapse (by decide) c (List.mem_of_mem_take hc)
  · decide
  · exact Sha256.isFileChar_of_mem_ofText c (List.mem_of_mem_take hc)

/-- The readable part, a dash and the digits. -/
theorem utf8ByteSize_fileStem
    (key : PrimaryKey) :
    (fileStem key).utf8ByteSize ≤ 137 := by
  rw [← String.utf8Len_toList, Text.utf8Len_of_isFileChar (isFileChar_of_mem_fileStem key),
    fileStem, String.toList_ofList]
  simp only [List.length_append, List.length_cons, List.length_take, maxReadable, digestDigits]
  omega

theorem fileStem_toList_ne_nil
    (key : PrimaryKey) :
    (fileStem key).toList ≠ [] := by
  rw [fileStem, String.toList_ofList]
  simp

/-- The name of the file that holds the document of a key. -/
def entryName (key : PrimaryKey) : String :=
  fileStem key ++ ".json"

/-- The name of a temporary file for a key. -/
def temporaryName (process temporaries : Nat) (key : PrimaryKey) : String :=
  "." ++ fileStem key ++ "." ++ toString process ++ "." ++ toString temporaries ++ ".tmp"

theorem entryPath_eq
    (c : DiskCache) (key : PrimaryKey) :
    c.entryPath key = FilePath.join c.directory (entryName key) := by
  rfl

theorem temporaryPath_eq
    (c : DiskCache) (key : PrimaryKey) :
    c.temporaryPath key =
      FilePath.join c.directory (temporaryName c.process c.temporaries key) := by
  rfl

/-- A character of the names in a store: one of file names, or a point. -/
def isNameChar (c : Char) : Bool :=
  Text.isFileChar c || c == '.'

/-- A text holds characters of the names in a store only. -/
def NameChars (s : String) : Prop :=
  ∀ c ∈ s.toList, isNameChar c = true

instance : DecidablePred NameChars :=
  fun s => decidable_of_iff (s.toList.all isNameChar = true) List.all_eq_true

theorem NameChars.append
    {s t : String} (hs : NameChars s) (ht : NameChars t) :
    NameChars (s ++ t) := by
  intro c hc
  rw [String.toList_append, List.mem_append] at hc
  exact hc.elim (hs c) (ht c)

theorem nameChars_fileStem
    (key : PrimaryKey) :
    NameChars (fileStem key) := by
  intro c hc
  simp [isNameChar, isFileChar_of_mem_fileStem key c hc]

theorem nameChars_toString
    (n : Nat) :
    NameChars (toString n) := by
  intro c hc
  rw [Nat.toString_eq_ofList_toDigits, String.toList_ofList] at hc
  have hdigit : c.isDigit = true := Nat.isDigit_of_mem_toDigits (by decide) (by decide) hc
  simp [isNameChar, Text.isFileChar, Char.isAlphanum, hdigit]

/-- A text of such characters that is more than points is a plain name. -/
theorem NameChars.plain
    {name : String} (h : NameChars name) (hmore : ∃ c ∈ name.toList, c ≠ '.') :
    FilePath.Plain name := by
  have hnot : ∀ c, isNameChar c = false → c ∉ name.toList := by
    intro c hc hmem
    rw [h c hmem] at hc
    simp at hc
  obtain ⟨c, hc, hpoint⟩ := hmore
  refine ⟨hnot _ rfl, hnot _ rfl, ?_, ?_, ?_⟩
  · rintro rfl
    simp at hc
  · rintro rfl
    exact hpoint (by simpa using hc)
  · rintro rfl
    exact hpoint (by simpa using hc)

theorem exists_mem_fileStem
    (key : PrimaryKey) :
    ∃ c ∈ (fileStem key).toList, c ≠ '.' := by
  obtain ⟨c, cs, hstem⟩ := List.exists_cons_of_ne_nil (fileStem_toList_ne_nil key)
  refine ⟨c, by simp [hstem], ?_⟩
  rintro rfl
  have hpoint := isFileChar_of_mem_fileStem key '.' (by simp [hstem])
  simp [Text.isFileChar] at hpoint

theorem plain_entryName
    (key : PrimaryKey) :
    FilePath.Plain (entryName key) := by
  obtain ⟨c, hc, hpoint⟩ := exists_mem_fileStem key
  have hjson : NameChars ".json" := by decide
  exact ((nameChars_fileStem key).append hjson).plain ⟨c, by simp [hc], hpoint⟩

theorem plain_temporaryName
    (process temporaries : Nat) (key : PrimaryKey) :
    FilePath.Plain (temporaryName process temporaries key) := by
  obtain ⟨c, hc, hpoint⟩ := exists_mem_fileStem key
  have hdot : NameChars "." := by decide
  have htmp : NameChars ".tmp" := by decide
  have hchars : NameChars (temporaryName process temporaries key) :=
    (((((hdot.append (nameChars_fileStem key)).append hdot).append
      (nameChars_toString process)).append hdot).append
      (nameChars_toString temporaries)).append htmp
  exact hchars.plain ⟨c, by simp [temporaryName, hc], hpoint⟩

/-- A number below a power of ten has that many digits. -/
theorem utf8ByteSize_toString
    {n digits : Nat} (hdigits : 0 < digits) (h : n < 10 ^ digits) :
    (toString n).utf8ByteSize ≤ digits := by
  have hchars : ∀ c ∈ Nat.toDigits 10 n, Text.isFileChar c = true := by
    intro c hc
    have hdigit : c.isDigit = true := Nat.isDigit_of_mem_toDigits (by decide) (by decide) hc
    simp [Text.isFileChar, Char.isAlphanum, hdigit]
  rw [Nat.toString_eq_ofList_toDigits, String.utf8ByteSize_ofList,
    Text.utf8Len_of_isFileChar hchars]
  exact Nat.toDigits_length 10 n digits hdigits h

theorem utf8ByteSize_entryName
    (key : PrimaryKey) :
    (entryName key).utf8ByteSize ≤ 142 := by
  have hstem := utf8ByteSize_fileStem key
  have hjson : ".json".utf8ByteSize = 5 := by decide
  rw [entryName, String.utf8ByteSize_append]
  omega

/-- The number of a process has 32 bits, and that of a temporary file 64. -/
theorem utf8ByteSize_temporaryName
    {process temporaries : Nat} (hprocess : process < Nat.pow 2 32)
    (htemporaries : temporaries < Nat.pow 2 64) (key : PrimaryKey) :
    (temporaryName process temporaries key).utf8ByteSize ≤ 174 := by
  have hstem := utf8ByteSize_fileStem key
  have hfirst : (toString process).utf8ByteSize ≤ 10 :=
    utf8ByteSize_toString (by decide) (Nat.lt_trans hprocess (by decide))
  have hsecond : (toString temporaries).utf8ByteSize ≤ 20 :=
    utf8ByteSize_toString (by decide) (Nat.lt_trans htemporaries (by decide))
  have hdot : ".".utf8ByteSize = 1 := by decide
  have htmp : ".tmp".utf8ByteSize = 4 := by decide
  simp only [temporaryName, String.utf8ByteSize_append]
  omega

/-- A temporary file has a name that begins with a point, and an entry has not. -/
theorem entryName_ne_temporaryName
    (key other : PrimaryKey) (process temporaries : Nat) :
    entryName key ≠ temporaryName process temporaries other := by
  intro heq
  obtain ⟨c, cs, hstem⟩ := List.exists_cons_of_ne_nil (fileStem_toList_ne_nil key)
  have hhead : c = '.' := by
    have hlists := congrArg String.toList heq
    simp only [entryName, temporaryName, String.toList_append, hstem, List.cons_append,
      List.append_assoc] at hlists
    exact (List.cons.inj hlists).1
  have hpoint := isFileChar_of_mem_fileStem key '.' (by simp [hstem, hhead])
  simp [Text.isFileChar] at hpoint

/-- Different names of entries belong to different stems. -/
theorem fileStem_eq_of_entryName_eq
    {key other : PrimaryKey} (h : entryName key = entryName other) :
    fileStem key = fileStem other := by
  have hlists := congrArg String.toList h
  simp only [entryName, String.toList_append] at hlists
  exact String.toList_injective (List.append_cancel_right hlists)

theorem extension?_entryName
    (key : PrimaryKey) :
    FilePath.extension? (entryName key) = some "json" := by
  have hend : ".json" = "." ++ "json" := by decide
  rw [entryName, hend, ← String.append_assoc]
  refine FilePath.extension?_append ?_ (by decide)
  exact fun hempty => fileStem_toList_ne_nil key (String.toList_eq_nil_iff.mpr hempty)

theorem extension?_temporaryName
    (process temporaries : Nat) (key : PrimaryKey) :
    FilePath.extension? (temporaryName process temporaries key) = some "tmp" := by
  have hend : ".tmp" = "." ++ "tmp" := by decide
  rw [temporaryName, hend, ← String.append_assoc]
  refine FilePath.extension?_append ?_ (by decide)
  intro hempty
  have hlist := congrArg String.toList hempty
  simp [String.toList_append] at hlist

end DiskCache

/-! ## Equal keys -/

namespace PrimaryKey

/-- Equal keys without floating-point numbers have one file. -/
theorem fileStem_eq_of_same
    {key other : PrimaryKey} (hfree : key.FloatFree) (h : key.same other = true) :
    DiskCache.fileStem key = DiskCache.fileStem other := by
  rw [DiskCache.fileStem, DiskCache.fileStem, canonicalText_eq_of_same hfree h]

end PrimaryKey

/-- Keys without floating-point numbers, of which different ones have different files. -/
structure Separate (keys : PrimaryKey → Prop) : Prop where
  floatFree : ∀ key, keys key → key.FloatFree
  stems : ∀ key other, keys key → keys other →
    DiskCache.fileStem key = DiskCache.fileStem other → key.same other = true

theorem Separate.alike_iff
    {keys : PrimaryKey → Prop} {key other : PrimaryKey} (h : Separate keys) (hkey : keys key)
    (hother : keys other) :
    key.alike other = true ↔ DiskCache.entryName key = DiskCache.entryName other := by
  rw [(h.floatFree key hkey).alike_eq_same]
  constructor
  · intro hsame
    rw [DiskCache.entryName, DiskCache.entryName,
      PrimaryKey.fileStem_eq_of_same (h.floatFree key hkey) hsame]
  · exact fun hname => h.stems key other hkey hother (DiskCache.fileStem_eq_of_entryName_eq hname)

end DocumentTables
