import DocumentTables.Proofs.MadeDirectories

/-!
# The paths of a store

Whatever texts a table and a key are made of, the paths of the store go from the root to a directory
with a plain name, or stay at the root if the table has no name, and from there to files with plain
names of a bounded length.  So they lead to nothing but files in the directory of the table, wherever
that is in a tree; and a name that is too long is that of the table or one of the root's.

**Results.**

* `Text.truncate?_of_isFileChar`: a text of file characters can be cut off after any byte.
* `DiskCache.paths_contained`: the paths of a store.
-/

namespace DocumentTables

/-! ## Names of files -/

namespace FilePath

/-- A path leads to a direct child of a directory: it goes through the same names and then through
one more, which is a name in itself. -/
structure ChildOf (directory name path : String) : Prop where
  plain : Plain name
  names : FilePath.names path = FilePath.names directory ++ [name]

theorem Plain.childOf
    {name : String} (h : Plain name) (directory : String) :
    ChildOf directory name (join directory name) := by
  exact ⟨h, h.names_join⟩

end FilePath

namespace Text

/-- A text cut off after a number of bytes, unless that is in the middle of a character. -/
def truncate? (limit : Nat) (s : String) : Option String :=
  if s.utf8ByteSize ≤ limit then some s else String.fromUTF8? (s.toUTF8.extract 0 limit)

/-- Of file characters, which have one byte each, as many characters are left as bytes. -/
theorem truncate?_of_isFileChar
    {s : String} (h : ∀ c ∈ s.toList, isFileChar c = true) (limit : Nat) :
    truncate? limit s = some (String.ofList (s.toList.take limit)) := by
  have hsize : s.utf8ByteSize = s.toList.length := by
    rw [← String.utf8Len_toList, utf8Len_of_isFileChar h]
  rw [truncate?]
  split
  · next hshort =>
      rw [List.take_of_length_le (by omega), String.ofList_toList]
  · next hlong =>
      have hfirst : (String.ofList (s.toList.take limit)).toUTF8.size = limit := by
        have hbytes : String.utf8Len (s.toList.take limit) = (s.toList.take limit).length :=
          utf8Len_of_isFileChar fun c hc => h c (List.mem_of_mem_take hc)
        rw [String.toUTF8, String.size_toByteArray, String.utf8ByteSize_ofList, hbytes,
          List.length_take]
        omega
      have hsplit : s.toUTF8 = (String.ofList (s.toList.take limit)).toUTF8 ++
          (String.ofList (s.toList.drop limit)).toUTF8 := by
        rw [String.toUTF8, String.toUTF8, String.toUTF8, ← String.toByteArray_append,
          ← String.ofList_append, List.take_append_drop, String.ofList_toList]
      rw [hsplit, ByteArray.extract_append_eq_left hfirst.symm, fromUTF8?_toUTF8]

end Text

/-! ## The paths -/

namespace DiskCache

open FileTree

variable {root table : String} {t : FileTree} {home : Location} {place : Place}

/-- A part of the name of a file is what is left of a text when it is made safe and cut off. -/
theorem fileStem_eq
    (key : PrimaryKey) :
    ∃ readable, Text.truncate? 120 (Text.fileSafe key.canonicalText) = some readable ∧
      fileStem key = readable ++ "-" ++ String.ofList ((Sha256.ofText key.canonicalText).take 16) := by
  refine ⟨_, Text.truncate?_of_isFileChar (Text.isFileChar_of_mem_fileSafe _) 120, ?_⟩
  rw [Text.fileSafe, String.toList_ofList]
  refine String.toList_injective ?_
  rw [fileStem, String.toList_append, String.toList_append]
  simp only [String.toList_ofList, maxReadable, digestDigits]
  simp

theorem fileSafe_ne_empty
    (h : table ≠ "") :
    Text.fileSafe table ≠ "" := by
  rw [Ne, ← String.toList_eq_nil_iff, Text.fileSafe, String.toList_ofList,
    Text.collapse_eq_nil_iff, String.toList_eq_nil_iff]
  exact h

/-- The path of a table's directory: that of the root if the table has no name, and otherwise that of a
direct child of the root, whose name has neither a slash nor a point. -/
def TablePath (root table directory : String) : Prop :=
  table = "" ∧ FilePath.names directory = FilePath.names root ∨
    table ≠ "" ∧ FilePath.ChildOf root (Text.fileSafe table) directory ∧
      '/' ∉ (Text.fileSafe table).toList ∧ '.' ∉ (Text.fileSafe table).toList

theorem tablePath
    (root table : String) :
    TablePath root table (FilePath.join root (Text.fileSafe table)) := by
  by_cases htable : table = ""
  · subst htable
    exact .inl ⟨rfl, FilePath.names_join_empty root⟩
  · exact .inr ⟨htable, (Text.plain_fileSafe (fileSafe_ne_empty htable)).childOf root,
      Text.not_mem_fileSafe rfl, Text.not_mem_fileSafe rfl⟩

/-- The directory of a table in a tree: that of the root if the table has no name, and otherwise the
one that stands in the root under the table's name, or to which a link with that name leads. -/
def TableHome (t : FileTree) (root table : String) (home : Location) : Prop :=
  table = "" ∧ t.Reaches root home ∨
    table ≠ "" ∧ t.Reaches (FilePath.join root (Text.fileSafe table)) home ∧
      ∃ above, t.Reaches root above ∧
        (home = above ++ [Text.fileSafe table] ∨
          ∃ target, t.find? (above ++ [Text.fileSafe table]) = some (.link target))

theorem tableHome_of_reaches
    (h : t.Reaches (FilePath.join root (Text.fileSafe table)) home) :
    TableHome t root table home := by
  by_cases htable : table = ""
  · subst htable
    have hempty : Text.fileSafe "" = "" := by decide
    rw [Reaches, hempty, FilePath.names_join_empty] at h
    exact .inl ⟨rfl, h⟩
  · have hname := Text.plain_fileSafe (fileSafe_ne_empty htable)
    exact .inr ⟨htable, h, h.exists_above hname.names_join hname.ne_point hname.ne_points⟩

/-- What holds of all paths that a store names for a key. -/
structure Confined (root table : String) (c : DiskCache) (key : PrimaryKey) : Prop where
  stem_chars : ∀ ch ∈ (fileStem key).toList, Text.isFileChar ch = true
  stem_bytes : (fileStem key).utf8ByteSize ≤ 137
  /-- The readable part of a stem is cut off between characters. -/
  stem_readable : ∃ readable,
    Text.truncate? 120 (Text.fileSafe key.canonicalText) = some readable ∧
      fileStem key = readable ++ "-" ++ String.ofList ((Sha256.ofText key.canonicalText).take 16)
  directory : TablePath root table c.directory
  entry : ∃ name, FilePath.ChildOf c.directory name (c.entryPath key) ∧
    name.utf8ByteSize ≤ 142 ∧ FilePath.extension? name = some "json"
  temporary : ∃ name, FilePath.ChildOf c.directory name (c.temporaryPath key) ∧
    name.utf8ByteSize ≤ 255 ∧ FilePath.extension? name ≠ some "json"
  /-- In any tree the paths lead into the directory of the table. -/
  located : ∀ (t : FileTree) path place, path = c.entryPath key ∨ path = c.temporaryPath key →
    t.locate false path = .ok place →
      ∃ home name, TableHome t root table home ∧ place.location = home ++ [name]
  /-- Names that are too long are those of the root or that of the table. -/
  long : ∀ path name, path = c.entryPath key ∨ path = c.temporaryPath key →
    name ∈ FilePath.names path → maxNameBytes < name.utf8ByteSize →
      name ∈ FilePath.names root ∨ name = Text.fileSafe table

/-- A plain name of a bounded length below the directory of a table leads into that, and if a name on
the way is too long, it is not the last one. -/
theorem located_join
    {name : String} (hname : FilePath.Plain name)
    (h : t.locate false (FilePath.join (FilePath.join root (Text.fileSafe table)) name) =
      .ok place) :
    ∃ home, TableHome t root table home ∧ place.location = home ++ [name] := by
  obtain ⟨home, hreaches, -, rfl⟩ := locate_join_eq_ok hname h
  exact ⟨home, tableHome_of_reaches hreaches, rfl⟩

theorem mem_names_directory
    {name : String} (h : name ∈ FilePath.names (FilePath.join root (Text.fileSafe table))) :
    name ∈ FilePath.names root ∨ name = Text.fileSafe table := by
  rcases tablePath root table with ⟨-, hnames⟩ | ⟨-, ⟨-, hnames⟩, -⟩
  · rw [hnames] at h
    exact .inl h
  · rw [hnames, List.mem_append, List.mem_singleton] at h
    exact h

/-- The paths of a store are confined to the directory of its table, whatever texts the table and the
key are made of, how many temporary files the store has named and which process uses it. -/
theorem paths_contained
    (root table : String) (key : PrimaryKey) (counters : CacheCounters) {process temporaries : Nat}
    (hprocess : process < Nat.pow 2 32) (htemporaries : temporaries < Nat.pow 2 64) :
    Confined root table { ofTable root table process with counters, temporaries } key := by
  have hpaths : ∀ c : DiskCache, c.directory = FilePath.join root (Text.fileSafe table) →
      c.process = process → c.temporaries = temporaries → Confined root table c key := by
    rintro c hdirectory rfl rfl
    have hentry := plain_entryName key
    have htemporary := plain_temporaryName c.process c.temporaries key
    have hbytes := utf8ByteSize_temporaryName hprocess htemporaries key
    -- both paths are a plain name of a bounded length below the directory of the table
    have hchild : ∀ path, path = c.entryPath key ∨ path = c.temporaryPath key →
        ∃ name, FilePath.Plain name ∧ name.utf8ByteSize ≤ maxNameBytes ∧
          path = FilePath.join (FilePath.join root (Text.fileSafe table)) name := by
      rintro path (hpath | hpath)
      · refine ⟨_, hentry, (utf8ByteSize_entryName key).trans (by decide), ?_⟩
        rw [hpath, entryPath_eq, hdirectory]
      · refine ⟨_, htemporary, hbytes.trans (by decide), ?_⟩
        rw [hpath, temporaryPath_eq, hdirectory]
    refine
      { stem_chars := isFileChar_of_mem_fileStem key
        stem_bytes := utf8ByteSize_fileStem key
        stem_readable := fileStem_eq key
        directory := hdirectory ▸ tablePath root table
        entry := ⟨entryName key, ?_, utf8ByteSize_entryName key, extension?_entryName key⟩
        temporary := ⟨temporaryName c.process c.temporaries key, ?_, hbytes.trans (by decide), ?_⟩
        located := ?_
        long := ?_ }
    · rw [entryPath_eq]
      exact hentry.childOf _
    · rw [temporaryPath_eq]
      exact htemporary.childOf _
    · rw [extension?_temporaryName]
      decide
    · intro t path place hpath hlocate
      obtain ⟨name, hname, -, rfl⟩ := hchild path hpath
      obtain ⟨home, hhome, hplace⟩ := located_join hname hlocate
      exact ⟨home, name, hhome, hplace⟩
    · intro path name hpath hmem hlong
      obtain ⟨last, hlast, hshort, rfl⟩ := hchild path hpath
      rw [hlast.names_join, List.mem_append, List.mem_singleton] at hmem
      rcases hmem with hmem | rfl
      · exact mem_names_directory hmem
      · exact absurd hlong (Nat.not_lt.mpr hshort)
  exact hpaths _ rfl rfl rfl

/-- A table with two points in its name, a key with a path for its value, and the highest numbers that
a process and a temporary file can have. -/
theorem paths_contained_two_points :
    4294967295 < Nat.pow 2 32 ∧ 18446744073709551615 < Nat.pow 2 64 ∧
      Confined "cache" "../definitions"
        { ofTable "cache" "../definitions" 4294967295 with
          counters := .zero, temporaries := 18446744073709551615 }
        (.single "id" (.string "/../entry.json")) :=
  ⟨by decide, by decide, paths_contained _ _ _ _ (by decide) (by decide)⟩

end DiskCache
end DocumentTables
