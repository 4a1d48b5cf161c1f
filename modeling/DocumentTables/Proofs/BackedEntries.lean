import DocumentTables.Proofs.StoreFiles

/-!
# Entries that a map stands behind

Several stores may work with one directory, below a root that was empty before they did.  Whatever
becomes of their operations, an entry that can be read is one that was there before or the one that
was put.  So if a map from keys to documents stands behind all entries, it does after an operation,
and where a store answers with a document the map has it.

**Results.**

* `FileTree.EmptyRoot.area`: the directory of a store below an empty root.
* `Backed.put`, `Backed.remove`, `Backed.clear`: what the operations of a store keep.
* `Backed.get`: what a store answers.
-/

namespace DocumentTables

open FileTree DiskCache

/-- The tree of a store whose directory is at the given path, or out of reach. -/
def Area (directory : String) (files : FileTree) : Prop :=
  (∃ full home, Site full directory home ∧ Store full home files) ∨ Unreachable files directory

/-- A text can be read from the entry of a key. -/
def Reads (directory : String) (files : FileTree) (key : PrimaryKey) (text : String) : Prop :=
  files.readText (FilePath.join directory (entryName key)) = .ok text

section

variable {directory : String} {files : FileTree} {full : FileTree} {home : Location}
  {c : DiskCache} {key other : PrimaryKey} {doc : Document} {text : String}

/-! ## What can be read -/

theorem not_reads_of_unreachable
    (h : Unreachable files directory) :
    ¬ Reads directory files key text := by
  intro hreads
  rw [Reads, readText, readBytes, h.locate_join _ (plain_entryName key)] at hreads
  cases hreads

/-- Where nothing is in the directory nothing can be read. -/
theorem not_reads_of_empty
    (hsite : Site full directory home) (hstore : Store full home files)
    (hempty : files.namesIn home = []) :
    ¬ Reads directory files key text := by
  intro hreads
  have hsite' : Site full (DiskCache.mk directory 0 .zero 0).directory home := hsite
  obtain ⟨-, content, hfind, -⟩ := find?_of_readText hsite' hstore hreads
  have hname : entryName key ∈ files.namesIn home := by
    rw [mem_namesIn_iff_find?, hfind]
    rfl
  rw [hempty] at hname
  cases hname

/-- What can be read depends on the file of the entry alone. -/
theorem reads_of_find?_eq
    {files' : FileTree} (hsite : Site full directory home) (hstore : Store full home files)
    (hstore' : Store full home files')
    (hfind : files'.find? (home ++ [entryName key]) = files.find? (home ++ [entryName key]))
    (h : Reads directory files' key text) :
    Reads directory files key text := by
  have hsite' : Site full (DiskCache.mk directory 0 .zero 0).directory home := hsite
  obtain ⟨hfits, content, hcontent, htext⟩ := find?_of_readText hsite' hstore' h
  have hread := readText_entry hsite' hstore hfits
  rw [← hfind, hcontent] at hread
  simp only [htext] at hread
  exact hread

/-- After a document was put, an entry that can be read was there before, or it is the one of the
document. -/
theorem reads_put
    (harea : Area c.directory files) (key : PrimaryKey) (doc : Document) :
    Area c.directory (c.put files key doc).2.2 ∧
      ∀ other text, Reads c.directory (c.put files key doc).2.2 other text →
        Reads c.directory files other text ∨
          entryName other = entryName key ∧ text = Document.text doc := by
  rcases harea with ⟨full, home, hsite, hstore⟩ | hunreachable
  · rcases put_cases hsite hstore key doc with ⟨-, hafter, hsame⟩ | ⟨-, made, hmade, hsame, hafter⟩
    · refine ⟨.inl ⟨full, home, hsite, hafter⟩, fun other text hreads => .inl ?_⟩
      exact reads_of_find?_eq hsite hstore hafter (hsame.find? _) hreads
    · rw [hafter]
      have hpublished := present_published hmade
        (temporaryName c.process c.temporaries key) (entryName key) (Document.text doc).toUTF8
      refine ⟨.inl ⟨full, home, hsite, .inl hpublished⟩, fun other text hreads => ?_⟩
      by_cases hname : entryName other = entryName key
      · refine .inr ⟨hname, ?_⟩
        obtain ⟨-, content, hfind, htext⟩ := find?_of_readText hsite (.inl hpublished) hreads
        rw [find?_published, if_pos hname] at hfind
        cases hfind
        rw [fromUTF8?_toUTF8] at htext
        exact (Option.some.inj htext).symm
      · refine .inl (reads_of_find?_eq hsite hstore (.inl hpublished) ?_ hreads)
        rw [find?_published, if_neg hname, if_neg (entryName_ne_temporaryName other key _ _),
          hsame.find?]
  · obtain ⟨-, hafter⟩ := put_unreachable hunreachable key doc
    rw [hafter]
    exact ⟨.inr hunreachable, fun other text hreads => .inl hreads⟩

/-- After a key was removed its entry cannot be read, and another one only if it could before. -/
theorem reads_remove
    (harea : Area c.directory files) (key : PrimaryKey) :
    Area c.directory (c.remove files key).2.2 ∧
      ∀ other text, Reads c.directory (c.remove files key).2.2 other text →
        Reads c.directory files other text ∧ entryName other ≠ entryName key := by
  rcases harea with ⟨full, home, hsite, hstore⟩ | hunreachable
  · by_cases hfits : Fits c.directory (entryName key)
    · cases hfind : files.find? (home ++ [entryName key]) with
      | none =>
          rw [remove_absent hsite hstore hfits hfind]
          refine ⟨.inl ⟨full, home, hsite, hstore⟩, fun other text hreads => ⟨hreads, ?_⟩⟩
          intro hname
          obtain ⟨-, content, hcontent, -⟩ := find?_of_readText hsite hstore hreads
          rw [hname, hfind] at hcontent
          cases hcontent
      | some node =>
          obtain ⟨hpresent, content, rfl⟩ : Present full home files ∧
              ∃ content, node = .file content := by
            rcases hstore with hstore | hstore
            · obtain ⟨_, content, -, hnode⟩ :=
                hstore.file_of_find? (List.prefix_append home _) (child_ne home _) hfind
              exact ⟨hstore, content, hnode⟩
            · rw [hstore.find?_eq_none (List.prefix_append home _)] at hfind
              cases hfind
          rw [remove_present hsite hstore hfits hfind]
          have herased := hpresent.erase (entryName key)
          refine ⟨.inl ⟨full, home, hsite, .inl herased⟩, fun other text hreads => ?_⟩
          have hname : entryName other ≠ entryName key := by
            intro hname
            obtain ⟨-, content, hcontent, -⟩ := find?_of_readText hsite (.inl herased) hreads
            rw [hname, find?_erase_self _ (by simp)] at hcontent
            cases hcontent
          refine ⟨reads_of_find?_eq hsite hstore (.inl herased) ?_ hreads, hname⟩
          exact find?_erase_of_ne _ (child_ne_child home hname)
    · rw [remove_of_not_fits hsite hstore hfits]
      refine ⟨.inl ⟨full, home, hsite, hstore⟩, fun other text hreads => ⟨hreads, ?_⟩⟩
      intro hname
      obtain ⟨hother, -⟩ := find?_of_readText hsite hstore hreads
      exact hfits (hname ▸ hother)
  · rw [remove_unreachable hunreachable key]
    exact ⟨.inr hunreachable, fun other text hreads =>
      absurd hreads (not_reads_of_unreachable hunreachable)⟩

/-- After a store was cleared nothing can be read. -/
theorem reads_clear
    (harea : Area c.directory files) :
    Area c.directory (c.clear files).2 ∧
      ∀ other text, ¬ Reads c.directory (c.clear files).2 other text := by
  rcases harea with ⟨full, home, hsite, hstore⟩ | hunreachable
  · obtain ⟨hafter, hempty⟩ := clear_cases hsite hstore
    exact ⟨.inl ⟨full, home, hsite, hafter⟩, fun other text =>
      not_reads_of_empty hsite hafter hempty⟩
  · rw [clear_unreachable hunreachable]
    exact ⟨.inr hunreachable, fun other text => not_reads_of_unreachable hunreachable⟩

/-- A store answers with a document that is read from the entry. -/
theorem reads_of_get
    (h : (c.get files key).1 = .ok (some doc)) :
    ∃ text, Reads c.directory files key text ∧ Document.ofText? text = some doc := by
  unfold DiskCache.get at h
  simp only at h
  split at h
  · cases h
  · cases h
  · next text htext =>
      refine ⟨text, htext, ?_⟩
      split at h
      · cases h
      · split at h
        · next found hfound =>
            cases h
            exact hfound
        · cases h

end

/-- Below an empty root is the directory of each store, from which nothing can be read, or it is out
of reach. -/
theorem FileTree.EmptyRoot.area
    {files : FileTree} {root : String} {loc : Location} (h : EmptyRoot files root loc)
    (table : String) :
    Area (FilePath.join root (Text.fileSafe table)) files ∧
      ∀ key text, ¬ Reads (FilePath.join root (Text.fileSafe table)) files key text := by
  have hfound : ∀ {full home}, Site full (FilePath.join root (Text.fileSafe table)) home →
      Store full home files → files.namesIn home = [] →
      Area (FilePath.join root (Text.fileSafe table)) files ∧
        ∀ key text, ¬ Reads (FilePath.join root (Text.fileSafe table)) files key text :=
    fun hsite hstore hempty =>
      ⟨.inl ⟨_, _, hsite, hstore⟩, fun _ _ => not_reads_of_empty hsite hstore hempty⟩
  have hunreachable : Unreachable files (FilePath.join root (Text.fileSafe table)) →
      Area (FilePath.join root (Text.fileSafe table)) files ∧
        ∀ key text, ¬ Reads (FilePath.join root (Text.fileSafe table)) files key text :=
    fun h => ⟨.inr h, fun _ _ => not_reads_of_unreachable h⟩
  have hhead : (Text.fileSafe table).toList.head? ≠ some '/' ∧
      '\x00' ∉ (Text.fileSafe table).toList := by
    by_cases hname : Text.fileSafe table = ""
    · rw [hname]
      simp
    · exact ⟨(Text.plain_fileSafe hname).head?_ne, (Text.plain_fileSafe hname).nulFree⟩
  by_cases hshort : (FilePath.join root (Text.fileSafe table)).utf8ByteSize ≤ maxPathBytes
  · by_cases hname : Text.fileSafe table = ""
    · rw [hname] at hshort hfound ⊢
      obtain ⟨hsite, hpresent⟩ := Site.of_root h hshort
      exact hfound hsite (.inl hpresent)
        (namesIn_eq_nil fun name => h.find?_eq_none (isBelow_child loc name))
    · have hplain := Text.plain_fileSafe hname
      by_cases hbytes : (Text.fileSafe table).utf8ByteSize ≤ maxNameBytes
      · have hmissing := (h.vacant (Text.fileSafe table)).missing
        exact hfound (.of_name (h.vacant _) hplain hbytes hshort) (.inr hmissing)
          hmissing.namesIn_eq_nil
      · exact hunreachable (.of_name h.nulFree h.leads hplain (Nat.not_le.mp hbytes))
  · refine hunreachable (.of_long _ (FilePath.join_ne_empty h.ne_empty hhead.1) ?_
      (Nat.not_le.mp hshort))
    rw [FilePath.nul_mem_join hhead.1 hhead.2]
    exact h.nulFree

/-! ## Maps behind the entries -/

/-- Whatever can be read for one of the keys is the text of the document that a map has for it. -/
def Backed (directory : String) (keys : PrimaryKey → Prop) (files : FileTree) (map : KeyMap) :
    Prop :=
  ∀ key, keys key → ∀ text, Reads directory files key text →
    ∃ doc, map.find key = some doc ∧ text = Document.text doc

namespace Backed

variable {directory : String} {keys : PrimaryKey → Prop} {files : FileTree} {map map' : KeyMap}
  {c : DiskCache} {key : PrimaryKey} {doc : Document}

theorem of_not_reads
    (h : ∀ key text, ¬ Reads directory files key text) :
    Backed directory keys files map := by
  exact fun key _ text hreads => absurd hreads (h key text)

/-- A map with more documents stands behind the entries, too. -/
theorem mono
    (h : Backed directory keys files map) (hwithin : map.Within map') :
    Backed directory keys files map' := by
  intro key hkey text hreads
  obtain ⟨doc, hfind, htext⟩ := h key hkey text hreads
  exact ⟨doc, hwithin key doc hfind, htext⟩

/-- A document of the map is put. -/
theorem put
    (h : Backed c.directory keys files map) (hkeys : Separate keys)
    (harea : Area c.directory files) (hkey : keys key) (hfind : map.find key = some doc) :
    Backed c.directory keys (c.put files key doc).2.2 map := by
  intro other hother text hreads
  rcases (reads_put harea key doc).2 other text hreads with hold | ⟨hname, htext⟩
  · exact h other hother text hold
  · refine ⟨doc, ?_, htext⟩
    rw [map.find_congr ((hkeys.alike_iff hother hkey).mpr hname), hfind]

/-- A key is removed. -/
theorem remove
    (h : Backed c.directory keys files map) (hkeys : Separate keys)
    (harea : Area c.directory files) (hkey : keys key) :
    Backed c.directory keys (c.remove files key).2.2 (map.erase key) := by
  intro other hother text hreads
  obtain ⟨hold, hname⟩ := (reads_remove harea key).2 other text hreads
  obtain ⟨doc, hfind, htext⟩ := h other hother text hold
  refine ⟨doc, ?_, htext⟩
  rw [KeyMap.find_erase, if_neg fun halike => hname ((hkeys.alike_iff hkey hother).mp halike).symm,
    hfind]

/-- The store is cleared. -/
theorem clear
    (harea : Area c.directory files) :
    Backed c.directory keys (c.clear files).2 map := by
  exact of_not_reads (reads_clear harea).2

/-- A store answers with the document that the map has, if its text denotes it or nothing. -/
theorem get
    (h : Backed c.directory keys files map) (hkey : keys key)
    (hread : ∀ doc, map.find key = some doc →
      ∀ found, Document.ofText? (Document.text doc) = some found → found = doc)
    (hget : (c.get files key).1 = .ok (some doc)) :
    map.find key = some doc := by
  obtain ⟨text, hreads, hfound⟩ := reads_of_get hget
  obtain ⟨own, hfind, rfl⟩ := h key hkey text hreads
  rw [hread own hfind doc hfound, hfind]

end Backed
end DocumentTables
