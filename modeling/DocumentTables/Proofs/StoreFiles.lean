import DocumentTables.Proofs.DirectoryFiles
import DocumentTables.Proofs.StoreNames

/-!
# The files of a store

Each operation of a store on disk is described by what it does to the files in the store's
directory. The directory may be missing: then it has no files.  An operation fails if a path is too
long, and putting a document and clearing the store also if the directory cannot be made or removed.

**Results.**

* `DiskCache.readText_entry`: the text of an entry.
* `DiskCache.putOn_of_unwritten`, `DiskCache.putOn_of_written`: a put once the directory is there, on
  any device.
* `DiskCache.put_published`: a put that goes through.
* `DiskCache.put_cases`, `DiskCache.put_renewable`: putting a document.
* `DiskCache.remove_present`, `DiskCache.remove_absent`, `DiskCache.remove_of_not_fits`: removing
  one.
* `DiskCache.clear_cases`, `DiskCache.clear_renewable`: clearing the store.
* `DiskCache.size_eq`: the number of entries.
-/

namespace DocumentTables

open FileTree

/-- The bytes of a text denote it. -/
theorem fromUTF8?_toUTF8
    (s : String) :
    String.fromUTF8? s.toUTF8 = some s := by
  have hvalid : s.toUTF8.IsValidUTF8 := s.isValidUTF8
  rw [String.fromUTF8?, dif_pos hvalid]
  rfl

namespace DiskCache

variable {full files made : FileTree} {home : Location} {c : DiskCache} {key : PrimaryKey}
  {doc : Document} {name : String} {content : ByteArray} {faults : DeviceFaults}

/-! ## Paths -/

theorem directory_ofTable
    (root table : String) (process : Nat) :
    (ofTable root table process).directory = FilePath.join root (Text.fileSafe table) := by
  rfl

theorem directory_get
    (c : DiskCache) (files : FileTree) (key : PrimaryKey) :
    (c.get files key).2.directory = c.directory := by
  unfold get
  simp only
  split
  · rfl
  · rfl
  · split
    · rfl
    · split <;> rfl

theorem directory_put
    (c : DiskCache) (files : FileTree) (key : PrimaryKey) (doc : Document) :
    (c.put files key doc).2.1.directory = c.directory := by
  rw [put, putOn]
  split
  · rfl
  · simp only
    split <;> rfl

theorem directory_remove
    (c : DiskCache) (files : FileTree) (key : PrimaryKey) :
    (c.remove files key).2.1.directory = c.directory := by
  unfold remove
  simp only
  split <;> rfl

/-- The path of a temporary file is longer than that of its entry. -/
theorem fits_entryName
    {process temporaries : Nat} {directory : String}
    (h : Fits directory (temporaryName process temporaries key)) :
    Fits directory (entryName key) := by
  have hjson : ".json".utf8ByteSize = 5 := by decide
  have hdot : ".".utf8ByteSize = 1 := by decide
  have htmp : ".tmp".utf8ByteSize = 4 := by decide
  have hsize : (entryName key).utf8ByteSize + 1 ≤
      (temporaryName process temporaries key).utf8ByteSize := by
    simp only [entryName, temporaryName, String.utf8ByteSize_append]
    omega
  have hentry : (FilePath.join directory (entryName key)).utf8ByteSize ≤
      directory.utf8ByteSize + 1 + (entryName key).utf8ByteSize :=
    (FilePath.utf8ByteSize_join (plain_entryName key).head?_ne).2
  have htemporary : directory.utf8ByteSize +
      (temporaryName process temporaries key).utf8ByteSize ≤
        (FilePath.join directory (temporaryName process temporaries key)).utf8ByteSize :=
    (FilePath.utf8ByteSize_join (plain_temporaryName process temporaries key).head?_ne).1
  obtain ⟨hpath, hname⟩ := h
  exact ⟨by omega, by omega⟩

/-! ## Paths that lead nowhere -/

theorem putOn_of_uncreated
    {e : FileError} (h : files.createDirectoriesOn faults c.directory = (.error e, made))
    (key : PrimaryKey) (doc : Document) :
    c.putOn faults files key doc = (.error (ioError c.directory e), c, made) := by
  rw [putOn, h]

theorem put_of_uncreated
    {e : FileError} (h : files.createDirectories c.directory = (.error e, made)) (key : PrimaryKey)
    (doc : Document) :
    c.put files key doc = (.error (ioError c.directory e), c, made) := by
  exact putOn_of_uncreated h key doc

theorem remove_of_unlocated
    {e : FileError} (h : files.locate false (c.entryPath key) = .error e) :
    (c.remove files key).2 = (c, files) := by
  have hremove : files.removeFile (c.entryPath key) = .error e := by
    rw [removeFile, h]
  generalize hpath : c.entryPath key = path at hremove
  unfold remove
  simp only [hpath, hremove]
  cases e <;> rfl

theorem clear_of_unlocated
    {e : FileError} (h : files.locate false c.directory = .error e) :
    c.clear files = (.ok (), files) := by
  rw [clear, isPresent, h]
  rfl

theorem size_of_unlocated
    {e : FileError} (h : files.locate true c.directory = .error e) :
    c.size files = 0 := by
  rw [size, list, openDirectory, h]
  rfl

/-! ## A store that can be reached -/

theorem child_ne_child
    (home : Location) {name other : String} (h : name ≠ other) :
    home ++ [name] ≠ home ++ [other] := by
  simpa using h

section

variable (hsite : Site full c.directory home) (hstore : Store full home files)
include hsite hstore

/-! ## Reading -/

/-- The text of a file in the directory. -/
theorem readText_entry
    (hfits : Fits c.directory (entryName key)) :
    files.readText (c.entryPath key) =
      match files.find? (home ++ [entryName key]) with
      | some (.file content) =>
          match String.fromUTF8? content with
          | some text => .ok text
          | none => .error .invalidText
      | _ => .error .notFound := by
  have hplain := plain_entryName key
  rw [entryPath_eq, readText, readBytes]
  rcases hstore with hstore | hstore
  · rw [hstore.locate_join hsite hplain true hfits]
    cases hfind : files.find? (home ++ [entryName key]) with
    | none =>
        rfl
    | some node =>
        obtain ⟨content, rfl⟩ : ∃ content, node = .file content := by
          simpa [hfind] using hstore.find?_child (entryName key)
        rfl
  · rw [hstore.locate_join hsite hplain true, if_neg (Nat.not_lt.mpr hfits.1),
      hstore.find?_eq_none (List.prefix_append home _)]

theorem readText_entry_of_not_fits
    (hfits : ¬ Fits c.directory (entryName key)) :
    ∃ e, files.readText (c.entryPath key) = .error e := by
  obtain ⟨e, he⟩ := hstore.locate_join_of_not_fits hsite (plain_entryName key) true hfits
  exact ⟨e, by rw [entryPath_eq, readText, readBytes, he]⟩

/-- An entry that can be read is a file. -/
theorem find?_of_readText
    {text : String} (h : files.readText (c.entryPath key) = .ok text) :
    Fits c.directory (entryName key) ∧
      ∃ content, files.find? (home ++ [entryName key]) = some (.file content) ∧
        String.fromUTF8? content = some text := by
  by_cases hfits : Fits c.directory (entryName key)
  · refine ⟨hfits, ?_⟩
    rw [readText_entry hsite hstore hfits] at h
    split at h
    · next content hfind =>
        refine ⟨content, hfind, ?_⟩
        split at h <;> cases h
        assumption
    · cases h
  · obtain ⟨e, he⟩ := readText_entry_of_not_fits hsite hstore hfits
    rw [he] at h
    cases h

/-- A key without a file is missed. -/
theorem get_absent
    (hfits : Fits c.directory (entryName key))
    (hfind : files.find? (home ++ [entryName key]) = none) :
    c.get files key = (.ok none, { c with counters := c.counters.miss }) := by
  have htext : files.readText (c.entryPath key) = .error .notFound := by
    rw [readText_entry hsite hstore hfits, hfind]
  generalize hpath : c.entryPath key = path at htext
  unfold get
  simp only [hpath, htext]

/-- A file with the text of a document answers with the document. -/
theorem get_document
    (hfits : Fits c.directory (entryName key))
    (hfind : files.find? (home ++ [entryName key]) = some (.file (Document.text doc).toUTF8))
    (hread : Document.ofText? (Document.text doc) = some doc) :
    c.get files key = (.ok (some doc), { c with counters := c.counters.hit }) := by
  have htext : files.readText (c.entryPath key) = .ok (Document.text doc) := by
    rw [readText_entry hsite hstore hfits, hfind]
    simp only [fromUTF8?_toUTF8]
  generalize hpath : c.entryPath key = path at htext
  unfold get
  simp only [hpath, htext, Document.allBlank_text, hread, Bool.false_eq_true, if_false]

/-! ## Removing -/

theorem remove_absent
    (hfits : Fits c.directory (entryName key))
    (hfind : files.find? (home ++ [entryName key]) = none) :
    c.remove files key = (.ok (), c, files) := by
  have hremove : files.removeFile (c.entryPath key) = .error .notFound := by
    rw [entryPath_eq, removeFile]
    rcases hstore with hstore | hstore
    · rw [hstore.locate_join hsite (plain_entryName key) false hfits, hfind]
    · rw [hstore.locate_join hsite (plain_entryName key) false,
        if_neg (Nat.not_lt.mpr hfits.1)]
  generalize hpath : c.entryPath key = path at hremove
  unfold remove
  simp only [hpath, hremove]

theorem remove_present
    (hfits : Fits c.directory (entryName key))
    (hfind : files.find? (home ++ [entryName key]) = some (.file content)) :
    c.remove files key =
      (.ok (), { c with counters := c.counters.evict },
        files.erase (home ++ [entryName key])) := by
  have hremove : files.removeFile (c.entryPath key) =
      .ok (files.erase (home ++ [entryName key])) := by
    rw [entryPath_eq, removeFile]
    rcases hstore with hstore | hstore
    · rw [hstore.locate_join hsite (plain_entryName key) false hfits, hfind]
    · rw [hstore.find?_eq_none (List.prefix_append home _)] at hfind
      cases hfind
  generalize hpath : c.entryPath key = path at hremove
  unfold remove
  simp only [hpath, hremove]

theorem remove_of_not_fits
    (hfits : ¬ Fits c.directory (entryName key)) :
    (c.remove files key).2 = (c, files) := by
  obtain ⟨e, he⟩ := hstore.locate_join_of_not_fits hsite (plain_entryName key) false hfits
  exact remove_of_unlocated (by rw [entryPath_eq, he])

/-! ## Counting -/

/-- The entries of a store are the names in its directory with their extension. -/
theorem size_eq :
    c.size files =
      ((files.namesIn home).filter fun name => FilePath.extension? name == some "json").length := by
  rw [size, list]
  rcases hstore with hstore | hstore
  · rw [hstore.openDirectory hsite]
    rfl
  · rw [hstore.namesIn_eq_nil, openDirectory]
    rcases hstore.locate hsite true with hlocate | hlocate <;> rw [hlocate] <;> rfl

/-! ## Clearing -/

/-- After a store was cleared there are no files in its directory, whether it succeeds or not. -/
theorem clear_cases :
    Store full home (c.clear files).2 ∧ (c.clear files).2.namesIn home = [] := by
  rcases hstore with hstore | hstore
  · have hcleared : (c.clear files).2 = (files.removeDirectory c.directory).2 := by
      rw [clear, hstore.isPresent hsite, hstore.removeLinks hsite]
      simp only [if_true]
      split
      · next hremoved => rw [hremoved]
      · next hremoved => rw [hremoved]
      · next hremoved => rw [hremoved]
    rw [hcleared]
    rcases hstore.removeDirectory hsite with hremoved | hremoved
    · rw [hremoved]
      exact ⟨hstore.eraseBelow_erase, namesIn_eraseBelow_erase files home⟩
    · rw [hremoved]
      exact ⟨.inl hstore.eraseBelow, namesIn_eraseBelow files home⟩
  · have hcleared : c.clear files = (.ok (), files) := by
      rw [clear, hstore.isPresent hsite]
      rfl
    rw [hcleared]
    exact ⟨.inr hstore, hstore.namesIn_eq_nil⟩

/-- A store is cleared if its directory can be removed. -/
theorem clear_renewable
    (hrenewable : Renewable full c.directory) :
    (c.clear files).1 = .ok () := by
  rcases hstore with hstore | hstore
  · rw [clear, hstore.isPresent hsite, hstore.removeLinks hsite]
    simp only [if_true, hrenewable.removeDirectory hsite hstore]
  · rw [clear, hstore.isPresent hsite]
    rfl

end

/-! ## Putting -/

/-- The directory after a temporary file was written and got the name of its entry. -/
def published (made : FileTree) (home : Location) (temporary entry : String)
    (content : ByteArray) : FileTree :=
  ((made.put (home ++ [temporary]) (.file content)).erase (home ++ [temporary])).put
    (home ++ [entry]) (.file content)

theorem present_published
    (hmade : Present full home made) (temporary entry : String) (content : ByteArray) :
    Present full home (published made home temporary entry content) := by
  exact ((hmade.put temporary content).erase temporary).put entry content

theorem find?_published
    (made : FileTree) (home : Location) {temporary entry : String} (content : ByteArray)
    (name : String) :
    (published made home temporary entry content).find? (home ++ [name]) =
      if name = entry then some (.file content)
      else if name = temporary then none
      else made.find? (home ++ [name]) := by
  rw [published]
  split
  · next hentry =>
      rw [hentry, find?_put_self _ _ (by simp)]
  · next hentry =>
      rw [find?_put_of_ne _ _ (child_ne_child home hentry)]
      split
      · next htemporary =>
          rw [htemporary, find?_erase_self _ (by simp)]
      · next htemporary =>
          rw [find?_erase_of_ne _ (child_ne_child home htemporary),
            find?_put_of_ne _ _ (child_ne_child home htemporary)]

/-- A temporary file whose name is not taken leaves no trace among the names. -/
theorem namesIn_published
    {temporary : String} (entry : String) (content : ByteArray)
    (hfresh : temporary ∉ made.namesIn home) :
    (published made home temporary entry content).namesIn home =
      entry :: (made.namesIn home).filter (· ≠ entry) := by
  have hkept : (made.namesIn home).filter (· ≠ temporary) = made.namesIn home := by
    rw [List.filter_eq_self]
    intro name hname
    simp only [ne_eq, decide_not, Bool.not_eq_eq_eq_not, Bool.not_true, decide_eq_false_iff_not]
    rintro rfl
    exact hfresh hname
  rw [published, namesIn_put, namesIn_erase, namesIn_erase, namesIn_put, namesIn_erase, hkept,
    List.filter_cons_of_neg (by simp), hkept]

/-- Where the next temporary file for a key is made in the directory of a store. -/
def temporaryAt (c : DiskCache) (key : PrimaryKey) (home : Location) : Location :=
  home ++ [temporaryName c.process c.temporaries key]

theorem temporaryAt_ne_nil
    (c : DiskCache) (key : PrimaryKey) (home : Location) :
    c.temporaryAt key home ≠ [] := by
  simp [temporaryAt]

theorem temporaryAt_ne_entry
    (c : DiskCache) (key other : PrimaryKey) (home : Location) :
    home ++ [entryName other] ≠ c.temporaryAt key home := by
  exact child_ne_child home (entryName_ne_temporaryName other key c.process c.temporaries)

theorem published_eq
    (made : FileTree) (c : DiskCache) (key : PrimaryKey) (home : Location) (content : ByteArray) :
    published made home (temporaryName c.process c.temporaries key) (entryName key) content =
      ((made.put (c.temporaryAt key home) (.file content)).erase (c.temporaryAt key home)).put
        (home ++ [entryName key]) (.file content) := by
  rfl

theorem putOn_of_unwritten
    {after : FileTree} {e : FileError}
    (hcreate : files.createDirectoriesOn faults c.directory = (.ok (), made))
    (hwrite : made.writeFileOn faults (c.temporaryPath key) (Document.text doc).toUTF8 =
      (.error e, after)) :
    c.putOn faults files key doc =
      (.error (ioError (c.temporaryPath key) e),
        { c with temporaries := (c.temporaries + 1) % Nat.pow 2 64 }, after) := by
  generalize htemporary : c.temporaryPath key = temporary at hwrite
  rw [putOn]
  simp only [hcreate, htemporary, hwrite]

theorem putOn_of_written
    {written : FileTree} (hcreate : files.createDirectoriesOn faults c.directory = (.ok (), made))
    (hwrite : made.writeFileOn faults (c.temporaryPath key) (Document.text doc).toUTF8 =
      (.ok (), written)) :
    c.putOn faults files key doc =
      ((publishOn faults written (c.temporaryPath key) (c.entryPath key)).1,
        { c with temporaries := (c.temporaries + 1) % Nat.pow 2 64 },
        (publishOn faults written (c.temporaryPath key) (c.entryPath key)).2) := by
  generalize htemporary : c.temporaryPath key = temporary at hwrite
  rw [putOn]
  simp only [hcreate, htemporary, hwrite]
  rfl

theorem put_of_unwritten
    {e : FileError} (hcreate : files.createDirectories c.directory = (.ok (), made))
    (hwrite : made.writeFile (c.temporaryPath key) (Document.text doc).toUTF8 = .error e) :
    c.put files key doc =
      (.error (ioError (c.temporaryPath key) e),
        { c with temporaries := (c.temporaries + 1) % Nat.pow 2 64 }, made) := by
  exact putOn_of_unwritten hcreate (by rw [writeFileOn_none, hwrite])

theorem put_of_written
    {written : FileTree} (hcreate : files.createDirectories c.directory = (.ok (), made))
    (hwrite : made.writeFile (c.temporaryPath key) (Document.text doc).toUTF8 = .ok written) :
    c.put files key doc =
      ((publish written (c.temporaryPath key) (c.entryPath key)).1,
        { c with temporaries := (c.temporaries + 1) % Nat.pow 2 64 },
        (publish written (c.temporaryPath key) (c.entryPath key)).2) := by
  exact putOn_of_written hcreate (by rw [writeFileOn_none, hwrite])

/-- The directory of the store is there, and the path of the next temporary file can be looked up. -/
structure Room (c : DiskCache) (made : FileTree) (key : PrimaryKey) (home : Location) : Prop where
  reaches : made.Reaches c.directory home
  nulFree : '\x00' ∉ c.directory.toList
  fits : Fits c.directory (temporaryName c.process c.temporaries key)

theorem exists_room
    {place : Place} (hlocate : made.locate false (c.temporaryPath key) = .ok place) :
    ∃ home, c.Room made key home ∧
      place = ⟨c.temporaryAt key home, made.find? (c.temporaryAt key home)⟩ := by
  have hname := plain_temporaryName c.process c.temporaries key
  rw [temporaryPath_eq] at hlocate
  obtain ⟨home, hreaches, hbytes, hplace⟩ := locate_join_eq_ok hname hlocate
  obtain ⟨-, hnul, hshort, -⟩ := resolve_eq_ok hlocate
  rw [FilePath.nul_mem_join hname.head?_ne hname.nulFree] at hnul
  exact ⟨home, ⟨hreaches, hnul, hshort, hbytes⟩, hplace⟩

namespace Room

variable (hroom : c.Room made key home)
include hroom

theorem locate_temporary :
    made.locate false (c.temporaryPath key) =
      .ok ⟨c.temporaryAt key home, made.find? (c.temporaryAt key home)⟩ := by
  rw [temporaryPath_eq]
  exact hroom.reaches.locate_join (plain_temporaryName c.process c.temporaries key) hroom.nulFree
    hroom.fits

theorem locate_entry :
    made.locate false (c.entryPath key) =
      .ok ⟨home ++ [entryName key], made.find? (home ++ [entryName key])⟩ := by
  rw [entryPath_eq]
  exact hroom.reaches.locate_join (plain_entryName key) hroom.nulFree (fits_entryName hroom.fits)

theorem leadsToDirectory
    (hempty : c.directory ≠ "") :
    LeadsToDirectory made c.directory := by
  have hname := plain_temporaryName c.process c.temporaries key
  have hsize : c.directory.utf8ByteSize + _ ≤ _ := (FilePath.utf8ByteSize_join hname.head?_ne).1
  exact ⟨hempty, hroom.nulFree, Nat.le_trans (Nat.le_of_add_right_le hsize) hroom.fits.1, home,
    hroom.reaches⟩

/-- The temporary file is made, or what is in it is replaced. -/
theorem writeFile
    (htemporary : made.find? (c.temporaryAt key home) = none ∨
      ∃ old, made.find? (c.temporaryAt key home) = some (.file old))
    (content : ByteArray) :
    made.writeFile (c.temporaryPath key) content =
        .ok (made.put (c.temporaryAt key home) (.file content)) ∧
      c.Room (made.put (c.temporaryAt key home) (.file content)) key home := by
  have hname := plain_temporaryName c.process c.temporaries key
  refine ⟨?_, ?_, hroom.nulFree, hroom.fits⟩
  · rw [temporaryPath_eq]
    exact writeFile_join hroom.reaches hroom.nulFree hname hroom.fits htemporary content
  · have hothers : ∀ other, other ≠ c.temporaryAt key home →
        (made.put (c.temporaryAt key home) (.file content)).find? other = made.find? other :=
      fun other hother => find?_put_of_ne made _ hother
    rcases htemporary with hnone | ⟨old, hold⟩
    · refine hroom.reaches.of_extends fun other node hfind => ?_
      rw [hothers other, hfind]
      rintro rfl
      rw [hnone] at hfind
      cases hfind
    · exact resolveFrom_past_file (fun other hother => (hothers other hother).symm) hold
        hroom.reaches

end Room

/-- A document is put unless a directory is in the place of the temporary file or of the entry. -/
theorem put_published
    (hcreate : files.createDirectories c.directory = (.ok (), made)) (hroom : c.Room made key home)
    (htemporary : made.find? (c.temporaryAt key home) = none ∨
      ∃ old, made.find? (c.temporaryAt key home) = some (.file old))
    (hentry : made.find? (home ++ [entryName key]) ≠ some .directory) (doc : Document) :
    c.put files key doc =
      (.ok (), { c with temporaries := (c.temporaries + 1) % Nat.pow 2 64 },
        published made home (temporaryName c.process c.temporaries key) (entryName key)
          (Document.text doc).toUTF8) := by
  obtain ⟨hwrite, hafter⟩ := hroom.writeFile htemporary (Document.text doc).toUTF8
  have hne := c.temporaryAt_ne_entry key key home
  have hrename := rename_join hafter.reaches hafter.nulFree
    (plain_temporaryName c.process c.temporaries key) hafter.fits (plain_entryName key)
    (fits_entryName hafter.fits) (find?_put_self made _ (c.temporaryAt_ne_nil key home)) (by
      rw [find?_put_of_ne made _ hne]
      exact hentry)
  rw [put_of_written hcreate hwrite, temporaryPath_eq, entryPath_eq, publish_eq, hrename,
    published_eq]
  rfl

section

variable (hsite : Site full c.directory home)
include hsite

omit hsite in
/-- A file in the directory gets another name there. -/
theorem rename_file
    {directory source target : String} (hsite : Site full directory home)
    (hmade : Present full home made) (hsource : FilePath.Plain source)
    (htarget : FilePath.Plain target) (hfits : Fits directory source)
    (hfits' : Fits directory target)
    (hfind : made.find? (home ++ [source]) = some (.file content)) :
    made.rename (FilePath.join directory source) (FilePath.join directory target) =
      .ok ((made.erase (home ++ [source])).put (home ++ [target]) (.file content)) := by
  exact rename_join (hmade.leads hsite) hsite.nulFree hsource hfits htarget hfits' hfind
    (hmade.find?_child_ne_directory target)

/-- Once the directory is there a document is put, unless the path of the temporary file is too
long. -/
theorem put_of_made
    (hmade : Present full home made)
    (hcreate : files.createDirectories c.directory = (.ok (), made)) (doc : Document)
    (hfits : Fits c.directory (temporaryName c.process c.temporaries key)) :
    c.put files key doc =
      (.ok (), { c with temporaries := (c.temporaries + 1) % Nat.pow 2 64 },
        published made home (temporaryName c.process c.temporaries key) (entryName key)
          (Document.text doc).toUTF8) := by
  exact put_published hcreate ⟨hmade.leads hsite, hsite.nulFree, hfits⟩ (hmade.find?_child _)
    (hmade.find?_child_ne_directory _) doc

omit hsite in
/-- A document is not put if the path of the temporary file leads nowhere. -/
theorem put_of_unwritable
    {e : FileError} (hcreate : files.createDirectories c.directory = (.ok (), made))
    (hlocate : made.locate true (c.temporaryPath key) = .error e) (doc : Document) :
    c.put files key doc =
      (.error (ioError (c.temporaryPath key) e),
        { c with temporaries := (c.temporaries + 1) % Nat.pow 2 64 }, made) := by
  have htemporary := plain_temporaryName c.process c.temporaries key
  have hwrite : made.writeFile (c.temporaryPath key) (Document.text doc).toUTF8 = .error e := by
    rw [writeFile, hlocate, temporaryPath_eq, htemporary.leadsToDirectory_join]
    rfl
  exact put_of_unwritten hcreate hwrite

theorem put_of_not_fits
    (hmade : Present full home made)
    (hcreate : files.createDirectories c.directory = (.ok (), made)) (doc : Document)
    (hfits : ¬ Fits c.directory (temporaryName c.process c.temporaries key)) :
    (c.put files key doc).1 ≠ .ok () ∧ (c.put files key doc).2.2 = made := by
  obtain ⟨e, he⟩ := Store.locate_join_of_not_fits (.inl hmade) hsite
    (plain_temporaryName c.process c.temporaries key) true hfits
  rw [← temporaryPath_eq] at he
  rw [put_of_unwritable hcreate he]
  exact ⟨by rintro ⟨⟩, rfl⟩

/-- Either putting a document fails and the files of the store stay as they are, or the document is
put into its entry. -/
theorem put_cases
    (hstore : Store full home files) (key : PrimaryKey) (doc : Document) :
    ((c.put files key doc).1 ≠ .ok () ∧ Store full home (c.put files key doc).2.2 ∧
        SameFiles home files (c.put files key doc).2.2) ∨
      (c.put files key doc).1 = .ok () ∧
        ∃ made, Present full home made ∧ SameFiles home files made ∧
          (c.put files key doc).2.2 =
            published made home (temporaryName c.process c.temporaries key) (entryName key)
              (Document.text doc).toUTF8 := by
  cases hcreate : files.createDirectories c.directory with
  | mk result made =>
      have hmaking := hstore.createDirectories hsite
      rw [hcreate] at hmaking
      cases result with
      | error e =>
          refine .inl ?_
          rw [put_of_uncreated hcreate]
          rcases hmaking with ⟨hmade, hsame⟩ | ⟨-, hmade⟩
          · exact ⟨by rintro ⟨⟩, .inl hmade, hsame⟩
          · simp only at hmade
            subst hmade
            exact ⟨by rintro ⟨⟩, hstore, SameFiles.refl home _⟩
      | ok =>
          rcases hmaking with ⟨hmade, hsame⟩ | ⟨hfailed, -⟩
          · by_cases hfits : Fits c.directory (temporaryName c.process c.temporaries key)
            · have hput := put_of_made hsite hmade hcreate doc hfits
              exact .inr ⟨by rw [hput], made, hmade, hsame, by rw [hput]⟩
            · obtain ⟨hfailed, hkept⟩ := put_of_not_fits hsite hmade hcreate doc hfits
              refine .inl ⟨hfailed, ?_⟩
              rw [hkept]
              exact ⟨.inl hmade, hsame⟩
          · exact absurd rfl hfailed

/-- A document is put if the directory can be made and the path of the temporary file is not too
long. -/
theorem put_renewable
    (hstore : Store full home files) (hrenewable : Renewable full c.directory)
    (doc : Document) (hfits : Fits c.directory (temporaryName c.process c.temporaries key)) :
    ∃ made, Present full home made ∧ SameFiles home files made ∧
      c.put files key doc =
        (.ok (), { c with temporaries := (c.temporaries + 1) % Nat.pow 2 64 },
          published made home (temporaryName c.process c.temporaries key) (entryName key)
            (Document.text doc).toUTF8) := by
  obtain ⟨hok, hmade, hsame⟩ := hrenewable.createDirectories hsite hstore
  refine ⟨_, hmade, hsame, put_of_made hsite hmade ?_ doc hfits⟩
  exact Prod.ext hok rfl

end

/-! ## Stores out of reach -/

section

variable (h : Unreachable files c.directory)
include h

theorem put_unreachable
    (key : PrimaryKey) (doc : Document) :
    (c.put files key doc).1 = .error (ioError c.directory .nameTooLong) ∧
      (c.put files key doc).2 = (c, files) := by
  rw [put_of_uncreated h.createDirectories]
  exact ⟨rfl, rfl⟩

theorem remove_unreachable
    (key : PrimaryKey) :
    (c.remove files key).2 = (c, files) := by
  exact remove_of_unlocated (h.locate_join _ (plain_entryName key) false)

theorem clear_unreachable :
    c.clear files = (.ok (), files) := by
  exact clear_of_unlocated (h.locate false)

end

end DiskCache
end DocumentTables
