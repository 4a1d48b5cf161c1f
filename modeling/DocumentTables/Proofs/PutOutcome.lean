import DocumentTables.Proofs.MadeDirectories
import DocumentTables.Sample

/-!
# What a put leaves

A document is put entirely or not at all.  If the call fails, the tree has at most new directories on
the way to that of the store, and no temporary file.  If it succeeds, one more place has changed: that
of the entry is a file with the text of the document, also if a link was there, whose target is left
alone.  This holds on a device that may refuse any of the calls; but if it fails while the text is being
written, or refuses to remove a file, no more is said of the temporary file than that nothing else has
changed.

Paths can lead astray in two ways.  Where the path of the store goes through the link in the place of
the entry, the entry is out of reach once it is put.  Where it has two points behind a missing
directory, nothing may be found at a path that leads to a file as soon as the directory is made.

**Results.**

* `DiskCache.Free.find?_eq_none`: nothing stood where the temporary file is made.
* `DiskCache.Room.publishOn_cases`: what becomes of a temporary file.
* `DiskCache.put_all_or_nothing`: what a put leaves of the tree.
* `DiskCache.put_not_all_or_nothing`: the two ways to go astray, and a device that is full.
-/

namespace DocumentTables

open FileTree

namespace DiskCache

variable {t made written : FileTree} {c : DiskCache} {key : PrimaryKey} {doc : Document}
  {home : Location} {place : Place} {faults : DeviceFaults} {content : ByteArray}

/-! ## The temporary file -/

/-- Nothing stands at the path of the next temporary file.  If the path of the directory has two points
in it, it can be that only a missing directory keeps it from leading to something; then nothing
stands there either. -/
structure Free (faults : DeviceFaults) (c : DiskCache) (t : FileTree) (key : PrimaryKey) :
    Prop where
  absent : t.isPresent (c.temporaryPath key) = false
  unreached : ".." ∈ FilePath.names c.directory → ∀ made place,
    t.createDirectoriesOn faults c.directory = (.ok (), made) →
      made.locate false (c.temporaryPath key) = .ok place → t.find? place.location = none

/-- Nothing stood where the temporary file is made. -/
theorem Free.find?_eq_none
    (hfree : c.Free faults t key) (hwell : t.WellFormed)
    (hcreate : t.createDirectoriesOn faults c.directory = (.ok (), made))
    (hlocate : made.locate false (c.temporaryPath key) = .ok place) :
    t.find? place.location = none := by
  by_cases hpoints : ".." ∈ FilePath.names c.directory
  · exact hfree.unreached hpoints made place hcreate hlocate
  · have hname := plain_temporaryName c.process c.temporaries key
    rw [temporaryPath_eq] at hlocate
    obtain ⟨home, hreaches, -, rfl⟩ := locate_join_eq_ok hname hlocate
    rcases createDirectoriesOn_fresh hwell hpoints hcreate with rfl | ⟨other, hother, hnone⟩
    · rcases hfind : made.find? (home ++ [temporaryName c.process c.temporaries key]) with _ | node
      · rfl
      · have hpresent : made.isPresent (c.temporaryPath key) = true := by
          rw [temporaryPath_eq]
          exact isPresent_iff.mpr ⟨_, node, by rw [hlocate, hfind]⟩
        rw [hfree.absent] at hpresent
        cases hpresent
    · obtain rfl := hreaches.unique hother
      exact hwell.find?_below hnone (List.prefix_append home _)

/-- Once the directory is there, nothing or a directory stands where the temporary file is to be
made. -/
theorem Free.unoccupied
    (hfree : c.Free faults t key) (hwell : t.WellFormed)
    (hcreate : t.createDirectoriesOn faults c.directory = (.ok (), made))
    (hlocate : made.locate false (c.temporaryPath key) = .ok place) :
    place.node = none ∨ place.node = some .directory := by
  have hnone := hfree.find?_eq_none hwell hcreate hlocate
  obtain ⟨home, -, rfl⟩ := exists_room hlocate
  have hgrown := createDirectoriesOn_grown faults t c.directory
  rw [hcreate] at hgrown
  rcases hgrown (c.temporaryAt key home) with hsame | ⟨-, hmade, -⟩
  · exact .inl (hsame.trans hnone)
  · exact .inr hmade

/-! ## Calls on a device with faults -/

theorem taken_of_takes
    (h : faults.takes content = .ok ()) :
    faults.taken content = content := by
  rw [DeviceFaults.takes] at h
  rw [DeviceFaults.taken]
  split at h
  · rfl
  · split at h
    · cases h
    · next hsize =>
        rw [← Nat.max_eq_left (Nat.not_lt.mp hsize), ByteArray.extract_zero_max_size]

/-- A file is not opened and nothing has changed, or it is there with what the device has taken. -/
theorem writeFileOn_cases
    (faults : DeviceFaults) (t : FileTree) (path : String) (content : ByteArray) :
    (∃ e, t.writeFileOn faults path content = (.error e, t)) ∨
      ∃ written, t.writeFile path (faults.taken content) = .ok written ∧
        t.writeFileOn faults path content = (faults.takes content, written) := by
  rw [writeFileOn]
  cases hopen : DeviceFaults.refuse faults.opening (t.writeFile path (faults.taken content)) with
  | error e =>
      exact .inl ⟨e, rfl⟩
  | ok written =>
      exact .inr ⟨written, (DeviceFaults.refuse_eq_ok_iff.mp hopen).2, rfl⟩

/-- A temporary file is made where nothing stands. -/
theorem exists_room_of_writeFile
    (hunoccupied : ∀ place, made.locate false (c.temporaryPath key) = .ok place →
      place.node = none ∨ place.node = some .directory)
    (hwrite : made.writeFile (c.temporaryPath key) content = .ok written) :
    ∃ home, c.Room made key home ∧ made.find? (c.temporaryAt key home) = none ∧
      written = made.put (c.temporaryAt key home) (.file content) := by
  have hname := plain_temporaryName c.process c.temporaries key
  cases hlocate : made.locate false (c.temporaryPath key) with
  | error e =>
      rw [writeFile, locate_follow hlocate (by rintro _ _ ⟨⟩), temporaryPath_eq,
        hname.leadsToDirectory_join] at hwrite
      cases hwrite
  | ok place =>
      obtain ⟨home, hroom, rfl⟩ := exists_room hlocate
      rcases hunoccupied _ hlocate with hnone | hdirectory
      · rw [(hroom.writeFile (.inl hnone) content).1] at hwrite
        cases hwrite
        exact ⟨home, hroom, hnone, rfl⟩
      · rw [show made.find? (c.temporaryAt key home) = _ from hdirectory] at hlocate
        rw [writeFile, locate_follow hlocate (by simp), temporaryPath_eq,
          hname.leadsToDirectory_join] at hwrite
        cases hwrite

theorem publishOn_of_unmoved
    {files bare : FileTree} {temporary entry : String} {e : FileError}
    (hrename : files.renameOn faults temporary entry = .error e)
    (hremove : files.removeFile temporary = .ok bare) :
    publishOn faults files temporary entry = (.error (ioError entry e), bare) ∨
      publishOn faults files temporary entry = (.error (ioError entry e), files) ∧
        ∃ refusal, faults.removing = some refusal := by
  rw [publishOn, hrename, removeFileOn, hremove]
  cases faults.removing with
  | none =>
      exact .inl rfl
  | some refusal =>
      exact .inr ⟨rfl, refusal, rfl⟩

/-- A temporary file gets the name of the entry, or it is removed unless the device refuses that. -/
theorem Room.publishOn_cases
    (hroom : c.Room written key home)
    (hfile : written.find? (c.temporaryAt key home) = some (.file content))
    (faults : DeviceFaults) :
    written.find? (home ++ [entryName key]) ≠ some .directory ∧
        publishOn faults written (c.temporaryPath key) (c.entryPath key) =
          (.ok (), (written.erase (c.temporaryAt key home)).put (home ++ [entryName key])
            (.file content)) ∨
      ∃ e, publishOn faults written (c.temporaryPath key) (c.entryPath key) =
          (.error e, written.erase (c.temporaryAt key home)) ∨
        publishOn faults written (c.temporaryPath key) (c.entryPath key) = (.error e, written) ∧
          ∃ refusal, faults.removing = some refusal := by
  have htemporary := plain_temporaryName c.process c.temporaries key
  have hentry := plain_entryName key
  have hfits := fits_entryName hroom.fits
  rw [temporaryPath_eq, entryPath_eq]
  have hremove := removeFile_join hroom.reaches hroom.nulFree htemporary hroom.fits hfile
  by_cases hold : written.find? (home ++ [entryName key]) = some .directory
  · have hrename := rename_join_directory hroom.reaches hroom.nulFree htemporary hroom.fits hentry
      hfits hfile hold
    refine .inr ⟨_, publishOn_of_unmoved (e := .isDirectory) ?_ hremove⟩
    rw [renameOn, hrename]
    rfl
  · have hrename := rename_join hroom.reaches hroom.nulFree htemporary hroom.fits hentry hfits hfile
      hold
    cases hmoving : faults.moving with
    | none =>
        refine .inl ⟨hold, ?_⟩
        rw [publishOn, renameOn, hmoving, hrename]
        rfl
    | some e =>
        refine .inr ⟨_, publishOn_of_unmoved (e := e) ?_ hremove⟩
        rw [renameOn, hmoving, hrename]
        rfl

/-! ## All or nothing -/

/-- After a failed put the tree is as it was with the new directories, and the path of the temporary
file leads to no file. -/
structure Undone (made after : FileTree) (temporary : String) : Prop where
  same : made.Alike after
  no_file : ∀ place, after.locate false temporary = .ok place →
    place.node = none ∨ place.node = some .directory

/-- A put has replaced what stood at the place of the entry, if anything, with a file that holds the
document.  The path of the entry leads there, unless that of the directory went through a link in its
place. -/
structure Replaced (c : DiskCache) (key : PrimaryKey) (doc : Document) (made after : FileTree)
    (entry : Location) : Prop where
  led : made.locate false (c.entryPath key) = .ok ⟨entry, made.find? entry⟩
  no_directory : made.find? entry ≠ some .directory
  holds : after.find? entry = some (.file (Document.text doc).toUTF8)
  others : ∀ loc, loc ≠ entry → after.find? loc = made.find? loc
  leads : after.locate false (c.entryPath key) =
      .ok ⟨entry, some (.file (Document.text doc).toUTF8)⟩ ∨
    (∃ target, made.find? entry = some (.link target)) ∧
      ∀ home, ¬ after.Reaches c.directory home

/-- Every place is as it was with the new directories, except for that of the temporary file, where
nothing stood. -/
def Spared (made after : FileTree) (temporary : String) : Prop :=
  ∀ loc, after.find? loc = made.find? loc ∨ made.locate false temporary = .ok ⟨loc, none⟩

/-- The device may leave a temporary file behind: it fails while the text is being written, or it refuses
to remove a file. -/
def Litters (faults : DeviceFaults) (content : ByteArray) : Prop :=
  (∃ e, faults.takes content = .error e) ∨ ∃ refusal, faults.removing = some refusal

/-- What a put may come to, with the new directories made.  If it fails nothing has changed, except
that the device may leave a temporary file behind; if it succeeds the document is in its entry. -/
structure Outcome (faults : DeviceFaults) (c : DiskCache) (key : PrimaryKey) (doc : Document)
    (made : FileTree) (result : Except CacheError Unit) (after : FileTree) : Prop where
  spared : ∀ e, result = .error e → Spared made after (c.temporaryPath key)
  undone : ∀ e, result = .error e → ¬ Litters faults (Document.text doc).toUTF8 →
    Undone made after (c.temporaryPath key)
  replaced : result = .ok () → ∃ entry, Replaced c key doc made after entry

theorem Undone.outcome
    {after : FileTree} (h : Undone made after (c.temporaryPath key)) (e : CacheError) :
    Outcome faults c key doc made (.error e) after := by
  exact ⟨fun _ _ loc => .inl (h.same loc), fun _ _ _ => h, by rintro ⟨⟩⟩

theorem Spared.outcome
    {after : FileTree} (h : Spared made after (c.temporaryPath key))
    (hlitters : Litters faults (Document.text doc).toUTF8) (e : CacheError) :
    Outcome faults c key doc made (.error e) after := by
  exact ⟨fun _ _ => h, fun _ _ hno => absurd hlitters hno, by rintro ⟨⟩⟩

theorem Undone.of_same
    (h : ∀ place, made.locate false (c.temporaryPath key) = .ok place →
      place.node = none ∨ place.node = some .directory) :
    Undone made made (c.temporaryPath key) := by
  exact ⟨fun _ => rfl, h⟩

theorem Room.undone
    (hroom : c.Room made key home) (htemporary : made.find? (c.temporaryAt key home) = none)
    (content : ByteArray) :
    Undone made
      ((made.put (c.temporaryAt key home) (.file content)).erase (c.temporaryAt key home))
      (c.temporaryPath key) := by
  have hsame : made.Alike
      ((made.put (c.temporaryAt key home) (.file content)).erase (c.temporaryAt key home)) :=
    find?_put_erase htemporary (c.temporaryAt_ne_nil key home) _
  refine ⟨hsame, fun place hplace => .inl ?_⟩
  rw [locate, resolve_congr hsame, ← locate, hroom.locate_temporary, htemporary] at hplace
  cases hplace
  rfl

theorem Room.spared
    (hroom : c.Room made key home) (htemporary : made.find? (c.temporaryAt key home) = none)
    (content : ByteArray) :
    Spared made (made.put (c.temporaryAt key home) (.file content)) (c.temporaryPath key) := by
  intro loc
  by_cases hloc : loc = c.temporaryAt key home
  · right
    rw [hroom.locate_temporary, hloc, htemporary]
  · exact .inl (find?_put_of_ne made _ hloc)

theorem Room.replaced
    (hroom : c.Room made key home) (htemporary : made.find? (c.temporaryAt key home) = none)
    (hentry : made.find? (home ++ [entryName key]) ≠ some .directory) (doc : Document) :
    Replaced c key doc made
      (published made home (temporaryName c.process c.temporaries key) (entryName key)
        (Document.text doc).toUTF8) (home ++ [entryName key]) := by
  generalize hafter : published made home (temporaryName c.process c.temporaries key)
    (entryName key) (Document.text doc).toUTF8 = after
  have hholds : after.find? (home ++ [entryName key]) =
      some (.file (Document.text doc).toUTF8) := by
    rw [← hafter, published_eq, find?_put_self _ _ (by simp)]
  have hothers : ∀ loc, loc ≠ home ++ [entryName key] → after.find? loc = made.find? loc := by
    intro loc hloc
    rw [← hafter, published_eq, find?_put_of_ne _ _ hloc,
      find?_put_erase htemporary (c.temporaryAt_ne_nil key home)]
  -- the path leads to the new file, if the directory is still reached
  have hleads : after.Reaches c.directory home → after.locate false (c.entryPath key) =
      .ok ⟨home ++ [entryName key], some (.file (Document.text doc).toUTF8)⟩ := by
    intro hreaches
    have hstill : c.Room after key home := ⟨hreaches, hroom.nulFree, hroom.fits⟩
    rw [hstill.locate_entry, hholds]
  refine ⟨hroom.locate_entry, hentry, hholds, hothers, ?_⟩
  rcases hold : made.find? (home ++ [entryName key]) with _ | _ | old | target
  · refine .inl (hleads (hroom.reaches.of_extends fun loc node hfind => ?_))
    rw [hothers loc, hfind]
    rintro rfl
    rw [hold] at hfind
    cases hfind
  · exact absurd hold hentry
  · exact .inl (hleads (resolveFrom_past_file
      (fun loc hloc => (hothers loc hloc).symm) hold hroom.reaches))
  · by_cases hreaches : ∃ other, after.Reaches c.directory other
    · obtain ⟨other, hother⟩ := hreaches
      have hbefore : made.Reaches c.directory other := resolveFrom_past_file hothers hholds hother
      obtain rfl := hroom.reaches.unique hbefore
      exact .inl (hleads hother)
    · exact .inr ⟨⟨target, rfl⟩, fun other hother => hreaches ⟨other, hother⟩⟩

theorem Room.outcome_publishOn
    (hroom : c.Room made key home) (htemporary : made.find? (c.temporaryAt key home) = none)
    (faults : DeviceFaults) (doc : Document) {written : FileTree}
    (hwritten : written =
      made.put (c.temporaryAt key home) (.file (Document.text doc).toUTF8)) :
    Outcome faults c key doc made
      (publishOn faults written (c.temporaryPath key) (c.entryPath key)).1
      (publishOn faults written (c.temporaryPath key) (c.entryPath key)).2 := by
  subst hwritten
  have hafter := (hroom.writeFile (.inl htemporary) (Document.text doc).toUTF8).2
  have hfile := find?_put_self made (.file (Document.text doc).toUTF8)
    (c.temporaryAt_ne_nil key home)
  rcases hafter.publishOn_cases hfile faults with
    ⟨hentry, hpublish⟩ | ⟨e, hpublish | ⟨hpublish, hremoving⟩⟩
  · rw [find?_put_of_ne made _ (c.temporaryAt_ne_entry key key home)] at hentry
    rw [hpublish]
    exact ⟨by rintro _ ⟨⟩, by rintro _ ⟨⟩, fun _ => ⟨_, hroom.replaced htemporary hentry doc⟩⟩
  · rw [hpublish]
    exact (hroom.undone htemporary _).outcome e
  · rw [hpublish]
    exact (hroom.spared htemporary _).outcome (.inr hremoving) e

/-- **All or nothing.**  Whatever the device refuses:

* after a failed put no place has changed, but for new directories on the way and for the place of the
  temporary file, where nothing stood;
* neither has that one, unless the device fails while the text is being written or refuses to remove
  the file;
* after a successful put only the entry has changed, which holds the document. -/
theorem put_all_or_nothing
    (hwell : t.WellFormed) (hfree : c.Free faults t key) (doc : Document) :
    ∃ made, GrownBy (c.directory :: FilePath.parents c.directory) t made ∧
      Outcome faults c key doc made (c.putOn faults t key doc).1
        (c.putOn faults t key doc).2.2 := by
  have hgrown := createDirectoriesOn_grown faults t c.directory
  cases hcreate : t.createDirectoriesOn faults c.directory with
  | mk result made =>
      rw [hcreate] at hgrown
      refine ⟨made, hgrown, ?_⟩
      cases result with
      | error e =>
          have hundone : Undone made made (c.temporaryPath key) := by
            refine .of_same fun place hlocate => ?_
            have hempty : c.directory ≠ "" := by
              intro hempty
              rw [hempty] at hcreate
              cases hcreate
            obtain ⟨home, hroom, -⟩ := exists_room hlocate
            exact absurd (hroom.leadsToDirectory hempty) (createDirectoriesOn_failed hcreate)
          rw [putOn_of_uncreated hcreate]
          exact hundone.outcome _
      | ok =>
          have hunoccupied : ∀ place, made.locate false (c.temporaryPath key) = .ok place →
              place.node = none ∨ place.node = some .directory :=
            fun place hlocate => hfree.unoccupied hwell hcreate hlocate
          rcases writeFileOn_cases faults made (c.temporaryPath key) (Document.text doc).toUTF8 with
            ⟨e, hwrite⟩ | ⟨written, hopened, hwrite⟩
          · rw [putOn_of_unwritten hcreate hwrite]
            exact (Undone.of_same hunoccupied).outcome _
          · obtain ⟨home, hroom, htemporary, hwritten⟩ :=
              exists_room_of_writeFile hunoccupied hopened
            cases htakes : faults.takes (Document.text doc).toUTF8 with
            | error e =>
                rw [putOn_of_unwritten hcreate (hwrite.trans (by rw [htakes])), hwritten]
                exact (hroom.spared htemporary _).outcome (.inl ⟨e, htakes⟩) _
            | ok =>
                rw [taken_of_takes htakes] at hwritten
                have houtcome := hroom.outcome_publishOn htemporary faults doc hwritten
                rw [putOn_of_written hcreate (hwrite.trans (by rw [htakes]))]
                simpa only using houtcome

/-! ## Paths through an entry and around a missing directory -/

/-- The path of a temporary file is not too long if that of the directory leaves room for its name. -/
theorem fits_temporaryName
    {directory : String} {process temporaries : Nat} (hdirectory : directory.utf8ByteSize ≤ 3920)
    (hprocess : process < Nat.pow 2 32) (htemporaries : temporaries < Nat.pow 2 64)
    (key : PrimaryKey) :
    Fits directory (temporaryName process temporaries key) := by
  have hname := utf8ByteSize_temporaryName hprocess htemporaries key
  have hjoin : (FilePath.join directory (temporaryName process temporaries key)).utf8ByteSize ≤
      directory.utf8ByteSize + 1 + _ :=
    (FilePath.utf8ByteSize_join (plain_temporaryName process temporaries key).head?_ne).2
  exact ⟨by rw [maxPathBytes]; omega, by rw [maxNameBytes]; omega⟩

/-- Nothing stands at the path of a temporary file whose directory is not reached, or has none. -/
theorem isPresent_temporaryPath
    (hmissing : ∀ home, t.Reaches c.directory home → t.find? (c.temporaryAt key home) = none) :
    t.isPresent (c.temporaryPath key) = false := by
  rw [Bool.eq_false_iff, ne_eq, isPresent_iff]
  rintro ⟨loc, node, hlocate⟩
  obtain ⟨home, hroom, hplace⟩ := exists_room hlocate
  rw [hmissing home hroom.reaches] at hplace
  cases hplace

/-- The directory of a store is a link through the place of an entry, where another link leads back to
the directory that holds it. -/
def loopTree (entry : String) : FileTree :=
  ⟨[(["cache"], .directory), (["cache", "layers"], .link (FilePath.join "other" entry)),
    (["cache", "other"], .directory), (["cache", "other", entry], .link ".")]⟩

def loopStore : DiskCache :=
  .ofTable "cache" "layers" 1

theorem find?_loopTree
    (entry name : String) :
    (loopTree entry).find? (["cache", "other"] ++ [name]) =
      if name = entry then some (.link ".") else none := by
  split
  · next hname =>
      simp [loopTree, find?, List.lookup_cons, hname]
  · next hname =>
      simp [loopTree, find?, List.lookup_cons, beq_eq_false_iff_ne.mpr hname]

theorem wellFormed_loopTree
    (key : PrimaryKey) :
    (loopTree (entryName key)).WellFormed := by
  have hplain : ∀ name ∈ ["cache", "layers", "other", entryName key], FilePath.Plain name := by
    simp only [List.forall_mem_cons]
    refine ⟨?_, ?_, ?_, plain_entryName key, by simp⟩
    all_goals exact ⟨by decide, by decide, by decide, by decide, by decide⟩
  refine ⟨?_, fun entry hentry name hname => hplain name ?_, ?_⟩
  · simp only [loopTree, List.forall_mem_cons]
    refine ⟨rfl, rfl, rfl, ?_, by simp⟩
    exact (find?_loopTree (entryName key) (entryName key)).trans (if_pos rfl)
  · revert name
    revert entry
    simp [loopTree]
  · simp only [loopTree, List.forall_mem_cons]
    exact ⟨rfl, rfl, rfl, rfl, by simp⟩

/-- The path of the store goes through the place of the entry last. -/
theorem resolveFrom_loop
    {s : FileTree} {entry : String} (hname : FilePath.Plain entry)
    (htop : s.find? ["cache"] = some .directory)
    (hlink : s.find? ["cache", "layers"] = some (.link (FilePath.join "other" entry)))
    (hother : s.find? ["cache", "other"] = some .directory) :
    s.resolveFrom true maxLinks [] (FilePath.names loopStore.directory) =
      s.resolveFrom true 39 ["cache", "other"] [entry] := by
  have hnames : FilePath.names loopStore.directory = ["cache", "layers"] := rfl
  have hlookup : FilePath.lookupNames (FilePath.join "other" entry) = ["other", entry] := by
    rw [hname.lookupNames_join]
    rfl
  have habsolute : FilePath.isAbsolute (FilePath.join "other" entry) = false := by
    rw [FilePath.isAbsolute, FilePath.join, if_neg hname.head?_ne, if_neg (by decide),
      String.toList_append, String.toList_append]
    rfl
  have hcache : s.step [] "cache" = .enter ["cache"] := by
    rw [step, if_neg (by decide), if_neg (by decide), if_neg (by decide), List.nil_append, htop]
  have hlayers : s.step ["cache"] "layers" = .link (FilePath.join "other" entry) := by
    rw [step, if_neg (by decide), if_neg (by decide), if_neg (by decide), List.singleton_append,
      hlink]
  have hinside : s.step ["cache"] "other" = .enter ["cache", "other"] := by
    rw [step, if_neg (by decide), if_neg (by decide), if_neg (by decide), List.singleton_append,
      hother]
  rw [hnames, resolveFrom_cons, hcache]
  simp only
  rw [resolveFrom_cons, hlayers]
  simp only [not_true, and_false, if_false, habsolute, hlookup, Bool.false_eq_true]
  change s.resolveFrom true 39 ["cache"] ["other", entry] = _
  rw [resolveFrom_cons, hinside]

theorem reaches_loopTree
    (key : PrimaryKey) :
    (loopTree (entryName key)).Reaches loopStore.directory ["cache", "other"] := by
  have hname := plain_entryName key
  have hfits : Fits loopStore.directory (entryName key) :=
    fits_entryName (fits_temporaryName (by decide) (by decide : 1 < Nat.pow 2 32)
      (by decide : 0 < Nat.pow 2 64) key)
  have hstep : (loopTree (entryName key)).step ["cache", "other"] (entryName key) = .link "." := by
    rw [step, if_neg hname.ne_point, if_neg hname.ne_points, if_neg (Nat.not_lt.mpr hfits.2),
      find?_loopTree, if_pos rfl]
  rw [Reaches, resolveFrom_loop hname rfl rfl rfl, resolveFrom_cons, hstep]
  rfl

theorem room_loopTree
    (key : PrimaryKey) :
    loopStore.Room (loopTree (entryName key)) key ["cache", "other"] := by
  exact ⟨reaches_loopTree key, by decide, fits_temporaryName (by decide) (by decide) (by decide) key⟩

theorem temporary_loopTree
    (key : PrimaryKey) :
    (loopTree (entryName key)).find? (loopStore.temporaryAt key ["cache", "other"]) = none := by
  rw [temporaryAt, find?_loopTree,
    if_neg (Ne.symm (entryName_ne_temporaryName key key loopStore.process loopStore.temporaries))]

theorem free_loopTree
    (faults : DeviceFaults) (key : PrimaryKey) :
    loopStore.Free faults (loopTree (entryName key)) key := by
  refine ⟨isPresent_temporaryPath fun home hreaches => ?_, fun hpoints => absurd hpoints (by decide)⟩
  rw [← (reaches_loopTree key).unique hreaches, temporary_loopTree]

/-- The document is put in the place of the link. -/
theorem put_loopTree
    (key : PrimaryKey) (doc : Document) :
    loopStore.put (loopTree (entryName key)) key doc =
      (.ok (), { loopStore with temporaries := 1 },
        published (loopTree (entryName key)) ["cache", "other"]
          (temporaryName loopStore.process loopStore.temporaries key) (entryName key)
          (Document.text doc).toUTF8) := by
  have hroom := room_loopTree key
  have hcreate := (hroom.leadsToDirectory (by decide)).createDirectories
  refine put_published hcreate hroom (.inl (temporary_loopTree key)) ?_ doc
  rw [find?_loopTree, if_pos rfl]
  simp

/-- Afterwards the path of the entry ends at a file on the way. -/
theorem locate_loopTree
    (key : PrimaryKey) (doc : Document) (place : Place) :
    (loopStore.put (loopTree (entryName key)) key doc).2.2.locate false (loopStore.entryPath key) ≠
      .ok place := by
  have hname := plain_entryName key
  have hreplaced := (room_loopTree key).replaced (temporary_loopTree key) (by
    rw [find?_loopTree, if_pos rfl]
    simp) doc
  rw [put_loopTree]
  generalize published (loopTree (entryName key)) ["cache", "other"]
    (temporaryName loopStore.process loopStore.temporaries key) (entryName key)
    (Document.text doc).toUTF8 = after at hreplaced ⊢
  intro hlocate
  rw [entryPath_eq] at hlocate
  obtain ⟨home, hreaches, hbytes, -⟩ := locate_join_eq_ok hname hlocate
  have hstep : after.step ["cache", "other"] (entryName key) =
      .file (Document.text doc).toUTF8 := by
    have hholds : after.find? (["cache", "other"] ++ [entryName key]) = _ := hreplaced.holds
    rw [step, if_neg hname.ne_point, if_neg hname.ne_points, if_neg (Nat.not_lt.mpr hbytes), hholds]
  rw [Reaches, resolveFrom_loop hname (hreplaced.others _ (by simp)) (hreplaced.others _ (by simp))
    (hreplaced.others _ (by simp)), resolveFrom_cons, hstep] at hreaches
  cases hreaches

/-- Two points behind a missing directory lead to another one, in which there is a file. -/
def detourTree (name : String) : FileTree :=
  ⟨[(["layers"], .directory), (["layers", name], .file .empty)]⟩

def detourStore : DiskCache :=
  .ofTable "missing/.." "layers" 1

/-- The tree once the missing directory is made. -/
def detourMade (name : String) : FileTree :=
  (detourTree name).put ["missing"] .directory

theorem createDirectories_detourTree
    (name : String) :
    (detourTree name).createDirectories detourStore.directory = (.ok (), detourMade name) := by
  have hdirectory : detourStore.directory = "missing/../layers" := rfl
  have hparents : FilePath.parents "missing/../layers" = ["missing/..", "missing"] := rfl
  have hmissing : (detourTree name).createDirectory "missing/../layers" = .error .notFound := rfl
  have hmissing' : (detourTree name).createDirectory "missing/.." = .error .notFound := rfl
  have hcreated : (detourTree name).createDirectory "missing" = .ok (detourMade name) := rfl
  have hthere : LeadsToDirectory (detourMade name) "missing/../layers" :=
    ⟨by decide, by decide, by decide, ["layers"], rfl⟩
  have hthere' : LeadsToDirectory (detourMade name) "missing/.." :=
    ⟨by decide, by decide, by decide, [], rfl⟩
  have hfirst : createDirectoriesFrom .none ["missing"] (detourTree name) =
      (.ok (), detourMade name) := by
    rw [createDirectoriesFrom, createDirectoryBelow_none, hcreated]
  have hsecond : createDirectoriesFrom .none ["missing/..", "missing"] (detourTree name) =
      (.ok (), detourMade name) := by
    rw [createDirectoriesFrom, createDirectoryBelow_none, hmissing']
    simp only [hfirst, hthere'.createDirectory, hthere'.isDirectory, if_true]
  rw [hdirectory, createDirectories_eq, if_neg (by decide), hparents, createDirectoriesFrom,
    createDirectoryBelow_none, hmissing]
  simp only [hsecond, hthere.createDirectory, hthere.isDirectory, if_true]

theorem find?_detourTree
    (name other : String) :
    (detourTree name).find? (["layers"] ++ [other]) =
      if other = name then some (.file .empty) else none := by
  split
  · next hname =>
      simp [detourTree, find?, List.lookup_cons, hname]
  · next hname =>
      simp [detourTree, find?, List.lookup_cons, beq_eq_false_iff_ne.mpr hname]

theorem wellFormed_detourTree
    {name : String} (hname : FilePath.Plain name) :
    (detourTree name).WellFormed := by
  have hplain : ∀ other ∈ ["layers", name], FilePath.Plain other := by
    simp only [List.forall_mem_cons]
    exact ⟨⟨by decide, by decide, by decide, by decide, by decide⟩, hname, by simp⟩
  refine ⟨?_, fun entry hentry other hother => hplain other ?_, ?_⟩
  · simp only [detourTree, List.forall_mem_cons]
    exact ⟨rfl, (find?_detourTree name name).trans (if_pos rfl), by simp⟩
  · revert other
    revert entry
    simp [detourTree]
  · simp only [detourTree, List.forall_mem_cons]
    exact ⟨rfl, rfl, by simp⟩

/-- A file that nothing led to is taken for the temporary file and becomes the entry. -/
theorem put_detourTree
    (key : PrimaryKey) (doc : Document) :
    (detourTree (temporaryName 1 0 key)).isPresent (detourStore.temporaryPath key) = false ∧
      detourStore.put (detourTree (temporaryName 1 0 key)) key doc =
        (.ok (), { detourStore with temporaries := 1 },
          published (detourMade (temporaryName 1 0 key)) ["layers"] (temporaryName 1 0 key)
            (entryName key) (Document.text doc).toUTF8) := by
  have hfind : ∀ other, (detourMade (temporaryName 1 0 key)).find? (["layers"] ++ [other]) =
      if other = temporaryName 1 0 key then some (.file .empty) else none := by
    intro other
    rw [detourMade, find?_put_of_ne _ _ (by simp), find?_detourTree]
  have hroom : detourStore.Room (detourMade (temporaryName 1 0 key)) key ["layers"] :=
    ⟨rfl, by decide, fits_temporaryName (by decide) (by decide) (by decide) key⟩
  refine ⟨isPresent_temporaryPath fun home hreaches => ?_, ?_⟩
  · have hmissing : (detourTree (temporaryName 1 0 key)).resolveFrom true maxLinks []
        (FilePath.names detourStore.directory) = .error .notFound := rfl
    rw [Reaches, hmissing] at hreaches
    cases hreaches
  · refine put_published (createDirectories_detourTree _) hroom (.inr ⟨.empty, ?_⟩) ?_ doc
    · exact (hfind _).trans (if_pos rfl)
    · rw [hfind, if_neg (entryName_ne_temporaryName key key 1 0)]
      simp

theorem find?_put_detourTree
    (key : PrimaryKey) (doc : Document) :
    (detourStore.put (detourTree (temporaryName 1 0 key)) key doc).2.2.find?
      (["layers"] ++ [temporaryName 1 0 key]) = none := by
  rw [(put_detourTree key doc).2, find?_published,
    if_neg (Ne.symm (entryName_ne_temporaryName key key 1 0)), if_pos rfl]

def noSpace : FileError :=
  .device "No space left on device" 28

/-- A device that makes files and writes nothing into them. -/
def fullDevice : DeviceFaults :=
  { DeviceFaults.none with writing := some (0, noSpace) }

theorem writeFileOn_fullDevice
    {path : String} (hsize : 0 < content.size) (hopened : t.writeFile path .empty = .ok written) :
    t.writeFileOn fullDevice path content = (.error noSpace, written) := by
  have htaken : fullDevice.taken content = .empty := ByteArray.extract_same
  have htakes : fullDevice.takes content = .error noSpace := if_pos hsize
  rw [writeFileOn, htaken, htakes, hopened]
  rfl

theorem size_text_pos
    (doc : Document) :
    0 < (Document.text doc).toUTF8.size := by
  have htext : Document.text doc ≠ "" := by
    intro hempty
    have hchars := congrArg String.toList hempty
    rw [Document.text, Value.text, String.toList_ofList] at hchars
    cases doc <;> simp [Value.written] at hchars
  exact Nat.pos_of_ne_zero fun hzero => htext (String.utf8ByteSize_eq_zero_iff.mp hzero)

/-- On a full device the temporary file stays behind. -/
theorem putOn_fullDevice
    (key : PrimaryKey) (doc : Document) :
    loopStore.putOn fullDevice (loopTree (entryName key)) key doc =
      (.error (ioError (loopStore.temporaryPath key) noSpace), { loopStore with temporaries := 1 },
        (loopTree (entryName key)).put (loopStore.temporaryAt key ["cache", "other"])
          (.file .empty)) := by
  have hroom := room_loopTree key
  have hcreate := (hroom.leadsToDirectory (by decide)).createDirectoriesOn fullDevice
  have hopened := (hroom.writeFile (.inl (temporary_loopTree key)) .empty).1
  exact putOn_of_unwritten hcreate (writeFileOn_fullDevice (size_text_pos doc) hopened)

def loopKey : PrimaryKey :=
  .single "id" (.string "a")

/-- Put in the place of the link, the document is out of reach of the store; if nothing stands at the
path of the temporary file only because a directory is missing, a file can be lost; and a full device
leaves a temporary file behind. -/
theorem put_not_all_or_nothing :
    ((loopTree (entryName loopKey)).WellFormed ∧
        (loopTree (entryName loopKey)).isPresent (loopStore.temporaryPath loopKey) = false ∧
        (loopStore.put (loopTree (entryName loopKey)) loopKey (Sample.layer "a" true)).1 = .ok () ∧
        ∀ place, (loopStore.put (loopTree (entryName loopKey)) loopKey
          (Sample.layer "a" true)).2.2.locate false (loopStore.entryPath loopKey) ≠ .ok place) ∧
      ((detourTree (temporaryName 1 0 loopKey)).WellFormed ∧
        (detourTree (temporaryName 1 0 loopKey)).isPresent (detourStore.temporaryPath loopKey) =
          false ∧
        (detourStore.put (detourTree (temporaryName 1 0 loopKey)) loopKey
          (Sample.layer "a" true)).1 = .ok () ∧
        (detourTree (temporaryName 1 0 loopKey)).find? (["layers"] ++ [temporaryName 1 0 loopKey]) =
          some (.file .empty) ∧
        (detourStore.put (detourTree (temporaryName 1 0 loopKey)) loopKey
          (Sample.layer "a" true)).2.2.find? (["layers"] ++ [temporaryName 1 0 loopKey]) = none) ∧
      (∃ e, (loopStore.putOn fullDevice (loopTree (entryName loopKey)) loopKey
          (Sample.layer "a" true)).1 = .error e) ∧
        (loopStore.putOn fullDevice (loopTree (entryName loopKey)) loopKey
          (Sample.layer "a" true)).2.2.isPresent (loopStore.temporaryPath loopKey) = true := by
  refine ⟨⟨wellFormed_loopTree loopKey, (free_loopTree .none loopKey).absent, ?_,
    locate_loopTree loopKey _⟩, ⟨wellFormed_detourTree (plain_temporaryName 1 0 loopKey),
    (put_detourTree loopKey (Sample.layer "a" true)).1, ?_, ?_, find?_put_detourTree loopKey _⟩,
    ?_, ?_⟩
  · rw [put_loopTree]
  · rw [(put_detourTree loopKey _).2]
  · exact (find?_detourTree _ _).trans (if_pos rfl)
  · exact ⟨_, by rw [putOn_fullDevice]⟩
  · have hafter := ((room_loopTree loopKey).writeFile (.inl (temporary_loopTree loopKey)) .empty).2
    have hlocate := hafter.locate_temporary
    rw [find?_put_self _ _ (loopStore.temporaryAt_ne_nil loopKey _)] at hlocate
    rw [putOn_fullDevice]
    exact isPresent_iff.mpr ⟨_, _, hlocate⟩

/-- The link in the place of the entry is replaced. -/
theorem put_all_or_nothing_loop :
    (loopTree (entryName loopKey)).WellFormed ∧
      loopStore.Free .none (loopTree (entryName loopKey)) loopKey ∧
      ∃ made entry, GrownBy (loopStore.directory :: FilePath.parents loopStore.directory)
          (loopTree (entryName loopKey)) made ∧
        Replaced loopStore loopKey (Sample.layer "a" true) made
          (loopStore.put (loopTree (entryName loopKey)) loopKey (Sample.layer "a" true)).2.2
          entry := by
  have hwell := wellFormed_loopTree loopKey
  have hfree := free_loopTree .none loopKey
  obtain ⟨made, hgrown, houtcome⟩ := put_all_or_nothing hwell hfree (Sample.layer "a" true)
  have hok : (loopStore.put (loopTree (entryName loopKey)) loopKey (Sample.layer "a" true)).1 =
      .ok () := by
    rw [put_loopTree]
  obtain ⟨entry, hreplaced⟩ := houtcome.replaced hok
  exact ⟨hwell, hfree, made, entry, hgrown, hreplaced⟩

end DiskCache
end DocumentTables
