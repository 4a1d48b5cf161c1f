import DocumentTables.Proofs.DiskSimulation

/-!
# What the calls on a store touch

A store below a root has a directory with its own name.  Its calls change nothing outside this
directory, and what they answer depends on nothing outside of it but on where the root leads.  So
they do the same in two trees that agree on the directory.

**Results.**

* `FileTree.within_eq_of_without`: a change in one place leaves the other places as they are.
* `Housed.createDirectories`, `Housed.clear_eq`: making the directory of a store and removing it.
* `Housed.put_cases`, `Housed.remove_cases`: what happens to the files in it.
* `Housed.call_without`: a call changes the directory of the store only.
* `Housed.call_congr`: a call does the same in trees with the same directory.
-/

namespace DocumentTables

open DiskCache

/-! ## A location and the rest of the tree -/

namespace FileTree

variable {full t t' : FileTree} {home loc other : Location} {directory name : String}

/-- What stands at a location and below it. -/
def within (t : FileTree) (home : Location) : FileTree :=
  ⟨t.nodes.filter fun entry => home <+: entry.1⟩

/-- The tree without a location and what stands below it. -/
def without (t : FileTree) (home : Location) : FileTree :=
  ⟨t.nodes.filter fun entry => ¬ home <+: entry.1⟩

theorem find?_within
    (t : FileTree) (h : home <+: loc) :
    (t.within home).find? loc = t.find? loc := by
  exact find?_filter fun node => by simpa using h

theorem find?_without
    (t : FileTree) (h : ¬ home <+: loc) :
    (t.without home).find? loc = t.find? loc := by
  exact find?_filter fun node => by simpa using h

theorem mem_within_iff
    {entry : Location × Node} :
    entry ∈ (t.within home).nodes ↔ entry ∈ t.nodes ∧ home <+: entry.1 := by
  simp [within]

theorem mem_without_iff
    {entry : Location × Node} :
    entry ∈ (t.without home).nodes ↔ entry ∈ t.nodes ∧ ¬ home <+: entry.1 := by
  simp [without]

theorem within_erase
    (t : FileTree) (home loc : Location) :
    (t.erase loc).within home = (t.within home).erase loc := by
  rw [within, erase, within, erase]
  simp only [List.filter_filter, Bool.and_comm]

theorem without_erase
    (t : FileTree) (h : home <+: loc) :
    (t.erase loc).without home = t.without home := by
  rw [without, erase, without, List.filter_filter]
  congr 1
  refine List.filter_congr fun entry _ => ?_
  by_cases hloc : entry.1 = loc
  · simp [hloc, h]
  · simp [hloc]

theorem within_put
    (t : FileTree) (h : home <+: loc) (node : Node) :
    (t.put loc node).within home = (t.within home).put loc node := by
  rw [within, put, within, put, List.filter_cons_of_pos (by simpa using h)]
  simp only [List.filter_filter, Bool.and_comm]

theorem without_put
    (t : FileTree) (h : home <+: loc) (node : Node) :
    (t.put loc node).without home = t.without home := by
  have herase := without_erase t h
  rw [without, put, List.filter_cons_of_neg (by simpa using h)]
  exact herase

theorem within_without
    (t : FileTree) (home : Location) :
    (t.without home).within home = ⟨[]⟩ := by
  rw [within, without, List.filter_filter]
  simp

theorem without_without
    (t : FileTree) (home : Location) :
    (t.without home).without home = t.without home := by
  rw [without, without, List.filter_filter]
  simp

/-- Where a tree has nothing, a larger tree may change. -/
theorem Extends.of_without
    {base : FileTree} (h : base.Extends t)
    (hnothing : ∀ loc, home <+: loc → base.find? loc = none)
    (hwithout : t'.without home = t.without home) :
    base.Extends t' := by
  intro loc node hfind
  have hloc : ¬ home <+: loc := by
    intro hloc
    rw [hnothing loc hloc] at hfind
    cases hfind
  rw [← find?_without t' hloc, hwithout, find?_without t hloc, h loc node hfind]

/-- Two locations of which none is below the other have nothing in common. -/
theorem within_eq_of_without
    (h : t'.without home = t.without home) (hdown : ¬ home <+: other) (hup : ¬ other <+: home) :
    t'.within other = t.within other := by
  have hinside : ∀ s : FileTree, s.within other = (s.without home).within other := by
    intro s
    rw [within, within, without, List.filter_filter]
    congr 1
    refine List.filter_congr fun entry _ => ?_
    by_cases hother : other <+: entry.1
    · have hhome : ¬ home <+: entry.1 := fun hhome =>
        (List.prefix_or_prefix_of_prefix hhome hother).elim hdown hup
      simp [hother, hhome]
    · simp [hother]
  rw [hinside t', h, ← hinside t]

theorem find?_congr_within
    (h : t'.within home = t.within home) (hloc : home <+: loc) :
    t'.find? loc = t.find? loc := by
  rw [← find?_within t' hloc, h, find?_within t hloc]

theorem namesIn_within
    (t : FileTree) (home : Location) :
    (t.within home).namesIn home = t.namesIn home := by
  rw [namesIn, namesIn, within]
  induction t.nodes with
  | nil =>
      rfl
  | cons entry entries ih =>
      by_cases hentry : home <+: entry.1
      · rw [List.filter_cons_of_pos (by simpa using hentry), List.filterMap_cons,
          List.filterMap_cons, ih]
      · have hchild : ¬ (entry.1.dropLast = home ∧ entry.1 ≠ []) := by
          rintro ⟨rfl, -⟩
          exact hentry (List.dropLast_prefix _)
        rw [List.filter_cons_of_neg (by simpa using hentry), List.filterMap_cons, if_neg hchild,
          ih]

/-- Whether there is a store depends on what stands there only. -/
theorem Store.of_within
    (h : Store full home t) (hwithin : t'.within home = t.within home) :
    Store t' home t' := by
  have hmem : ∀ entry ∈ t'.nodes, home <+: entry.1 → entry ∈ t.nodes := by
    intro entry hentry hstarts
    have hinside := mem_within_iff.mpr ⟨hentry, hstarts⟩
    rw [hwithin] at hinside
    exact (mem_within_iff.mp hinside).1
  rcases h with h | h
  · refine .inl ⟨fun _ _ => rfl, ?_, fun entry hentry hbelow => ?_⟩
    · rw [find?_congr_within hwithin List.prefix_rfl, h.found]
    · exact h.flat entry (hmem entry hentry (isBelow_iff.mp hbelow).1) hbelow
  · exact .inr ⟨fun _ _ => rfl, h.ne_top, fun entry hentry hstarts =>
      h.nothing entry (hmem entry hentry hstarts) hstarts⟩

theorem Missing.without_eq
    (h : Missing full home t) :
    t.without home = t := by
  rw [without, List.filter_eq_self.mpr]
  intro entry hentry
  simpa using h.nothing entry hentry

theorem eraseBelow_erase
    (t : FileTree) (home : Location) :
    (t.eraseBelow home).erase home = t.without home := by
  rw [erase, eraseBelow, without, List.filter_filter]
  congr 1
  refine List.filter_congr fun entry _ => ?_
  rw [Bool.eq_iff_iff]
  simp only [Bool.and_eq_true, Bool.not_eq_true', ← Bool.not_eq_true, decide_eq_true_eq,
    isBelow_iff]
  constructor
  · rintro ⟨hne, hbelow⟩ hstarts
    exact hbelow ⟨hstarts, hne⟩
  · intro hstarts
    refine ⟨?_, fun hbelow => hstarts hbelow.1⟩
    rintro rfl
    exact hstarts List.prefix_rfl

/-- The tree with a directory at a location where nothing stands yet. -/
def withDirectory (t : FileTree) (home : Location) : FileTree :=
  match t.find? home with
  | some _ => t
  | none => t.put home .directory

theorem without_withDirectory
    (t : FileTree) (home : Location) :
    (t.withDirectory home).without home = t.without home := by
  rw [withDirectory]
  split
  · rfl
  · exact without_put t List.prefix_rfl _

theorem within_withDirectory_congr
    (h : t'.within home = t.within home) :
    (t'.withDirectory home).within home = (t.withDirectory home).within home := by
  rw [withDirectory, withDirectory, find?_congr_within h List.prefix_rfl]
  split
  · exact h
  · rw [within_put _ List.prefix_rfl, within_put _ List.prefix_rfl, h]

/-- The tree with an empty directory in the place of what stands at a location. -/
def emptied (t : FileTree) (home : Location) : FileTree :=
  (t.without home).put home .directory

theorem Store.emptied
    (h : Store t home t) :
    Store (t.emptied home) home t := by
  have hagree : AgreeOff home (t.emptied home) t := by
    intro loc hloc
    have hne : loc ≠ home := by
      rintro rfl
      exact hloc List.prefix_rfl
    rw [FileTree.emptied, find?_put_of_ne _ _ hne, find?_without t hloc]
  rcases h with h | h
  · exact .inl ⟨hagree, h.found, h.flat⟩
  · exact .inr ⟨hagree, h.ne_top, h.nothing⟩

theorem Store.self
    (h : Store full home t) :
    Store t home t := by
  rcases h with h | h
  · exact .inl ⟨fun _ _ => rfl, h.found, h.flat⟩
  · exact .inr ⟨fun _ _ => rfl, h.ne_top, h.nothing⟩

end FileTree

open FileTree

variable {t t' : FileTree} {root table name : String} {loc home : Location} {c : DiskCache}
  {key : PrimaryKey}

/-! ## Calls on paths that lead to the same -/

namespace FileTree

variable {path : String}

theorem readText_congr
    (h : t'.locate true path = t.locate true path) :
    t'.readText path = t.readText path := by
  rw [readText, readText, readBytes, readBytes, h]

/-- The same file is removed, or neither is. -/
theorem removeFile_congr
    (h : t'.locate false path = t.locate false path) :
    (∃ e, t.removeFile path = .error e ∧ t'.removeFile path = .error e) ∨
      ∃ loc, t.removeFile path = .ok (t.erase loc) ∧
        t'.removeFile path = .ok (t'.erase loc) := by
  rw [removeFile, removeFile, h]
  rcases t.locate false path with e | ⟨loc, _ | node⟩
  · exact .inl ⟨e, rfl, rfl⟩
  · exact .inl ⟨.notFound, rfl, rfl⟩
  · cases node with
    | directory =>
        exact .inl ⟨.isDirectory, rfl, rfl⟩
    | file content =>
        exact .inr ⟨loc, rfl, rfl⟩
    | link target =>
        exact .inr ⟨loc, rfl, rfl⟩

end FileTree

namespace DiskCache

theorem get_congr
    (h : ∀ follow, t'.locate follow (c.entryPath key) = t.locate follow (c.entryPath key)) :
    c.get t' key = c.get t key := by
  have htext := readText_congr (h true)
  generalize hpath : c.entryPath key = path at htext
  unfold DiskCache.get
  simp only [hpath, htext]

theorem remove_congr
    (h : ∀ follow, t'.locate follow (c.entryPath key) = t.locate follow (c.entryPath key)) :
    (c.remove t' key).1 = (c.remove t key).1 ∧ (c.remove t' key).2.1 = (c.remove t key).2.1 ∧
      ∀ home, t'.within home = t.within home →
        (c.remove t' key).2.2.within home = (c.remove t key).2.2.within home := by
  have hremoved := removeFile_congr (h false)
  generalize hpath : c.entryPath key = path at hremoved
  unfold DiskCache.remove
  rcases hremoved with ⟨e, he, he'⟩ | ⟨loc, hloc, hloc'⟩
  · simp only [hpath, he, he']
    cases e <;> exact ⟨rfl, rfl, fun _ hwithin => hwithin⟩
  · simp only [hpath, hloc, hloc']
    exact ⟨trivial, trivial, fun home hwithin => by rw [within_erase, within_erase, hwithin]⟩

/-- What putting a document does depends on what making the directory does. -/
theorem put_eq_of_createDirectories
    (h : t'.createDirectories c.directory = t.createDirectories c.directory) (key : PrimaryKey)
    (doc : Document) :
    c.put t' key doc = c.put t key doc := by
  rw [FileTree.createDirectories, FileTree.createDirectories] at h
  rw [DiskCache.put, DiskCache.put, putOn, putOn, h]

theorem within_published
    (made : FileTree) (home : Location) (temporary entry : String) (content : ByteArray) :
    (published made home temporary entry content).within home =
      published (made.within home) home temporary entry content := by
  rw [published, published, within_put _ (List.prefix_append _ _), within_erase,
    within_put _ (List.prefix_append _ _)]

theorem without_published
    (made : FileTree) (home : Location) (temporary entry : String) (content : ByteArray) :
    (published made home temporary entry content).without home = made.without home := by
  rw [published, without_put _ (List.prefix_append _ _), without_erase _ (List.prefix_append _ _),
    without_put _ (List.prefix_append _ _)]

end DiskCache

namespace DiskSide

variable {s : DiskSide}

theorem call_get :
    s.call root table (.get key) =
      ((s.store.get s.files key).1, ⟨(s.store.get s.files key).2, s.files⟩) := by
  rw [call]

theorem call_put
    {doc : Document} :
    s.call root table (.put key doc) =
      ((s.store.put s.files key doc).1.map fun _ => none,
        ⟨(s.store.put s.files key doc).2.1, (s.store.put s.files key doc).2.2⟩) := by
  rw [call]

theorem call_remove :
    s.call root table (.remove key) =
      ((s.store.remove s.files key).1.map fun _ => none,
        ⟨(s.store.remove s.files key).2.1, (s.store.remove s.files key).2.2⟩) := by
  rw [call]

theorem call_clear :
    s.call root table .clear =
      ((s.store.clear s.files).1.map fun _ => none,
        ⟨s.store, (s.store.clear s.files).2⟩) := by
  rw [call]

/-- A call leaves the store its directory. -/
theorem directory_call
    (hdirectory : s.store.directory = FilePath.join root (Text.fileSafe table))
    (call : StoreCall) :
    (s.call root table call).2.store.directory = FilePath.join root (Text.fileSafe table) := by
  cases call with
  | get key =>
      simp only [call_get, directory_get, hdirectory]
  | put key doc =>
      simp only [call_put, directory_put, hdirectory]
  | remove key =>
      simp only [call_remove, directory_remove, hdirectory]
  | clear =>
      simp only [call_clear, hdirectory]
  | reopen process =>
      exact directory_ofTable root table process

end DiskSide

/-! ## A store below a root -/

/-- The name of a store whose paths are not too long. -/
structure Roomy (root name : String) : Prop where
  plain : FilePath.Plain name
  bytes : name.utf8ByteSize ≤ maxNameBytes
  short : (FilePath.join root name).utf8ByteSize ≤ maxPathBytes

/-- A store below a root: the way to the root does not lead through the directory of the store,
which holds nothing but files or is missing. -/
structure Housed (t : FileTree) (root : String) (loc : Location) (name : String) : Prop where
  vacant : Vacant (t.without (loc ++ [name])) root loc name
  store : Store t (loc ++ [name]) t

namespace Housed

/-- Where a name is free below a root the store of this name may be. -/
theorem of_vacant
    (h : Vacant t root loc name) :
    Housed t root loc name := by
  refine ⟨?_, .inr ⟨fun _ _ => rfl, h.missing.ne_top, h.nothing⟩⟩
  rw [h.missing.without_eq]
  exact h

/-- A change in its directory leaves the store where it is. -/
theorem of_without
    (h : Housed t root loc name) (hstore : Store t' (loc ++ [name]) t')
    (hwithout : t'.without (loc ++ [name]) = t.without (loc ++ [name])) :
    Housed t' root loc name := by
  exact ⟨hwithout ▸ h.vacant, hstore⟩

section

variable (h : Housed t root loc name) (hroom : Roomy root name)
include h hroom

theorem site :
    Site (t.emptied (loc ++ [name])) (FilePath.join root name) (loc ++ [name]) := by
  exact Site.of_name h.vacant hroom.plain hroom.bytes hroom.short

theorem renewable :
    Renewable (t.emptied (loc ++ [name])) (FilePath.join root name) := by
  exact Renewable.of_name h.vacant hroom.plain hroom.bytes hroom.short

/-- The directory is there after it was made. -/
theorem createDirectories :
    t.createDirectories (FilePath.join root name) = (.ok (), t.withDirectory (loc ++ [name])) ∧
      Present (t.emptied (loc ++ [name])) (loc ++ [name]) (t.withDirectory (loc ++ [name])) := by
  rcases h.store.emptied with hpresent | hmissing
  · have hempty : (FilePath.join root name).isEmpty = false := by
      simpa using hroom.plain.join_ne_empty root
    have hthere := (h.site hroom).leadsToDirectory.of_extends (hpresent.extends (h.site hroom))
    rw [withDirectory, hpresent.found]
    refine ⟨?_, hpresent⟩
    rw [createDirectories_eq, hempty, createDirectoriesFrom, hthere.createDirectoryBelow]
    rfl
  · have hvacant := h.vacant
    rw [hmissing.without_eq] at hvacant
    rw [withDirectory, hmissing.find?_eq_none List.prefix_rfl]
    exact ⟨hvacant.createDirectories hroom.plain hroom.bytes hroom.short, hmissing.put_home⟩

theorem withDirectory :
    Housed (t.withDirectory (loc ++ [name])) root loc name := by
  exact h.of_without (Store.self (.inl (h.createDirectories hroom).2))
    (without_withDirectory t _)

/-- A store is cleared by removing all that it has. -/
theorem clear_eq
    (hdirectory : c.directory = FilePath.join root name) :
    c.clear t = (.ok (), t.without (loc ++ [name])) := by
  have hsite := h.site hroom
  have hrenewable := h.renewable hroom
  rw [← hdirectory] at hsite hrenewable
  rw [DiskCache.clear]
  rcases h.store.emptied with hpresent | hmissing
  · rw [hpresent.isPresent hsite, hpresent.removeLinks hsite]
    simp only [if_true, hrenewable.removeDirectory hsite hpresent, eraseBelow_erase]
  · rw [hmissing.isPresent hsite, hmissing.without_eq]
    rfl

/-- What removing a document does to the files. -/
theorem remove_cases
    (hdirectory : c.directory = FilePath.join root name) (key : PrimaryKey) :
    (c.remove t key).2.2 = t ∨
      Present t (loc ++ [name]) t ∧
        (c.remove t key).2.2 = t.erase (loc ++ [name] ++ [entryName key]) := by
  have hsite := h.site hroom
  rw [← hdirectory] at hsite
  by_cases hfits : Fits c.directory (entryName key)
  · cases hfind : t.find? (loc ++ [name] ++ [entryName key]) with
    | none =>
        exact .inl (by rw [remove_absent hsite h.store.emptied hfits hfind])
    | some node =>
        rcases h.store with hstore | hstore
        · obtain ⟨other, content, -, rfl⟩ :=
            hstore.file_of_find? (List.prefix_append _ _) (child_ne _ _) hfind
          exact .inr ⟨hstore, by rw [remove_present hsite h.store.emptied hfits hfind]⟩
        · rw [hstore.find?_eq_none (List.prefix_append _ _)] at hfind
          cases hfind
  · exact .inl (by rw [remove_of_not_fits hsite h.store.emptied hfits])

/-- What putting a document does. -/
theorem put_cases
    (hdirectory : c.directory = FilePath.join root name) (key : PrimaryKey) (doc : Document) :
    (Fits c.directory (temporaryName c.process c.temporaries key) ∧
        c.put t key doc =
          (.ok (), { c with temporaries := (c.temporaries + 1) % Nat.pow 2 64 },
            published (t.withDirectory (loc ++ [name])) (loc ++ [name])
              (temporaryName c.process c.temporaries key) (entryName key)
              (Document.text doc).toUTF8)) ∨
      ¬ Fits c.directory (temporaryName c.process c.temporaries key) ∧
        ∃ e, (t.withDirectory (loc ++ [name])).locate true (c.temporaryPath key) = .error e ∧
          c.put t key doc =
            (.error (ioError (c.temporaryPath key) e),
              { c with temporaries := (c.temporaries + 1) % Nat.pow 2 64 },
              t.withDirectory (loc ++ [name])) := by
  have hsite := h.site hroom
  obtain ⟨hcreate, hmade⟩ := h.createDirectories hroom
  rw [← hdirectory] at hsite hcreate
  by_cases hfits : Fits c.directory (temporaryName c.process c.temporaries key)
  · exact .inl ⟨hfits, put_of_made hsite hmade hcreate doc hfits⟩
  · obtain ⟨e, he⟩ := Store.locate_join_of_not_fits (.inl hmade) hsite
      (plain_temporaryName c.process c.temporaries key) true hfits
    rw [← temporaryPath_eq] at he
    exact .inr ⟨hfits, e, he, put_of_unwritable hcreate he doc⟩

end

/-! ## What one call changes -/

section

variable (h : Housed t root loc name) (hroom : Roomy root name)
include h hroom

theorem remove_without
    (hdirectory : c.directory = FilePath.join root name) (key : PrimaryKey) :
    Housed (c.remove t key).2.2 root loc name ∧
      (c.remove t key).2.2.without (loc ++ [name]) = t.without (loc ++ [name]) := by
  rcases h.remove_cases hroom hdirectory key with hkept | ⟨hpresent, herased⟩
  · rw [hkept]
    exact ⟨h, rfl⟩
  · rw [herased]
    have hwithout := without_erase t (List.prefix_append (loc ++ [name]) [entryName key])
    exact ⟨h.of_without (Store.self (.inl (hpresent.erase (entryName key)))) hwithout, hwithout⟩

theorem put_without
    (hdirectory : c.directory = FilePath.join root name) (key : PrimaryKey) (doc : Document) :
    Housed (c.put t key doc).2.2 root loc name ∧
      (c.put t key doc).2.2.without (loc ++ [name]) = t.without (loc ++ [name]) := by
  obtain ⟨-, hmade⟩ := h.createDirectories hroom
  rcases h.put_cases hroom hdirectory key doc with ⟨-, hput⟩ | ⟨-, e, -, hput⟩
  · rw [hput]
    have hwithout := without_published (t.withDirectory (loc ++ [name])) (loc ++ [name])
      (temporaryName c.process c.temporaries key) (entryName key) (Document.text doc).toUTF8
    rw [without_withDirectory] at hwithout
    exact ⟨h.of_without (Store.self (.inl (present_published hmade _ _ _))) hwithout, hwithout⟩
  · rw [hput]
    have hwithout := without_withDirectory t (loc ++ [name])
    exact ⟨h.of_without (Store.self (.inl hmade)) hwithout, hwithout⟩

theorem clear_without
    (hdirectory : c.directory = FilePath.join root name) :
    Housed (c.clear t).2 root loc name ∧
      (c.clear t).2.without (loc ++ [name]) = t.without (loc ++ [name]) := by
  rw [h.clear_eq hroom hdirectory]
  have hmissing : Missing (t.without (loc ++ [name])) (loc ++ [name])
      (t.without (loc ++ [name])) :=
    ⟨fun _ _ => rfl, by simp, fun entry hentry => (mem_without_iff.mp hentry).2⟩
  exact ⟨h.of_without (.inr hmissing) (without_without t _), without_without t _⟩

/-- A call changes nothing outside the directory of the store, which stays where it is. -/
theorem call_without
    (hdirectory : c.directory = FilePath.join root name) (table : String) (call : StoreCall) :
    Housed (DiskSide.call root table ⟨c, t⟩ call).2.files root loc name ∧
      (DiskSide.call root table ⟨c, t⟩ call).2.files.without (loc ++ [name]) =
        t.without (loc ++ [name]) := by
  cases call with
  | get key =>
      simp only [DiskSide.call_get]
      exact ⟨h, trivial⟩
  | put key doc =>
      simp only [DiskSide.call_put]
      exact h.put_without hroom hdirectory key doc
  | remove key =>
      simp only [DiskSide.call_remove]
      exact h.remove_without hroom hdirectory key
  | clear =>
      simp only [DiskSide.call_clear]
      exact h.clear_without hroom hdirectory
  | reopen process =>
      exact ⟨h, rfl⟩

end

/-! ## Calls in trees with the same directory -/

section

variable (h : Housed t root loc name) (h' : Housed t' root loc name) (hroom : Roomy root name)
  (hwithin : t'.within (loc ++ [name]) = t.within (loc ++ [name]))
include h h' hroom hwithin

theorem locate_join_congr
    {file : String} (hfile : FilePath.Plain file) (follow : Bool) :
    t'.locate follow (FilePath.join (FilePath.join root name) file) =
      t.locate follow (FilePath.join (FilePath.join root name) file) := by
  have hhome := find?_congr_within hwithin List.prefix_rfl
  rcases h.store.emptied with hpresent | hmissing
  · rcases h'.store.emptied with hpresent' | hmissing'
    · rw [(h.site hroom).locate_join hfile, (h'.site hroom).locate_join hfile,
        hpresent.resolveFrom_child (h.site hroom) hfile,
        hpresent'.resolveFrom_child (h'.site hroom) hfile,
        find?_congr_within hwithin (List.prefix_append _ _)]
    · rw [hpresent.found, hmissing'.find?_eq_none List.prefix_rfl] at hhome
      cases hhome
  · rcases h'.store.emptied with hpresent' | hmissing'
    · rw [hpresent'.found, hmissing.find?_eq_none List.prefix_rfl] at hhome
      cases hhome
    · rw [hmissing.locate_join (h.site hroom) hfile, hmissing'.locate_join (h'.site hroom) hfile]

theorem size_congr
    (hdirectory : c.directory = FilePath.join root name) :
    c.size t' = c.size t := by
  have hsite := h.site hroom
  have hsite' := h'.site hroom
  rw [← hdirectory] at hsite hsite'
  rw [size_eq hsite h.store.emptied, size_eq hsite' h'.store.emptied, ← namesIn_within t',
    hwithin, namesIn_within t]

theorem put_congr
    (hdirectory : c.directory = FilePath.join root name) (key : PrimaryKey) (doc : Document) :
    (c.put t' key doc).1 = (c.put t key doc).1 ∧
      (c.put t' key doc).2.1 = (c.put t key doc).2.1 ∧
      (c.put t' key doc).2.2.within (loc ++ [name]) =
        (c.put t key doc).2.2.within (loc ++ [name]) := by
  have hmade := within_withDirectory_congr hwithin
  rcases h.put_cases hroom hdirectory key doc with ⟨hfits, hput⟩ | ⟨hfits, e, he, hput⟩
  · rcases h'.put_cases hroom hdirectory key doc with ⟨-, hput'⟩ | ⟨hfits', -⟩
    · rw [hput, hput']
      refine ⟨rfl, rfl, ?_⟩
      simp only [within_published, hmade]
    · exact absurd hfits hfits'
  · rcases h'.put_cases hroom hdirectory key doc with ⟨hfits', -⟩ | ⟨-, e', he', hput'⟩
    · exact absurd hfits' hfits
    · rw [temporaryPath_eq, hdirectory] at he he'
      have hlocate := (h.withDirectory hroom).locate_join_congr (h'.withDirectory hroom) hroom
        hmade (plain_temporaryName c.process c.temporaries key) true
      rw [he, he'] at hlocate
      cases hlocate
      rw [hput, hput']
      exact ⟨rfl, rfl, hmade⟩

/-- A call gives the same answer, and does the same to the store and its directory. -/
theorem call_congr
    (hdirectory : c.directory = FilePath.join root name) (table : String) (call : StoreCall) :
    (DiskSide.call root table ⟨c, t'⟩ call).1 = (DiskSide.call root table ⟨c, t⟩ call).1 ∧
      (DiskSide.call root table ⟨c, t'⟩ call).2.store =
        (DiskSide.call root table ⟨c, t⟩ call).2.store ∧
      (DiskSide.call root table ⟨c, t'⟩ call).2.files.within (loc ++ [name]) =
        (DiskSide.call root table ⟨c, t⟩ call).2.files.within (loc ++ [name]) := by
  have hentry : ∀ key follow,
      t'.locate follow (c.entryPath key) = t.locate follow (c.entryPath key) := by
    intro key follow
    rw [entryPath_eq, hdirectory]
    exact h.locate_join_congr h' hroom hwithin (plain_entryName key) follow
  cases call with
  | get key =>
      simp only [DiskSide.call_get, get_congr (hentry key)]
      exact ⟨trivial, trivial, hwithin⟩
  | put key doc =>
      obtain ⟨hanswer, hstore, hfiles⟩ := h.put_congr h' hroom hwithin hdirectory key doc
      simp only [DiskSide.call_put, hanswer, hstore]
      exact ⟨trivial, trivial, hfiles⟩
  | remove key =>
      obtain ⟨hanswer, hstore, hfiles⟩ := remove_congr (hentry key)
      simp only [DiskSide.call_remove, hanswer, hstore]
      exact ⟨trivial, trivial, hfiles _ hwithin⟩
  | clear =>
      simp only [DiskSide.call_clear, h.clear_eq hroom hdirectory, h'.clear_eq hroom hdirectory,
        within_without]
      exact ⟨trivial, trivial, trivial⟩
  | reopen process =>
      exact ⟨rfl, rfl, hwithin⟩

end

end Housed

end DocumentTables
