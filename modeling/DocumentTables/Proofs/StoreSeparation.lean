import DocumentTables.Proofs.StoreFrame

/-!
# Stores of different tables

The stores of several tables have their directories below one root.  The name of a directory is that
of the table with every run of other characters replaced by one underscore, so different tables may
have one directory, and the store of the empty name has the root itself.  Where the directories are
different and none of them is the root, a run of calls shows at each store what it would show if
only that store had been called.

The root need not be there, since the first document that is put makes it.  The calls on a store do
the same before and after that.

**Results.**

* `Blocked.call`: below a root out of reach no call changes anything.
* `Unmade.call`: a root that is not there yet is as good as one that was just made.
* `Sees.own`, `Sees.other`: what a call on one store keeps, and what a call on another store keeps.
* `RootStores.observe_only`: stores with directories of their own do not notice each other.
* `RootStores.observe_only_ne`: stores with one directory do.
-/

namespace DocumentTables

open FileTree DiskCache

variable {ι : Type} {files base t t' s s' : FileTree} {root table : String} {tables : ι → String}
  {loc : Location} {c : DiskCache} {i j : ι}

/-! ## Stores below one root -/

/-- The stores of several tables below one root, with the files. -/
structure RootStores (ι : Type) where
  store : ι → DiskCache
  files : FileTree

/-- What belongs to one of several stores. -/
def only {α : Type} [DecidableEq ι] (i : ι) (entries : List (ι × α)) : List α :=
  entries.filterMap fun entry => if entry.1 = i then some entry.2 else none

namespace RootStores

variable [DecidableEq ι]

/-- The stores of tables, each opened by a process. -/
def opened (root : String) (tables : ι → String) (process : ι → Nat) (files : FileTree) :
    RootStores ι :=
  ⟨fun i => DiskCache.ofTable root (tables i) (process i), files⟩

/-- A call on one of the stores. -/
def call (root : String) (tables : ι → String) (s : RootStores ι) (i : ι) (call : StoreCall) :
    Except CacheError (Option Document) × RootStores ι :=
  let (answer, side) := DiskSide.call root (tables i) ⟨s.store i, s.files⟩ call
  (answer, ⟨Function.update s.store i side.store, side.files⟩)

/-- What a run of calls shows, each of them at the store that was called. -/
def observe (root : String) (tables : ι → String) :
    RootStores ι → List (ι × StoreCall) → List (ι × Observation)
  | _, [] => []
  | s, (i, call) :: calls =>
      let (answer, s) := s.call root tables i call
      (i, ⟨answer, (s.store i).size s.files, (s.store i).counters⟩) :: observe root tables s calls

end RootStores

/-- Tables whose stores have different directories, none of which is the root. -/
structure Apart (tables : ι → String) : Prop where
  ne_empty : ∀ i, Text.fileSafe (tables i) ≠ ""
  injective : ∀ i j, Text.fileSafe (tables i) = Text.fileSafe (tables j) → i = j

theorem not_prefix_of_ne
    (hapart : Apart tables) (hne : i ≠ j) (loc : Location) :
    ¬ loc ++ [Text.fileSafe (tables i)] <+: loc ++ [Text.fileSafe (tables j)] := by
  intro hstarts
  have hnames := (List.prefix_append_right_inj loc).mp hstarts
  simp only [List.cons_prefix_cons, List.prefix_refl, and_true] at hnames
  exact hne (hapart.injective i j hnames)

/-! ## Roots out of reach -/

/-- Nothing below a root can be reached: its path has a NUL, or its names lead to a file, or they
fail, but not since something is missing. -/
inductive Blocked (files : FileTree) (root : String) : Prop
  | nul (h : '\x00' ∈ root.toList)
  | file (loc : Location) (content : ByteArray)
      (h : files.resolveFrom true maxLinks [] (FilePath.names root) =
        .ok ⟨loc, some (.file content)⟩)
  | error (e : FileError) (hpresent : e ≠ .notFound)
      (h : files.resolveFrom true maxLinks [] (FilePath.names root) = .error e)

namespace Blocked

theorem resolve
    (h : Blocked files root) {path : String} {more : List String} (hmore : more ≠ [])
    (hempty : path ≠ "") (hnul : '\x00' ∈ path.toList ↔ '\x00' ∈ root.toList) (follow : Bool) :
    ∃ e, e ≠ .notFound ∧
      files.resolve follow path (FilePath.names root ++ more) = .error e := by
  by_cases hpath : '\x00' ∈ path.toList
  · refine ⟨.nulInName, by simp, ?_⟩
    rw [FileTree.resolve, if_neg (by simpa using hempty), if_pos (by simpa using hpath)]
  · by_cases hlong : maxPathBytes < path.utf8ByteSize
    · exact ⟨.nameTooLong, by simp, resolve_of_long files follow _ hempty hpath hlong⟩
    · rw [resolve_eq files follow _ hempty hpath (Nat.not_lt.mp hlong)]
      have hgoes := resolveFrom_append files follow hmore maxLinks [] (FilePath.names root)
      cases h with
      | nul hroot =>
          exact absurd (hnul.mpr hroot) hpath
      | file loc content hleads =>
          rw [hleads] at hgoes
          exact ⟨.notDirectory, by simp, hgoes⟩
      | error e hpresent hleads =>
          rw [hleads] at hgoes
          exact ⟨e, hpresent, hgoes⟩

section

variable {name : String} (h : Blocked files root) (hname : FilePath.Plain name)
include h hname

theorem locate
    (follow : Bool) :
    ∃ e, e ≠ .notFound ∧ files.locate follow (FilePath.join root name) = .error e := by
  rw [FileTree.locate, hname.lookupNames_join]
  exact h.resolve (List.cons_ne_nil _ _) (hname.join_ne_empty root)
    (FilePath.nul_mem_join hname.head?_ne hname.nulFree) follow

theorem locateDirectory :
    ∃ e, e ≠ .notFound ∧ files.locateDirectory (FilePath.join root name) = .error e := by
  rw [FileTree.locateDirectory, hname.directoryNames_join]
  exact h.resolve (List.cons_ne_nil _ _) (hname.join_ne_empty root)
    (FilePath.nul_mem_join hname.head?_ne hname.nulFree) false

theorem locate_join
    {file : String} (hfile : FilePath.Plain file) (follow : Bool) :
    ∃ e, e ≠ .notFound ∧
      files.locate follow (FilePath.join (FilePath.join root name) file) = .error e := by
  rw [FileTree.locate, hfile.lookupNames_join, hname.names_join, List.append_assoc]
  refine h.resolve (by simp) (hfile.join_ne_empty _) ?_ follow
  rw [FilePath.nul_mem_join hfile.head?_ne hfile.nulFree,
    FilePath.nul_mem_join hname.head?_ne hname.nulFree]

theorem createDirectories :
    ∃ e, files.createDirectories (FilePath.join root name) = (.error e, files) := by
  have hempty : (FilePath.join root name).isEmpty = false := by
    simpa using hname.join_ne_empty root
  obtain ⟨e, hpresent, he⟩ := h.locateDirectory hname
  obtain ⟨e', -, he'⟩ := h.locate hname true
  have hmake : files.createDirectory (FilePath.join root name) = .error e := by
    rw [createDirectory, he]
  have hthere : files.isDirectory (FilePath.join root name) = false := by
    rw [isDirectory, he']
  refine ⟨e, ?_⟩
  rw [createDirectories_eq, hempty, createDirectoriesFrom, createDirectoryBelow_none, hmake]
  cases e with
  | notFound =>
      exact absurd rfl hpresent
  | _ =>
      simp [hthere]

/-- Below a root out of reach no call changes anything. -/
theorem call
    (hdirectory : c.directory = FilePath.join root name) (call : StoreCall) :
    (DiskSide.call root table ⟨c, files⟩ call).2.files = files := by
  cases call with
  | get key =>
      simp only [DiskSide.call_get]
  | put key doc =>
      obtain ⟨e, he⟩ := h.createDirectories hname
      rw [← hdirectory] at he
      simp only [DiskSide.call_put, put_of_uncreated he]
  | remove key =>
      obtain ⟨e, -, he⟩ := h.locate_join hname (plain_entryName key) false
      rw [← hdirectory, ← entryPath_eq] at he
      simp only [DiskSide.call_remove, remove_of_unlocated he]
  | clear =>
      obtain ⟨e, -, he⟩ := h.locate hname false
      rw [← hdirectory] at he
      simp only [DiskSide.call_clear, clear_of_unlocated he]
  | reopen process =>
      rfl

end

end Blocked

/-! ## Stores out of reach -/

/-- A store that is out of reach in two trees does the same in both, and changes neither. -/
theorem FileTree.Unreachable.call_congr
    (h : Unreachable t c.directory) (h' : Unreachable t' c.directory) (root table : String)
    (call : StoreCall) :
    (DiskSide.call root table ⟨c, t'⟩ call).1 = (DiskSide.call root table ⟨c, t⟩ call).1 ∧
      (DiskSide.call root table ⟨c, t'⟩ call).2.store =
        (DiskSide.call root table ⟨c, t⟩ call).2.store ∧
      (DiskSide.call root table ⟨c, t⟩ call).2.files = t ∧
      (DiskSide.call root table ⟨c, t'⟩ call).2.files = t' := by
  have hentry : ∀ key follow,
      t'.locate follow (c.entryPath key) = t.locate follow (c.entryPath key) := by
    intro key follow
    rw [entryPath_eq, h.locate_join _ (plain_entryName key),
      h'.locate_join _ (plain_entryName key)]
  cases call with
  | get key =>
      simp only [DiskSide.call_get, get_congr (hentry key)]
      exact ⟨trivial, trivial, trivial, trivial⟩
  | put key doc =>
      simp only [DiskSide.call_put, put_of_uncreated h.createDirectories,
        put_of_uncreated h'.createDirectories]
      exact ⟨trivial, trivial, trivial, trivial⟩
  | remove key =>
      have hanswer := (remove_congr (hentry key)).1
      simp only [DiskSide.call_remove, hanswer, remove_unreachable h key,
        remove_unreachable h' key]
      exact ⟨trivial, trivial, trivial, trivial⟩
  | clear =>
      simp only [DiskSide.call_clear, clear_unreachable h, clear_unreachable h']
      exact ⟨trivial, trivial, trivial, trivial⟩
  | reopen process =>
      exact ⟨rfl, rfl, rfl, rfl⟩

/-! ## Roots that are not there yet -/

/-- The root of the stores is missing, and it can be made, which gives the base.  Below it the names
of the stores are not too long. -/
structure Unmade (files base : FileTree) (root : String) (tables : ι → String) : Prop where
  missing : files.resolveFrom true maxLinks [] (FilePath.names root) = .error .notFound ∨
    ∃ loc, files.resolveFrom true maxLinks [] (FilePath.names root) = .ok ⟨loc, none⟩
  bytes : ∀ i, (Text.fileSafe (tables i)).utf8ByteSize ≤ maxNameBytes
  made : ∀ i, files.createParents (FilePath.join root (Text.fileSafe (tables i))) = (.ok (), base)

/-- A tree, and the tree as it is once the root was made. -/
inductive Rooted (files base : FileTree) (root : String) (tables : ι → String) :
    FileTree → FileTree → Prop
  | made (t : FileTree) : Rooted files base root tables t t
  | unmade (h : Unmade files base root tables) : Rooted files base root tables files base

namespace Unmade

variable (h : Unmade files base root tables)
include h

theorem resolve
    {path : String} {more : List String} (hmore : more ≠ []) (hempty : path ≠ "")
    (hnul : '\x00' ∉ path.toList) (follow : Bool) :
    files.resolve follow path (FilePath.names root ++ more) =
      .error (if maxPathBytes < path.utf8ByteSize then .nameTooLong else .notFound) := by
  split
  · next hlong =>
      exact resolve_of_long files follow _ hempty hnul hlong
  · next hshort =>
      rw [resolve_eq files follow _ hempty hnul (Nat.not_lt.mp hshort)]
      have hgoes := resolveFrom_append files follow hmore maxLinks [] (FilePath.names root)
      rcases h.missing with hleads | ⟨loc, hleads⟩
      · rw [hleads] at hgoes
        exact hgoes
      · rw [hleads] at hgoes
        exact hgoes

section

variable (hvacant : Vacant base root loc (Text.fileSafe (tables i)))
  (hroom : Roomy root (Text.fileSafe (tables i)))
include hvacant hroom

theorem locate
    (follow : Bool) :
    files.locate follow (FilePath.join root (Text.fileSafe (tables i))) = .error .notFound := by
  have hname := hroom.plain
  rw [FileTree.locate, hname.lookupNames_join, h.resolve (List.cons_ne_nil _ _)
    (hname.join_ne_empty root) _ follow, if_neg (Nat.not_lt.mpr hroom.short)]
  rw [FilePath.nul_mem_join hname.head?_ne hname.nulFree]
  exact hvacant.nulFree

theorem locate_join
    {file : String} (hfile : FilePath.Plain file) (follow : Bool) :
    base.locate follow
        (FilePath.join (FilePath.join root (Text.fileSafe (tables i))) file) =
      files.locate follow
        (FilePath.join (FilePath.join root (Text.fileSafe (tables i))) file) := by
  have hname := hroom.plain
  have hsite := Site.of_name hvacant hname hroom.bytes hroom.short
  rw [hvacant.missing.locate_join hsite hfile, FileTree.locate, hfile.lookupNames_join,
    hname.names_join, List.append_assoc, h.resolve (by simp) (hfile.join_ne_empty _)]
  rw [FilePath.nul_mem_join hfile.head?_ne hfile.nulFree,
    FilePath.nul_mem_join hname.head?_ne hname.nulFree]
  exact hvacant.nulFree

/-- The root is made before the directory of the store. -/
theorem createDirectories :
    files.createDirectories (FilePath.join root (Text.fileSafe (tables i))) =
      base.createDirectories (FilePath.join root (Text.fileSafe (tables i))) := by
  have hname := hroom.plain
  have hempty : (FilePath.join root (Text.fileSafe (tables i))).isEmpty = false := by
    simpa using hname.join_ne_empty root
  have hnul : '\x00' ∉ (FilePath.join root (Text.fileSafe (tables i))).toList := by
    rw [FilePath.nul_mem_join hname.head?_ne hname.nulFree]
    exact hvacant.nulFree
  have hmissing : files.createDirectory (FilePath.join root (Text.fileSafe (tables i))) =
      .error .notFound := by
    rw [createDirectory, locateDirectory, hname.directoryNames_join,
      h.resolve (List.cons_ne_nil _ _) (hname.join_ne_empty root) hnul,
      if_neg (Nat.not_lt.mpr hroom.short)]
  have hparents : createDirectoriesFrom .none
      (FilePath.parents (FilePath.join root (Text.fileSafe (tables i)))) files = (.ok (), base) :=
    h.made i
  rw [hvacant.createDirectories hname hroom.bytes hroom.short, createDirectories_eq, hempty,
    createDirectoriesFrom, createDirectoryBelow_none, hmissing]
  simp only [hparents, hvacant.createDirectory hname hroom.bytes hroom.short]
  rfl

/-- A root that is not there yet is as good as one that was just made. -/
theorem call
    (hdirectory : c.directory = FilePath.join root (Text.fileSafe (tables i)))
    (call : StoreCall) :
    (DiskSide.call root (tables i) ⟨c, base⟩ call).1 =
        (DiskSide.call root (tables i) ⟨c, files⟩ call).1 ∧
      (DiskSide.call root (tables i) ⟨c, base⟩ call).2.store =
        (DiskSide.call root (tables i) ⟨c, files⟩ call).2.store ∧
      Rooted files base root tables (DiskSide.call root (tables i) ⟨c, files⟩ call).2.files
        (DiskSide.call root (tables i) ⟨c, base⟩ call).2.files := by
  have hhoused := Housed.of_vacant hvacant
  have hentry : ∀ key follow,
      base.locate follow (c.entryPath key) = files.locate follow (c.entryPath key) := by
    intro key follow
    rw [entryPath_eq, hdirectory]
    exact h.locate_join hvacant hroom (plain_entryName key) follow
  cases call with
  | get key =>
      simp only [DiskSide.call_get, get_congr (hentry key)]
      exact ⟨trivial, trivial, .unmade h⟩
  | put key doc =>
      have hcreate := h.createDirectories hvacant hroom
      rw [← hdirectory] at hcreate
      simp only [DiskSide.call_put, put_eq_of_createDirectories hcreate]
      exact ⟨trivial, trivial, .made _⟩
  | remove key =>
      have hanswer := (remove_congr (hentry key)).1
      have hbase := hvacant.missing.locate_join
        (Site.of_name hvacant hroom.plain hroom.bytes hroom.short) (plain_entryName key) false
      rw [← hdirectory, ← entryPath_eq] at hbase
      have hfiles := hbase
      rw [hentry] at hfiles
      simp only [DiskSide.call_remove, hanswer, remove_of_unlocated hbase,
        remove_of_unlocated hfiles]
      exact ⟨trivial, trivial, .unmade h⟩
  | clear =>
      have hfiles := h.locate hvacant hroom false
      rw [← hdirectory] at hfiles
      simp only [DiskSide.call_clear, hhoused.clear_eq hroom hdirectory,
        clear_of_unlocated hfiles, hvacant.missing.without_eq]
      exact ⟨trivial, trivial, .unmade h⟩
  | reopen process =>
      exact ⟨rfl, rfl, .unmade h⟩

theorem size
    (hdirectory : c.directory = FilePath.join root (Text.fileSafe (tables i))) :
    c.size base = c.size files := by
  have hhoused := Housed.of_vacant hvacant
  have hsite := hhoused.site hroom
  have hfiles := h.locate hvacant hroom true
  rw [← hdirectory] at hsite hfiles
  rw [size_of_unlocated hfiles, size_eq hsite hhoused.store.emptied,
    hvacant.missing.namesIn_eq_nil]
  rfl

end

end Unmade

/-! ## Roots that are there -/

/-- A tree that has grown from a base by the directories of stores. -/
structure Grown (base : FileTree) (loc : Location) (tables : ι → String) (t : FileTree) : Prop where
  keeps : base.Extends t
  store : ∀ i, Store t (loc ++ [Text.fileSafe (tables i)]) t

theorem Grown.start
    (hvacant : ∀ i, Vacant base root loc (Text.fileSafe (tables i))) :
    Grown base loc tables base := by
  exact ⟨fun _ _ hfind => hfind, fun i => (Housed.of_vacant (hvacant i)).store⟩

theorem Grown.housed
    (h : Grown base loc tables t) (hvacant : Vacant base root loc (Text.fileSafe (tables i))) :
    Housed t root loc (Text.fileSafe (tables i)) := by
  have hextends := h.keeps.of_without (fun _ hloc => hvacant.find?_eq_none hloc)
    (without_without t (loc ++ [Text.fileSafe (tables i)]))
  exact ⟨⟨hvacant.nulFree, resolveFrom_of_extends hextends hvacant.leads,
    fun entry hentry => (mem_without_iff.mp hentry).2⟩, h.store i⟩

/-- What changes the directory of one store leaves the others where they are. -/
theorem Grown.of_without
    (h : Grown base loc tables t) (hapart : Apart tables)
    (hvacant : Vacant base root loc (Text.fileSafe (tables i)))
    (hhoused : Housed t' root loc (Text.fileSafe (tables i)))
    (hwithout : t'.without (loc ++ [Text.fileSafe (tables i)]) =
      t.without (loc ++ [Text.fileSafe (tables i)])) :
    Grown base loc tables t' := by
  refine ⟨h.keeps.of_without (fun _ hloc => hvacant.find?_eq_none hloc) hwithout, fun j => ?_⟩
  by_cases hij : i = j
  · exact hij ▸ hhoused.store
  · exact (h.store j).of_within (within_eq_of_without hwithout
      (not_prefix_of_ne hapart hij loc) (not_prefix_of_ne hapart (Ne.symm hij) loc))

/-- A store whose paths are too long is out of reach, whether the root is there or not. -/
theorem Rooted.unreachable
    (h : Rooted files base root tables t s) (hgrown : Grown base loc tables s)
    (hvacant : Vacant base root loc (Text.fileSafe (tables i)))
    (hname : FilePath.Plain (Text.fileSafe (tables i)))
    (hlong : ¬ Roomy root (Text.fileSafe (tables i))) :
    Unreachable t (FilePath.join root (Text.fileSafe (tables i))) := by
  by_cases hshort : (FilePath.join root (Text.fileSafe (tables i))).utf8ByteSize ≤ maxPathBytes
  · have hbytes : maxNameBytes < (Text.fileSafe (tables i)).utf8ByteSize :=
      Nat.not_le.mp fun hbytes => hlong ⟨hname, hbytes, hshort⟩
    cases h with
    | made =>
        exact .of_name hvacant.nulFree (resolveFrom_of_extends hgrown.keeps hvacant.leads) hname
          hbytes
    | unmade hunmade =>
        exact absurd (hunmade.bytes i) (Nat.not_le.mpr hbytes)
  · refine .of_long t (hname.join_ne_empty root) ?_ (Nat.not_le.mp hshort)
    rw [FilePath.nul_mem_join hname.head?_ne hname.nulFree]
    exact hvacant.nulFree

section

variable (h : Rooted files base root tables t s)
  (hvacant : Vacant base root loc (Text.fileSafe (tables i)))
  (hroom : Roomy root (Text.fileSafe (tables i)))
  (hdirectory : c.directory = FilePath.join root (Text.fileSafe (tables i)))
include h hvacant hroom hdirectory

theorem Rooted.call
    (call : StoreCall) :
    (DiskSide.call root (tables i) ⟨c, s⟩ call).1 =
        (DiskSide.call root (tables i) ⟨c, t⟩ call).1 ∧
      (DiskSide.call root (tables i) ⟨c, s⟩ call).2.store =
        (DiskSide.call root (tables i) ⟨c, t⟩ call).2.store ∧
      Rooted files base root tables (DiskSide.call root (tables i) ⟨c, t⟩ call).2.files
        (DiskSide.call root (tables i) ⟨c, s⟩ call).2.files := by
  cases h with
  | made =>
      exact ⟨rfl, rfl, .made _⟩
  | unmade hunmade =>
      exact hunmade.call hvacant hroom hdirectory call

theorem Rooted.size :
    c.size s = c.size t := by
  cases h with
  | made =>
      rfl
  | unmade hunmade =>
      exact hunmade.size hvacant hroom hdirectory

end

/-! ## What one store sees -/

/-- Two trees in which one store does the same: one after calls on all stores, and one after the
calls on this store alone. -/
inductive Sees (files : FileTree) (root : String) (tables : ι → String) (i : ι) :
    FileTree → FileTree → Prop
  | blocked (h : Blocked files root) : Sees files root tables i files files
  | settled (base : FileTree) (loc : Location) (t t' s s' : FileTree)
      (hvacant : ∀ j, Vacant base root loc (Text.fileSafe (tables j)))
      (hrooted : Rooted files base root tables t s)
      (hrooted' : Rooted files base root tables t' s')
      (hgrown : Grown base loc tables s) (hgrown' : Grown base loc tables s')
      (hwithin : s'.within (loc ++ [Text.fileSafe (tables i)]) =
        s.within (loc ++ [Text.fileSafe (tables i)])) :
      Sees files root tables i t t'

namespace Sees

variable (h : Sees files root tables i t t') (hapart : Apart tables)
include h hapart

/-- A call on the store does the same in both trees. -/
theorem own
    (hdirectory : c.directory = FilePath.join root (Text.fileSafe (tables i)))
    (call : StoreCall) :
    (DiskSide.call root (tables i) ⟨c, t'⟩ call).1 =
        (DiskSide.call root (tables i) ⟨c, t⟩ call).1 ∧
      (DiskSide.call root (tables i) ⟨c, t'⟩ call).2.store =
        (DiskSide.call root (tables i) ⟨c, t⟩ call).2.store ∧
      Sees files root tables i (DiskSide.call root (tables i) ⟨c, t⟩ call).2.files
        (DiskSide.call root (tables i) ⟨c, t'⟩ call).2.files := by
  have hname := Text.plain_fileSafe (hapart.ne_empty i)
  cases h with
  | blocked hblocked =>
      rw [hblocked.call hname hdirectory call]
      exact ⟨rfl, rfl, .blocked hblocked⟩
  | settled base loc _ _ s s' hvacant hrooted hrooted' hgrown hgrown' hwithin =>
      by_cases hroom : Roomy root (Text.fileSafe (tables i))
      · have hhoused := hgrown.housed (hvacant i)
        have hhoused' := hgrown'.housed (hvacant i)
        obtain ⟨hanswer, hstore, hnext⟩ := hrooted.call (hvacant i) hroom hdirectory call
        obtain ⟨hanswer', hstore', hnext'⟩ := hrooted'.call (hvacant i) hroom hdirectory call
        obtain ⟨hsame, hsameStore, hsameFiles⟩ :=
          hhoused.call_congr hhoused' hroom hwithin hdirectory (tables i) call
        obtain ⟨hafter, hwithout⟩ := hhoused.call_without hroom hdirectory (tables i) call
        obtain ⟨hafter', hwithout'⟩ :=
          hhoused'.call_without hroom hdirectory (tables i) call
        exact ⟨hanswer'.symm.trans (hsame.trans hanswer),
          hstore'.symm.trans (hsameStore.trans hstore),
          .settled base loc _ _ _ _ hvacant hnext hnext'
            (hgrown.of_without hapart (hvacant i) hafter hwithout)
            (hgrown'.of_without hapart (hvacant i) hafter' hwithout') hsameFiles⟩
      · -- a store whose paths are too long fails alike in all trees of a run
        have hfar := hrooted.unreachable hgrown (hvacant i) hname hroom
        have hfar' := hrooted'.unreachable hgrown' (hvacant i) hname hroom
        rw [← hdirectory] at hfar hfar'
        obtain ⟨hanswer, hstore, hkept, hkept'⟩ :=
          hfar.call_congr hfar' root (tables i) call
        rw [hkept, hkept']
        exact ⟨hanswer, hstore,
          .settled base loc _ _ s s' hvacant hrooted hrooted' hgrown hgrown' hwithin⟩

/-- The store has as many entries in both trees. -/
theorem size
    (hdirectory : c.directory = FilePath.join root (Text.fileSafe (tables i))) :
    c.size t' = c.size t := by
  have hname := Text.plain_fileSafe (hapart.ne_empty i)
  cases h with
  | blocked =>
      rfl
  | settled base loc _ _ s s' hvacant hrooted hrooted' hgrown hgrown' hwithin =>
      by_cases hroom : Roomy root (Text.fileSafe (tables i))
      · rw [← hrooted.size (hvacant i) hroom hdirectory,
          ← hrooted'.size (hvacant i) hroom hdirectory]
        exact (hgrown.housed (hvacant i)).size_congr (hgrown'.housed (hvacant i)) hroom hwithin
          hdirectory
      · have hfar := hrooted.unreachable hgrown (hvacant i) hname hroom
        have hfar' := hrooted'.unreachable hgrown' (hvacant i) hname hroom
        rw [← hdirectory] at hfar hfar'
        rw [size_of_unlocated (hfar.locate true), size_of_unlocated (hfar'.locate true)]

/-- A call on another store makes no difference. -/
theorem other
    (hne : j ≠ i) (hdirectory : c.directory = FilePath.join root (Text.fileSafe (tables j)))
    (call : StoreCall) :
    Sees files root tables i (DiskSide.call root (tables j) ⟨c, t⟩ call).2.files t' := by
  have hname := Text.plain_fileSafe (hapart.ne_empty j)
  cases h with
  | blocked hblocked =>
      rw [hblocked.call hname hdirectory call]
      exact .blocked hblocked
  | settled base loc _ _ s s' hvacant hrooted hrooted' hgrown hgrown' hwithin =>
      by_cases hroom : Roomy root (Text.fileSafe (tables j))
      · obtain ⟨-, -, hnext⟩ := hrooted.call (hvacant j) hroom hdirectory call
        obtain ⟨hafter, hwithout⟩ := (hgrown.housed (hvacant j)).call_without hroom
          hdirectory (tables j) call
        refine .settled base loc _ _ _ s' hvacant hnext hrooted'
          (hgrown.of_without hapart (hvacant j) hafter hwithout) hgrown' (hwithin.trans ?_)
        exact (within_eq_of_without hwithout (not_prefix_of_ne hapart hne loc)
          (not_prefix_of_ne hapart (Ne.symm hne) loc)).symm
      · have hfar := hrooted.unreachable hgrown (hvacant j) hname hroom
        rw [← hdirectory] at hfar
        rw [(hfar.call_congr hfar root (tables j) call).2.2.1]
        exact .settled base loc _ _ s s' hvacant hrooted hrooted' hgrown hgrown' hwithin

end Sees

/-! ## Runs -/

/-- A root for stores of tables.  It leads to a directory, without passing through the directories
of the stores, which hold nothing but files or are missing; or it is missing and can be made; or
nothing below it can be reached. -/
inductive CacheRoot (files : FileTree) (root : String) (tables : ι → String) : Prop
  | there (base : FileTree) (loc : Location)
      (hvacant : ∀ i, Vacant base root loc (Text.fileSafe (tables i)))
      (hgrown : Grown base loc tables files)
  | unmade (base : FileTree) (loc : Location)
      (hvacant : ∀ i, Vacant base root loc (Text.fileSafe (tables i)))
      (hunmade : Unmade files base root tables)
  | blocked (h : Blocked files root)

/-- An empty directory is a root for any tables. -/
theorem CacheRoot.of_empty
    (h : EmptyRoot files root loc) :
    CacheRoot files root tables := by
  have hvacant : ∀ i, Vacant files root loc (Text.fileSafe (tables i)) := fun i => h.vacant _
  exact .there files loc hvacant (.start hvacant)

theorem CacheRoot.sees
    (h : CacheRoot files root tables) (i : ι) :
    Sees files root tables i files files := by
  cases h with
  | there base loc hvacant hgrown =>
      exact .settled base loc _ _ _ _ hvacant (.made files) (.made files) hgrown hgrown rfl
  | unmade base loc hvacant hunmade =>
      exact .settled base loc _ _ _ _ hvacant (.unmade hunmade) (.unmade hunmade)
        (.start hvacant) (.start hvacant) rfl
  | blocked h =>
      exact .blocked h

section

variable [DecidableEq ι]

theorem only_cons_self
    {α : Type} (i : ι) (a : α) (entries : List (ι × α)) :
    only i ((i, a) :: entries) = a :: only i entries := by
  simp [only]

theorem only_cons_of_ne
    {α : Type} (hne : j ≠ i) (a : α) (entries : List (ι × α)) :
    only i ((j, a) :: entries) = only i entries := by
  simp [only, hne]

namespace RootStores

theorem call_eq
    (s : RootStores ι) (j : ι) (call : StoreCall) :
    s.call root tables j call =
      ((DiskSide.call root (tables j) ⟨s.store j, s.files⟩ call).1,
        ⟨Function.update s.store j
          (DiskSide.call root (tables j) ⟨s.store j, s.files⟩ call).2.store,
          (DiskSide.call root (tables j) ⟨s.store j, s.files⟩ call).2.files⟩) := by
  rw [RootStores.call]

/-- After a call every store has its directory. -/
theorem directory_update
    {s : RootStores ι}
    (hdirectories : ∀ k, (s.store k).directory = FilePath.join root (Text.fileSafe (tables k)))
    (call : StoreCall) (k : ι) :
    (Function.update s.store j
      (DiskSide.call root (tables j) ⟨s.store j, s.files⟩ call).2.store k).directory =
        FilePath.join root (Text.fileSafe (tables k)) := by
  by_cases hk : k = j
  · subst hk
    rw [Function.update_self]
    exact DiskSide.directory_call (hdirectories k) call
  · rw [Function.update_of_ne hk]
    exact hdirectories k

/-- Every run of calls shows at one store what the calls on this store alone show. -/
theorem observe_of_sees
    {s : RootStores ι} {alone : DiskSide} (hapart : Apart tables)
    (hsees : Sees files root tables i s.files alone.files) (hstore : alone.store = s.store i)
    (hdirectories : ∀ j, (s.store j).directory = FilePath.join root (Text.fileSafe (tables j)))
    (calls : List (ι × StoreCall)) :
    only i (s.observe root tables calls) =
      DiskSide.observe root (tables i) alone (only i calls) := by
  induction calls generalizing s alone with
  | nil =>
      rfl
  | cons entry calls ih =>
      obtain ⟨j, call⟩ := entry
      obtain ⟨store, own⟩ := alone
      simp only at hsees hstore
      subst hstore
      have hnext := directory_update (j := j) hdirectories call
      rw [observe]
      simp only [call_eq]
      by_cases hji : j = i
      · -- the call is made on both sides
        subst hji
        obtain ⟨hanswer, hkept, hafter⟩ := hsees.own hapart (hdirectories j) call
        have hsize := hafter.size hapart
          (DiskSide.directory_call (s := ⟨s.store j, s.files⟩) (hdirectories j) call)
        have hrest := @ih ⟨Function.update s.store j _, _⟩
          (DiskSide.call root (tables j) ⟨s.store j, own⟩ call).2 hafter
          (by simp only [Function.update_self, hkept]) hnext
        rw [only_cons_self, only_cons_self, DiskSide.observe, hrest]
        simp only [Function.update_self, hanswer, hkept, hsize]
      · -- the call is made on the left side only
        rw [only_cons_of_ne hji, only_cons_of_ne hji]
        exact @ih ⟨Function.update s.store j _, _⟩ ⟨_, own⟩
          (hsees.other hapart hji (hdirectories j) call)
          (by simp only [Function.update_of_ne (Ne.symm hji)]) hnext

/-- Stores of tables with directories of their own do not notice each other: what a run of calls
shows at one of them is what it shows without the calls on the others. -/
theorem observe_only
    (hapart : Apart tables) (hroot : CacheRoot files root tables) (process : ι → Nat)
    (calls : List (ι × StoreCall)) (i : ι) :
    only i ((opened root tables process files).observe root tables calls) =
      DiskSide.observe root (tables i) ⟨DiskCache.ofTable root (tables i) (process i), files⟩
        (only i calls) := by
  exact observe_of_sees hapart (hroot.sees i) rfl
    (fun j => directory_ofTable root (tables j) (process j)) calls

end RootStores

end

/-! ## Two tables below a root that is not there yet -/

/-- The tables of layers and of their metadata. -/
def layerTables : Bool → String
  | true => "layers"
  | false => "metadata"

/-- Both tables hold an entry for one key, and one of them is cleared. -/
def layerInterleaving : List (Bool × StoreCall) :=
  [(true, .put (Sample.singleKey "a") (Sample.layer "a" true)),
    (false, .put (Sample.singleKey "a") (Sample.layer "a" false)),
    (true, .get (Sample.singleKey "a")), (false, .clear), (true, .get (Sample.singleKey "a"))]

theorem apart_layerTables :
    Apart layerTables := by
  constructor
  · decide
  · decide

/-- The root is missing, and the first store that needs it makes it. -/
theorem unmade_layerTables :
    Unmade FileTree.empty cacheFiles "c" layerTables := by
  refine ⟨.inr ⟨["c"], by rfl⟩, by decide, ?_⟩
  intro i
  cases i with
  | true => rfl
  | false => rfl

theorem RootStores.observe_only_layers :
    Apart layerTables ∧ CacheRoot FileTree.empty "c" layerTables ∧
      only true ((RootStores.opened "c" layerTables (fun _ => 7) .empty).observe "c" layerTables
          layerInterleaving) =
        DiskSide.observe "c" "layers" ⟨DiskCache.ofTable "c" "layers" 7, .empty⟩
          (only true layerInterleaving) := by
  have hroot : CacheRoot FileTree.empty "c" layerTables :=
    .unmade cacheFiles ["c"] (fun i => emptyRoot_cacheFiles.vacant _) unmade_layerTables
  exact ⟨apart_layerTables, hroot,
    RootStores.observe_only apart_layerTables hroot (fun _ => 7) layerInterleaving true⟩

/-! ## Two tables with one directory -/

/-- Different names that are rendered alike. -/
def twinTables : Bool → String
  | true => "a.b"
  | false => "a b"

/-- One table is asked for an entry and given it, then the other one is asked for it. -/
def twinCalls (key : PrimaryKey) (doc : Document) : List (Bool × StoreCall) :=
  [(false, .get key), (false, .put key doc), (true, .get key)]

theorem ofTable_twinTables
    (i j : Bool) (root : String) (process : Nat) :
    DiskCache.ofTable root (twinTables i) process =
      DiskCache.ofTable root (twinTables j) process := by
  have hnames : Text.fileSafe (twinTables i) = Text.fileSafe (twinTables j) := by
    revert i j
    decide
  rw [DiskCache.ofTable, hnames]
  rfl

theorem answers_twinCalls
    (s : RootStores Bool) (root : String) (tables : Bool → String) (key : PrimaryKey)
    (doc : Document) :
    (only true (s.observe root tables (twinCalls key doc))).map Observation.answer =
      [((s.store true).get
        (((s.store false).get s.files key).2.put s.files key doc).2.2 key).1] := by
  simp [twinCalls, RootStores.observe, RootStores.call_eq, DiskSide.call_get, DiskSide.call_put,
    only]

theorem answers_only_twinCalls
    (s : DiskSide) (root table : String) (key : PrimaryKey) (doc : Document) :
    (DiskSide.observe root table s (only true (twinCalls key doc))).map Observation.answer =
      [(s.store.get s.files key).1] := by
  simp [twinCalls, DiskSide.observe, DiskSide.call_get, only]

/-- What the common store does not find, it finds once it was given it. -/
theorem get_twinTables :
    ((DiskCache.ofTable "c" (twinTables true) 7).get cacheFiles (Sample.singleKey "a")).1 =
        .ok none ∧
      ((DiskCache.ofTable "c" (twinTables true) 7).get
        (((DiskCache.ofTable "c" (twinTables true) 7).get cacheFiles (Sample.singleKey "a")).2.put
          cacheFiles (Sample.singleKey "a") (Sample.layer "a" true)).2.2
        (Sample.singleKey "a")).1 = .ok (some (Sample.layer "a" true)) := by
  have htable : (Text.fileSafe (twinTables true)).utf8ByteSize ≤ maxNameBytes := by decide
  have hname : Text.fileSafe (twinTables true) ≠ "" := by decide
  have hshort : PathsShort (FilePath.join "c" (Text.fileSafe (twinTables true))) LayerKey
      (· < Nat.pow 2 32) := .of_le (by decide)
  exact EmptyRoot.get_put emptyRoot_cacheFiles htable separate_layerKey (.inl rfl)
    (storable_layer "a" true) (by decide) (by decide) (fun _ h => h) hshort
    (fun hempty => absurd hempty hname)

/-- The store of a table that was never written answers with the document of another table. -/
theorem RootStores.observe_only_ne :
    twinTables true ≠ twinTables false ∧ CacheRoot cacheFiles "c" twinTables ∧
      (only true ((RootStores.opened "c" twinTables (fun _ => 7) cacheFiles).observe "c" twinTables
          (twinCalls (Sample.singleKey "a") (Sample.layer "a" true)))).map Observation.answer =
        [.ok (some (Sample.layer "a" true))] ∧
      (DiskSide.observe "c" (twinTables true)
          ⟨DiskCache.ofTable "c" (twinTables true) 7, cacheFiles⟩
          (only true (twinCalls (Sample.singleKey "a") (Sample.layer "a" true)))).map
            Observation.answer = [.ok none] := by
  obtain ⟨hmissed, hserved⟩ := get_twinTables
  refine ⟨by decide, .of_empty emptyRoot_cacheFiles, ?_, ?_⟩
  · rw [answers_twinCalls]
    simp only [RootStores.opened, ofTable_twinTables false true, hserved]
  · rw [answers_only_twinCalls, hmissed]

end DocumentTables
