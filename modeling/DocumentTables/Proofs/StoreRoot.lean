import DocumentTables.Proofs.StoreDirectory

/-!
# Directories below a cache root

The directory of a store is one below the cache root, which is made when it is needed, or for an
empty name the root itself.  A directory with a free name below the root can be made, removed and
made again; the root itself can under conditions on the path.

**Results.**

* `FileTree.Site.of_name`: the directory of a store with a free name below a root.
* `FileTree.Site.of_root`: the directory of the store that has an empty root itself.
* `FileTree.createDirectories_congr`: making directories in trees that are alike.
* `FileTree.Vacant.createDirectories`, `FileTree.Renewable.of_name`: a directory with a free name
  can be made, and be removed and made again.
* `FileTree.Renewable.removeDirectory`, `FileTree.Renewable.createDirectories`: what follows for the
  tree of a store.
* `FileTree.Unreachable.of_long`, `FileTree.Unreachable.of_name`: directories that no path leads to.
-/

namespace DocumentTables
namespace FileTree

variable {full t t' : FileTree} {follow : Bool} {home loc : Location} {directory path root : String}
  {name : String} {names : List String}

/-! ## An empty root -/

theorem resolve_eq_ok
    {place : Place} (h : t.resolve follow path names = .ok place) :
    path ≠ "" ∧ '\x00' ∉ path.toList ∧ path.utf8ByteSize ≤ maxPathBytes ∧
      t.resolveFrom follow maxLinks [] names = .ok place := by
  rw [resolve] at h
  split at h
  · cases h
  · next hempty =>
      split at h
      · cases h
      · next hnul =>
          split at h
          · cases h
          · next hlong =>
              exact ⟨by simpa using hempty, by simpa using hnul, Nat.not_lt.mp hlong, h⟩

theorem openDirectory_eq_ok
    (h : t.openDirectory path = .ok loc) :
    t.locate true path = .ok ⟨loc, some .directory⟩ := by
  rw [openDirectory] at h
  split at h <;> cases h
  assumption

/-- Where a path leads to a directory with a point at the end, it leads to it without. -/
theorem resolveFrom_of_point
    (h : t.resolveFrom true maxLinks [] (names ++ ["."]) = .ok ⟨loc, some .directory⟩) :
    t.resolveFrom true maxLinks [] names = .ok ⟨loc, some .directory⟩ := by
  have hgoes := resolveFrom_append t true (List.cons_ne_nil "." []) maxLinks [] names
  rw [h] at hgoes
  obtain ⟨next, left, hresult, hpoint⟩ := hgoes.exists_directory
  rw [resolveFrom_cons, step, if_pos rfl] at hpoint
  simp only [resolveFrom_nil] at hpoint
  rw [hresult, hpoint]

/-- Where a path leads to a directory, so do its names. -/
theorem names_of_lookupNames
    (h : t.resolveFrom true maxLinks [] (FilePath.lookupNames path) =
      .ok ⟨loc, some .directory⟩) :
    t.resolveFrom true maxLinks [] (FilePath.names path) = .ok ⟨loc, some .directory⟩ := by
  rw [FilePath.lookupNames] at h
  split at h
  · exact resolveFrom_of_point h
  · exact h

theorem names_of_directoryNames
    (h : t.resolveFrom true maxLinks [] (FilePath.directoryNames path) =
      .ok ⟨loc, some .directory⟩) :
    t.resolveFrom true maxLinks [] (FilePath.names path) = .ok ⟨loc, some .directory⟩ := by
  rw [FilePath.directoryNames] at h
  split at h
  · exact resolveFrom_of_point h
  · exact h

/-- A path leads to a directory with nothing in it. -/
structure EmptyRoot (t : FileTree) (root : String) (loc : Location) : Prop where
  opens : t.openDirectory root = .ok loc
  empty : t.nodesBelow loc = []

namespace EmptyRoot

variable (h : EmptyRoot t root loc)
include h

theorem ne_empty :
    root ≠ "" := by
  exact (resolve_eq_ok (openDirectory_eq_ok h.opens)).1

theorem nulFree :
    '\x00' ∉ root.toList := by
  exact (resolve_eq_ok (openDirectory_eq_ok h.opens)).2.1

theorem leads :
    t.resolveFrom true maxLinks [] (FilePath.names root) = .ok ⟨loc, some .directory⟩ := by
  exact names_of_lookupNames (resolve_eq_ok (openDirectory_eq_ok h.opens)).2.2.2

theorem not_isBelow :
    ∀ entry ∈ t.nodes, isBelow entry.1 loc = false := by
  intro entry hentry
  rw [Bool.eq_false_iff]
  intro hbelow
  have hmem : entry ∈ t.nodesBelow loc := by
    rw [nodesBelow, List.mem_mergeSort, List.mem_filter]
    exact ⟨hentry, hbelow⟩
  rw [h.empty] at hmem
  cases hmem

theorem find?_eq_none
    {other : Location} (hbelow : isBelow other loc = true) :
    t.find? other = none := by
  have hne : other ≠ [] := by
    rintro rfl
    obtain ⟨hstarts, htop⟩ := isBelow_iff.mp hbelow
    exact htop (List.prefix_nil.mp hstarts).symm
  cases hfind : t.find? other with
  | none =>
      rfl
  | some node =>
      have hnot := h.not_isBelow _ (mem_of_find? hfind hne)
      rw [hbelow] at hnot
      cases hnot

end EmptyRoot

/-! ## A free name below a root -/

/-- The names of a path lead to a directory in which nothing has a certain name. -/
structure Vacant (t : FileTree) (root : String) (loc : Location) (name : String) : Prop where
  nulFree : '\x00' ∉ root.toList
  leads : t.resolveFrom true maxLinks [] (FilePath.names root) = .ok ⟨loc, some .directory⟩
  nothing : ∀ entry ∈ t.nodes, ¬ loc ++ [name] <+: entry.1

/-- In an empty directory every name is free. -/
theorem EmptyRoot.vacant
    (h : EmptyRoot t root loc) (name : String) :
    Vacant t root loc name := by
  refine ⟨h.nulFree, h.leads, fun entry hentry hstarts => ?_⟩
  have hbelow : isBelow entry.1 loc = true := by
    refine isBelow_iff.mpr ⟨(List.prefix_append loc [name]).trans hstarts, fun heq => ?_⟩
    have hlength := hstarts.length_le
    rw [heq, List.length_append] at hlength
    simp at hlength
  rw [h.not_isBelow entry hentry] at hbelow
  cases hbelow

theorem agreeOff_of_put
    (t : FileTree) (home : Location) (node : Node) :
    AgreeOff home (t.put home node) t := by
  intro other hother
  have hne : other ≠ home := by
    rintro rfl
    exact hother List.prefix_rfl
  exact (find?_put_of_ne t _ hne).symm

namespace Vacant

variable (h : Vacant t root loc name)
include h

/-- The free name stands for a directory that is missing. -/
theorem missing :
    Missing (t.put (loc ++ [name]) .directory) (loc ++ [name]) t := by
  exact ⟨agreeOff_of_put t _ _, by simp, h.nothing⟩

theorem find?_eq_none
    {other : Location} (hother : loc ++ [name] <+: other) :
    t.find? other = none := by
  exact h.missing.find?_eq_none hother

/-- Nothing is lost when something gets the free name. -/
theorem extends_put
    (node : Node) :
    t.Extends (t.put (loc ++ [name]) node) := by
  intro other found hfind
  have hne : other ≠ loc ++ [name] := by
    rintro rfl
    rw [h.find?_eq_none List.prefix_rfl] at hfind
    cases hfind
  rw [find?_put_of_ne t _ hne, hfind]

theorem resolveFrom_name
    (hname : FilePath.Plain name) (hbytes : name.utf8ByteSize ≤ maxNameBytes) (follow : Bool) :
    t.resolveFrom follow maxLinks [] (FilePath.names root ++ [name]) =
      .ok ⟨loc ++ [name], none⟩ := by
  have hgoes := resolveFrom_append t follow (List.cons_ne_nil name []) maxLinks []
    (FilePath.names root)
  rw [h.leads] at hgoes
  obtain ⟨left, -, hwhole⟩ := hgoes
  rw [hwhole, resolveFrom_cons, step, if_neg hname.ne_point, if_neg hname.ne_points,
    if_neg (Nat.not_lt.mpr hbytes), h.find?_eq_none List.prefix_rfl]
  rfl

end Vacant

/-! ## The directory of a store -/

/-- A store with a free name below a root: its directory is not there yet. -/
theorem Site.of_name
    (h : Vacant t root loc name) (hname : FilePath.Plain name)
    (hbytes : name.utf8ByteSize ≤ maxNameBytes)
    (hshort : (FilePath.join root name).utf8ByteSize ≤ maxPathBytes) :
    Site (t.put (loc ++ [name]) .directory) (FilePath.join root name) (loc ++ [name]) := by
  have hfound := find?_put_self t .directory h.missing.ne_top
  have hleads : ∀ follow,
      (t.put (loc ++ [name]) .directory).resolveFrom follow maxLinks []
          (FilePath.names root ++ [name]) = .ok ⟨loc ++ [name], some .directory⟩ := by
    intro follow
    have hgoes := resolveFrom_append (t.put (loc ++ [name]) .directory) follow
      (List.cons_ne_nil name []) maxLinks [] (FilePath.names root)
    rw [resolveFrom_of_extends (h.extends_put _) h.leads] at hgoes
    obtain ⟨left, -, hwhole⟩ := hgoes
    rw [hwhole, resolveFrom_cons, step, if_neg hname.ne_point, if_neg hname.ne_points,
      if_neg (Nat.not_lt.mpr hbytes), hfound]
    exact resolveFrom_nil ..
  refine ⟨hname.join_ne_empty root, ?_, hshort, ?_, ?_, hfound, ?_⟩
  · rw [FilePath.nul_mem_join hname.head?_ne hname.nulFree]
    exact h.nulFree
  · rw [hname.names_join]
    exact hleads true
  · rw [hname.lookupNames_join]
    exact hleads false
  · intro other hother hne
    rw [find?_put_of_ne t _ hne]
    exact h.find?_eq_none hother

/-- A store whose directory is the empty root itself. -/
theorem Site.of_root
    (h : EmptyRoot t root loc)
    (hshort : (FilePath.join root "").utf8ByteSize ≤ maxPathBytes) :
    Site t (FilePath.join root "") loc ∧ Present t loc t := by
  have hhead : "".toList.head? ≠ some '/' := by simp
  have hfound : t.find? loc = some .directory := by
    refine resolveFrom_found ?_ h.leads
    intro above habove
    rw [List.prefix_nil.mp habove]
    rfl
  refine ⟨⟨FilePath.join_ne_empty h.ne_empty hhead, ?_, hshort, ?_, ?_, hfound, ?_⟩,
    fun _ _ => rfl, hfound, ?_⟩
  · rw [FilePath.nul_mem_join hhead (by simp)]
    exact h.nulFree
  · rw [FilePath.names_join_empty]
    exact h.leads
  · rw [FilePath.lookupNames, FilePath.leadsToDirectory_join_empty h.ne_empty,
      FilePath.names_join_empty]
    exact resolveFrom_point false h.leads
  · intro other hother hne
    exact h.find?_eq_none (isBelow_iff.mpr ⟨hother, hne⟩)
  · intro entry hentry hbelow
    rw [h.not_isBelow entry hentry] at hbelow
    cases hbelow

/-! ## Trees that are alike -/

theorem resolve_congr
    (h : t.Alike t') (follow : Bool) (path : String) (names : List String) :
    t'.resolve follow path names = t.resolve follow path names := by
  rw [resolve, resolve, resolveFrom_congr h]

theorem Alike.put
    (h : t.Alike t') (loc : Location) (node : Node) :
    (t.put loc node).Alike (t'.put loc node) := by
  intro other
  by_cases htop : other = []
  · rw [htop]
    rfl
  · by_cases hloc : other = loc
    · rw [hloc, find?_put_self t' node (hloc ▸ htop), find?_put_self t node (hloc ▸ htop)]
    · rw [find?_put_of_ne t' node hloc, find?_put_of_ne t node hloc, h other]

/-- Two calls end alike: with the same result, in trees that are alike. -/
def EndAlike (a b : Except FileError Unit × FileTree) : Prop :=
  a.1 = b.1 ∧ a.2.Alike b.2

theorem isDirectory_congr
    (h : t.Alike t') (path : String) :
    t'.isDirectory path = t.isDirectory path := by
  rw [isDirectory, isDirectory, locate, locate, resolve_congr h]

/-- Making a directory in trees that are alike. -/
theorem createDirectory_congr
    (h : t.Alike t') (path : String) :
    (∃ e, t.createDirectory path = .error e ∧ t'.createDirectory path = .error e) ∨
      ∃ after after', t.createDirectory path = .ok after ∧ t'.createDirectory path = .ok after' ∧
        after.Alike after' := by
  rw [createDirectory, createDirectory, locateDirectory, locateDirectory, resolve_congr h]
  cases t.resolve false path (FilePath.directoryNames path) with
  | error e =>
      exact .inl ⟨e, rfl, rfl⟩
  | ok place =>
      obtain ⟨loc, node⟩ := place
      cases node with
      | some node =>
          exact .inl ⟨.alreadyExists, rfl, rfl⟩
      | none =>
          exact .inr ⟨_, _, rfl, rfl, h.put loc .directory⟩

theorem createDirectoriesFrom_congr
    (h : t.Alike t') (paths : List String) :
    EndAlike (createDirectoriesFrom .none paths t) (createDirectoriesFrom .none paths t') := by
  induction paths generalizing t t' with
  | nil =>
      exact ⟨rfl, h⟩
  | cons path above ih =>
      have hthere : ∀ {s s' : FileTree} (e : FileError), s.Alike s' →
          EndAlike (if s.isDirectory path then (.ok (), s) else (.error e, s))
            (if s'.isDirectory path then (.ok (), s') else (.error e, s')) := by
        intro s s' e hs
        rw [isDirectory_congr hs]
        split
        · exact ⟨rfl, hs⟩
        · exact ⟨rfl, hs⟩
      rw [createDirectoriesFrom, createDirectoriesFrom, createDirectoryBelow_none,
        createDirectoryBelow_none]
      rcases createDirectory_congr h path with ⟨e, he, he'⟩ | ⟨after, after', hok, hok', halike⟩
      · rw [he, he']
        cases e with
        | notFound =>
            have hparent := ih h
            generalize createDirectoriesFrom .none above t = made at hparent
            generalize createDirectoriesFrom .none above t' = made' at hparent
            obtain ⟨result, after⟩ := made
            obtain ⟨result', after'⟩ := made'
            obtain ⟨hresult, halike⟩ := hparent
            simp only at hresult halike
            subst hresult
            cases result with
            | error e =>
                exact ⟨rfl, halike⟩
            | ok =>
                rcases createDirectory_congr halike path with
                  ⟨e, he, he'⟩ | ⟨last, last', hok, hok', hlast⟩
                · simp only [he, he']
                  exact hthere e halike
                · simp only [hok, hok']
                  exact ⟨rfl, hlast⟩
        | _ =>
            exact hthere _ h
      · rw [hok, hok']
        exact ⟨rfl, halike⟩

/-- In trees that are alike directories are made alike. -/
theorem createDirectories_congr
    (h : t.Alike t') (path : String) :
    EndAlike (t.createDirectories path) (t'.createDirectories path) := by
  rw [createDirectories_eq, createDirectories_eq]
  split
  · exact ⟨rfl, h⟩
  · exact createDirectoriesFrom_congr h _

/-! ## Directories that can be removed and made again -/

/-- The directory can be removed by its path, and be made again by it afterwards. -/
def Renewable (full : FileTree) (directory : String) : Prop :=
  ∃ bare, full.removeEmptyDirectory directory = .ok bare ∧
    (bare.createDirectories directory).1 = .ok ()

/-- Where the directory was removed nothing is left of it. -/
theorem Site.removed
    (hsite : Site full directory home) (hrenewable : Renewable full directory) :
    FilePath.endsInPoint directory = false ∧ home ≠ [] ∧
      full.locateDirectory directory = .ok ⟨home, some .directory⟩ ∧
      ((full.erase home).createDirectories directory).1 = .ok () := by
  obtain ⟨bare, hremoved, hmade⟩ := hrenewable
  rw [removeEmptyDirectory] at hremoved
  have hnofollow := resolveFrom_nofollow full maxLinks [] (FilePath.directoryNames directory)
  rw [directoryNames_of_names hsite.names] at hnofollow
  rw [locateDirectory, resolve_eq full false _ hsite.ne_empty hsite.nulFree hsite.short]
    at hremoved ⊢
  rcases hnofollow with hsame | ⟨loc, target, hlink⟩
  · rw [hsame] at hremoved ⊢
    simp only at hremoved
    split at hremoved
    · cases hremoved
    · next hpoint =>
        split at hremoved
        · cases hremoved
        · next htop =>
            cases hremoved
            exact ⟨by simpa using hpoint, htop, rfl, hmade⟩
  · rw [hlink] at hremoved
    cases hremoved

/-- The tree without the directory is alike for all stores. -/
theorem Missing.alike
    (h : Missing full home t) (hsite : Site full directory home) :
    (full.erase home).Alike t := by
  intro loc
  by_cases hloc : home <+: loc
  · rw [h.find?_eq_none hloc]
    by_cases hne : loc = home
    · rw [hne, find?_erase_self full h.ne_top]
    · rw [find?_erase_of_ne full hne, hsite.empty loc hloc hne]
  · have hne : loc ≠ home := by
      rintro rfl
      exact hloc List.prefix_rfl
    rw [find?_erase_of_ne full hne, h.agree loc hloc]

/-- A directory that can be made again is there after it was made. -/
theorem Renewable.createDirectories
    (hrenewable : Renewable full directory) (hsite : Site full directory home)
    (h : Store full home t) :
    (t.createDirectories directory).1 = .ok () ∧
      Present full home (t.createDirectories directory).2 ∧
      SameFiles home t (t.createDirectories directory).2 := by
  have hok : (t.createDirectories directory).1 = .ok () := by
    rcases h with h | h
    · rw [(hsite.leadsToDirectory.of_extends (h.extends hsite)).createDirectories]
    · rw [← (createDirectories_congr (h.alike hsite) directory).1]
      exact (hsite.removed hrenewable).2.2.2
  rcases h.createDirectories hsite with hpresent | ⟨hfailed, -⟩
  · exact ⟨hok, hpresent⟩
  · exact absurd hok hfailed

/-- A directory that can be removed is removed with all that it holds. -/
theorem Renewable.removeDirectory
    (hrenewable : Renewable full directory) (hsite : Site full directory home)
    (h : Present full home t) :
    t.removeDirectory directory = (.ok (), (t.eraseBelow home).erase home) := by
  obtain ⟨hpoint, htop, hlocate, -⟩ := hsite.removed hrenewable
  have hthere : (t.eraseBelow home).locateDirectory directory = .ok ⟨home, some .directory⟩ := by
    rw [locateDirectory,
      resolve_eq _ false _ hsite.ne_empty hsite.nulFree hsite.short] at hlocate ⊢
    exact resolveFrom_of_extends (h.eraseBelow.extends hsite) hlocate
  have hremoved : (t.eraseBelow home).removeEmptyDirectory directory =
      .ok ((t.eraseBelow home).erase home) := by
    rw [removeEmptyDirectory, hthere]
    simp [hpoint, htop]
  rw [FileTree.removeDirectory, h.locate_unfollowed hsite]
  simp only [hremoved]

/-- A directory with a free name is made where the name is. -/
theorem Vacant.createDirectory
    (h : Vacant t root loc name) (hname : FilePath.Plain name)
    (hbytes : name.utf8ByteSize ≤ maxNameBytes)
    (hshort : (FilePath.join root name).utf8ByteSize ≤ maxPathBytes) :
    t.createDirectory (FilePath.join root name) = .ok (t.put (loc ++ [name]) .directory) := by
  have hsite := Site.of_name h hname hbytes hshort
  rw [FileTree.createDirectory, locateDirectory,
    resolve_eq t false _ hsite.ne_empty hsite.nulFree hsite.short, hname.directoryNames_join,
    h.resolveFrom_name hname hbytes false]

theorem Vacant.createDirectories
    (h : Vacant t root loc name) (hname : FilePath.Plain name)
    (hbytes : name.utf8ByteSize ≤ maxNameBytes)
    (hshort : (FilePath.join root name).utf8ByteSize ≤ maxPathBytes) :
    t.createDirectories (FilePath.join root name) =
      (.ok (), t.put (loc ++ [name]) .directory) := by
  have hempty : (FilePath.join root name).isEmpty = false := by
    simpa using hname.join_ne_empty root
  rw [createDirectories_eq, hempty, createDirectoriesFrom, createDirectoryBelow_none,
    h.createDirectory hname hbytes hshort]
  rfl

/-- A directory with a name of its own below the root can be removed and made again. -/
theorem Renewable.of_name
    (h : Vacant t root loc name) (hname : FilePath.Plain name)
    (hbytes : name.utf8ByteSize ≤ maxNameBytes)
    (hshort : (FilePath.join root name).utf8ByteSize ≤ maxPathBytes) :
    Renewable (t.put (loc ++ [name]) .directory) (FilePath.join root name) := by
  have hsite := Site.of_name h hname hbytes hshort
  have hnames : FilePath.directoryNames (FilePath.join root name) =
      FilePath.lookupNames (FilePath.join root name) := by
    rw [hname.directoryNames_join, hname.lookupNames_join]
  refine ⟨(t.put (loc ++ [name]) .directory).erase (loc ++ [name]), ?_, ?_⟩
  · rw [removeEmptyDirectory, locateDirectory, hnames,
      resolve_eq _ false _ hsite.ne_empty hsite.nulFree hsite.short, hsite.unfollowed]
    simp [hname.endsInPoint_join]
  · rw [(createDirectories_congr (h.missing.alike hsite) _).1,
      h.createDirectories hname hbytes hshort]

/-! ## Directories out of reach -/

/-- No path to the directory or to what has a name in it leads anywhere, since it is too long or has
a name that is. -/
structure Unreachable (t : FileTree) (directory : String) : Prop where
  ne_empty : directory ≠ ""
  locate : ∀ follow, t.locate follow directory = .error .nameTooLong
  locateDirectory : t.locateDirectory directory = .error .nameTooLong
  locate_join : ∀ name, FilePath.Plain name → ∀ follow,
    t.locate follow (FilePath.join directory name) = .error .nameTooLong

/-- A path may be too long by itself. -/
theorem Unreachable.of_long
    (t : FileTree) (hempty : directory ≠ "") (hnul : '\x00' ∉ directory.toList)
    (hlong : maxPathBytes < directory.utf8ByteSize) :
    Unreachable t directory := by
  refine ⟨hempty, fun follow => resolve_of_long t follow _ hempty hnul hlong,
    resolve_of_long t false _ hempty hnul hlong, fun name hname follow => ?_⟩
  have hsize : directory.utf8ByteSize + name.utf8ByteSize ≤
      (FilePath.join directory name).utf8ByteSize :=
    (FilePath.utf8ByteSize_join hname.head?_ne).1
  refine resolve_of_long t follow _ (FilePath.join_ne_empty hempty hname.head?_ne) ?_ (by omega)
  rw [FilePath.nul_mem_join hname.head?_ne hname.nulFree]
  exact hnul

/-- The name of the directory may be too long. -/
theorem Unreachable.of_name
    (hnul : '\x00' ∉ root.toList)
    (hleads : t.resolveFrom true maxLinks [] (FilePath.names root) = .ok ⟨loc, some .directory⟩)
    (hname : FilePath.Plain name) (hbytes : maxNameBytes < name.utf8ByteSize) :
    Unreachable t (FilePath.join root name) := by
  have hempty := hname.join_ne_empty root
  have hnul : '\x00' ∉ (FilePath.join root name).toList := by
    rw [FilePath.nul_mem_join hname.head?_ne hname.nulFree]
    exact hnul
  have hbeyond : ∀ follow rest, t.resolveFrom follow maxLinks []
      (FilePath.names root ++ name :: rest) = .error .nameTooLong := by
    intro follow rest
    have hgoes := resolveFrom_append t follow (List.cons_ne_nil name rest) maxLinks []
      (FilePath.names root)
    rw [hleads] at hgoes
    obtain ⟨left, -, hwhole⟩ := hgoes
    rw [hwhole, resolveFrom_cons, step, if_neg hname.ne_point, if_neg hname.ne_points,
      if_pos hbytes]
  by_cases hlong : maxPathBytes < (FilePath.join root name).utf8ByteSize
  · exact .of_long t hempty hnul hlong
  · have hshort := Nat.not_lt.mp hlong
    refine ⟨hempty, fun follow => ?_, ?_, fun other hother follow => ?_⟩
    · rw [FileTree.locate, resolve_eq t follow _ hempty hnul hshort, hname.lookupNames_join]
      exact hbeyond follow []
    · rw [FileTree.locateDirectory, resolve_eq t false _ hempty hnul hshort,
        hname.directoryNames_join]
      exact hbeyond false []
    · have hempty' := FilePath.join_ne_empty hempty hother.head?_ne
      have hnul' : '\x00' ∉ (FilePath.join (FilePath.join root name) other).toList := by
        rw [FilePath.nul_mem_join hother.head?_ne hother.nulFree]
        exact hnul
      by_cases hlong' : maxPathBytes <
          (FilePath.join (FilePath.join root name) other).utf8ByteSize
      · exact resolve_of_long t follow _ hempty' hnul' hlong'
      · rw [FileTree.locate, resolve_eq t follow _ hempty' hnul' (Nat.not_lt.mp hlong'),
          hother.lookupNames_join, hname.names_join, List.append_assoc]
        exact hbeyond follow [other]

/-- A directory out of reach cannot be made. -/
theorem Unreachable.createDirectories
    (h : Unreachable t directory) :
    t.createDirectories directory = (.error .nameTooLong, t) := by
  have hempty : directory.isEmpty = false := by simpa using h.ne_empty
  have hmake : t.createDirectory directory = .error .nameTooLong := by
    rw [createDirectory, h.locateDirectory]
  have hthere : t.isDirectory directory = false := by
    rw [isDirectory, h.locate]
  rw [createDirectories_eq, hempty, createDirectoriesFrom, createDirectoryBelow_none, hmake]
  simp [hthere]

end FileTree
end DocumentTables
