import DocumentTables.Files.Calls
import DocumentTables.Proofs.PathResolution

/-!
# The directory of a store

A path leads to a directory of which nothing but the directory itself is known to the tree: what is
put into it are files, by the names they have there, and it may be removed and made again.  The
calls on the path of the directory and on the paths of the files in it are described by what stands
there, however the path leads there.

**Results.**

* `FileTree.resolveFrom_found`: what a path finds stands where it leads.
* `FileTree.Present`, `FileTree.Missing`: the tree while the directory is there and while it is not.
* `FileTree.Present.locate_join`, `FileTree.Missing.locate_join`: where the paths of files lead.
* `FileTree.Store.createDirectories`, `FileTree.Present.removeDirectory`: making the directory and
  removing it.
* `FileTree.namesIn_put`, `FileTree.namesIn_erase`: the names in a directory.
-/

namespace DocumentTables
namespace FileTree

variable {full t : FileTree} {follow : Bool} {links : Nat} {here loc home : Location}
  {directory path name : String} {names : List String} {node : Node}

/-! ## What a path finds -/

/-- A name leads to a directory above, or to one that stands there. -/
theorem step_enter
    {next : Location} (h : t.step here name = .enter next) :
    next <+: here ∨ next = here ++ [name] ∧ t.find? next = some .directory := by
  rw [step] at h
  split at h
  · cases h
    exact .inl List.prefix_rfl
  · split at h
    · cases h
      exact .inl (List.dropLast_prefix here)
    · split at h
      · cases h
      · split at h
        · cases h
        · next hfind =>
            cases h
            exact .inr ⟨rfl, hfind⟩
        · cases h
        · cases h

/-- A file that a name leads to stands there. -/
theorem step_file
    {content : ByteArray} (h : t.step here name = .file content) :
    t.find? (here ++ [name]) = some (.file content) := by
  rw [step] at h
  split at h
  · cases h
  · split at h
    · cases h
    · split at h
      · cases h
      · split at h <;> cases h
        assumption

/-- A link that a name leads to stands there. -/
theorem step_link
    {target : String} (h : t.step here name = .link target) :
    t.find? (here ++ [name]) = some (.link target) := by
  rw [step] at h
  split at h
  · cases h
  · split at h
    · cases h
    · split at h
      · cases h
      · split at h <;> cases h
        assumption

/-- What a path finds stands where it leads, if the directories on the way stand in each other. -/
theorem resolveFrom_found
    (hhere : ∀ above, above <+: here → t.find? above = some .directory)
    (h : t.resolveFrom follow links here names = .ok ⟨loc, some node⟩) :
    t.find? loc = some node := by
  induction links, here, names using resolve_induction with
  | nil links here =>
      rw [resolveFrom_nil] at h
      cases h
      exact hhere _ List.prefix_rfl
  | cons links here name names ihnames ihlinks =>
      rw [resolveFrom_cons] at h
      cases hstep : t.step here name with
      | enter next =>
          rw [hstep] at h
          refine ihnames next ?_ h
          intro above habove
          rcases step_enter hstep with hnext | ⟨rfl, hnext⟩
          · exact hhere above (habove.trans hnext)
          · rcases List.prefix_concat_iff.mp habove with rfl | habove
            · exact hnext
            · exact hhere above habove
      | tooLong =>
          rw [hstep] at h
          cases h
      | missing =>
          rw [hstep] at h
          simp only at h
          split at h <;> cases h
      | file content =>
          rw [hstep] at h
          simp only at h
          split at h
          · cases h
            exact step_file hstep
          · cases h
      | link target =>
          rw [hstep] at h
          simp only at h
          split at h
          · cases h
            exact step_link hstep
          · cases links with
            | zero =>
                cases h
            | succ links =>
                refine ihlinks links _ _ (Nat.lt_succ_self _) ?_ h
                split
                · intro above habove
                  rw [List.prefix_nil.mp habove]
                  rfl
                · exact hhere

/-- A path that leads to a directory leads to it also with a point at the end. -/
theorem resolveFrom_point
    (follow : Bool)
    (h : t.resolveFrom true links here names = .ok ⟨loc, some .directory⟩) :
    t.resolveFrom follow links here (names ++ ["."]) = .ok ⟨loc, some .directory⟩ := by
  have hgoes := resolveFrom_append t follow (List.cons_ne_nil "." []) links here names
  rw [h] at hgoes
  obtain ⟨left, -, hwhole⟩ := hgoes
  rw [hwhole, resolveFrom_cons, step, if_pos rfl]
  exact resolveFrom_nil ..

/-- A path that is neither empty nor too long leads where its names lead. -/
theorem resolve_eq
    (t : FileTree) (follow : Bool) (names : List String) (hempty : path ≠ "")
    (hnul : '\x00' ∉ path.toList) (hshort : path.utf8ByteSize ≤ maxPathBytes) :
    t.resolve follow path names = t.resolveFrom follow maxLinks [] names := by
  rw [resolve, if_neg (by simpa using hempty), if_neg (by simpa using hnul),
    if_neg (Nat.not_lt.mpr hshort)]

theorem resolve_of_long
    (t : FileTree) (follow : Bool) (names : List String) (hempty : path ≠ "")
    (hnul : '\x00' ∉ path.toList) (hlong : maxPathBytes < path.utf8ByteSize) :
    t.resolve follow path names = .error .nameTooLong := by
  rw [resolve, if_neg (by simpa using hempty), if_neg (by simpa using hnul), if_pos hlong]

/-! ## Paths of directories -/

/-- A path leads to a directory, whatever is added to its names. -/
structure LeadsToDirectory (full : FileTree) (path : String) : Prop where
  ne_empty : path ≠ ""
  nulFree : '\x00' ∉ path.toList
  short : path.utf8ByteSize ≤ maxPathBytes
  names : ∃ loc, full.resolveFrom true maxLinks [] (FilePath.names path) =
    .ok ⟨loc, some .directory⟩

/-- A directory in a tree and a path that leads to it.  Nothing stands in the directory. -/
structure Site (full : FileTree) (directory : String) (home : Location) : Prop where
  ne_empty : directory ≠ ""
  nulFree : '\x00' ∉ directory.toList
  short : directory.utf8ByteSize ≤ maxPathBytes
  names : full.resolveFrom true maxLinks [] (FilePath.names directory) =
    .ok ⟨home, some .directory⟩
  unfollowed : full.resolveFrom false maxLinks [] (FilePath.lookupNames directory) =
    .ok ⟨home, some .directory⟩
  found : full.find? home = some .directory
  empty : ∀ loc, home <+: loc → loc ≠ home → full.find? loc = none

theorem Site.leadsToDirectory
    (hsite : Site full directory home) :
    LeadsToDirectory full directory := by
  exact ⟨hsite.ne_empty, hsite.nulFree, hsite.short, home, hsite.names⟩

theorem lookupNames_of_names
    (h : t.resolveFrom true links here (FilePath.names path) = .ok ⟨loc, some .directory⟩) :
    t.resolveFrom true links here (FilePath.lookupNames path) = .ok ⟨loc, some .directory⟩ := by
  rw [FilePath.lookupNames]
  split
  · exact resolveFrom_point true h
  · exact h

theorem directoryNames_of_names
    (h : t.resolveFrom true links here (FilePath.names path) = .ok ⟨loc, some .directory⟩) :
    t.resolveFrom true links here (FilePath.directoryNames path) =
      .ok ⟨loc, some .directory⟩ := by
  rw [FilePath.directoryNames]
  split
  · exact resolveFrom_point true h
  · exact h

/-- The paths above a path that leads to a directory do, too. -/
theorem LeadsToDirectory.of_mem_parents
    {above : String} (h : LeadsToDirectory full path) (habove : above ∈ FilePath.parents path) :
    LeadsToDirectory full above := by
  have hup := FilePath.Above.of_mem_parents habove
  obtain ⟨loc, hloc⟩ := h.names
  refine ⟨hup.ne_empty, fun hnul => h.nulFree (hup.toList.subset hnul), ?_, ?_⟩
  · obtain ⟨rest, hrest⟩ := hup.toList
    have hsize := h.short
    rw [← String.utf8Len_toList, ← hrest, String.utf8Len_append] at hsize
    rw [← String.utf8Len_toList]
    omega
  · obtain ⟨more, hmore⟩ := hup.names
    by_cases hnil : more = []
    · rw [hnil, List.append_nil] at hmore
      exact ⟨loc, by rw [hmore, hloc]⟩
    · have hgoes := resolveFrom_append full true hnil maxLinks [] (FilePath.names above)
      rw [hmore, hloc] at hgoes
      obtain ⟨next, -, hresult, -⟩ := hgoes.exists_directory
      exact ⟨next, hresult⟩

/-! ## The tree with the directory and without it -/

/-- The tree while the directory is there: it holds files only. -/
structure Present (full : FileTree) (home : Location) (t : FileTree) : Prop where
  agree : AgreeOff home full t
  found : t.find? home = some .directory
  flat : ∀ entry ∈ t.nodes, isBelow entry.1 home = true →
    ∃ name content, entry = (home ++ [name], .file content)

/-- The tree while the directory is not there. -/
structure Missing (full : FileTree) (home : Location) (t : FileTree) : Prop where
  agree : AgreeOff home full t
  ne_top : home ≠ []
  nothing : ∀ entry ∈ t.nodes, ¬ home <+: entry.1

/-- The tree of a store, which has nothing in the directory but files, if the directory is there. -/
def Store (full : FileTree) (home : Location) (t : FileTree) : Prop :=
  Present full home t ∨ Missing full home t

theorem isBelow_iff
    {other : Location} :
    isBelow loc other = true ↔ other <+: loc ∧ loc ≠ other := by
  simp [isBelow]

theorem mem_of_find?
    (h : t.find? loc = some node) (hloc : loc ≠ []) :
    (loc, node) ∈ t.nodes := by
  rw [find?, if_neg hloc, List.lookup_eq_some_iff] at h
  obtain ⟨before, after, hnodes, -⟩ := h
  simp [hnodes]

theorem Missing.find?_eq_none
    (h : Missing full home t) (hloc : home <+: loc) :
    t.find? loc = none := by
  cases hfind : t.find? loc with
  | none =>
      rfl
  | some node =>
      have hne : loc ≠ [] := by
        rintro rfl
        exact h.ne_top (List.prefix_nil.mp hloc)
      exact absurd hloc (h.nothing _ (mem_of_find? hfind hne))

/-- Below the directory stands nothing but files in it. -/
theorem Present.file_of_find?
    (h : Present full home t) (hloc : home <+: loc) (hne : loc ≠ home)
    (hfind : t.find? loc = some node) :
    ∃ name content, loc = home ++ [name] ∧ node = .file content := by
  have htop : loc ≠ [] := by
    rintro rfl
    exact hne (List.prefix_nil.mp hloc).symm
  obtain ⟨name, content, hentry⟩ :=
    h.flat _ (mem_of_find? hfind htop) (isBelow_iff.mpr ⟨hloc, hne⟩)
  exact ⟨name, content, congrArg Prod.fst hentry, congrArg Prod.snd hentry⟩

/-- A name in the directory is that of a file, or free. -/
theorem Present.find?_child
    (h : Present full home t) (name : String) :
    t.find? (home ++ [name]) = none ∨
      ∃ content, t.find? (home ++ [name]) = some (.file content) := by
  rcases hfind : t.find? (home ++ [name]) with _ | node
  · exact .inl rfl
  · obtain ⟨other, content, -, rfl⟩ :=
      h.file_of_find? (List.prefix_append home [name]) (by simp) hfind
    exact .inr ⟨content, rfl⟩

theorem Present.find?_child_ne_directory
    (h : Present full home t) (name : String) :
    t.find? (home ++ [name]) ≠ some .directory := by
  rcases h.find?_child name with hnone | ⟨content, hfile⟩
  · simp [hnone]
  · simp [hfile]

theorem Present.extends
    (h : Present full home t) (hsite : Site full directory home) :
    full.Extends t := by
  intro loc node hfind
  by_cases hloc : home <+: loc
  · by_cases hne : loc = home
    · rw [hne, hsite.found] at hfind
      rw [hne, h.found, hfind]
    · rw [hsite.empty loc hloc hne] at hfind
      cases hfind
  · rw [h.agree loc hloc, hfind]

/-! ## Where paths lead in the two trees -/

theorem LeadsToDirectory.locate
    (h : LeadsToDirectory t path) :
    ∃ loc, t.locate true path = .ok ⟨loc, some .directory⟩ := by
  obtain ⟨loc, hloc⟩ := h.names
  refine ⟨loc, ?_⟩
  rw [FileTree.locate, resolve_eq t true _ h.ne_empty h.nulFree h.short]
  exact lookupNames_of_names hloc

theorem LeadsToDirectory.isDirectory
    (h : LeadsToDirectory t path) :
    t.isDirectory path = true := by
  obtain ⟨loc, hloc⟩ := h.locate
  rw [FileTree.isDirectory, hloc]

/-- Where a directory is to be made stands one, or a link. -/
theorem LeadsToDirectory.locateDirectory
    (h : LeadsToDirectory t path) :
    ∃ loc node, t.locateDirectory path = .ok ⟨loc, some node⟩ := by
  obtain ⟨loc, hloc⟩ := h.names
  rw [FileTree.locateDirectory, resolve_eq t false _ h.ne_empty h.nulFree h.short]
  rcases resolveFrom_nofollow t maxLinks [] (FilePath.directoryNames path) with
    hsame | ⟨next, target, hlink⟩
  · exact ⟨loc, .directory, by rw [hsame, directoryNames_of_names hloc]⟩
  · exact ⟨next, .link target, hlink⟩

theorem LeadsToDirectory.of_extends
    {t' : FileTree} (h : LeadsToDirectory t path) (hextends : t.Extends t') :
    LeadsToDirectory t' path := by
  obtain ⟨loc, hloc⟩ := h.names
  exact ⟨h.ne_empty, h.nulFree, h.short, loc, resolveFrom_of_extends hextends hloc⟩

theorem Present.leads
    (h : Present full home t) (hsite : Site full directory home) :
    t.resolveFrom true maxLinks [] (FilePath.names directory) = .ok ⟨home, some .directory⟩ := by
  exact resolveFrom_of_extends (h.extends hsite) hsite.names

theorem Present.openDirectory
    (h : Present full home t) (hsite : Site full directory home) :
    t.openDirectory directory = .ok home := by
  rw [FileTree.openDirectory, locate, resolve_eq t true _ hsite.ne_empty hsite.nulFree hsite.short,
    lookupNames_of_names (h.leads hsite)]

theorem Present.locate_unfollowed
    (h : Present full home t) (hsite : Site full directory home) :
    t.locate false directory = .ok ⟨home, some .directory⟩ := by
  rw [locate, resolve_eq t false _ hsite.ne_empty hsite.nulFree hsite.short]
  exact resolveFrom_of_extends (h.extends hsite) hsite.unfollowed

/-- While the directory is missing, a path that leads into it finds nothing. -/
theorem Missing.resolveFrom
    (h : Missing full home t)
    (hfull : full.resolveFrom follow maxLinks [] names = .ok ⟨loc, some node⟩)
    (hloc : home <+: loc) :
    t.resolveFrom follow maxLinks [] names = .error .notFound ∨
      t.resolveFrom follow maxLinks [] names = .ok ⟨home, none⟩ := by
  have htop : ¬ home <+: [] := fun hnil => h.ne_top (List.prefix_nil.mp hnil)
  have hhome : t.find? home = none := h.find?_eq_none List.prefix_rfl
  rcases resolveFrom_without h.agree hhome htop follow maxLinks names with
    ⟨hsame, houtside⟩ | hmissing
  · rw [hfull] at hsame
    exact absurd hloc (houtside _ hsame)
  · exact hmissing

theorem Missing.locate
    (h : Missing full home t) (hsite : Site full directory home) (follow : Bool) :
    t.locate follow directory = .error .notFound ∨
      t.locate follow directory = .ok ⟨home, none⟩ := by
  rw [FileTree.locate, resolve_eq t follow _ hsite.ne_empty hsite.nulFree hsite.short]
  cases follow with
  | false =>
      exact h.resolveFrom hsite.unfollowed List.prefix_rfl
  | true =>
      exact h.resolveFrom (lookupNames_of_names hsite.names) List.prefix_rfl

theorem Missing.isDirectory
    (h : Missing full home t) (hsite : Site full directory home) :
    t.isDirectory directory = false := by
  rw [FileTree.isDirectory]
  rcases h.locate hsite true with hlocate | hlocate <;> rw [hlocate]

/-! ## Paths of files -/

/-- The path of a file in the directory is not too long, and neither is its name. -/
def Fits (directory name : String) : Prop :=
  (FilePath.join directory name).utf8ByteSize ≤ maxPathBytes ∧ name.utf8ByteSize ≤ maxNameBytes

theorem Site.locate_join
    (hsite : Site full directory home) (hname : FilePath.Plain name) (t : FileTree)
    (follow : Bool) :
    t.locate follow (FilePath.join directory name) =
      if maxPathBytes < (FilePath.join directory name).utf8ByteSize then .error .nameTooLong
      else t.resolveFrom follow maxLinks [] (FilePath.names directory ++ [name]) := by
  have hempty := FilePath.join_ne_empty hsite.ne_empty hname.head?_ne
  have hnul : '\x00' ∉ (FilePath.join directory name).toList := by
    rw [FilePath.nul_mem_join hname.head?_ne hname.nulFree]
    exact hsite.nulFree
  rw [locate, hname.lookupNames_join]
  split
  · next hlong => exact resolve_of_long t follow _ hempty hnul hlong
  · next hshort => exact resolve_eq t follow _ hempty hnul (Nat.not_lt.mp hshort)

/-- While the directory is there, the names of its path and one more lead to what has that name. -/
theorem Present.resolveFrom_child
    (h : Present full home t) (hsite : Site full directory home) (hname : FilePath.Plain name)
    (follow : Bool) :
    t.resolveFrom follow maxLinks [] (FilePath.names directory ++ [name]) =
      if maxNameBytes < name.utf8ByteSize then .error .nameTooLong
      else .ok ⟨home ++ [name], t.find? (home ++ [name])⟩ := by
  have hgoes := resolveFrom_append t follow (List.cons_ne_nil name []) maxLinks []
    (FilePath.names directory)
  rw [h.leads hsite] at hgoes
  obtain ⟨left, -, hwhole⟩ := hgoes
  rw [hwhole, resolveFrom_cons, step, if_neg hname.ne_point, if_neg hname.ne_points]
  by_cases hbytes : maxNameBytes < name.utf8ByteSize
  · rw [if_pos hbytes, if_pos hbytes]
  · rw [if_neg hbytes, if_neg hbytes]
    rcases h.find?_child name with hnone | ⟨content, hfile⟩
    · rw [hnone]
      rfl
    · rw [hfile]
      rfl

/-- While the directory is there, the path of a file in it leads to the file. -/
theorem Present.locate_join
    (h : Present full home t) (hsite : Site full directory home) (hname : FilePath.Plain name)
    (follow : Bool) (hfits : Fits directory name) :
    t.locate follow (FilePath.join directory name) =
      .ok ⟨home ++ [name], t.find? (home ++ [name])⟩ := by
  rw [hsite.locate_join hname t follow, if_neg (Nat.not_lt.mpr hfits.1),
    h.resolveFrom_child hsite hname follow, if_neg (Nat.not_lt.mpr hfits.2)]

/-- While the directory is missing, the path of a file in it leads nowhere. -/
theorem Missing.locate_join
    (h : Missing full home t) (hsite : Site full directory home) (hname : FilePath.Plain name)
    (follow : Bool) :
    t.locate follow (FilePath.join directory name) =
      .error (if maxPathBytes < (FilePath.join directory name).utf8ByteSize then .nameTooLong
        else .notFound) := by
  have hgoes := resolveFrom_append t follow (List.cons_ne_nil name []) maxLinks []
    (FilePath.names directory)
  rw [hsite.locate_join hname t follow]
  split
  · rfl
  · rcases h.resolveFrom hsite.names List.prefix_rfl with hresult | hresult
    · rw [hresult] at hgoes
      exact hgoes
    · rw [hresult] at hgoes
      exact hgoes

/-- A path that is too long, or has a name that is, leads nowhere. -/
theorem Store.locate_join_of_not_fits
    (h : Store full home t) (hsite : Site full directory home) (hname : FilePath.Plain name)
    (follow : Bool) (hfits : ¬ Fits directory name) :
    ∃ e, t.locate follow (FilePath.join directory name) = .error e := by
  rcases h with h | h
  · rw [hsite.locate_join hname t follow, h.resolveFrom_child hsite hname follow]
    by_cases hpath : maxPathBytes < (FilePath.join directory name).utf8ByteSize
    · exact ⟨.nameTooLong, if_pos hpath⟩
    · by_cases hbytes : maxNameBytes < name.utf8ByteSize
      · exact ⟨.nameTooLong, by rw [if_neg hpath, if_pos hbytes]⟩
      · exact absurd ⟨Nat.not_lt.mp hpath, Nat.not_lt.mp hbytes⟩ hfits
  · exact ⟨_, h.locate_join hsite hname follow⟩

/-! ## Making the directory -/

theorem LeadsToDirectory.createDirectory
    (h : LeadsToDirectory t path) :
    t.createDirectory path = .error .alreadyExists := by
  obtain ⟨loc, node, hlocate⟩ := h.locateDirectory
  rw [FileTree.createDirectory, hlocate]

/-- A directory that is there already will do. -/
theorem LeadsToDirectory.createDirectoryBelow
    (h : LeadsToDirectory t path) (faults : DeviceFaults)
    (createParent : FileTree → Except FileError Unit × FileTree) :
    t.createDirectoryBelow faults path createParent = (.ok (), t) := by
  rw [FileTree.createDirectoryBelow, createDirectoryOn, h.createDirectory]
  simp only [DeviceFaults.refuse, h.isDirectory, if_true]

theorem LeadsToDirectory.createDirectoriesOn
    (h : LeadsToDirectory t path) (faults : DeviceFaults) :
    t.createDirectoriesOn faults path = (.ok (), t) := by
  have hempty : path.isEmpty = false := by simpa using h.ne_empty
  rw [FileTree.createDirectoriesOn, hempty, createDirectoriesFrom, h.createDirectoryBelow]
  rfl

theorem LeadsToDirectory.createDirectories
    (h : LeadsToDirectory t path) :
    t.createDirectories path = (.ok (), t) := by
  exact h.createDirectoriesOn .none

/-- Where a directory leads through the missing one, only that one can be made. -/
theorem Missing.createDirectory
    (h : Missing full home t) (hpath : LeadsToDirectory full path) :
    t.createDirectory path = .error .alreadyExists ∨ t.createDirectory path = .error .notFound ∨
      t.createDirectory path = .ok (t.put home .directory) := by
  obtain ⟨loc, node, hlocate⟩ := hpath.locateDirectory
  have htop : ¬ home <+: [] := fun hnil => h.ne_top (List.prefix_nil.mp hnil)
  have hhome : t.find? home = none := h.find?_eq_none List.prefix_rfl
  rw [locateDirectory, resolve_eq full false _ hpath.ne_empty hpath.nulFree hpath.short] at hlocate
  rw [FileTree.createDirectory, locateDirectory,
    resolve_eq t false _ hpath.ne_empty hpath.nulFree hpath.short]
  rcases resolveFrom_without h.agree hhome htop false maxLinks (FilePath.directoryNames path) with
    ⟨hsame, -⟩ | hresult | hresult
  · rw [hsame, hlocate]
    exact .inl rfl
  · rw [hresult]
    exact .inr (.inl rfl)
  · rw [hresult]
    exact .inr (.inr rfl)

theorem AgreeOff.put
    (h : AgreeOff home full t) (hloc : home <+: loc) (node : Node) :
    AgreeOff home full (t.put loc node) := by
  intro other hother
  have hne : other ≠ loc := by
    rintro rfl
    exact hother hloc
  rw [find?_put_of_ne t node hne, h other hother]

theorem AgreeOff.erase
    (h : AgreeOff home full t) (hloc : home <+: loc) :
    AgreeOff home full (t.erase loc) := by
  intro other hother
  have hne : other ≠ loc := by
    rintro rfl
    exact hother hloc
  rw [find?_erase_of_ne t hne, h other hother]

theorem Missing.put_home
    (h : Missing full home t) :
    Present full home (t.put home .directory) := by
  refine ⟨h.agree.put List.prefix_rfl _, find?_put_self t _ h.ne_top, ?_⟩
  intro entry hentry hbelow
  rw [put, List.mem_cons] at hentry
  rcases hentry with rfl | hentry
  · exact absurd rfl (isBelow_iff.mp hbelow).2
  · exact absurd (isBelow_iff.mp hbelow).1 (h.nothing _ (List.mem_of_mem_filter hentry))

/-- One directory on the way is made: the tree is the same afterwards, or it has the missing
directory. -/
theorem Missing.createDirectoryBelow
    (h : Missing full home t) (hsite : Site full directory home)
    (hpath : LeadsToDirectory full path)
    {createParent : FileTree → Except FileError Unit × FileTree}
    (hparent : (createParent t).2 = t ∨ (createParent t).2 = t.put home .directory) :
    (t.createDirectoryBelow .none path createParent).2 = t.put home .directory ∨
      (t.createDirectoryBelow .none path createParent).2 = t ∧
        ((t.createDirectoryBelow .none path createParent).1 = .ok () → t.isDirectory path = true) := by
  rw [createDirectoryBelow_none]
  rcases h.createDirectory hpath with hresult | hresult | hresult
  · rw [hresult]
    simp only
    split
    · next hdirectory => exact .inr ⟨rfl, fun _ => hdirectory⟩
    · exact .inr ⟨rfl, by rintro ⟨⟩⟩
  · rw [hresult]
    simp only
    generalize createParent t = made at hparent
    obtain ⟨result, after⟩ := made
    cases result with
    | error e =>
        rcases hparent with rfl | rfl
        · exact .inr ⟨rfl, by rintro ⟨⟩⟩
        · exact .inl rfl
    | ok =>
        rcases hparent with rfl | rfl
        · simp only [hresult]
          split
          · next hdirectory => exact .inr ⟨rfl, fun _ => hdirectory⟩
          · exact .inr ⟨rfl, by rintro ⟨⟩⟩
        · have hthere := hpath.of_extends (h.put_home.extends hsite)
          simp only [hthere.createDirectory, hthere.isDirectory, if_true]
          exact .inl trivial
  · rw [hresult]
    exact .inl rfl

theorem Missing.createDirectoriesFrom
    (h : Missing full home t) (hsite : Site full directory home) (paths : List String)
    (hpaths : ∀ path ∈ paths, LeadsToDirectory full path) :
    (createDirectoriesFrom .none paths t).2 = t ∨
      (createDirectoriesFrom .none paths t).2 = t.put home .directory := by
  induction paths with
  | nil =>
      exact .inl rfl
  | cons path above ih =>
      have hparent := ih fun p hp => hpaths p (List.mem_cons_of_mem _ hp)
      rcases h.createDirectoryBelow hsite (hpaths path List.mem_cons_self) hparent with
        hresult | ⟨hresult, -⟩
      · exact .inr hresult
      · exact .inl hresult

/-- The files of the directory are the same in both trees. -/
structure SameFiles (home : Location) (t t' : FileTree) : Prop where
  find? : ∀ name, t'.find? (home ++ [name]) = t.find? (home ++ [name])
  namesIn : t'.namesIn home = t.namesIn home

theorem SameFiles.refl
    (home : Location) (t : FileTree) :
    SameFiles home t t := by
  exact ⟨fun _ => rfl, rfl⟩

theorem sameFiles_put_home
    (t : FileTree) (home : Location) :
    SameFiles home t (t.put home .directory) := by
  refine ⟨fun name => find?_put_of_ne t _ (by simp), ?_⟩
  have hhome : ¬ (home.dropLast = home ∧ home ≠ []) := by
    rintro ⟨hsame, hne⟩
    have hlength := congrArg List.length hsame
    have hpos := List.length_pos_of_ne_nil hne
    rw [List.length_dropLast] at hlength
    omega
  rw [put, FileTree.namesIn, FileTree.namesIn, List.filterMap_cons, if_neg hhome]
  simp only
  induction t.nodes with
  | nil =>
      rfl
  | cons entry entries ih =>
      by_cases hentry : entry.1 = home
      · rw [List.filter_cons_of_neg (by simpa using hentry), ih, List.filterMap_cons, hentry,
          if_neg hhome]
      · rw [List.filter_cons_of_pos (by simpa using hentry), List.filterMap_cons,
          List.filterMap_cons, ih]

/-- After the directory of a store was made it is there, and unless that succeeds the tree may be
the same as before. -/
theorem Store.createDirectories
    (h : Store full home t) (hsite : Site full directory home) :
    Present full home (t.createDirectories directory).2 ∧
        SameFiles home t (t.createDirectories directory).2 ∨
      (t.createDirectories directory).1 ≠ .ok () ∧ (t.createDirectories directory).2 = t := by
  have hempty : directory.isEmpty = false := by simpa using hsite.ne_empty
  rw [createDirectories_eq, hempty]
  simp only [Bool.false_eq_true, if_false]
  rcases h with h | h
  · have hthere := hsite.leadsToDirectory.of_extends (h.extends hsite)
    rw [FileTree.createDirectoriesFrom, hthere.createDirectoryBelow]
    exact .inl ⟨h, SameFiles.refl home t⟩
  · have hparent := h.createDirectoriesFrom hsite (FilePath.parents directory) fun p hp =>
      hsite.leadsToDirectory.of_mem_parents hp
    rcases h.createDirectoryBelow hsite hsite.leadsToDirectory hparent with
      hresult | ⟨hresult, hok⟩
    · refine .inl ?_
      rw [FileTree.createDirectoriesFrom, hresult]
      exact ⟨h.put_home, sameFiles_put_home t home⟩
    · refine .inr ⟨fun h' => ?_, hresult⟩
      have hthere := hok h'
      rw [h.isDirectory hsite] at hthere
      cases hthere

/-! ## Changes in the directory -/

theorem isBelow_child
    (home : Location) (name : String) :
    isBelow (home ++ [name]) home = true := by
  exact isBelow_iff.mpr ⟨List.prefix_append home [name], by simp⟩

theorem child_ne
    (home : Location) (name : String) :
    home ++ [name] ≠ home := by
  simp

theorem Present.put
    (h : Present full home t) (name : String) (content : ByteArray) :
    Present full home (t.put (home ++ [name]) (.file content)) := by
  refine ⟨h.agree.put (List.prefix_append home [name]) _, ?_, ?_⟩
  · rw [find?_put_of_ne t _ (child_ne home name).symm, h.found]
  · intro entry hentry hbelow
    rw [FileTree.put, List.mem_cons] at hentry
    rcases hentry with rfl | hentry
    · exact ⟨name, content, rfl⟩
    · exact h.flat entry (List.mem_of_mem_filter hentry) hbelow

theorem Present.erase
    (h : Present full home t) (name : String) :
    Present full home (t.erase (home ++ [name])) := by
  refine ⟨h.agree.erase (List.prefix_append home [name]), ?_, ?_⟩
  · rw [find?_erase_of_ne t (child_ne home name).symm, h.found]
  · intro entry hentry hbelow
    exact h.flat entry (List.mem_of_mem_filter hentry) hbelow

/-- What stands at a location that is kept when others are removed. -/
theorem find?_filter
    {keep : Location × Node → Bool} (hkeep : ∀ node, keep (loc, node) = true) :
    FileTree.find? ⟨t.nodes.filter keep⟩ loc = t.find? loc := by
  rw [find?, find?]
  split
  · rfl
  · induction t.nodes with
    | nil =>
        rfl
    | cons entry entries ih =>
        obtain ⟨other, node⟩ := entry
        by_cases hloc : loc = other
        · subst hloc
          rw [List.filter_cons_of_pos (hkeep node)]
          simp
        · rw [List.filter_cons]
          split
          · rw [List.lookup_cons, List.lookup_cons, ih]
          · rw [List.lookup_cons, beq_eq_false_iff_ne.mpr hloc, ih]

theorem find?_eraseBelow
    (t : FileTree) {loc : Location} (h : isBelow loc home = false) :
    (t.eraseBelow home).find? loc = t.find? loc := by
  exact find?_filter fun node => by simp [h]

theorem Present.eraseBelow
    (h : Present full home t) :
    Present full home (t.eraseBelow home) := by
  refine ⟨?_, ?_, ?_⟩
  · intro loc hloc
    have hbelow : isBelow loc home = false := by
      rw [Bool.eq_false_iff]
      exact fun hbelow => hloc (isBelow_iff.mp hbelow).1
    rw [find?_eraseBelow t hbelow, h.agree loc hloc]
  · rw [find?_eraseBelow t (by simp [isBelow]), h.found]
  · intro entry hentry hbelow
    exact h.flat entry (List.mem_of_mem_filter hentry) hbelow

theorem find?_eraseBelow_of_below
    (t : FileTree) (h : isBelow loc home = true) :
    (t.eraseBelow home).find? loc = none := by
  have hne : loc ≠ [] := by
    rintro rfl
    obtain ⟨hstarts, htop⟩ := isBelow_iff.mp h
    exact htop (List.prefix_nil.mp hstarts).symm
  cases hfind : (t.eraseBelow home).find? loc with
  | none =>
      rfl
  | some node =>
      have hkept := (List.mem_filter.mp (mem_of_find? hfind hne)).2
      simp [h] at hkept

/-- Without its contents and itself the directory is missing, unless it is the top. -/
theorem Present.eraseBelow_erase
    (h : Present full home t) :
    Store full home ((t.eraseBelow home).erase home) := by
  by_cases htop : home = []
  · subst htop
    refine .inl ⟨fun loc hloc => absurd List.nil_prefix hloc, rfl, ?_⟩
    intro entry hentry hbelow
    exact h.flat entry (List.mem_of_mem_filter (List.mem_of_mem_filter hentry)) hbelow
  · refine .inr ⟨h.eraseBelow.agree.erase List.prefix_rfl, htop, ?_⟩
    intro entry hentry hstarts
    rw [FileTree.erase, List.mem_filter, FileTree.eraseBelow, List.mem_filter] at hentry
    obtain ⟨⟨-, hbelow⟩, hne⟩ := hentry
    have hdown : isBelow entry.1 home = true := isBelow_iff.mpr ⟨hstarts, by simpa using hne⟩
    rw [hdown] at hbelow
    cases hbelow

/-! ## The names in the directory -/

theorem namesIn_put
    (t : FileTree) (home : Location) (name : String) (node : Node) :
    (t.put (home ++ [name]) node).namesIn home =
      name :: (t.erase (home ++ [name])).namesIn home := by
  rw [put, namesIn, List.filterMap_cons]
  simp [namesIn, FileTree.erase]

theorem namesIn_erase
    (t : FileTree) (home : Location) (name : String) :
    (t.erase (home ++ [name])).namesIn home = (t.namesIn home).filter (· ≠ name) := by
  rw [FileTree.erase, namesIn, namesIn]
  induction t.nodes with
  | nil =>
      rfl
  | cons entry entries ih =>
      obtain ⟨loc, node⟩ := entry
      by_cases hchild : loc.dropLast = home ∧ loc ≠ []
      · obtain ⟨hhome, htop⟩ := hchild
        obtain ⟨other, rfl⟩ : ∃ other, loc = home ++ [other] :=
          ⟨loc.getLast htop, by rw [← hhome, List.dropLast_append_getLast]⟩
        by_cases hname : other = name
        · simp [hname] at ih ⊢
          exact ih
        · simp [hname] at ih ⊢
          exact ih
      · have hloc : loc ≠ home ++ [name] := by
          rintro rfl
          simp at hchild
        rw [List.filter_cons_of_pos (by simpa using hloc), List.filterMap_cons,
          List.filterMap_cons, if_neg hchild]
        exact ih

theorem mem_namesIn_iff
    {home : Location} :
    name ∈ t.namesIn home ↔ ∃ node, (home ++ [name], node) ∈ t.nodes := by
  rw [namesIn, List.mem_filterMap]
  constructor
  · rintro ⟨⟨loc, node⟩, hentry, hname⟩
    simp only at hname
    split at hname
    · next hchild =>
        have hloc : loc = home ++ [name] := by
          rw [← hchild.1, List.dropLast_append_getLast? name hname]
        exact ⟨node, hloc ▸ hentry⟩
    · cases hname
  · rintro ⟨node, hentry⟩
    exact ⟨_, hentry, by simp⟩

theorem mem_namesIn_iff_find?
    {home : Location} :
    name ∈ t.namesIn home ↔ (t.find? (home ++ [name])).isSome = true := by
  rw [mem_namesIn_iff, find?, if_neg (by simp)]
  constructor
  · rintro ⟨node, hentry⟩
    rw [Option.isSome_iff_ne_none, ne_eq, List.lookup_eq_none_iff]
    exact fun hnone => by simpa using hnone _ hentry
  · intro hfind
    obtain ⟨node, hnode⟩ := Option.isSome_iff_exists.mp hfind
    obtain ⟨before, after, hnodes, -⟩ := List.lookup_eq_some_iff.mp hnode
    exact ⟨node, by simp [hnodes]⟩

theorem namesIn_eq_nil
    {home : Location} (h : ∀ name, t.find? (home ++ [name]) = none) :
    t.namesIn home = [] := by
  rw [List.eq_nil_iff_forall_not_mem]
  intro name hname
  rw [mem_namesIn_iff_find?, h name] at hname
  cases hname

theorem Missing.namesIn_eq_nil
    (h : Missing full home t) :
    t.namesIn home = [] := by
  exact FileTree.namesIn_eq_nil fun name => h.find?_eq_none (List.prefix_append home [name])

theorem namesIn_eraseBelow
    (t : FileTree) (home : Location) :
    (t.eraseBelow home).namesIn home = [] := by
  exact namesIn_eq_nil fun name => find?_eraseBelow_of_below t (isBelow_child home name)

theorem namesIn_eraseBelow_erase
    (t : FileTree) (home : Location) :
    ((t.eraseBelow home).erase home).namesIn home = [] := by
  refine namesIn_eq_nil fun name => ?_
  rw [find?_erase_of_ne _ (child_ne home name)]
  exact find?_eraseBelow_of_below t (isBelow_child home name)

/-! ## Removing the directory -/

/-- Among files there is nothing to do before a directory is removed. -/
theorem removeLinksAmong_of_files
    {entries : List (String × Node)}
    (h : ∀ entry ∈ entries, ∃ content, entry.2 = .file content) :
    removeLinksAmong path entries t = (.ok (), t) := by
  induction entries with
  | nil =>
      rfl
  | cons entry entries ih =>
      obtain ⟨name, node⟩ := entry
      obtain ⟨content, hnode⟩ := h _ List.mem_cons_self
      simp only at hnode
      subst hnode
      exact ih fun other hother => h other (List.mem_cons_of_mem _ hother)

theorem Present.removeLinks
    (h : Present full home t) (hsite : Site full directory home) :
    t.removeLinks directory = (.ok (), t) := by
  rw [FileTree.removeLinks, h.openDirectory hsite]
  refine removeLinksAmong_of_files fun entry hentry => ?_
  rw [contents, nodesBelow, List.mem_map] at hentry
  obtain ⟨below, hbelow, rfl⟩ := hentry
  rw [List.mem_mergeSort, List.mem_filter] at hbelow
  obtain ⟨name, content, rfl⟩ := h.flat _ hbelow.1 hbelow.2
  exact ⟨content, rfl⟩

theorem Present.isPresent
    (h : Present full home t) (hsite : Site full directory home) :
    t.isPresent directory = true := by
  rw [FileTree.isPresent, h.locate_unfollowed hsite]

theorem Missing.isPresent
    (h : Missing full home t) (hsite : Site full directory home) :
    t.isPresent directory = false := by
  rw [FileTree.isPresent]
  rcases h.locate hsite false with hlocate | hlocate <;> rw [hlocate]

/-- The path of the directory leads to it where it is to be removed, or to a link. -/
theorem Present.locateDirectory
    (h : Present full home t) (hsite : Site full directory home) :
    t.locateDirectory directory = .ok ⟨home, some .directory⟩ ∨
      ∃ loc target, t.locateDirectory directory = .ok ⟨loc, some (.link target)⟩ := by
  rw [FileTree.locateDirectory,
    resolve_eq t false _ hsite.ne_empty hsite.nulFree hsite.short]
  rcases resolveFrom_nofollow t maxLinks [] (FilePath.directoryNames directory) with hsame | hlink
  · exact .inl (by rw [hsame, directoryNames_of_names (h.leads hsite)])
  · exact .inr hlink

theorem Present.removeEmptyDirectory
    (h : Present full home t) (hsite : Site full directory home) :
    t.removeEmptyDirectory directory = .ok (t.erase home) ∨
      ∃ e, e ≠ .notFound ∧ t.removeEmptyDirectory directory = .error e := by
  rw [FileTree.removeEmptyDirectory]
  rcases h.locateDirectory hsite with hlocate | ⟨loc, target, hlocate⟩
  · rw [hlocate]
    simp only
    split
    · exact .inr ⟨.invalidArgument, by simp, rfl⟩
    · split
      · refine .inr ⟨_, ?_, rfl⟩
        split <;> simp
      · exact .inl rfl
  · rw [hlocate]
    exact .inr ⟨.notDirectory, by simp, rfl⟩

/-- When the directory is removed its contents go, and then it goes itself, if it can. -/
theorem Present.removeDirectory
    (h : Present full home t) (hsite : Site full directory home) :
    t.removeDirectory directory = (.ok (), (t.eraseBelow home).erase home) ∨
      (t.removeDirectory directory).2 = t.eraseBelow home := by
  rw [FileTree.removeDirectory, h.locate_unfollowed hsite]
  rcases h.eraseBelow.removeEmptyDirectory hsite with hresult | ⟨e, hfailed, hresult⟩
  · simp only [hresult]
    exact .inl trivial
  · simp only [hresult]
    exact .inr trivial

end FileTree
end DocumentTables
