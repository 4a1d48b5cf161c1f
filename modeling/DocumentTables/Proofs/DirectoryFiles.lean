import DocumentTables.Proofs.StoreRoot

/-!
# Paths into a directory

A path that ends in a plain name leads into the directory before it, to what has that name there.  So
what a call does at such a path can be said in terms of the place, however the directory is reached.

**Results.**

* `FileTree.locate_join_eq_ok`, `FileTree.Reaches.locate_join`: where a path leads that ends in a
  plain name.
* `FileTree.Reaches.exists_above`: where the directory above is.
* `FileTree.writeFile_join`, `FileTree.removeFile_join`, `FileTree.rename_join`: calls on a file in a
  directory.
* `FileTree.resolveFrom_past_file`: a path to a directory does not depend on a file.
-/

namespace DocumentTables
namespace FileTree

variable {t t' : FileTree} {follow : Bool} {links left : Nat} {here loc entry home : Location}
  {directory path name source target : String} {names : List String} {place : Place}
  {content : ByteArray}

/-! ## Paths that end in a plain name -/

/-- The names of a path lead to a directory.  Links on the way and at the end are followed. -/
def Reaches (t : FileTree) (path : String) (home : Location) : Prop :=
  t.resolveFrom true maxLinks [] (FilePath.names path) = .ok ⟨home, some .directory⟩

theorem Reaches.unique
    {other : Location} (h : t.Reaches path home) (h' : t.Reaches path other) :
    home = other := by
  rw [Reaches, h] at h'
  cases h'
  rfl

theorem Reaches.of_extends
    (h : t.Reaches path home) (hextends : t.Extends t') :
    t'.Reaches path home := by
  exact resolveFrom_of_extends hextends h

theorem LeadsToDirectory.exists_reaches
    (h : LeadsToDirectory t path) :
    ∃ home, t.Reaches path home := by
  exact h.names

/-- A plain name leads to what has it, unless that is a link to be followed. -/
theorem resolveFrom_child
    (hname : FilePath.Plain name) (hbytes : name.utf8ByteSize ≤ maxNameBytes)
    (hlink : follow = false ∨ ∀ target, t.find? (home ++ [name]) ≠ some (.link target)) :
    t.resolveFrom follow left home [name] = .ok ⟨home ++ [name], t.find? (home ++ [name])⟩ := by
  rw [resolveFrom_cons, step, if_neg hname.ne_point, if_neg hname.ne_points,
    if_neg (Nat.not_lt.mpr hbytes)]
  cases hfind : t.find? (home ++ [name]) with
  | none =>
      rfl
  | some node =>
      cases node with
      | directory =>
          exact resolveFrom_nil t follow left _
      | file content =>
          rfl
      | link target =>
          rcases hlink with rfl | hlink
          · rfl
          · exact absurd hfind (hlink target)

/-- A path that ends in a plain name leads into the directory before it. -/
theorem locate_join_eq_ok
    (hname : FilePath.Plain name)
    (h : t.locate false (FilePath.join directory name) = .ok place) :
    ∃ home, t.Reaches directory home ∧ name.utf8ByteSize ≤ maxNameBytes ∧
      place = ⟨home ++ [name], t.find? (home ++ [name])⟩ := by
  have hresult := (resolve_eq_ok h).2.2.2
  rw [hname.lookupNames_join] at hresult
  have hgoes := resolveFrom_append t false (List.cons_ne_nil name []) maxLinks []
    (FilePath.names directory)
  rw [hresult] at hgoes
  obtain ⟨home, left, hhome, hchild⟩ := hgoes.exists_directory
  have hbytes : name.utf8ByteSize ≤ maxNameBytes := by
    refine Nat.not_lt.mp fun hlong => ?_
    rw [resolveFrom_cons, step, if_neg hname.ne_point, if_neg hname.ne_points, if_pos hlong]
      at hchild
    cases hchild
  rw [resolveFrom_child hname hbytes (.inl rfl)] at hchild
  cases hchild
  exact ⟨home, hhome, hbytes, rfl⟩

/-- Such a path can be looked up whatever stands there, unless a text is no path at all. -/
theorem Reaches.locate_join
    (h : t.Reaches directory home) (hname : FilePath.Plain name)
    (hnul : '\x00' ∉ directory.toList) (hfits : Fits directory name) :
    t.locate false (FilePath.join directory name) =
      .ok ⟨home ++ [name], t.find? (home ++ [name])⟩ := by
  have hnul' : '\x00' ∉ (FilePath.join directory name).toList := by
    rw [FilePath.nul_mem_join hname.head?_ne hname.nulFree]
    exact hnul
  have hgoes := resolveFrom_append t false (List.cons_ne_nil name []) maxLinks []
    (FilePath.names directory)
  rw [h] at hgoes
  obtain ⟨left, -, hwhole⟩ := hgoes
  rw [locate, hname.lookupNames_join,
    resolve_eq t false _ (hname.join_ne_empty directory) hnul' hfits.1, hwhole]
  exact resolveFrom_child hname hfits.2 (.inl rfl)

/-- A directory whose path has one name more than another one, which is not two points, has that name
in the directory of the other, or a link there leads to it. -/
theorem Reaches.exists_above
    {above : String} (h : t.Reaches path home)
    (hnames : FilePath.names path = FilePath.names above ++ [name])
    (hpoint : name ≠ ".") (hpoints : name ≠ "..") :
    ∃ parent, t.Reaches above parent ∧
      (home = parent ++ [name] ∨ ∃ target, t.find? (parent ++ [name]) = some (.link target)) := by
  rw [Reaches, hnames] at h
  have hgoes := resolveFrom_append t true (List.cons_ne_nil name []) maxLinks []
    (FilePath.names above)
  rw [h] at hgoes
  obtain ⟨parent, left, hparent, hchild⟩ := hgoes.exists_directory
  refine ⟨parent, hparent, ?_⟩
  rw [resolveFrom_cons, step, if_neg hpoint, if_neg hpoints] at hchild
  by_cases hlong : maxNameBytes < name.utf8ByteSize
  · rw [if_pos hlong] at hchild
    cases hchild
  · rw [if_neg hlong] at hchild
    cases hfind : t.find? (parent ++ [name]) with
    | none =>
        rw [hfind] at hchild
        cases hchild
    | some node =>
        rw [hfind] at hchild
        cases node with
        | directory =>
            simp only [resolveFrom_nil] at hchild
            cases hchild
            exact .inl rfl
        | file content =>
            cases hchild
        | link target =>
            exact .inr ⟨target, rfl⟩

theorem leadsToDirectory_iff :
    LeadsToDirectory t path ↔ t.isDirectory path = true := by
  refine ⟨LeadsToDirectory.isDirectory, fun h => ?_⟩
  rw [isDirectory] at h
  split at h
  · next loc hlocate =>
      obtain ⟨hempty, hnul, hshort, hresult⟩ := resolve_eq_ok hlocate
      exact ⟨hempty, hnul, hshort, loc, names_of_lookupNames hresult⟩
  · cases h

/-! ## Calls on a file in a directory -/

/-- Unless a link stands at the end of a path, it makes no difference whether that would be followed. -/
theorem locate_follow
    {result : Except FileError Place} (h : t.locate false path = result)
    (hlink : ∀ loc target, result ≠ .ok ⟨loc, some (.link target)⟩) :
    t.locate true path = result := by
  subst h
  rw [locate, resolve] at hlink
  rw [locate, locate, resolve, resolve]
  split
  · rfl
  · split
    · rfl
    · split
      · rfl
      · next hempty hnul hlong =>
          rw [if_neg hempty, if_neg hnul, if_neg hlong] at hlink
          rcases resolveFrom_nofollow t maxLinks [] (FilePath.lookupNames path) with
            hsame | ⟨other, target, hlinked⟩
          · exact hsame.symm
          · exact absurd hlinked (hlink other target)

section

variable (hreaches : t.Reaches directory home) (hnul : '\x00' ∉ directory.toList)
  (hsource : FilePath.Plain source) (hfits : Fits directory source)
include hreaches hnul hsource hfits

/-- A file is written where nothing stands, or into the file that is there. -/
theorem writeFile_join
    (hold : t.find? (home ++ [source]) = none ∨
      ∃ old, t.find? (home ++ [source]) = some (.file old)) (content : ByteArray) :
    t.writeFile (FilePath.join directory source) content =
      .ok (t.put (home ++ [source]) (.file content)) := by
  have hlocate := hreaches.locate_join hsource hnul hfits
  rw [writeFile, hsource.leadsToDirectory_join]
  rcases hold with hnone | ⟨old, hfile⟩
  · rw [hnone] at hlocate
    rw [locate_follow hlocate (by simp)]
    rfl
  · rw [hfile] at hlocate
    rw [locate_follow hlocate (by simp)]
    rfl

theorem removeFile_join
    (hfile : t.find? (home ++ [source]) = some (.file content)) :
    t.removeFile (FilePath.join directory source) = .ok (t.erase (home ++ [source])) := by
  rw [removeFile, hreaches.locate_join hsource hnul hfits, hfile]

variable (htarget : FilePath.Plain target) (hfits' : Fits directory target)
  (hfile : t.find? (home ++ [source]) = some (.file content))
include htarget hfits' hfile

/-- A file gets another name in its directory, unless a directory has it. -/
theorem rename_join
    (hold : t.find? (home ++ [target]) ≠ some .directory) :
    t.rename (FilePath.join directory source) (FilePath.join directory target) =
      .ok ((t.erase (home ++ [source])).put (home ++ [target]) (.file content)) := by
  rw [rename, hreaches.locate_join hsource hnul hfits, hreaches.locate_join htarget hnul hfits',
    hfile]
  rcases hfind : t.find? (home ++ [target]) with _ | _ | _ | _
  · rfl
  · exact absurd hfind hold
  · rfl
  · rfl

theorem rename_join_directory
    (hold : t.find? (home ++ [target]) = some .directory) :
    t.rename (FilePath.join directory source) (FilePath.join directory target) =
      .error .isDirectory := by
  rw [rename, hreaches.locate_join hsource hnul hfits, hreaches.locate_join htarget hnul hfits',
    hfile, hold]

end

/-- What is made where nothing stood and removed again leaves the tree as it was. -/
theorem find?_put_erase
    (hnone : t.find? loc = none) (hne : loc ≠ []) (node : Node) (other : Location) :
    ((t.put loc node).erase loc).find? other = t.find? other := by
  by_cases hloc : other = loc
  · rw [hloc, find?_erase_self _ hne, hnone]
  · rw [find?_erase_of_ne _ hloc, find?_put_of_ne t _ hloc]

/-! ## Paths past a file -/

/-- A path to a directory goes past a file, so it leads there whatever else has the file's place. -/
theorem resolveFrom_past_file
    (hothers : ∀ other, other ≠ entry → t'.find? other = t.find? other)
    (hfile : t'.find? entry = some (.file content))
    (h : t'.resolveFrom true links here names = .ok ⟨loc, some .directory⟩) :
    t.resolveFrom true links here names = .ok ⟨loc, some .directory⟩ := by
  induction links, here, names using resolve_induction with
  | nil links here =>
      rw [resolveFrom_nil] at h ⊢
      exact h
  | cons links here name names ihnames ihlinks =>
      rw [resolveFrom_cons] at h ⊢
      have hstep : t.step here name = t'.step here name ∨
          t'.step here name = .file content := by
        rw [step, step]
        split
        · exact .inl rfl
        · split
          · exact .inl rfl
          · split
            · exact .inl rfl
            · by_cases hentry : here ++ [name] = entry
              · rw [hentry, hfile]
                exact .inr rfl
              · rw [hothers _ hentry]
                exact .inl rfl
      rcases hstep with hstep | hstep
      · rw [hstep]
        cases hcase : t'.step here name with
        | enter next =>
            rw [hcase] at h
            exact ihnames next h
        | link target =>
            rw [hcase] at h
            simp only [not_true, and_false, if_false] at h ⊢
            cases links with
            | zero =>
                cases h
            | succ links =>
                exact ihlinks links _ _ (Nat.lt_succ_self _) h
        | _ =>
            rw [hcase] at h
            exact h
      · rw [hstep] at h
        simp only at h
        split at h <;> cases h

end FileTree
end DocumentTables
