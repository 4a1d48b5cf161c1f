import DocumentTables.Proofs.DirectoryFiles
import DocumentTables.Proofs.TreePruning

/-!
# Directories that are made on the way

To make a directory is to make those above it that are missing.  So a tree grows by directories only,
each of which stands where nothing stood and is what the path, or one above it, leads to.  A path
without two points never leads out of a new directory again, so that where it leads is new or was
reached before.

**Results.**

* `FileTree.createDirectoriesOn_grown`: what is made, even if the call fails.
* `FileTree.createDirectoriesOn_failed`: if it fails, the path does not lead to a directory.
* `FileTree.createDirectoriesOn_fresh`: a path without two points.
-/

namespace DocumentTables
namespace FileTree

variable {t t' t'' : FileTree} {follow : Bool} {links : Nat} {here loc home : Location}
  {path name : String} {names paths others : List String} {faults : DeviceFaults}

/-! ## Growing -/

theorem step_missing
    (h : t.step here name = .missing) :
    t.find? (here ++ [name]) = none := by
  rw [step] at h
  split at h
  · cases h
  · split at h
    · cases h
    · split at h
      · cases h
      · split at h <;> cases h
        assumption

/-- Where nothing stands at the end of a path, nothing stands in the tree. -/
theorem find?_of_resolveFrom_none
    (h : t.resolveFrom follow links here names = .ok ⟨loc, none⟩) :
    loc ≠ [] ∧ t.find? loc = none := by
  induction links, here, names using resolve_induction with
  | nil links here =>
      rw [resolveFrom_nil] at h
      cases h
  | cons links here name names ihnames ihlinks =>
      rw [resolveFrom_cons] at h
      cases hstep : t.step here name with
      | enter next =>
          rw [hstep] at h
          exact ihnames next h
      | tooLong =>
          rw [hstep] at h
          cases h
      | missing =>
          rw [hstep] at h
          simp only at h
          split at h <;> cases h
          exact ⟨by simp, step_missing hstep⟩
      | file content =>
          rw [hstep] at h
          simp only at h
          split at h <;> cases h
      | link target =>
          rw [hstep] at h
          simp only at h
          split at h
          · cases h
          · cases links with
            | zero =>
                cases h
            | succ links =>
                exact ihlinks links _ _ (Nat.lt_succ_self _) h

/-- What is missing at the end of a path is found there once it is made. -/
theorem resolveFrom_made
    (hextends : t.Extends t') (hmade : t'.find? loc = some .directory)
    (h : t.resolveFrom false links here names = .ok ⟨loc, none⟩) :
    t'.resolveFrom true links here names = .ok ⟨loc, some .directory⟩ := by
  induction links, here, names using resolve_induction with
  | nil links here =>
      rw [resolveFrom_nil] at h
      cases h
  | cons links here name names ihnames ihlinks =>
      rw [resolveFrom_cons] at h ⊢
      by_cases hmissing : t.step here name = .missing
      · rw [hmissing] at h
        simp only at h
        split at h <;> cases h
        next hlast =>
          have hstep : t'.step here name = .enter (here ++ [name]) := by
            rw [step] at hmissing ⊢
            split at hmissing
            · cases hmissing
            · split at hmissing
              · cases hmissing
              · split at hmissing
                · cases hmissing
                · next hpoint hpoints hlong =>
                    rw [if_neg hpoint, if_neg hpoints, if_neg hlong, hmade]
          rw [hstep, List.isEmpty_iff.mp hlast]
          exact resolveFrom_nil ..
      · rw [step_of_extends hextends hmissing]
        cases hstep : t.step here name with
        | enter next =>
            rw [hstep] at h
            exact ihnames next h
        | tooLong =>
            rw [hstep] at h
            cases h
        | missing =>
            exact absurd hstep hmissing
        | file content =>
            rw [hstep] at h
            simp only at h
            split at h <;> cases h
        | link target =>
            rw [hstep] at h
            simp only [Bool.false_eq_true, not_false_iff, and_true, not_true, and_false,
              if_false] at h ⊢
            split at h
            · cases h
            · cases links with
              | zero =>
                  cases h
              | succ links =>
                  exact ihlinks links _ _ (Nat.lt_succ_self _) h

/-- A tree has directories that another one has not, to which some paths lead, and is the same
otherwise. -/
def GrownBy (paths : List String) (t t' : FileTree) : Prop :=
  ∀ loc, t'.find? loc = t.find? loc ∨
    t.find? loc = none ∧ t'.find? loc = some .directory ∧ ∃ path ∈ paths, t'.Reaches path loc

theorem GrownBy.refl
    (paths : List String) (t : FileTree) :
    GrownBy paths t t := by
  exact fun _ => .inl rfl

theorem GrownBy.extends
    (h : GrownBy paths t t') :
    t.Extends t' := by
  intro loc node hfind
  rcases h loc with hsame | ⟨hnone, -, -⟩
  · rw [hsame, hfind]
  · rw [hfind] at hnone
    cases hnone

theorem GrownBy.trans
    (h : GrownBy paths t t') (h' : GrownBy others t' t'') (hpaths : paths ⊆ others) :
    GrownBy others t t'' := by
  intro loc
  rcases h' loc with hsame' | ⟨hnone', hmade', hway'⟩
  · rcases h loc with hsame | ⟨hnone, hmade, path, hpath, hreaches⟩
    · exact .inl (hsame'.trans hsame)
    · exact .inr ⟨hnone, hsame'.trans hmade, path, hpaths hpath,
        hreaches.of_extends h'.extends⟩
  · rcases h loc with hsame | ⟨-, hmade, -⟩
    · exact .inr ⟨hsame.symm.trans hnone', hmade', hway'⟩
    · rw [hmade] at hnone'
      cases hnone'

theorem GrownBy.mono
    (h : GrownBy paths t t') (hpaths : paths ⊆ others) :
    GrownBy others t t' := by
  exact h.trans (.refl others t') hpaths

/-- Files and links are where they were. -/
theorem GrownBy.find?_of_not_directory
    {node : Node} (h : GrownBy paths t t') (hfind : t'.find? loc = some node)
    (hnode : node ≠ .directory) :
    t.find? loc = some node := by
  rcases h loc with hsame | ⟨-, hmade, -⟩
  · rw [← hsame, hfind]
  · rw [hfind] at hmade
    cases hmade
    exact absurd rfl hnode

/-! ## Making one directory -/

/-- A directory is made where nothing stood, and its path leads to it. -/
theorem createDirectoryOn_eq_ok
    (h : t.createDirectoryOn faults path = .ok t') :
    GrownBy [path] t t' ∧ ∃ loc, t'.Reaches path loc ∧ t.find? loc = none := by
  replace h := (DeviceFaults.refuse_eq_ok_iff.mp h).2
  rw [createDirectory] at h
  split at h
  · cases h
  · cases h
  · next loc hlocate =>
      cases h
      have hresult := (resolve_eq_ok hlocate).2.2.2
      obtain ⟨hne, hnone⟩ := find?_of_resolveFrom_none hresult
      have hmade : (t.put loc .directory).find? loc = some .directory := find?_put_self t _ hne
      have hother : ∀ other, other ≠ loc → (t.put loc .directory).find? other = t.find? other :=
        fun other hother => find?_put_of_ne t _ hother
      have hextends : t.Extends (t.put loc .directory) := by
        intro other node hfind
        rw [hother other, hfind]
        rintro rfl
        rw [hfind] at hnone
        cases hnone
      have hreaches : (t.put loc .directory).Reaches path loc :=
        names_of_directoryNames (resolveFrom_made hextends hmade hresult)
      refine ⟨fun other => ?_, loc, hreaches, hnone⟩
      by_cases hloc : other = loc
      · subst hloc
        exact .inr ⟨hnone, hmade, path, List.mem_singleton_self path, hreaches⟩
      · exact .inl (hother other hloc)

/-- To make a directory below another one fails with that one, or the directory is tried in the tree
as it was or as it is with the other one made.  It is made there, or it will do if it is there. -/
theorem createDirectoryBelow_cases
    {createParent : FileTree → Except FileError Unit × FileTree} {result : Except FileError Unit}
    (h : t.createDirectoryBelow faults path createParent = (result, t')) :
    (∃ e, createParent t = (.error e, t') ∧ result = .error e) ∨
      ∃ tried, (tried = t ∨ createParent t = (.ok (), tried)) ∧
        (tried.createDirectoryOn faults path = .ok t' ∧ result = .ok () ∨
          t' = tried ∧ (result = .ok () ↔ tried.isDirectory path = true)) := by
  have hthere : ∀ {s : FileTree} {e : FileError},
      (if s.isDirectory path then (.ok (), s) else (.error e, s)) = (result, t') →
        t' = s ∧ (result = .ok () ↔ s.isDirectory path = true) := by
    intro s e hs
    split at hs
    · next hdirectory =>
        cases hs
        exact ⟨rfl, fun _ => hdirectory, fun _ => rfl⟩
    · next hdirectory =>
        cases hs
        exact ⟨rfl, by rintro ⟨⟩, fun hyes => absurd hyes hdirectory⟩
  rw [createDirectoryBelow] at h
  split at h
  · next after hmade =>
      cases h
      exact .inr ⟨t, .inl rfl, .inl ⟨hmade, rfl⟩⟩
  · split at h
    · next e after hparent =>
        cases h
        exact .inl ⟨e, hparent, rfl⟩
    · next after hparent =>
        split at h
        · next last hmade =>
            cases h
            exact .inr ⟨after, .inr hparent, .inl ⟨hmade, rfl⟩⟩
        · exact .inr ⟨after, .inr hparent, .inr (hthere h)⟩
  · exact .inr ⟨t, .inl rfl, .inr (hthere h)⟩

/-! ## Making directories -/

theorem createDirectoriesFrom_grown
    (faults : DeviceFaults) (paths : List String) (t : FileTree) :
    GrownBy paths t (createDirectoriesFrom faults paths t).2 := by
  induction paths generalizing t with
  | nil =>
      exact .refl [] t
  | cons path above ih =>
      have hparent := ih t
      cases hmade : createDirectoriesFrom faults (path :: above) t with
      | mk result made =>
          rw [createDirectoriesFrom] at hmade
          rcases createDirectoryBelow_cases hmade with
            ⟨e, habove, -⟩ | ⟨tried, htried, hlast⟩
          · rw [habove] at hparent
            exact hparent.mono (List.subset_cons_self path above)
          · have hgrown : GrownBy (path :: above) t tried := by
              rcases htried with rfl | habove
              · exact .refl _ tried
              · rw [habove] at hparent
                exact hparent.mono (List.subset_cons_self path above)
            rcases hlast with ⟨hcreated, -⟩ | ⟨rfl, -⟩
            · exact hgrown.trans ((createDirectoryOn_eq_ok hcreated).1.mono (by simp))
                (List.Subset.refl _)
            · exact hgrown

/-- Only directories on the way are made, also if the call fails. -/
theorem createDirectoriesOn_grown
    (faults : DeviceFaults) (t : FileTree) (path : String) :
    GrownBy (path :: FilePath.parents path) t (t.createDirectoriesOn faults path).2 := by
  rw [createDirectoriesOn]
  split
  · exact .refl _ t
  · exact createDirectoriesFrom_grown faults _ t

theorem createDirectoriesFrom_failed
    {e : FileError} {made : FileTree}
    (h : createDirectoriesFrom faults (path :: FilePath.parents path) t = (.error e, made)) :
    ¬ LeadsToDirectory made path := by
  intro hleads
  generalize hparents : FilePath.parents path = above at h
  induction above generalizing path e with
  | nil =>
      rw [createDirectoriesFrom] at h
      rcases createDirectoryBelow_cases h with ⟨-, ⟨⟩, -⟩ | ⟨tried, -, ⟨-, ⟨⟩⟩ | ⟨rfl, hresult⟩⟩
      cases hresult.mpr hleads.isDirectory
  | cons parent rest ih =>
      rcases FilePath.parents_cases path with ⟨hnone, -⟩ | ⟨above, name, habove, -⟩
      · rw [hparents] at hnone
        cases hnone
      · rw [hparents, List.cons.injEq] at habove
        obtain ⟨rfl, hrest⟩ := habove
        rw [createDirectoriesFrom] at h
        rcases createDirectoryBelow_cases h with
          ⟨e', hfailed, -⟩ | ⟨tried, -, ⟨-, ⟨⟩⟩ | ⟨rfl, hresult⟩⟩
        · refine ih (hleads.of_mem_parents ?_) hrest.symm hfailed
          rw [hparents]
          exact List.mem_cons_self
        · cases hresult.mpr hleads.isDirectory

/-- If a directory is not made, its path does not lead to one. -/
theorem createDirectoriesOn_failed
    {e : FileError} {made : FileTree} (h : t.createDirectoriesOn faults path = (.error e, made)) :
    ¬ LeadsToDirectory made path := by
  rw [createDirectoriesOn] at h
  split at h
  · cases h
  · exact createDirectoriesFrom_failed h

/-- Where nothing stands, nothing stands below it. -/
theorem WellFormed.find?_below
    (ht : t.WellFormed) (hnone : t.find? home = none) (hbelow : home <+: loc) :
    t.find? loc = none := by
  rcases hfind : t.find? loc with _ | node
  · rfl
  · by_cases hsame : home = loc
    · rw [hsame, hfind] at hnone
      cases hnone
    · rw [ht.find?_above hfind hbelow hsame] at hnone
      cases hnone

theorem createDirectoriesFrom_fresh
    {made : FileTree} (ht : t.WellFormed) (hpoints : ".." ∉ FilePath.names path)
    (h : createDirectoriesFrom faults (path :: FilePath.parents path) t = (.ok (), made)) :
    made = t ∨ ∃ home, made.Reaches path home ∧ t.find? home = none := by
  generalize hparents : FilePath.parents path = above at h
  induction above generalizing path made with
  | nil =>
      rw [createDirectoriesFrom] at h
      rcases createDirectoryBelow_cases h with ⟨-, ⟨⟩, -⟩ | ⟨tried, htried, hlast⟩
      have hsame : tried = t := by
        rcases htried with hsame | habove
        · exact hsame
        · cases habove
          rfl
      rcases hlast with ⟨hcreated, -⟩ | ⟨rfl, -⟩
      · obtain ⟨-, loc, hreaches, hnone⟩ := createDirectoryOn_eq_ok hcreated
        exact .inr ⟨loc, hreaches, hsame ▸ hnone⟩
      · exact .inl hsame
  | cons parent rest ih =>
      rcases FilePath.parents_cases path with ⟨hnone, -⟩ | ⟨above, name, habove, hnames, hpoint⟩
      · rw [hparents] at hnone
        cases hnone
      · rw [hparents, List.cons.injEq] at habove
        obtain ⟨rfl, hrest⟩ := habove
        rw [hnames, List.mem_append, List.mem_singleton, not_or] at hpoints
        have hgrown := createDirectoriesFrom_grown faults (parent :: rest) t
        rw [createDirectoriesFrom] at h
        rcases createDirectoryBelow_cases h with ⟨-, -, ⟨⟩⟩ | ⟨tried, htried, hlast⟩
        -- the directory above is the same as before, or new, and then nothing stood below it
        have habove : tried = t ∨ GrownBy (parent :: rest) t tried ∧
            ∃ home, tried.Reaches parent home ∧ t.find? home = none := by
          rcases htried with rfl | hmade
          · exact .inl rfl
          · rw [hmade] at hgrown
            exact (ih hpoints.1 hrest.symm hmade).imp_right fun hnew => ⟨hgrown, hnew⟩
        rcases hlast with ⟨hcreated, -⟩ | ⟨rfl, hthere⟩
        · obtain ⟨-, loc, hreaches, hnone⟩ := createDirectoryOn_eq_ok hcreated
          refine .inr ⟨loc, hreaches, ?_⟩
          rcases habove with rfl | ⟨hgrown, -⟩
          · exact hnone
          · rcases hgrown loc with hsame | ⟨hnone, -, -⟩
            · rw [← hsame, hnone]
            · exact hnone
        · refine habove.imp_right ?_
          rintro ⟨hgrown, parentHome, hparent, hnone⟩
          obtain ⟨home, hreaches⟩ :=
            (leadsToDirectory_iff.mpr (hthere.mp rfl)).exists_reaches
          have hbelow := ht.find?_below hnone (List.prefix_append parentHome [name])
          obtain ⟨other, hother, hhome⟩ :=
            hreaches.exists_above hnames hpoint (Ne.symm hpoints.2)
          obtain rfl := hparent.unique hother
          rcases hhome with rfl | ⟨target, hlink⟩
          · exact ⟨_, hreaches, hbelow⟩
          · have hlinked := hgrown.find?_of_not_directory hlink (by rintro ⟨⟩)
            rw [hbelow] at hlinked
            cases hlinked

/-- A path without two points that leads to a directory once that is made led there before, in the
same tree, or the directory is new. -/
theorem createDirectoriesOn_fresh
    {made : FileTree} (ht : t.WellFormed) (hpoints : ".." ∉ FilePath.names path)
    (h : t.createDirectoriesOn faults path = (.ok (), made)) :
    made = t ∨ ∃ home, made.Reaches path home ∧ t.find? home = none := by
  rw [createDirectoriesOn] at h
  split at h
  · cases h
    exact .inl rfl
  · exact createDirectoriesFrom_fresh ht hpoints h

end FileTree
end DocumentTables
