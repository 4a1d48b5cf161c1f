import DocumentTables.Proofs.TreePruning

/-!
# Clearing a store

Clearing a store removes what stands at the path of its directory and what is below that, and no
more, unless a link stands there that leads to a directory: then the links below that directory are
removed as well.  Once a store was cleared its keys are not found until a document is put, unless
the path of the directory cannot be looked up at all, which clearing does not report.

**Results.**

* `DiskCache.clear_pruned`: what clearing a store removes.
* `DiskCache.get_of_not_isPresent`: asking a store without a directory.
* `DiskCache.clear_confined`: both, for every well-formed tree.
* `DiskCache.clear_strips_linked`: links elsewhere that are removed.
-/

namespace DocumentTables

open FileTree

/-! ## Below a path where nothing stands -/

namespace FileTree

variable {t t' : FileTree} {directory path name : String}

/-- Why nothing is found below a path where nothing stands. -/
def refusal (t : FileTree) (directory : String) : FileError :=
  match t.locate false directory with
  | .error e => e
  | .ok _ => .notFound

theorem locate_eq_error_of_long
    (t : FileTree) (follow : Bool) (hlong : maxPathBytes < path.utf8ByteSize) :
    ∃ e, t.locate follow path = .error e := by
  rw [locate, resolve, if_pos hlong]
  split
  · exact ⟨_, rfl⟩
  · split <;> exact ⟨_, rfl⟩

theorem locate_eq_error_of_nul
    (t : FileTree) (follow : Bool) (hempty : path ≠ "") (hnul : '\x00' ∈ path.toList) :
    t.locate follow path = .error .nulInName := by
  rw [locate, resolve, if_neg (by simpa using hempty), if_pos (by simpa using hnul)]

/-- A path that goes on from where nothing stands leads nowhere. -/
theorem locate_join_of_not_isPresent
    (hgone : t.isPresent directory = false) (hdirectory : directory ≠ "")
    (hname : FilePath.Plain name)
    (hshort : (FilePath.join directory name).utf8ByteSize ≤ maxPathBytes) (follow : Bool) :
    t.locate follow (FilePath.join directory name) = .error (t.refusal directory) := by
  have hjoin := FilePath.join_ne_empty hdirectory hname.head?_ne
  by_cases hnul : '\x00' ∈ directory.toList
  · rw [refusal, locate_eq_error_of_nul t false hdirectory hnul,
      locate_eq_error_of_nul t follow hjoin
        ((FilePath.nul_mem_join hname.head?_ne hname.nulFree).mpr hnul)]
  have hbytes : directory.utf8ByteSize + name.utf8ByteSize ≤
      (FilePath.join directory name).utf8ByteSize :=
    (FilePath.utf8ByteSize_join hname.head?_ne).1
  have hlocate : t.locate false directory =
      t.resolveFrom false maxLinks [] (FilePath.lookupNames directory) :=
    resolve_eq t false _ hdirectory hnul (by omega)
  have hnothing : ∀ loc node, t.locate false directory ≠ .ok ⟨loc, some node⟩ := by
    intro loc node hsome
    rw [isPresent_iff.mpr ⟨loc, node, hsome⟩] at hgone
    cases hgone
  have hgoes := resolveFrom_append t follow (List.cons_ne_nil name []) maxLinks []
    (FilePath.names directory)
  rw [locate, resolve_eq t follow _ hjoin
    (by rwa [FilePath.nul_mem_join hname.head?_ne hname.nulFree]) hshort, hname.lookupNames_join]
  rw [refusal, hlocate]
  rw [hlocate] at hnothing
  cases hslash : FilePath.leadsToDirectory directory with
  | true =>
      have hnames : FilePath.lookupNames directory = FilePath.names directory ++ ["."] := by
        rw [FilePath.lookupNames, if_pos hslash]
      have hpoint := resolveFrom_append t false (List.cons_ne_nil "." []) maxLinks []
        (FilePath.names directory)
      rw [hnames] at hnothing ⊢
      generalize t.resolveFrom true maxLinks [] (FilePath.names directory) = result
        at hgoes hpoint
      rcases result with e | ⟨loc, _ | _ | content | target⟩
      · rw [hgoes, hpoint]
      · rw [hgoes, hpoint]
      · obtain ⟨left, -, hpoint⟩ := hpoint
        rw [resolveFrom_cons, step, if_pos rfl] at hpoint
        simp only [resolveFrom_nil] at hpoint
        exact absurd hpoint (hnothing _ _)
      · rw [hgoes, hpoint]
      · exact hgoes.elim
  | false =>
      have hnames : FilePath.lookupNames directory = FilePath.names directory := by
        rw [FilePath.lookupNames, hslash]
        rfl
      rw [hnames] at hnothing ⊢
      rcases resolveFrom_nofollow t maxLinks [] (FilePath.names directory) with hsame | hlink
      · rw [hsame] at hnothing ⊢
        generalize t.resolveFrom true maxLinks [] (FilePath.names directory) = result
          at hgoes hnothing
        rcases result with e | ⟨loc, _ | node⟩
        · exact hgoes
        · exact hgoes
        · exact absurd rfl (hnothing loc node)
      · obtain ⟨loc, target, hlink⟩ := hlink
        exact absurd hlink (hnothing _ _)

end FileTree

namespace DiskCache

variable {c other : DiskCache} {t t' : FileTree} {loc : Location} {key : PrimaryKey}
  {directory : String}

/-! ## A store without a directory -/

/-- What asking for a key comes to if its entry cannot be found. -/
def refused (c : DiskCache) (key : PrimaryKey) :
    FileError → Except CacheError (Option Document) × DiskCache
  | .notFound => (.ok none, { c with counters := c.counters.miss })
  | e => (.error (ioError (c.entryPath key) e), c)

theorem get_of_not_isPresent
    (hgone : t.isPresent c.directory = false) (hdirectory : c.directory ≠ "")
    (hshort : (c.entryPath key).utf8ByteSize ≤ maxPathBytes) :
    c.get t key = c.refused key (t.refusal c.directory) := by
  rw [entryPath_eq] at hshort
  have hlocate := locate_join_of_not_isPresent hgone hdirectory (plain_entryName key) hshort true
  rw [← entryPath_eq] at hlocate
  have htext : t.readText (c.entryPath key) = .error (t.refusal c.directory) := by
    rw [readText, readBytes, hlocate]
  unfold DiskCache.get
  simp only [htext]
  cases t.refusal c.directory <;> rfl

theorem remove_of_not_isPresent
    (hgone : t.isPresent c.directory = false) (hdirectory : c.directory ≠ "") :
    (c.remove t key).2.2 = t := by
  obtain ⟨e, hlocate⟩ : ∃ e, t.locate false (c.entryPath key) = .error e := by
    rw [entryPath_eq]
    by_cases hlong : maxPathBytes < (FilePath.join c.directory (entryName key)).utf8ByteSize
    · exact locate_eq_error_of_long t false hlong
    · exact ⟨_, locate_join_of_not_isPresent hgone hdirectory (plain_entryName key)
        (Nat.not_lt.mp hlong) false⟩
  have hremoved : t.removeFile (c.entryPath key) = .error e := by
    rw [removeFile, hlocate]
  unfold DiskCache.remove
  simp only [hremoved]
  cases e <;> rfl

theorem clear_of_not_isPresent
    (hgone : t.isPresent c.directory = false) :
    c.clear t = (.ok (), t) := by
  rw [DiskCache.clear, if_neg (by simpa using hgone)]

/-- What becomes of the files when stores with a directory in common are asked, forget and are
cleared, and no document is put. -/
inductive Unfilled (directory : String) (t : FileTree) : FileTree → Prop
  | refl : Unfilled directory t t
  | remove {t' : FileTree} (before : Unfilled directory t t') (c : DiskCache)
      (hc : c.directory = directory) (key : PrimaryKey) :
      Unfilled directory t (c.remove t' key).2.2
  | clear {t' : FileTree} (before : Unfilled directory t t') (c : DiskCache)
      (hc : c.directory = directory) :
      Unfilled directory t (c.clear t').2

/-- Where there is no directory nothing happens until a document is put. -/
theorem Unfilled.eq
    (h : Unfilled directory t t') (hgone : t.isPresent directory = false)
    (hdirectory : directory ≠ "") :
    t' = t := by
  induction h with
  | refl =>
      rfl
  | remove before c hc key ih =>
      subst ih hc
      exact remove_of_not_isPresent hgone hdirectory
  | clear before c hc ih =>
      subst ih hc
      rw [clear_of_not_isPresent hgone]

/-! ## Clearing -/

/-- What stands at the path of the store's directory, or below that. -/
def Holds (c : DiskCache) (t : FileTree) (loc : Location) : Prop :=
  ∃ top node, t.locate false c.directory = .ok ⟨top, some node⟩ ∧ top <+: loc

/-- In the place of the store's directory there is a link to another directory, and a link stands
below that one. -/
def Strips (c : DiskCache) (t : FileTree) (loc : Location) : Prop :=
  ∃ top target home, t.locate false c.directory = .ok ⟨top, some (.link target)⟩ ∧
    t.openDirectory c.directory = .ok home ∧ t.LinkBelow home loc

/-- The links below the directory that a present path leads to are those of the store, or they are
elsewhere. -/
theorem holds_or_strips
    (hthere : t.isPresent c.directory = true) {home : Location}
    (hopen : t.openDirectory c.directory = .ok home) (hbelow : t.LinkBelow home loc) :
    c.Holds t loc ∨ c.Strips t loc := by
  obtain ⟨top, node, hlocate⟩ := isPresent_iff.mp hthere
  obtain ⟨hempty, hnul, hshort, hunfollowed⟩ := resolve_eq_ok hlocate
  have hfollowed := (resolve_eq_ok (openDirectory_eq_ok hopen)).2.2.2
  rcases resolveFrom_nofollow t maxLinks [] (FilePath.lookupNames c.directory) with hsame | hlink
  · rw [hunfollowed, hfollowed] at hsame
    cases hsame
    exact .inl ⟨_, .directory, hlocate, (isBelow_iff.mp hbelow.1).1⟩
  · obtain ⟨other, target, hlink⟩ := hlink
    rw [hunfollowed] at hlink
    cases hlink
    exact .inr ⟨_, target, home, hlocate, hopen, hbelow⟩

/-- What clearing a store does: nothing, or the links are removed, and then the directory. -/
theorem clear_steps
    (c : DiskCache) (t : FileTree) :
    t.isPresent c.directory = false ∧ c.clear t = (.ok (), t) ∨
      t.isPresent c.directory = true ∧
        ((∃ e left, t.removeLinks c.directory = (.error e, left) ∧
            c.clear t = (.error (ioError c.directory e), left)) ∨
          ∃ left, t.removeLinks c.directory = (.ok (), left) ∧
            (c.clear t).2 = (left.removeDirectory c.directory).2 ∧
            ((c.clear t).1 = .ok () → (left.removeDirectory c.directory).1 = .ok () ∨
              (left.removeDirectory c.directory).1 = .error .notFound)) := by
  rw [DiskCache.clear]
  split
  · next hthere =>
      refine .inr ⟨hthere, ?_⟩
      split
      · next e left hlinks => exact .inl ⟨e, left, hlinks, rfl⟩
      · next left hlinks =>
          refine .inr ⟨left, hlinks, ?_⟩
          split
          · next hremoved => exact ⟨by rw [hremoved], fun _ => .inl (by rw [hremoved])⟩
          · next hremoved => exact ⟨by rw [hremoved], fun _ => .inr (by rw [hremoved])⟩
          · next hremoved => exact ⟨by rw [hremoved], fun h => (by cases h)⟩
  · next hgone => exact .inl ⟨by simpa using hgone, rfl⟩

/-- Clearing a store removes what is in its place, and links elsewhere if that is a link. -/
theorem clear_pruned
    (c : DiskCache) (ht : t.WellFormed) :
    Pruned (fun loc => c.Holds t loc ∨ c.Strips t loc) t (c.clear t).2 := by
  rcases clear_steps c t with ⟨-, hclear⟩ | ⟨hthere, hsteps⟩
  · rw [hclear]
    exact .refl _ _
  have hlinks : Pruned (fun loc => c.Holds t loc ∨ c.Strips t loc) t
      (t.removeLinks c.directory).2 :=
    (removeLinks_pruned ht c.directory).mono fun loc ⟨home, hopen, hbelow⟩ =>
      holds_or_strips hthere hopen hbelow
  rcases hsteps with ⟨e, left, hleft, hclear⟩ | ⟨left, hleft, hclear, -⟩
  · rw [hclear]
    rwa [hleft] at hlinks
  · rw [hleft] at hlinks
    rw [hclear]
    exact hlinks.trans ((removeDirectory_pruned left c.directory).mono
      fun loc ⟨top, node, hlocate, htop⟩ =>
        .inl ⟨top, node, resolve_of_extends hlinks.part hlocate, htop⟩)

/-- If clearing succeeds then nothing is left at the path, and of the links elsewhere none. -/
theorem clear_ok
    (ht : t.WellFormed) (hok : (c.clear t).1 = .ok ()) :
    (c.clear t).2.isPresent c.directory = false ∧
      ∀ loc, c.Strips t loc → (c.clear t).2.find? loc = none := by
  rcases clear_steps c t with ⟨hgone, hclear⟩ | ⟨-, ⟨e, left, -, hclear⟩ | ⟨left, hleft, hclear,
    hremoved⟩⟩
  · rw [hclear]
    refine ⟨hgone, ?_⟩
    rintro loc ⟨top, target, home, hlocate, -⟩
    rw [isPresent_iff.mpr ⟨_, _, hlocate⟩] at hgone
    cases hgone
  · rw [hclear] at hok
    cases hok
  · obtain ⟨home, hopen, hlinks⟩ := removeLinks_ok ht (congrArg Prod.fst hleft)
    rw [hleft] at hlinks
    rw [hclear]
    refine ⟨isPresent_removeDirectory (hremoved hok), ?_⟩
    rintro loc ⟨top, target, other, -, hother, hbelow⟩
    cases hopen.symm.trans hother
    exact (removeDirectory_pruned left c.directory).find?_eq_none (hlinks loc hbelow)

/-- Clearing a store does not change why its path is refused, if it is not just missing. -/
theorem refusal_clear
    (c : DiskCache) (ht : t.WellFormed) :
    (c.clear t).2.refusal c.directory = t.refusal c.directory := by
  cases hthere : t.isPresent c.directory with
  | false =>
      rw [clear_of_not_isPresent hthere]
  | true =>
      obtain ⟨top, node, hlocate⟩ := isPresent_iff.mp hthere
      have hbefore : t.refusal c.directory = .notFound := by
        rw [refusal, hlocate]
      rw [hbefore, refusal]
      rcases locate_of_part (clear_pruned c ht).part hthere with hsame | hnone | ⟨loc, hnone⟩
      · rw [hsame, hlocate]
      · rw [hnone]
      · rw [hnone]

/-- Clearing a store removes nothing but what stands at the path of its directory and below, and, if
a link to another directory has the place of its directory, links below that one.  If it succeeds,
nothing is left at the path, those links are all gone, and until a document is put every key is
missing; only if the path of the directory could not be looked up before, this is answered. -/
theorem clear_confined
    (c : DiskCache) (ht : t.WellFormed) :
    Pruned (fun loc => c.Holds t loc ∨ c.Strips t loc) t (c.clear t).2 ∧
      ((c.clear t).1 = .ok () →
        (c.clear t).2.isPresent c.directory = false ∧
        (∀ loc, c.Strips t loc → (c.clear t).2.find? loc = none) ∧
        ∀ (t' : FileTree) (other : DiskCache) (key : PrimaryKey),
          Unfilled c.directory (c.clear t).2 t' → other.directory = c.directory →
          c.directory ≠ "" → (other.entryPath key).utf8ByteSize ≤ maxPathBytes →
            other.get t' key = other.refused key (t.refusal c.directory)) := by
  refine ⟨clear_pruned c ht, fun hok => ?_⟩
  obtain ⟨hgone, hstripped⟩ := clear_ok ht hok
  refine ⟨hgone, hstripped, fun t' other key hlater hother hdirectory hshort => ?_⟩
  rw [hlater.eq hgone hdirectory, ← refusal_clear c ht, ← hother]
  rw [← hother] at hgone hdirectory
  exact get_of_not_isPresent hgone hdirectory hshort

/-! ## A link in the place of a directory -/

/-- Below a root there is a directory with a link in it, and the directory of a store is a link to
that directory. -/
def linkedTree : FileTree :=
  ⟨[(["cache"], .directory), (["cache", "layers"], .link "other"),
    (["cache", "other"], .directory), (["cache", "other", "current"], .link "target")]⟩

/-- The store whose directory is the link. -/
def linkedStore : DiskCache :=
  .ofTable "cache" "layers" 0

theorem wellFormed_linkedTree :
    linkedTree.WellFormed := by
  have hplain : ∀ name ∈ ["cache", "layers", "other", "current"], FilePath.Plain name := by
    intro name hname
    exact ⟨by revert name; decide, by revert name; decide, by revert name; decide,
      by revert name; decide, by revert name; decide⟩
  refine ⟨?_, fun entry hentry name hname => hplain name ?_, ?_⟩
  · simp only [linkedTree, List.forall_mem_cons]
    exact ⟨rfl, rfl, rfl, rfl, by simp⟩
  · revert name
    revert entry
    simp [linkedTree]
  · simp only [linkedTree, List.forall_mem_cons]
    exact ⟨rfl, rfl, rfl, rfl, by simp⟩

theorem locate_linkedTree :
    linkedTree.locate false linkedStore.directory =
      .ok ⟨["cache", "layers"], some (.link "other")⟩ := by
  rfl

theorem openDirectory_linkedTree :
    linkedTree.openDirectory linkedStore.directory = .ok ["cache", "other"] := by
  rfl

/-- Both links are removed. -/
theorem clear_linkedTree :
    linkedStore.clear linkedTree =
      (.ok (), (linkedTree.erase ["cache", "other", "current"]).erase ["cache", "layers"]) := by
  have hlisted : linkedTree.contents ["cache", "other"] = [("current", .link "target")] := by
    have hfilter : (linkedTree.nodes.filter fun entry => isBelow entry.1 ["cache", "other"]) =
        [(["cache", "other", "current"], .link "target")] := rfl
    rw [contents, nodesBelow, hfilter, List.mergeSort_singleton]
    rfl
  have hpath : FilePath.join linkedStore.directory "current" = "cache/layers/current" := rfl
  have hnames : FilePath.lookupNames "cache/layers/current" = ["cache", "layers", "current"] := rfl
  have hinside : linkedTree.locate false "cache/layers/current" =
      .ok ⟨["cache", "other", "current"], some (.link "target")⟩ := by
    rw [locate, resolve_eq linkedTree false _ (by decide) (by decide) (by decide), hnames]
    rfl
  have hlinks : linkedTree.removeLinks linkedStore.directory =
      (.ok (), linkedTree.erase ["cache", "other", "current"]) := by
    rw [removeLinks, openDirectory_linkedTree]
    simp only
    rw [hlisted, removeLinksAmong, hpath, removeFile, hinside]
    rfl
  have hthere : linkedTree.isPresent linkedStore.directory = true :=
    isPresent_iff.mpr ⟨_, _, locate_linkedTree⟩
  have hleft : (linkedTree.erase ["cache", "other", "current"]).locate false
      linkedStore.directory = .ok ⟨["cache", "layers"], some (.link "other")⟩ := rfl
  have hremoved : (linkedTree.erase ["cache", "other", "current"]).removeDirectory
      linkedStore.directory =
        (.ok (), (linkedTree.erase ["cache", "other", "current"]).erase ["cache", "layers"]) := by
    rw [removeDirectory, hleft]
  rw [DiskCache.clear, if_pos hthere, hlinks]
  simp only [hremoved]

theorem strips_linkedTree :
    linkedStore.Strips linkedTree ["cache", "other", "current"] := by
  exact ⟨_, _, _, locate_linkedTree, openDirectory_linkedTree, by decide, "target", rfl⟩

/-- The store can be cleared.  It takes a link along that is elsewhere, leaves the directory of that
link, and then finds no key. -/
theorem clear_confined_linked :
    linkedTree.WellFormed ∧ (linkedStore.clear linkedTree).1 = .ok () ∧
      (linkedStore.clear linkedTree).2.find? ["cache", "other", "current"] = none ∧
      (linkedStore.clear linkedTree).2.find? ["cache", "other"] = some .directory ∧
      ∀ key, linkedStore.get (linkedStore.clear linkedTree).2 key =
        (.ok none, { linkedStore with counters := linkedStore.counters.miss }) := by
  have hok : (linkedStore.clear linkedTree).1 = .ok () := by
    rw [clear_linkedTree]
  obtain ⟨hpruned, hcleared⟩ := clear_confined linkedStore wellFormed_linkedTree
  obtain ⟨-, hstripped, hmissing⟩ := hcleared hok
  have hrefusal : linkedTree.refusal linkedStore.directory = .notFound := by
    rw [refusal, locate_linkedTree]
  refine ⟨wellFormed_linkedTree, hok, hstripped _ strips_linkedTree, ?_, fun key => ?_⟩
  · rcases hpruned ["cache", "other"] with hkept | ⟨-, hplace⟩
    · rw [hkept]
      rfl
    · rcases hplace with ⟨top, node, hlocate, htop⟩ | ⟨top, target, home, -, -, -, link, hlink⟩
      · cases locate_linkedTree.symm.trans hlocate
        exact absurd htop (by decide)
      · cases hlink
  · have hbytes : (FilePath.join linkedStore.directory (entryName key)).utf8ByteSize ≤
        linkedStore.directory.utf8ByteSize + 1 + (entryName key).utf8ByteSize :=
      (FilePath.utf8ByteSize_join (plain_entryName key).head?_ne).2
    have hstem := utf8ByteSize_fileStem key
    have hjson : ".json".utf8ByteSize = 5 := by decide
    have hdirectory : linkedStore.directory.utf8ByteSize = 12 := rfl
    rw [hmissing _ linkedStore key .refl rfl (by decide) ?_, hrefusal]
    · rfl
    · have hentry : (entryName key).utf8ByteSize = (fileStem key).utf8ByteSize + 5 := by
        rw [entryName, String.utf8ByteSize_append, hjson]
      rw [entryPath_eq, maxPathBytes]
      omega

/-- The link that is taken along is not below the path of the store: only a path through a link leads
there. -/
theorem clear_strips_linked :
    linkedTree.WellFormed ∧ ¬ linkedStore.Holds linkedTree ["cache", "other", "current"] ∧
      linkedTree.find? ["cache", "other", "current"] = some (.link "target") ∧
      (linkedStore.clear linkedTree).1 = .ok () ∧
      (linkedStore.clear linkedTree).2.find? ["cache", "other", "current"] = none := by
  refine ⟨wellFormed_linkedTree, ?_, rfl, by rw [clear_linkedTree], by rw [clear_linkedTree]; rfl⟩
  rintro ⟨top, node, hlocate, htop⟩
  cases locate_linkedTree.symm.trans hlocate
  exact absurd htop (by decide)

end DiskCache
end DocumentTables
