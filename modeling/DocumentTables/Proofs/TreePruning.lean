import DocumentTables.Proofs.StoreFrame

/-!
# Removing from a tree

In a tree that is well-formed, what is listed below a directory stands there under the path that goes
on from the directory's.  The calls that remove leave a part of the tree, and a path that finds
something in the part found the same before.

**Results.**

* `FileTree.WellFormed.locate_inside`: where the path of what is listed below a directory leads.
* `FileTree.resolveFrom_of_part`: what becomes of a path in a part of a tree.
* `FileTree.removeLinks_pruned`, `FileTree.removeLinks_ok`: the links below a directory.
* `FileTree.removeDirectory_pruned`, `FileTree.isPresent_removeDirectory`: a directory with
  everything in it.
-/

namespace DocumentTables
namespace FileTree

variable {t t' t'' : FileTree} {follow : Bool} {links : Nat} {here home loc : Location}
  {path name : String} {names : List String} {node : Node} {place : Place}
  {places places' : Location → Prop}

/-! ## Well-formed trees -/

/-- What is listed at a location stands there, has a plain name and is in a directory. -/
structure WellFormed (t : FileTree) : Prop where
  listed : ∀ entry ∈ t.nodes, t.find? entry.1 = some entry.2
  plain : ∀ entry ∈ t.nodes, ∀ name ∈ entry.1, FilePath.Plain name
  nested : ∀ entry ∈ t.nodes, t.find? entry.1.dropLast = some .directory

/-- Above all that stands in a tree there are directories. -/
theorem WellFormed.find?_above
    (ht : t.WellFormed) {above : Location} (hfind : t.find? loc = some node)
    (habove : above <+: loc) (hne : above ≠ loc) :
    t.find? above = some .directory := by
  induction loc using List.reverseRecOn generalizing node with
  | nil =>
      exact absurd (List.prefix_nil.mp habove) hne
  | append_singleton before last ih =>
      have hparent := ht.nested _ (mem_of_find? hfind (by simp))
      rw [List.dropLast_concat] at hparent
      rcases List.prefix_concat_iff.mp habove with heq | hbefore
      · exact absurd heq hne
      · by_cases hlast : above = before
        · rw [hlast, hparent]
        · exact ih hparent hbefore hlast

/-- From a directory, a path through directories leads to what has its names. -/
theorem location_of_inside
    (hplain : ∀ name ∈ names, FilePath.Plain name)
    (hdirectories : ∀ above, above <+: names → above ≠ names → above ≠ [] →
      t.find? (here ++ above) = some .directory)
    (h : t.resolveFrom false links here names = .ok place) :
    place.location = here ++ names := by
  induction names generalizing here with
  | nil =>
      rw [resolveFrom_nil] at h
      cases h
      rw [List.append_nil]
  | cons name names ih =>
      obtain ⟨hname, hnames⟩ := List.forall_mem_cons.mp hplain
      rw [resolveFrom_cons, step, if_neg hname.ne_point, if_neg hname.ne_points] at h
      by_cases hlong : maxNameBytes < name.utf8ByteSize
      · rw [if_pos hlong] at h
        cases h
      rw [if_neg hlong] at h
      by_cases hlast : names = []
      · subst hlast
        cases hfind : t.find? (here ++ [name]) with
        | none =>
            rw [hfind] at h
            cases h
            rfl
        | some node =>
            rw [hfind] at h
            cases node with
            | directory =>
                simp only [resolveFrom_nil] at h
                cases h
                rfl
            | file content =>
                cases h
                rfl
            | link target =>
                cases h
                rfl
      · have hnext : t.find? (here ++ [name]) = some .directory :=
          hdirectories [name] (by simp) (by simpa using Ne.symm hlast) (by simp)
        rw [hnext] at h
        rw [ih hnames (fun above habove hne _ => ?_) h]
        · simp
        · have hbelow := hdirectories (name :: above) (by simpa using habove) (by simpa using hne)
            (by simp)
          simpa using hbelow

/-- The path of what is listed below a directory leads to it, if it leads anywhere. -/
theorem WellFormed.locate_inside
    (ht : t.WellFormed) (hopen : t.openDirectory path = .ok home)
    (hfind : t.find? (home ++ names) = some node) (hnames : names ≠ [])
    (h : t.locate false (FilePath.join path ("/".intercalate names)) = .ok place) :
    place.location = home ++ names := by
  have hmem := mem_of_find? hfind (by simp [hnames])
  have hplain : ∀ name ∈ names, FilePath.Plain name := fun name hname =>
    ht.plain _ hmem name (List.mem_append_right _ hname)
  obtain ⟨-, -, -, hresult⟩ := resolve_eq_ok h
  rw [FilePath.lookupNames_join_names hnames hplain] at hresult
  have hgoes := resolveFrom_append t false hnames maxLinks [] (FilePath.names path)
  rw [names_of_lookupNames (resolve_eq_ok (openDirectory_eq_ok hopen)).2.2.2, hresult] at hgoes
  obtain ⟨left, -, hinside⟩ := hgoes
  refine location_of_inside hplain (fun above habove hne _ => ?_) hinside.symm
  exact ht.find?_above hfind (List.prefix_append_right_inj home |>.mpr habove) (by simpa using hne)

/-! ## Parts of a tree -/

/-- What becomes of a path in a part of a tree: it leads where it led, or to nothing. -/
theorem resolveFrom_of_part
    (h : t'.Extends t) (follow : Bool) (links : Nat) (here : Location) (names : List String) :
    t'.resolveFrom follow links here names = t.resolveFrom follow links here names ∨
      t'.resolveFrom follow links here names = .error .notFound ∨
      ∃ loc, t'.resolveFrom follow links here names = .ok ⟨loc, none⟩ := by
  induction links, here, names using resolve_induction with
  | nil links here =>
      rw [resolveFrom_nil, resolveFrom_nil]
      exact .inl rfl
  | cons links here name names ihnames ihlinks =>
      rw [resolveFrom_cons, resolveFrom_cons]
      by_cases hmissing : t'.step here name = .missing
      · rw [hmissing]
        simp only
        split
        · exact .inr (.inr ⟨_, rfl⟩)
        · exact .inr (.inl rfl)
      · rw [step_of_extends h hmissing]
        cases t'.step here name with
        | enter next =>
            exact ihnames next
        | link target =>
            simp only
            split
            · exact .inl rfl
            · cases links with
              | zero =>
                  exact .inl rfl
              | succ links =>
                  exact ihlinks links _ _ (Nat.lt_succ_self _)
        | _ =>
            exact .inl rfl

theorem resolve_of_extends
    (h : t'.Extends t) (hfound : t'.resolve follow path names = .ok ⟨loc, some node⟩) :
    t.resolve follow path names = .ok ⟨loc, some node⟩ := by
  obtain ⟨hempty, hnul, hshort, hresult⟩ := resolve_eq_ok hfound
  rw [resolve_eq t follow names hempty hnul hshort]
  exact resolveFrom_of_extends h hresult

theorem find?_of_locate
    (h : t.locate follow path = .ok ⟨loc, some node⟩) :
    t.find? loc = some node := by
  refine resolveFrom_found (fun above habove => ?_) (resolve_eq_ok h).2.2.2
  rw [List.prefix_nil.mp habove]
  rfl

theorem isPresent_iff :
    t.isPresent path = true ↔ ∃ loc node, t.locate false path = .ok ⟨loc, some node⟩ := by
  rw [isPresent]
  split
  · next loc node hlocate => exact ⟨fun _ => ⟨loc, node, hlocate⟩, fun _ => rfl⟩
  · next hother =>
      refine ⟨fun h => (by cases h), ?_⟩
      rintro ⟨loc, node, hlocate⟩
      exact absurd hlocate (hother loc node)

/-- Where a path found something it finds, in a part of the tree, the same or nothing. -/
theorem locate_of_part
    (h : t'.Extends t) (hthere : t.isPresent path = true) :
    t'.locate false path = t.locate false path ∨ t'.locate false path = .error .notFound ∨
      ∃ loc, t'.locate false path = .ok ⟨loc, none⟩ := by
  obtain ⟨loc, node, hlocate⟩ := isPresent_iff.mp hthere
  obtain ⟨hempty, hnul, hshort, -⟩ := resolve_eq_ok hlocate
  rw [locate, locate, resolve_eq t' _ _ hempty hnul hshort, resolve_eq t _ _ hempty hnul hshort]
  exact resolveFrom_of_part h false maxLinks [] _

/-- Where what a path found is gone, nothing stands at the path. -/
theorem not_isPresent_of_erased
    (h : t'.Extends t) (hlocate : t.locate false path = .ok ⟨loc, node⟩)
    (hgone : t'.find? loc = none) :
    t'.isPresent path = false := by
  rw [Bool.eq_false_iff, ne_eq, isPresent_iff]
  rintro ⟨other, found, hfound⟩
  have hbefore := resolve_of_extends h hfound
  rw [← locate, hlocate] at hbefore
  cases hbefore
  rw [find?_of_locate hfound] at hgone
  cases hgone

/-- The trees are the same, except that some things in certain places are gone. -/
def Pruned (places : Location → Prop) (t t' : FileTree) : Prop :=
  ∀ loc, t'.find? loc = t.find? loc ∨ t'.find? loc = none ∧ places loc

namespace Pruned

theorem refl
    (places : Location → Prop) (t : FileTree) :
    Pruned places t t := by
  exact fun _ => .inl rfl

theorem trans
    (h : Pruned places t t') (h' : Pruned places t' t'') :
    Pruned places t t'' := by
  intro loc
  rcases h' loc with hsame | hgone
  · rw [hsame]
    exact h loc
  · exact .inr hgone

theorem mono
    (h : Pruned places t t') (hplaces : ∀ loc, places loc → places' loc) :
    Pruned places' t t' := by
  exact fun loc => (h loc).imp_right fun hgone => ⟨hgone.1, hplaces loc hgone.2⟩

/-- What is left was there before. -/
theorem part
    (h : Pruned places t t') :
    t'.Extends t := by
  intro loc node hfind
  rcases h loc with hsame | ⟨hgone, -⟩
  · rw [← hsame, hfind]
  · rw [hgone] at hfind
    cases hfind

theorem find?_eq_none
    (h : Pruned places t t') (hnone : t.find? loc = none) :
    t'.find? loc = none := by
  rcases h loc with hsame | ⟨hgone, -⟩
  · rw [hsame, hnone]
  · exact hgone

theorem erase
    (t : FileTree) (loc : Location) :
    Pruned (fun other => other = loc) t (t.erase loc) := by
  intro other
  by_cases hother : other = loc
  · by_cases htop : loc = []
    · exact .inl (by rw [hother, htop]; rfl)
    · exact .inr ⟨by rw [hother, find?_erase_self t htop], hother⟩
  · exact .inl (find?_erase_of_ne t hother)

theorem eraseBelow
    (t : FileTree) (loc : Location) :
    Pruned (fun other => isBelow other loc = true) t (t.eraseBelow loc) := by
  intro other
  cases hbelow : isBelow other loc with
  | true =>
      exact .inr ⟨find?_eraseBelow_of_below t hbelow, hbelow⟩
  | false =>
      exact .inl (find?_eraseBelow t hbelow)

end Pruned

/-! ## Removing links -/

/-- A call that removes a file or link removes what its path leads to. -/
theorem removeFile_eq_ok
    (h : t.removeFile path = .ok t') :
    ∃ loc node, t.locate false path = .ok ⟨loc, some node⟩ ∧ loc ≠ [] ∧ t' = t.erase loc := by
  rw [removeFile] at h
  split at h
  · cases h
  · cases h
  · cases h
  · next loc node hdirectory hlocate =>
      cases h
      refine ⟨loc, node, hlocate, ?_, rfl⟩
      rintro rfl
      cases find?_of_locate hlocate
      exact hdirectory rfl

/-- The path of a link that is listed leads there. -/
def Listed (t : FileTree) (path : String) (entries : List (String × Node)) (loc : Location) :
    Prop :=
  ∃ name target node, (name, .link target) ∈ entries ∧
    t.locate false (FilePath.join path name) = .ok ⟨loc, some node⟩

theorem Listed.cons
    {entries : List (String × Node)} (entry : String × Node) (h : t.Listed path entries loc) :
    t.Listed path (entry :: entries) loc := by
  obtain ⟨name, target, node, hmem, hlocate⟩ := h
  exact ⟨name, target, node, List.mem_cons_of_mem _ hmem, hlocate⟩

/-- Among what is listed only links are removed. -/
theorem removeLinksAmong_pruned
    {original : FileTree} (entries : List (String × Node)) (h : t.Extends original) :
    Pruned (original.Listed path entries) t (removeLinksAmong path entries t).2 := by
  induction entries generalizing t with
  | nil =>
      exact .refl _ _
  | cons entry entries ih =>
      obtain ⟨name, node⟩ := entry
      cases node with
      | file content =>
          exact (ih h).mono fun _ => Listed.cons _
      | directory =>
          rw [removeLinksAmong]
          split
          · exact .refl _ _
          · exact (ih h).mono fun _ => Listed.cons _
      | link target =>
          rw [removeLinksAmong]
          split
          · exact .refl _ _
          · next left hremoved =>
              obtain ⟨loc, found, hlocate, -, rfl⟩ := removeFile_eq_ok hremoved
              have herased := Pruned.erase t loc
              have hleft : (t.erase loc).Extends original := fun _ _ hfind =>
                h _ _ (herased.part _ _ hfind)
              refine (herased.mono ?_).trans ((ih hleft).mono fun _ => Listed.cons _)
              rintro other rfl
              exact ⟨name, target, found, List.mem_cons_self, resolve_of_extends h hlocate⟩

/-- If nothing fails, all links that are listed are gone. -/
theorem removeLinksAmong_ok
    {original : FileTree} {entries : List (String × Node)} (h : t.Extends original)
    (hok : (removeLinksAmong path entries t).1 = .ok ()) {target : String}
    (hmem : (name, .link target) ∈ entries) :
    ∃ loc node, original.locate false (FilePath.join path name) = .ok ⟨loc, some node⟩ ∧
      (removeLinksAmong path entries t).2.find? loc = none := by
  induction entries generalizing t with
  | nil =>
      cases hmem
  | cons entry entries ih =>
      obtain ⟨other, node⟩ := entry
      cases node with
      | file content =>
          exact ih h hok (by simpa using hmem)
      | directory =>
          rw [removeLinksAmong] at hok ⊢
          split at hok
          · cases hok
          · exact ih h hok (by simpa using hmem)
      | link aim =>
          rw [removeLinksAmong] at hok ⊢
          split at hok
          · cases hok
          · next left hremoved =>
              obtain ⟨loc, found, hlocate, htop, rfl⟩ := removeFile_eq_ok hremoved
              have hleft : (t.erase loc).Extends original := fun _ _ hfind =>
                h _ _ ((Pruned.erase t loc).part _ _ hfind)
              rcases List.mem_cons.mp hmem with heq | hmem
              · cases heq
                exact ⟨loc, found, resolve_of_extends h hlocate,
                  (removeLinksAmong_pruned entries hleft).find?_eq_none (find?_erase_self t htop)⟩
              · exact ih hleft hok hmem

theorem mem_contents_iff
    {found : String} :
    (found, node) ∈ t.contents home ↔
      ∃ names, names ≠ [] ∧ found = "/".intercalate names ∧ (home ++ names, node) ∈ t.nodes := by
  rw [contents, nodesBelow, List.mem_map]
  constructor
  · rintro ⟨⟨loc, other⟩, hmem, heq⟩
    cases heq
    rw [List.mem_mergeSort, List.mem_filter] at hmem
    obtain ⟨⟨names, rfl⟩, hne⟩ := isBelow_iff.mp hmem.2
    exact ⟨names, by simpa using hne, by rw [List.drop_left], hmem.1⟩
  · rintro ⟨names, hnames, rfl, hmem⟩
    refine ⟨(home ++ names, node), ?_, by rw [List.drop_left]⟩
    rw [List.mem_mergeSort, List.mem_filter]
    exact ⟨hmem, isBelow_iff.mpr ⟨List.prefix_append home names, by simpa using hnames⟩⟩

/-- Below a directory a link stands. -/
def LinkBelow (t : FileTree) (home loc : Location) : Prop :=
  isBelow loc home = true ∧ ∃ target, t.find? loc = some (.link target)

/-- To remove the links below a directory removes nothing else. -/
theorem removeLinks_pruned
    (ht : t.WellFormed) (path : String) :
    Pruned (fun loc => ∃ home, t.openDirectory path = .ok home ∧ t.LinkBelow home loc)
      t (t.removeLinks path).2 := by
  rw [removeLinks]
  split
  · exact .refl _ _
  · next home hopen =>
      refine (removeLinksAmong_pruned _ fun _ _ hfind => hfind).mono ?_
      rintro loc ⟨found, target, node, hmem, hlocate⟩
      obtain ⟨names, hnames, rfl, hlisted⟩ := mem_contents_iff.mp hmem
      have hfind := ht.listed _ hlisted
      obtain rfl : loc = home ++ names := ht.locate_inside hopen hfind hnames hlocate
      exact ⟨home, hopen,
        isBelow_iff.mpr ⟨List.prefix_append home names, by simpa using hnames⟩, target, hfind⟩

/-- If the links below a directory could be removed, they are all gone. -/
theorem removeLinks_ok
    (ht : t.WellFormed) (hok : (t.removeLinks path).1 = .ok ()) :
    ∃ home, t.openDirectory path = .ok home ∧
      ∀ loc, t.LinkBelow home loc → (t.removeLinks path).2.find? loc = none := by
  rw [removeLinks] at hok ⊢
  split at hok
  · cases hok
  · next home hopen =>
      refine ⟨home, hopen, ?_⟩
      rintro loc ⟨hbelow, target, hfind⟩
      obtain ⟨⟨names, rfl⟩, hne⟩ := isBelow_iff.mp hbelow
      have hnames : names ≠ [] := by simpa using hne
      have hmem := mem_contents_iff.mpr
        ⟨names, hnames, rfl, mem_of_find? hfind (by simp [hnames])⟩
      obtain ⟨other, node, hlocate, hgone⟩ :=
        removeLinksAmong_ok (fun _ _ hfind => hfind) hok hmem
      obtain rfl : other = home ++ names := ht.locate_inside hopen hfind hnames hlocate
      exact hgone

/-! ## Removing a directory -/

/-- A path that leads to a directory without following a link at its end does so following it. -/
theorem resolveFrom_follow
    (h : t.resolveFrom false links here names = .ok ⟨loc, some .directory⟩) :
    t.resolveFrom true links here names = .ok ⟨loc, some .directory⟩ := by
  rcases resolveFrom_nofollow t links here names with hsame | ⟨other, target, hlink⟩
  · rw [← hsame, h]
  · rw [h] at hlink
    cases hlink

/-- The path of a directory leads to it where it is to be removed, or to a link. -/
theorem locateDirectory_of_locate
    (h : t.locate false path = .ok ⟨loc, some .directory⟩) :
    t.locateDirectory path = .ok ⟨loc, some .directory⟩ ∨
      ∃ other target, t.locateDirectory path = .ok ⟨other, some (.link target)⟩ := by
  obtain ⟨hempty, hnul, hshort, hresult⟩ := resolve_eq_ok h
  have hnames := directoryNames_of_names (names_of_lookupNames (resolveFrom_follow hresult))
  rw [locateDirectory, resolve_eq t false _ hempty hnul hshort]
  rcases resolveFrom_nofollow t maxLinks [] (FilePath.directoryNames path) with hsame | hlink
  · exact .inl (by rw [hsame, hnames])
  · exact .inr hlink

/-- Something stands at the path of a directory that is to be removed. -/
theorem isPresent_of_locateDirectory
    (h : t.locateDirectory path = .ok ⟨loc, some .directory⟩) :
    t.isPresent path = true := by
  obtain ⟨hempty, hnul, hshort, hresult⟩ := resolve_eq_ok h
  have hnames := lookupNames_of_names (names_of_directoryNames (resolveFrom_follow hresult))
  rw [isPresent_iff, locate, resolve_eq t false _ hempty hnul hshort]
  rcases resolveFrom_nofollow t maxLinks [] (FilePath.lookupNames path) with hsame | hlink
  · exact ⟨loc, .directory, by rw [hsame, hnames]⟩
  · obtain ⟨other, target, hlink⟩ := hlink
    exact ⟨other, .link target, hlink⟩

/-- What is done about a directory of which nothing but itself is left. -/
theorem removeEmptyDirectory_of_locate
    (h : t.locate false path = .ok ⟨loc, some .directory⟩) :
    loc ≠ [] ∧ t.removeEmptyDirectory path = .ok (t.erase loc) ∨
      ∃ e, e ≠ .notFound ∧ t.removeEmptyDirectory path = .error e := by
  rw [removeEmptyDirectory]
  rcases locateDirectory_of_locate h with hlocate | ⟨other, target, hlocate⟩
  · rw [hlocate]
    simp only
    split
    · exact .inr ⟨.invalidArgument, by simp, rfl⟩
    · split
      · refine .inr ⟨_, ?_, rfl⟩
        split <;> simp
      · next htop => exact .inl ⟨htop, rfl⟩
  · rw [hlocate]
    exact .inr ⟨.notDirectory, by simp, rfl⟩

/-- Where nothing stands at a path no directory can be removed. -/
theorem removeEmptyDirectory_ne_ok
    (h : t.isPresent path = false) (left : FileTree) :
    t.removeEmptyDirectory path ≠ .ok left := by
  rw [removeEmptyDirectory]
  split
  · simp
  · simp
  · next hlocate =>
      rw [isPresent_of_locateDirectory hlocate] at h
      cases h
  · simp

/-- What removing a directory comes to: it fails and changes nothing; or of what the path leads to
and what is below, some is removed, and if it succeeds nothing is left at the path. -/
theorem removeDirectory_cases
    (t : FileTree) (path : String) :
    (∃ e, t.removeDirectory path = (.error e, t) ∧ (e = .notFound → t.isPresent path = false)) ∨
      ∃ loc node result left, t.locate false path = .ok ⟨loc, some node⟩ ∧
        t.removeDirectory path = (result, left) ∧ Pruned (loc <+: ·) t left ∧
        (result = .ok () ∨ result = .error .notFound → left.isPresent path = false) := by
  rw [removeDirectory]
  split
  · next e hlocate =>
      exact .inl ⟨e, rfl, fun _ => by rw [isPresent, hlocate]⟩
  · next loc hlocate =>
      exact .inl ⟨.notFound, rfl, fun _ => by rw [isPresent, hlocate]⟩
  · next loc target hlocate =>
      have herased := Pruned.erase t loc
      have htop : loc ≠ [] := by
        rintro rfl
        cases find?_of_locate hlocate
      refine .inr ⟨loc, _, _, _, hlocate, rfl, herased.mono ?_, fun _ => ?_⟩
      · rintro other rfl
        exact List.prefix_rfl
      · exact not_isPresent_of_erased herased.part hlocate (find?_erase_self t htop)
  · exact .inl ⟨_, rfl, by simp⟩
  · next loc hlocate =>
      have hbelow : Pruned (loc <+: ·) t (t.eraseBelow loc) :=
        (Pruned.eraseBelow t loc).mono fun _ h => (isBelow_iff.mp h).1
      refine .inr ⟨loc, .directory, ?_⟩
      cases hthere : (t.eraseBelow loc).isPresent path with
      | false =>
          cases hremoved : (t.eraseBelow loc).removeEmptyDirectory path with
          | ok left =>
              exact absurd hremoved (removeEmptyDirectory_ne_ok hthere left)
          | error e =>
              simp only [hremoved]
              cases e <;> exact ⟨_, _, hlocate, rfl, hbelow, fun _ => hthere⟩
      | true =>
          have hsame : (t.eraseBelow loc).locate false path = .ok ⟨loc, some .directory⟩ := by
            obtain ⟨other, node, hother⟩ := isPresent_iff.mp hthere
            have hbefore := resolve_of_extends hbelow.part hother
            rw [← locate, hlocate] at hbefore
            cases hbefore
            exact hother
          rcases removeEmptyDirectory_of_locate hsame with ⟨htop, hremoved⟩ | ⟨e, hne, hremoved⟩
          · have herased := Pruned.erase (t.eraseBelow loc) loc
            simp only [hremoved]
            refine ⟨_, _, hlocate, rfl, hbelow.trans (herased.mono ?_), fun _ => ?_⟩
            · rintro other rfl
              exact List.prefix_rfl
            · exact not_isPresent_of_erased herased.part hsame (find?_erase_self _ htop)
          · simp only [hremoved]
            refine ⟨.error e, _, hlocate, rfl, hbelow, ?_⟩
            rintro (h | h)
            · cases h
            · exact absurd (Except.error.inj h) hne

theorem removeDirectory_pruned
    (t : FileTree) (path : String) :
    Pruned (fun other => ∃ loc node, t.locate false path = .ok ⟨loc, some node⟩ ∧ loc <+: other)
      t (t.removeDirectory path).2 := by
  rcases removeDirectory_cases t path with ⟨e, hfailed, -⟩ | ⟨loc, node, result, left, hlocate,
    hresult, hleft, -⟩
  · rw [hfailed]
    exact .refl _ _
  · rw [hresult]
    exact hleft.mono fun other h => ⟨loc, node, hlocate, h⟩

theorem isPresent_removeDirectory
    (h : (t.removeDirectory path).1 = .ok () ∨ (t.removeDirectory path).1 = .error .notFound) :
    (t.removeDirectory path).2.isPresent path = false := by
  rcases removeDirectory_cases t path with ⟨e, hfailed, hmissing⟩ | ⟨loc, node, result, left,
    hlocate, hresult, -, hgone⟩
  · rw [hfailed] at h ⊢
    rcases h with h | h
    · cases h
    · exact hmissing (Except.error.inj h)
  · rw [hresult] at h ⊢
    exact hgone h

end FileTree
end DocumentTables
