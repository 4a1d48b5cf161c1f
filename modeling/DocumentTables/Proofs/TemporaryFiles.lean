import Mathlib
import DocumentTables.Proofs.PutSteps

/-!
# Temporary files

The name of a temporary file is that of the key with the number of the process and a number that each
store counts for itself.  So puts of one store never use the same temporary file, nor do puts of
different processes or for keys with different files.  The steps of a put are described here by what
they do to the files below the directory of its store.

**Results.**

* `temporaryName_inj`: what the name of a temporary file tells.
* `DiskCache.publish_present`, `DiskCache.placeAfter_present`: what becomes of the temporary file and
  of a file that is open when an entry is published.
* `Writers.Numbered.run`: no number is used twice by a store.
* `Writers.Numbered.apart`: no two puts use the same temporary file.
-/

namespace DocumentTables

open FileTree DiskCache

/-! ## Names of temporary files -/

/-- Texts without a point are told from what comes after them by the point. -/
theorem eq_of_append_point
    {before before' after after' : List Char} (hpoint : '.' ∉ before) (hpoint' : '.' ∉ before')
    (h : before ++ '.' :: after = before' ++ '.' :: after') :
    before = before' ∧ after = after' := by
  induction before generalizing before' with
  | nil =>
      cases before' with
      | nil =>
          exact ⟨rfl, (List.cons.inj h).2⟩
      | cons c before' =>
          exact absurd List.mem_cons_self ((List.cons.inj h).1 ▸ hpoint')
  | cons c before ih =>
      cases before' with
      | nil =>
          exact absurd List.mem_cons_self ((List.cons.inj h).1 ▸ hpoint)
      | cons c' before' =>
          obtain ⟨rfl, hrest⟩ := List.cons.inj h
          rw [List.mem_cons, not_or] at hpoint hpoint'
          obtain ⟨rfl, rfl⟩ := ih hpoint.2 hpoint'.2 hrest
          exact ⟨rfl, rfl⟩

theorem point_notMem_toString
    (n : Nat) :
    '.' ∉ (toString n).toList := by
  intro hpoint
  rw [Nat.toString_eq_ofList_toDigits, String.toList_ofList] at hpoint
  have hdigit := Nat.isDigit_of_mem_toDigits (by decide) (by decide) hpoint
  simp at hdigit

theorem point_notMem_fileStem
    (key : PrimaryKey) :
    '.' ∉ (fileStem key).toList := by
  intro hpoint
  have hchar := isFileChar_of_mem_fileStem key _ hpoint
  simp [Text.isFileChar] at hchar

/-- The name of a temporary file tells the file of the key and both numbers. -/
theorem temporaryName_inj
    {process process' number number' : Nat} {key key' : PrimaryKey}
    (h : temporaryName process number key = temporaryName process' number' key') :
    fileStem key = fileStem key' ∧ process = process' ∧ number = number' := by
  have hchars := congrArg String.toList h
  have hpoint : ".".toList = ['.'] := rfl
  have hend : ".tmp".toList = ['.', 't', 'm', 'p'] := rfl
  simp only [temporaryName, String.toList_append, hpoint, hend, List.append_assoc,
    List.cons_append, List.nil_append] at hchars
  obtain ⟨hstem, hrest⟩ := eq_of_append_point (point_notMem_fileStem key)
    (point_notMem_fileStem key') (List.cons.inj hchars).2
  obtain ⟨hprocess, hrest⟩ := eq_of_append_point (point_notMem_toString process)
    (point_notMem_toString process') hrest
  obtain ⟨hnumber, -⟩ := eq_of_append_point (point_notMem_toString number)
    (point_notMem_toString number') hrest
  exact ⟨String.toList_injective hstem, Nat.repr_inj.mp (String.toList_injective hprocess),
    Nat.repr_inj.mp (String.toList_injective hnumber)⟩

/-! ## Steps in a directory that is there -/

namespace FileTree

variable {full t : FileTree} {home : Location} {directory source target name : String}
  {content : ByteArray}

theorem Present.createDirectories
    (h : Present full home t) (hsite : Site full directory home) :
    t.createDirectories directory = (.ok (), t) := by
  exact (hsite.leadsToDirectory.of_extends (h.extends hsite)).createDirectories

theorem Present.openFile
    (h : Present full home t) (hsite : Site full directory home) (hname : FilePath.Plain name)
    (hfits : Fits directory name) :
    t.openFile (FilePath.join directory name) =
      .ok (home ++ [name], t.put (home ++ [name]) (.file .empty)) := by
  rw [FileTree.openFile, hname.leadsToDirectory_join, h.locate_join hsite hname true hfits]
  rcases h.find?_child name with hnone | ⟨content, hfile⟩
  · rw [hnone]
    rfl
  · rw [hfile]
    rfl

theorem Present.placeOf
    (h : Present full home t) (hsite : Site full directory home) (hname : FilePath.Plain name)
    (hfits : Fits directory name) :
    t.placeOf (FilePath.join directory name) = some (home ++ [name]) := by
  rw [FileTree.placeOf, h.locate_join hsite hname false hfits]

end FileTree

namespace DiskCache

variable {full t : FileTree} {home : Location} {directory source target name : String}
  {content : ByteArray}

/-- Where an open file is after the file at `source` came to `target`. -/
def moved (source target loc : Location) : Option Location :=
  if source = loc then some target else if target = loc then none else some loc

theorem moved_of_ne
    {source target loc : Location} (hsource : source ≠ loc) (htarget : target ≠ loc) :
    moved source target loc = some loc := by
  rw [moved, if_neg hsource, if_neg htarget]

section

variable (hsite : Site full directory home) (h : Present full home t)
  (hsource : FilePath.Plain source) (htarget : FilePath.Plain target)
  (hfits : Fits directory source) (hfits' : Fits directory target)
include hsite h hsource htarget hfits hfits'

/-- A temporary file that is there gets the name of the entry. -/
theorem publish_present
    (hfind : t.find? (home ++ [source]) = some (.file content)) :
    publish t (FilePath.join directory source) (FilePath.join directory target) =
      (.ok (), (t.erase (home ++ [source])).put (home ++ [target]) (.file content)) := by
  rw [publish_eq, rename_file hsite h hsource htarget hfits hfits' hfind]

/-- A file that is open keeps its place, unless it is the temporary file or the entry. -/
theorem placeAfter_present
    (hfind : t.find? (home ++ [source]) = some (.file content)) :
    placeAfter t (FilePath.join directory source) (FilePath.join directory target) =
      moved (home ++ [source]) (home ++ [target]) := by
  funext loc
  rw [placeAfter, rename_file hsite h hsource htarget hfits hfits' hfind]
  simp only [h.placeOf hsite hsource hfits, h.placeOf hsite htarget hfits', Option.some.injEq]
  rfl

/-- Without a temporary file there is nothing to give the name of the entry to. -/
theorem publish_missing
    (hfind : t.find? (home ++ [source]) = none) :
    publish t (FilePath.join directory source) (FilePath.join directory target) =
      (.error (ioError (FilePath.join directory target) .notFound), t) := by
  have hlocate := h.locate_join hsite hsource false hfits
  have hrename : t.rename (FilePath.join directory source) (FilePath.join directory target) =
      .error .notFound := by
    rw [rename, hlocate, h.locate_join hsite htarget false hfits', hfind]
  have hremove : t.removeFile (FilePath.join directory source) = .error .notFound := by
    rw [removeFile, hlocate, hfind]
  rw [publish_eq, hrename]
  simp only [hremove]

end

end DiskCache

namespace Writers

variable {ι P : Type} {requests : P → PutRequest ι} {s s' : Writers ι P} {p q : P}
  {full start files : FileTree} {home loc : Location} {directory : String} {processes : ι → Nat}
  {number : Nat} {key : PrimaryKey} {content : ByteArray} {phase : PutPhase}

/-! ## Names in use -/

/-- The name of the temporary file of a put with the given number. -/
def nameOf (requests : P → PutRequest ι) (processes : ι → Nat) (p : P) (number : Nat) : String :=
  temporaryName (processes (requests p).store) number (requests p).key

theorem plain_nameOf
    (requests : P → PutRequest ι) (processes : ι → Nat) (p : P) (number : Nat) :
    FilePath.Plain (nameOf requests processes p number) := by
  exact plain_temporaryName _ _ _

theorem entryName_ne_nameOf
    (key : PrimaryKey) (requests : P → PutRequest ι) (processes : ι → Nat) (p : P)
    (number : Nat) :
    entryName key ≠ nameOf requests processes p number := by
  exact entryName_ne_temporaryName _ _ _ _

/-- The stores have a directory in common, and belong to certain processes. -/
structure Crew (s : Writers ι P) (directory : String) (processes : ι → Nat) : Prop where
  directory : ∀ i, (s.stores i).directory = directory
  process : ∀ i, (s.stores i).process = processes i
  counter : ∀ i, (s.stores i).temporaries < Nat.pow 2 64

namespace Crew

theorem of_stores
    (h : s.Crew directory processes) (hstores : s'.stores = s.stores) :
    s'.Crew directory processes := by
  refine ⟨fun i => ?_, fun i => ?_, fun i => ?_⟩
  · rw [hstores, h.directory]
  · rw [hstores, h.process]
  · rw [hstores]
    exact h.counter i

theorem counted
    [DecidableEq ι] (h : s.Crew directory processes) (i : ι) :
    (s.counted i).Crew directory processes := by
  refine ⟨fun j => ?_, fun j => ?_, fun j => ?_⟩
  · rw [(directory_counted s i j).1, h.directory]
  · rw [(directory_counted s i j).2, h.process]
  · by_cases hj : j = i
    · subst hj
      rw [stores_counted_self]
      exact Nat.mod_lt _ (Nat.pow_pos (by decide))
    · rw [stores_counted_of_ne s hj]
      exact h.counter j

theorem advance
    [DecidableEq ι] [DecidableEq P] (h : s.Crew directory processes)
    (requests : P → PutRequest ι) (p : P) :
    (s.advance requests p).Crew directory processes := by
  rcases (advanced requests s p).stores with ⟨hstores, -⟩ | ⟨hstores, -⟩
  · exact h.of_stores hstores
  · exact (h.counted _).of_stores hstores

theorem temporaryOf
    (h : s.Crew directory processes) (requests : P → PutRequest ι) (p : P) (number : Nat) :
    s.temporaryOf requests p number =
      FilePath.join directory (nameOf requests processes p number) := by
  rw [Writers.temporaryOf, numberedPath, temporaryPath_eq, nameOf, ← h.process, ← h.directory]

theorem entryOf
    (h : s.Crew directory processes) (requests : P → PutRequest ι) (p : P) :
    s.entryOf requests p = FilePath.join directory (entryName (requests p).key) := by
  rw [Writers.entryOf, entryPath_eq, h.directory]

end Crew

/-- No two puts use the same temporary file. -/
def Apart (requests : P → PutRequest ι) (s : Writers ι P) : Prop :=
  ∀ p q m n, p ≠ q → (s.phases p).using? = some m → (s.phases q).using? = some n →
    s.temporaryOf requests p m ≠ s.temporaryOf requests q n

theorem Apart.nameOf_ne
    {m n : Nat} (h : s.Apart requests) (hcrew : s.Crew directory processes) (hne : p ≠ q)
    (hp : (s.phases p).using? = some m) (hq : (s.phases q).using? = some n) :
    nameOf requests processes p m ≠ nameOf requests processes q n := by
  intro hname
  refine h p q m n hne hp hq ?_
  rw [hcrew.temporaryOf, hcrew.temporaryOf, hname]

/-! ## The steps of a put in its directory -/

/-- The stores work on files below the directory, where all their paths can be looked up, and as long
as the directory is not there it can be made. -/
structure Ready (requests : P → PutRequest ι) (full : FileTree) (home : Location)
    (directory : String) (processes : ι → Nat) (start : FileTree) : Prop where
  site : Site full directory home
  store : Store full home start
  creatable : (start.createDirectories directory).1 = .ok ()
  fits : ∀ p, ∀ number < Nat.pow 2 64, Fits directory (nameOf requests processes p number)

section

variable [DecidableEq ι] [DecidableEq P]
  (hready : Ready requests full home directory processes start)
  (hcrew : s.Crew directory processes)
include hready hcrew

theorem advance_make
    (hfiles : Present full home s.files ∨ s.files = start) (hp : s.phases p = .waiting) :
    ∃ made, Present full home made ∧
      (∀ name, made.find? (home ++ [name]) = s.files.find? (home ++ [name])) ∧
      s.advance requests p = ({ s with files := made }.counted (requests p).store).become p
        (.named (s.stores (requests p).store).temporaries) := by
  obtain ⟨made, hmade, hpresent, hsame⟩ : ∃ made,
      s.files.createDirectories directory = (.ok (), made) ∧ Present full home made ∧
        ∀ name, made.find? (home ++ [name]) = s.files.find? (home ++ [name]) := by
    rcases hfiles with hpresent | hstart
    · exact ⟨s.files, hpresent.createDirectories hready.site, hpresent, fun _ => rfl⟩
    · rw [hstart]
      rcases hready.store.createDirectories hready.site with ⟨hpresent, hsame⟩ | ⟨hfailed, -⟩
      · exact ⟨_, Prod.ext hready.creatable rfl, hpresent, hsame.find?⟩
      · exact absurd hready.creatable hfailed
  rw [← hcrew.directory (requests p).store] at hmade
  exact ⟨made, hpresent, hsame, advance_waiting hp hmade⟩

theorem advance_open
    (hpresent : Present full home s.files) (hp : s.phases p = .named number)
    (hnumber : number < Nat.pow 2 64) :
    s.advance requests p =
      { s with
        files := s.files.put (home ++ [nameOf requests processes p number]) (.file .empty) }.become
        p (.opened number (some (home ++ [nameOf requests processes p number]))) := by
  refine advance_named hp ?_
  rw [hcrew.temporaryOf]
  exact hpresent.openFile hready.site (plain_nameOf ..) (hready.fits p number hnumber)

theorem advance_publish
    (hpresent : Present full home s.files) (hp : s.phases p = .written number)
    (hnumber : number < Nat.pow 2 64)
    (hfind : s.files.find? (home ++ [nameOf requests processes p number]) =
      some (.file content)) :
    s.advance requests p =
      { s with
        files := (s.files.erase (home ++ [nameOf requests processes p number])).put
          (home ++ [entryName (requests p).key]) (.file content)
        phases := fun q => (s.phases q).follow
          (moved (home ++ [nameOf requests processes p number])
            (home ++ [entryName (requests p).key])) }.become p (.finished (.ok ())) := by
  have hfits := hready.fits p number hnumber
  have htemporary := plain_nameOf requests processes p number
  have hentry := plain_entryName (requests p).key
  rw [advance_written hp, hcrew.temporaryOf, hcrew.entryOf,
    publish_present hready.site hpresent htemporary hentry hfits (fits_entryName hfits) hfind,
    placeAfter_present hready.site hpresent htemporary hentry hfits (fits_entryName hfits) hfind]

/-- Without its temporary file a put fails. -/
theorem advance_unpublished
    (hpresent : Present full home s.files) (hp : s.phases p = .written number)
    (hnumber : number < Nat.pow 2 64)
    (hfind : s.files.find? (home ++ [nameOf requests processes p number]) = none) :
    (s.advance requests p).phases p = .finished
      (.error (ioError (FilePath.join directory (entryName (requests p).key)) .notFound)) := by
  have hfits := hready.fits p number hnumber
  rw [advance_written hp, phases_become_self, hcrew.temporaryOf, hcrew.entryOf,
    publish_missing hready.site hpresent (plain_nameOf ..) (plain_entryName _) hfits
      (fits_entryName hfits) hfind]

end

/-! ## Numbers in use -/

/-- The numbers of the puts of a store are below its count, and no two puts have the same. -/
structure Numbered (requests : P → PutRequest ι) (s : Writers ι P) : Prop where
  counted : ∀ p number, (s.phases p).number? = some number →
    number < (s.stores (requests p).store).temporaries
  distinct : ∀ p q number, (requests p).store = (requests q).store →
    (s.phases p).number? = some number → (s.phases q).number? = some number → p = q

theorem Numbered.of_waiting
    (requests : P → PutRequest ι) (h : ∀ p, s.phases p = .waiting) :
    s.Numbered requests := by
  refine ⟨fun p number hnumber => ?_, fun p q number _ hnumber => ?_⟩
  all_goals
    rw [h] at hnumber
    cases hnumber

/-- Puts of different processes, or for keys with different files, never use the same temporary
file, nor do puts of one store. -/
theorem Numbered.apart
    (h : s.Numbered requests) (hcrew : s.Crew directory processes)
    (hstems : ∀ p q, (requests p).store ≠ (requests q).store →
      processes (requests p).store = processes (requests q).store →
        fileStem (requests p).key ≠ fileStem (requests q).key) :
    s.Apart requests := by
  intro p q m n hne hp hq hpath
  rw [hcrew.temporaryOf, hcrew.temporaryOf] at hpath
  have hnames := congrArg FilePath.names hpath
  rw [(plain_nameOf ..).names_join, (plain_nameOf ..).names_join] at hnames
  obtain ⟨hstem, hprocess, rfl⟩ :=
    temporaryName_inj (List.cons.inj (List.append_cancel_left hnames)).1
  by_cases hstore : (requests p).store = (requests q).store
  · exact hne (h.distinct p q m hstore (PutPhase.number?_of_using? hp)
      (PutPhase.number?_of_using? hq))
  · exact hstems p q hstore hprocess hstem

section

variable [DecidableEq ι] [DecidableEq P]

/-- A store that counts has room for one more. -/
theorem temporaries_advance
    (requests : P → PutRequest ι) (p : P) (i : ι)
    (hroom : (s.stores i).temporaries + 1 < Nat.pow 2 64) :
    (s.stores i).temporaries ≤ ((s.advance requests p).stores i).temporaries ∧
      ((s.advance requests p).stores i).temporaries ≤ (s.stores i).temporaries + 1 := by
  rcases (advanced requests s p).stores with ⟨hstores, -⟩ | ⟨hstores, -⟩
  · rw [hstores]
    exact ⟨Nat.le_refl _, Nat.le_succ _⟩
  · rw [hstores]
    by_cases hi : i = (requests p).store
    · rw [← hi, stores_counted_self]
      dsimp only
      rw [Nat.mod_eq_of_lt hroom]
      exact ⟨Nat.le_succ _, Nat.le_refl _⟩
    · rw [stores_counted_of_ne s hi]
      exact ⟨Nat.le_refl _, Nat.le_succ _⟩

theorem Numbered.advance
    (h : s.Numbered requests) (p : P)
    (hroom : ∀ i, (s.stores i).temporaries + 1 < Nat.pow 2 64) :
    (s.advance requests p).Numbered requests := by
  have hadvanced := advanced requests s p
  have hothers (q : P) (hq : q ≠ p) :
      ((s.advance requests p).phases q).number? = (s.phases q).number? := by
    obtain ⟨move, hmove⟩ := hadvanced.others q hq
    rw [hmove, PutPhase.number?_follow]
  have hgrows (i : ι) := (temporaries_advance requests p i (hroom i)).1
  rcases hadvanced.stores with ⟨-, hown⟩ | ⟨hstores, hphase⟩
  · have hold (q : P) (number : Nat)
        (hq : ((s.advance requests p).phases q).number? = some number) :
        (s.phases q).number? = some number := by
      by_cases hqp : q = p
      · subst hqp
        exact hown number hq
      · rwa [← hothers q hqp]
    refine ⟨fun q number hq => ?_, fun q r number hstore hq hr => ?_⟩
    · exact Nat.lt_of_lt_of_le (h.counted q number (hold q number hq)) (hgrows _)
    · exact h.distinct q r number hstore (hold q number hq) (hold r number hr)
  · -- The new number is the count of its store, and all others of the store are below it.
    have hnew (number : Nat)
        (hnumber : ((s.advance requests p).phases p).number? = some number) :
        number = (s.stores (requests p).store).temporaries := by
      rw [hphase] at hnumber
      cases hnumber
      rfl
    have hbelow (q : P) (number : Nat) (hqp : q ≠ p)
        (hstore : (requests q).store = (requests p).store)
        (hq : ((s.advance requests p).phases q).number? = some number) :
        number < (s.stores (requests p).store).temporaries := by
      rw [← hstore]
      exact h.counted q number (by rwa [← hothers q hqp])
    refine ⟨fun q number hq => ?_, fun q r number hstore hq hr => ?_⟩
    · by_cases hqp : q = p
      · subst hqp
        rw [hnew number hq, hstores, stores_counted_self]
        dsimp only
        rw [Nat.mod_eq_of_lt (hroom _)]
        exact Nat.lt_succ_self _
      · exact Nat.lt_of_lt_of_le (h.counted q number (by rwa [← hothers q hqp])) (hgrows _)
    · by_cases hqp : q = p
      · by_cases hrp : r = p
        · rw [hqp, hrp]
        · subst hqp
          have := hbelow r number hrp hstore.symm hr
          have := hnew number hq
          omega
      · by_cases hrp : r = p
        · subst hrp
          have := hbelow q number hqp hstore hq
          have := hnew number hr
          omega
        · rw [hothers q hqp] at hq
          rw [hothers r hrp] at hr
          exact h.distinct q r number hstore hq hr

theorem Numbered.run
    (h : s.Numbered requests) (schedule : List P)
    (hroom : ∀ i, (s.stores i).temporaries + schedule.length < Nat.pow 2 64) :
    (s.run requests schedule).Numbered requests := by
  induction schedule generalizing s with
  | nil =>
      exact h
  | cons p schedule ih =>
      have hnext (i : ι) : (s.stores i).temporaries + 1 < Nat.pow 2 64 := by
        have := hroom i
        rw [List.length_cons] at this
        omega
      refine ih (h.advance p hnext) fun i => ?_
      have hstep := (temporaries_advance requests p i (hnext i)).2
      have := hroom i
      rw [List.length_cons] at this
      omega

theorem Crew.run
    (h : s.Crew directory processes) (requests : P → PutRequest ι) (schedule : List P) :
    (s.run requests schedule).Crew directory processes := by
  induction schedule generalizing s with
  | nil =>
      exact h
  | cons p schedule ih =>
      exact ih (h.advance requests p)

end

end Writers
end DocumentTables
