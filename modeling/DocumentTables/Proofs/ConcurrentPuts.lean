import DocumentTables.Proofs.DiskSimulation
import DocumentTables.Proofs.TemporaryFiles

/-!
# Puts at the same time

Any number of stores share a directory, and their puts take steps in any order.  A put that has the
file with its temporary name to itself, from making it to giving it the name of the entry, is not
noticed by the others before it has finished.  So if no two puts use one temporary file at a time,
an entry is what it was at the start or has the whole text of a document that was put, and no put
fails.

Two stores of one process count from the same number, so they may use the same temporary file.  Then
an entry can be empty.

**Results.**

* `Writers.Intact.advance`: what one step keeps while no two puts use one temporary file.
* `Writers.puts_complete`: what every such run keeps.
* `Writers.puts_tear`: two stores of one process leave an empty entry and fail to put.
-/

namespace DocumentTables

open FileTree DiskCache

namespace Writers

variable {ι P : Type} {requests : P → PutRequest ι} {s s' : Writers ι P} {p q : P}
  {full start files : FileTree} {home loc : Location} {directory : String} {processes : ι → Nat}
  {number : Nat} {key : PrimaryKey} {content : ByteArray} {phase : PutPhase}

/-! ## What a put can rely on -/

/-- What a put can rely on in its phase: its temporary file is as it left it, and if it has finished
it has not failed. -/
def Undisturbed (requests : P → PutRequest ι) (processes : ι → Nat) (home : Location)
    (files : FileTree) (p : P) : PutPhase → Prop
  | .waiting => True
  | .named number => number < Nat.pow 2 64
  | .opened number place =>
      number < Nat.pow 2 64 ∧ place = some (home ++ [nameOf requests processes p number]) ∧
        files.find? (home ++ [nameOf requests processes p number]) = some (.file .empty)
  | .written number =>
      number < Nat.pow 2 64 ∧
        files.find? (home ++ [nameOf requests processes p number]) =
          some (.file (bodyOf requests p))
  | .finished result => result = .ok ()

/-- A put does not notice what happens to other files. -/
theorem Undisturbed.elsewhere
    {files' : FileTree} {move : Location → Option Location}
    (h : Undisturbed requests processes home files p phase)
    (hfind : ∀ number, phase.using? = some number →
      files'.find? (home ++ [nameOf requests processes p number]) =
        files.find? (home ++ [nameOf requests processes p number]))
    (hmove : ∀ number, phase.using? = some number →
      move (home ++ [nameOf requests processes p number]) =
        some (home ++ [nameOf requests processes p number])) :
    Undisturbed requests processes home files' p (phase.follow move) := by
  cases phase with
  | opened number place =>
      obtain ⟨hnumber, rfl, hempty⟩ := h
      exact ⟨hnumber, hmove number rfl, by rw [hfind number rfl, hempty]⟩
  | written number =>
      exact ⟨h.1, by rw [hfind number rfl, h.2]⟩
  | _ =>
      exact h

theorem Undisturbed.stays
    {files' : FileTree} (h : Undisturbed requests processes home files p phase)
    (hfind : ∀ number, phase.using? = some number →
      files'.find? (home ++ [nameOf requests processes p number]) =
        files.find? (home ++ [nameOf requests processes p number])) :
    Undisturbed requests processes home files' p phase := by
  have hstays : Undisturbed requests processes home files' p (phase.follow some) :=
    h.elsewhere hfind fun _ _ => rfl
  rwa [PutPhase.follow_some] at hstays

/-- The document of a put has been put. -/
def Done (s : Writers ι P) (p : P) : Prop :=
  s.phases p = .finished (.ok ())

theorem done_become_iff
    [DecidableEq P] (hp : ¬ s.Done p) (hphase : phase ≠ .finished (.ok ())) (q : P) :
    (s.become p phase).Done q ↔ s.Done q := by
  by_cases hq : q = p
  · subst hq
    rw [Done, phases_become_self]
    exact iff_of_false hphase hp
  · rw [Done, phases_become_of_ne _ _ hq, Done]

/-- The entry of a key is what it was at the start, as long as no document has been put for it, or has
the text of a document that was put. -/
def Whole (requests : P → PutRequest ι) (home : Location) (start : FileTree) (s : Writers ι P)
    (key : PrimaryKey) : Prop :=
  s.files.find? (home ++ [entryName key]) = start.find? (home ++ [entryName key]) ∧
      (∀ p, entryName (requests p).key = entryName key → ¬ s.Done p) ∨
    ∃ p, s.Done p ∧ entryName (requests p).key = entryName key ∧
      s.files.find? (home ++ [entryName key]) = some (.file (bodyOf requests p))

/-- Until a document is put for a key, nothing changes about its entry. -/
theorem Whole.of_undone
    (h : Whole requests home start s key)
    (hfind : s'.files.find? (home ++ [entryName key]) = s.files.find? (home ++ [entryName key]))
    (hdone : ∀ q, entryName (requests q).key = entryName key → (s'.Done q ↔ s.Done q)) :
    Whole requests home start s' key := by
  rcases h with ⟨hstart, hnone⟩ | ⟨q, hq, hentry, hbody⟩
  · exact .inl ⟨by rw [hfind, hstart], fun q hentry => mt (hdone q hentry).mp (hnone q hentry)⟩
  · exact .inr ⟨q, (hdone q hentry).mpr hq, hentry, by rw [hfind, hbody]⟩

/-- The stores, the directory and the puts are in order. -/
structure Intact (requests : P → PutRequest ι) (full : FileTree) (home : Location)
    (directory : String) (processes : ι → Nat) (start : FileTree) (s : Writers ι P) : Prop where
  crew : s.Crew directory processes
  files : Present full home s.files ∨ s.files = start ∧ ∀ p, s.phases p = .waiting
  puts : ∀ p, Undisturbed requests processes home s.files p (s.phases p)
  entries : ∀ key, Whole requests home start s key

/-- A put that has begun has made the directory. -/
theorem Intact.present
    (h : s.Intact requests full home directory processes start) (hp : s.phases p ≠ .waiting) :
    Present full home s.files := by
  rcases h.files with hpresent | ⟨-, hwaiting⟩
  · exact hpresent
  · exact absurd (hwaiting p) hp

/-! ## One step -/

section

variable [DecidableEq ι] [DecidableEq P]
  (h : s.Intact requests full home directory processes start)
include h

omit [DecidableEq ι] in
/-- A step that changes no more than the put's own temporary file. -/
theorem Intact.change_temporary
    (hpresent : Present full home s.files) (hp : ¬ s.Done p) (hnext : phase ≠ .finished (.ok ()))
    (hfiles : files =
      s.files.put (home ++ [nameOf requests processes p number]) (.file content))
    (hphase : Undisturbed requests processes home files p phase)
    (hothers : ∀ q, q ≠ p → ∀ m, (s.phases q).using? = some m →
      nameOf requests processes q m ≠ nameOf requests processes p number) :
    ({ s with files := files }.become p phase).Intact requests full home directory processes
      start := by
  subst hfiles
  refine ⟨h.crew.of_stores rfl, .inl (hpresent.put _ _), fun q => ?_, fun key => ?_⟩
  · by_cases hq : q = p
    · subst hq
      rwa [phases_become_self]
    · rw [phases_become_of_ne _ _ hq]
      exact (h.puts q).stays fun m hm =>
        find?_put_of_ne _ _ (child_ne_child home (hothers q hq m hm))
  · exact (h.entries key).of_undone
      (find?_put_of_ne _ _ (child_ne_child home (entryName_ne_nameOf _ _ _ _ _)))
      fun q _ => done_become_iff hp hnext q

/-- A put makes the directory and chooses a temporary file. -/
theorem Intact.make
    (hready : Ready requests full home directory processes start) (hp : s.phases p = .waiting) :
    (s.advance requests p).Intact requests full home directory processes start := by
  obtain ⟨made, hpresent, hsame, hnext⟩ :=
    advance_make hready h.crew (h.files.imp_right And.left) hp
  have hcrew := h.crew.advance requests p
  rw [hnext] at hcrew ⊢
  refine ⟨hcrew, .inl hpresent, fun q => ?_, fun key => ?_⟩
  · by_cases hq : q = p
    · subst hq
      rw [phases_become_self]
      exact h.crew.counter _
    · rw [phases_become_of_ne _ _ hq]
      exact (h.puts q).stays fun number _ => hsame _
  · have hundone : ¬ s.Done p := by simp [Done, hp]
    exact (h.entries key).of_undone (hsame _) fun q _ => done_become_iff hundone (by simp) q

/-- A put makes its temporary file, which no other put uses. -/
theorem Intact.openTemporary
    (hready : Ready requests full home directory processes start)
    (hp : s.phases p = .named number) (hapart : (s.advance requests p).Apart requests) :
    (s.advance requests p).Intact requests full home directory processes start := by
  have hnumber : number < Nat.pow 2 64 := by
    have hput := h.puts p
    rwa [hp] at hput
  have hpresent := h.present (p := p) (by rw [hp]; simp)
  have hcrew := h.crew.advance requests p
  rw [advance_open hready h.crew hpresent hp hnumber] at hapart hcrew ⊢
  refine h.change_temporary hpresent (by simp [Done, hp]) (by simp) rfl
    ⟨hnumber, rfl, find?_put_self _ _ (by simp)⟩ fun q hq m hm => ?_
  refine hapart.nameOf_ne hcrew hq ?_ (by rw [phases_become_self]; rfl)
  rw [phases_become_of_ne _ _ hq]
  exact hm

/-- A put writes into its temporary file. -/
theorem Intact.write
    {place : Option Location} (hp : s.phases p = .opened number place)
    (hapart : s.Apart requests) :
    (s.advance requests p).Intact requests full home directory processes start := by
  obtain ⟨hnumber, rfl, hempty⟩ : Undisturbed requests processes home s.files p
      (.opened number place) := by
    rw [← hp]
    exact h.puts p
  rw [advance_opened hp]
  exact h.change_temporary (h.present (p := p) (by rw [hp]; simp)) (by simp [Done, hp]) (by simp)
    (overwrite_of_empty hempty _)
    ⟨hnumber, by rw [overwrite_of_empty hempty, find?_put_self _ _ (by simp)]⟩
    fun q hq m hm => hapart.nameOf_ne h.crew hq hm (by rw [hp]; rfl)

/-- A put gives its temporary file the name of the entry. -/
theorem Intact.publish
    (hready : Ready requests full home directory processes start)
    (hp : s.phases p = .written number) (hapart : s.Apart requests) :
    (s.advance requests p).Intact requests full home directory processes start := by
  obtain ⟨hnumber, hbody⟩ : Undisturbed requests processes home s.files p (.written number) := by
    rw [← hp]
    exact h.puts p
  have hpresent := h.present (p := p) (by rw [hp]; simp)
  have hcrew := h.crew.advance requests p
  rw [advance_publish hready h.crew hpresent hp hnumber hbody] at hcrew ⊢
  refine ⟨hcrew, .inl ((hpresent.erase _).put _ _), fun q => ?_, fun key => ?_⟩
  · by_cases hq : q = p
    · subst hq
      rw [phases_become_self]
      exact rfl
    rw [phases_become_of_ne _ _ hq]
    have hothers (m : Nat) (hm : (s.phases q).using? = some m) :
        home ++ [nameOf requests processes p number] ≠
          home ++ [nameOf requests processes q m] :=
      child_ne_child home (hapart.nameOf_ne h.crew (Ne.symm hq) (by rw [hp]; rfl) hm)
    have hentry (m : Nat) : home ++ [entryName (requests p).key] ≠
        home ++ [nameOf requests processes q m] :=
      child_ne_child home (entryName_ne_nameOf _ _ _ _ _)
    refine (h.puts q).elsewhere (fun m hm => ?_) fun m hm => moved_of_ne (hothers m hm) (hentry m)
    exact (find?_put_of_ne _ _ (hentry m).symm).trans (find?_erase_of_ne _ (hothers m hm).symm)
  · by_cases hkey : entryName key = entryName (requests p).key
    · refine .inr ⟨p, phases_become_self .., hkey.symm, ?_⟩
      rw [hkey]
      exact find?_put_self _ _ (by simp)
    · refine (h.entries key).of_undone ?_ fun q hq => ?_
      · exact (find?_put_of_ne _ _ (child_ne_child home hkey)).trans
          (find?_erase_of_ne _ (child_ne_child home (entryName_ne_nameOf _ _ _ _ _)))
      · rw [Done, phases_become_of_ne _ _ (by rintro rfl; exact hkey hq.symm)]
        exact PutPhase.follow_eq_finished_iff _

/-- While no two puts use the same temporary file, every step leaves everything in order. -/
theorem Intact.advance
    (hready : Ready requests full home directory processes start) (hapart : s.Apart requests)
    (hnext : (s.advance requests p).Apart requests) :
    (s.advance requests p).Intact requests full home directory processes start := by
  cases hp : s.phases p with
  | waiting =>
      exact h.make hready hp
  | named number =>
      exact h.openTemporary hready hp hnext
  | opened number place =>
      exact h.write hp hapart
  | written number =>
      exact h.publish hready hp hapart
  | finished result =>
      rw [advance_finished hp]
      exact h

theorem Intact.run
    (hready : Ready requests full home directory processes start) (schedule : List P)
    (hapart : ∀ visited, visited <+: schedule → (s.run requests visited).Apart requests) :
    (s.run requests schedule).Intact requests full home directory processes start := by
  induction schedule generalizing s with
  | nil =>
      exact h
  | cons p schedule ih =>
      have hhere := hapart [] List.nil_prefix
      have hnext := hapart [p] (List.prefix_append [p] schedule)
      exact ih (h.advance hready hhere hnext) fun visited hvisited =>
        hapart (p :: visited) (List.cons_prefix_cons.mpr ⟨rfl, hvisited⟩)

end

/-! ## Every run -/

section

variable [DecidableEq ι] [DecidableEq P]

/-- After a run, each entry is the whole text of a document that was put, or what it was at the start
as long as none was, and a store that reads it answers with the document or misses.  No put has
failed, and those that took all their steps have put their documents. -/
structure Complete (requests : P → PutRequest ι) (home : Location) (directory : String)
    (s : Writers ι P) (schedule : List P) : Prop where
  entries : ∀ key, Whole requests home s.files (s.run requests schedule) key
  reads : ∀ (c : DiskCache) (key : PrimaryKey), c.directory = directory →
    Fits directory (entryName key) → s.files.find? (home ++ [entryName key]) = none →
      (∀ p, Storable (requests p).doc) →
        (c.get (s.run requests schedule).files key).1 = .ok none ∧
            (∀ p, entryName (requests p).key = entryName key → ¬ (s.run requests schedule).Done p) ∨
          ∃ p, (s.run requests schedule).Done p ∧ entryName (requests p).key = entryName key ∧
            (c.get (s.run requests schedule).files key).1 = .ok (some (requests p).doc)
  succeeds : ∀ p result, (s.run requests schedule).phases p = .finished result → result = .ok ()
  finishes : ∀ p, 4 ≤ schedule.count p → (s.run requests schedule).Done p

theorem complete_of_apart
    (hready : Ready requests full home directory processes s.files)
    (hcrew : s.Crew directory processes) (hwaiting : ∀ p, s.phases p = .waiting)
    (schedule : List P)
    (hapart : ∀ visited, visited <+: schedule → (s.run requests visited).Apart requests) :
    Complete requests home directory s schedule := by
  have hstart : s.Intact requests full home directory processes s.files :=
    ⟨hcrew, .inr ⟨rfl, hwaiting⟩, fun p => by rw [hwaiting]; trivial,
      fun key => .inl ⟨rfl, fun p _ => by simp [Done, hwaiting]⟩⟩
  have hintact := hstart.run hready schedule hapart
  have hfiles : Store full home (s.run requests schedule).files := by
    rcases hintact.files with hpresent | ⟨hsame, -⟩
    · exact .inl hpresent
    · rw [hsame]
      exact hready.store
  have hsucceeds (p : P) (result : Except CacheError Unit)
      (hp : (s.run requests schedule).phases p = .finished result) : result = .ok () := by
    have hput := hintact.puts p
    rwa [hp] at hput
  refine ⟨hintact.entries, fun c key hdirectory hfits hnone hstorable => ?_, hsucceeds,
    fun p hcount => ?_⟩
  · subst hdirectory
    rcases hintact.entries key with ⟨hsame, hundone⟩ | ⟨p, hdone, hentry, hbody⟩
    · rw [hnone] at hsame
      rw [get_absent hready.site hfiles hfits hsame]
      exact .inl ⟨rfl, hundone⟩
    · rw [bodyOf] at hbody
      rw [get_document hready.site hfiles hfits hbody (hstorable p).ofText?_text]
      exact .inr ⟨p, hdone, hentry, rfl⟩
  · have htaken := taken_run requests s schedule p
    obtain ⟨result, hresult⟩ := PutPhase.finished_of_taken (Nat.le_trans (by omega) htaken)
    rw [Done, hresult, hsucceeds p result hresult]

/-- As long as no two puts use one temporary file at a time, readers never see a part of an entry and
no put fails.  So it is if stores of one process are not asked to put documents for keys with the same
file, unless the count of a store overflows. -/
theorem puts_complete
    (hready : Ready requests full home directory processes s.files)
    (hcrew : s.Crew directory processes) (hwaiting : ∀ p, s.phases p = .waiting)
    (schedule : List P) :
    ((∀ visited, visited <+: schedule → (s.run requests visited).Apart requests) →
        Complete requests home directory s schedule) ∧
      ((∀ p q, (requests p).store ≠ (requests q).store →
          processes (requests p).store = processes (requests q).store →
            fileStem (requests p).key ≠ fileStem (requests q).key) →
        (∀ i, (s.stores i).temporaries + schedule.length < Nat.pow 2 64) →
          Complete requests home directory s schedule) := by
  refine ⟨complete_of_apart hready hcrew hwaiting schedule, fun hstems hroom => ?_⟩
  refine complete_of_apart hready hcrew hwaiting schedule fun visited hvisited => ?_
  refine ((Numbered.of_waiting requests hwaiting).run visited fun i => ?_).apart
    (hcrew.run requests visited) hstems
  exact Nat.lt_of_le_of_lt (Nat.add_le_add_left hvisited.length_le _) (hroom i)

/-! ## Two puts that use one temporary file -/

theorem stores_advance_of_ne
    {i : ι} (requests : P → PutRequest ι) (h : i ≠ (requests p).store) :
    (s.advance requests p).stores i = s.stores i := by
  rcases (advanced requests s p).stores with ⟨hstores, -⟩ | ⟨hstores, -⟩
  · rw [hstores]
  · rw [hstores, stores_counted_of_ne s h]

/-- A put whose file is not open stays in its phase while another one takes a step. -/
theorem phases_advance_of_ne
    (requests : P → PutRequest ι) (hne : q ≠ p) (hq : s.phases q = phase)
    (hclosed : ∀ move, phase.follow move = phase) :
    (s.advance requests p).phases q = phase := by
  obtain ⟨move, hmove⟩ := (advanced requests s p).others q hne
  rw [hmove, hq, hclosed]

theorem present_write
    {name : String} (requests : P → PutRequest ι) (hpresent : Present full home s.files)
    (hp : s.phases p = .opened number (some (home ++ [name])))
    (hempty : s.files.find? (home ++ [name]) = some (.file .empty)) :
    Present full home (s.advance requests p).files ∧
      (s.advance requests p).phases p = .written number ∧
      ∀ other, other ≠ name → (s.advance requests p).files.find? (home ++ [other]) =
        s.files.find? (home ++ [other]) := by
  rw [advance_opened hp, overwrite_of_empty hempty]
  exact ⟨hpresent.put _ _, phases_become_self .., fun other hother =>
    find?_put_of_ne _ _ (child_ne_child home hother)⟩

section

variable (hready : Ready requests full home directory processes start)
  (hcrew : s.Crew directory processes)
include hready hcrew

theorem present_make
    (hfiles : Present full home s.files ∨ s.files = start) (hp : s.phases p = .waiting)
    (hcount : (s.stores (requests p).store).temporaries = number) :
    Present full home (s.advance requests p).files ∧
      (s.advance requests p).phases p = .named number := by
  obtain ⟨made, hpresent, -, hnext⟩ := advance_make hready hcrew hfiles hp
  rw [hnext, hcount]
  exact ⟨hpresent, phases_become_self ..⟩

theorem present_open
    (hpresent : Present full home s.files) (hp : s.phases p = .named number)
    (hnumber : number < Nat.pow 2 64) :
    Present full home (s.advance requests p).files ∧
      (s.advance requests p).phases p =
        .opened number (some (home ++ [nameOf requests processes p number])) ∧
      (s.advance requests p).files.find? (home ++ [nameOf requests processes p number]) =
        some (.file .empty) := by
  rw [advance_open hready hcrew hpresent hp hnumber]
  exact ⟨hpresent.put _ _, phases_become_self .., find?_put_self _ _ (by simp)⟩

/-- A file that is open when its put is overtaken is the entry afterwards. -/
theorem present_publish
    (hpresent : Present full home s.files) (hp : s.phases p = .written number)
    (hnumber : number < Nat.pow 2 64) (hne : q ≠ p)
    (hq : s.phases q =
      .opened number (some (home ++ [nameOf requests processes p number])))
    (hfind : s.files.find? (home ++ [nameOf requests processes p number]) =
      some (.file content)) :
    Present full home (s.advance requests p).files ∧
      (s.advance requests p).phases q =
        .opened number (some (home ++ [entryName (requests p).key])) ∧
      (s.advance requests p).files.find? (home ++ [entryName (requests p).key]) =
        some (.file content) ∧
      (s.advance requests p).files.find? (home ++ [nameOf requests processes p number]) =
        none := by
  have hother : home ++ [nameOf requests processes p number] ≠
      home ++ [entryName (requests p).key] :=
    (child_ne_child home (entryName_ne_nameOf _ _ _ _ _)).symm
  rw [advance_publish hready hcrew hpresent hp hnumber hfind]
  refine ⟨(hpresent.erase _).put _ _, ?_, find?_put_self _ _ (by simp), ?_⟩
  · rw [phases_become_of_ne _ _ hne]
    dsimp only
    rw [hq, PutPhase.follow, Option.bind_some, moved, if_pos rfl]
  · exact (find?_put_of_ne _ _ hother).trans (find?_erase_self _ (by simp))

/-- A second put that uses the temporary file of one that has written it empties the file.  It becomes
the entry like that, and then there is none to be published. -/
theorem tear_of_written
    (hpresent : Present full home s.files) (hnumber : number < Nat.pow 2 64) (hne : q ≠ p)
    (hp : s.phases p = .written number) (hq : s.phases q = .waiting)
    (hcount : (s.stores (requests q).store).temporaries = number)
    (hname : nameOf requests processes q number = nameOf requests processes p number) :
    (s.run requests [q, q, p]).files.find? (home ++ [entryName (requests p).key]) =
        some (.file .empty) ∧
      (s.run requests [q, q, p, q, q]).phases q = .finished
        (.error (ioError (FilePath.join directory (entryName (requests q).key)) .notFound)) := by
  obtain ⟨hmade, hnamed⟩ := present_make hready hcrew (.inl hpresent) hq hcount
  have hwritten := phases_advance_of_ne requests hne.symm hp fun _ => rfl
  have hnext := hcrew.advance requests q
  obtain ⟨hopen, hopened, hempty⟩ := present_open hready hnext hmade hnamed hnumber
  have hstill := phases_advance_of_ne requests hne.symm hwritten fun _ => rfl
  rw [hname] at hopened hempty
  have hthird := hnext.advance requests q
  obtain ⟨hpublished, hfollowed, hentry, hgone⟩ :=
    present_publish hready hthird hopen hstill hnumber hne hopened hempty
  obtain ⟨hlast, hover, hothers⟩ := present_write requests hpublished hfollowed hentry
  simp only [run_cons, run_nil]
  refine ⟨hentry, advance_unpublished hready ((hthird.advance requests p).advance requests q) hlast
    hover hnumber ?_⟩
  rw [hname, hothers _ (entryName_ne_nameOf _ _ _ _ _).symm, hgone]

end

/-- Two stores of one process that have put equally many documents choose the same temporary file for
a key.  Then the entry can be empty while no put has failed, and the second put fails. -/
theorem puts_tear
    (hready : Ready requests full home directory processes s.files)
    (hcrew : s.Crew directory processes) (hp : s.phases p = .waiting) (hq : s.phases q = .waiting)
    (hstores : (requests q).store ≠ (requests p).store)
    (hprocess : processes (requests q).store = processes (requests p).store)
    (hcount : (s.stores (requests q).store).temporaries =
      (s.stores (requests p).store).temporaries)
    (hstem : fileStem (requests q).key = fileStem (requests p).key) :
    (s.run requests [p, p, p, q, q, p]).files.find? (home ++ [entryName (requests p).key]) =
        some (.file .empty) ∧
      (s.run requests [p, p, p, q, q, p, q, q]).phases q = .finished
        (.error (ioError (FilePath.join directory (entryName (requests q).key)) .notFound)) := by
  have hne : q ≠ p := fun h => hstores (by rw [h])
  have hnumber := hcrew.counter (requests p).store
  have hname : nameOf requests processes q (s.stores (requests p).store).temporaries =
      nameOf requests processes p (s.stores (requests p).store).temporaries := by
    rw [nameOf, nameOf, temporaryName, temporaryName, hstem, hprocess]
  obtain ⟨hmade, hnamed⟩ := present_make hready hcrew (.inr rfl) hp rfl
  have hnext := hcrew.advance requests p
  obtain ⟨hopen, hopened, hempty⟩ := present_open hready hnext hmade hnamed hnumber
  obtain ⟨hwrite, hwritten, -⟩ := present_write requests hopen hopened hempty
  have hlast : (((s.advance requests p).advance requests p).advance requests p).phases q =
      .waiting := by
    refine phases_advance_of_ne requests hne ?_ fun _ => rfl
    refine phases_advance_of_ne requests hne ?_ fun _ => rfl
    exact phases_advance_of_ne requests hne hq fun _ => rfl
  have hthere : ((((s.advance requests p).advance requests p).advance requests p).stores
      (requests q).store).temporaries = (s.stores (requests p).store).temporaries := by
    rw [stores_advance_of_ne requests hstores, stores_advance_of_ne requests hstores,
      stores_advance_of_ne requests hstores, hcount]
  have htear := tear_of_written hready ((hnext.advance requests p).advance requests p) hwrite
    hnumber hne hwritten hlast hthere hname
  rw [run_cons, run_cons, run_cons, run_cons, run_cons, run_cons]
  exact htear

/-- A run that leaves an entry empty is not complete. -/
theorem not_complete_of_empty
    {schedule : List P} (hstart : s.files.find? (home ++ [entryName key]) = none)
    (hempty : (s.run requests schedule).files.find? (home ++ [entryName key]) =
      some (.file .empty)) :
    ¬ Complete requests home directory s schedule := by
  intro hcomplete
  rcases hcomplete.entries key with ⟨hsame, -⟩ | ⟨p, -, -, hbody⟩
  · rw [hempty, hstart] at hsame
    cases hsame
  · rw [hempty] at hbody
    injection hbody with hbody
    injection hbody with hbody
    have htext := fromUTF8?_toUTF8 (Document.text (requests p).doc)
    rw [← bodyOf, ← hbody] at htext
    have hblank := Document.allBlank_text (requests p).doc
    rw [← Option.some.inj htext] at hblank
    cases hblank

end

/-! ## Stores of a table -/

/-- The stores of a table below a root, opened by processes, with their puts still to come. -/
def opened (root table : String) (processes : ι → Nat) (files : FileTree) : Writers ι P :=
  ⟨files, fun i => DiskCache.ofTable root table (processes i), fun _ => .waiting⟩

theorem crew_opened
    (root table : String) (processes : ι → Nat) (files : FileTree) :
    (opened root table processes files : Writers ι P).Crew
      (FilePath.join root (Text.fileSafe table)) processes := by
  exact ⟨fun i => directory_ofTable root table (processes i), fun _ => rfl,
    fun _ => Nat.pow_pos (by decide)⟩

/-- The stores of a table can work if the name of their directory is free below the root. -/
theorem Ready.of_vacant
    {root table : String} (hvacant : Vacant start root loc (Text.fileSafe table))
    (hname : Text.fileSafe table ≠ "")
    (hbytes : (Text.fileSafe table).utf8ByteSize ≤ maxNameBytes)
    (hshort : (FilePath.join root (Text.fileSafe table)).utf8ByteSize + 175 ≤ maxPathBytes)
    (hprocesses : ∀ i, processes i < Nat.pow 2 32) (requests : P → PutRequest ι) :
    Ready requests (start.put (loc ++ [Text.fileSafe table]) .directory)
      (loc ++ [Text.fileSafe table]) (FilePath.join root (Text.fileSafe table)) processes start := by
  have hplain := Text.plain_fileSafe hname
  have hpath : (FilePath.join root (Text.fileSafe table)).utf8ByteSize ≤ maxPathBytes := by
    omega
  have hpaths : PathsShort (FilePath.join root (Text.fileSafe table)) (fun _ => True)
      (· < Nat.pow 2 32) := .of_le hshort
  refine ⟨Site.of_name hvacant hplain hbytes hpath, .inr hvacant.missing, ?_, fun p number => ?_⟩
  · rw [hvacant.createDirectories hplain hbytes hpath]
  · exact hpaths.allFit (fun _ => id) _ trivial _ (hprocesses _) number

/-- Two stores put a layer for the same key. -/
def layerRequests (second : Bool) : PutRequest Bool :=
  ⟨second, Sample.singleKey "a", Sample.layer "a" second⟩

/-- The two stores, opened by processes. -/
def layerStores (processes : Bool → Nat) : Writers Bool Bool :=
  opened "c" "layers" processes cacheFiles

/-- Processes of which the second is another one. -/
def twoProcesses (second : Bool) : Nat :=
  if second then 8 else 7

/-- The second put makes its temporary file before the first one publishes its own. -/
def layerSchedule : List Bool :=
  [false, false, false, true, true, false, true, true]

/-- The directory of the layers is not there at the start. -/
theorem ready_layers
    (processes : Bool → Nat) (hprocesses : ∀ i, processes i < Nat.pow 2 32) :
    Ready layerRequests (cacheFiles.put ["c", Text.fileSafe "layers"] .directory)
      ["c", Text.fileSafe "layers"] (FilePath.join "c" (Text.fileSafe "layers")) processes
      (layerStores processes).files := by
  exact Ready.of_vacant (emptyRoot_cacheFiles.vacant (Text.fileSafe "layers")) (by decide)
    (by decide) (by decide) hprocesses layerRequests

theorem puts_complete_layers :
    Ready layerRequests (cacheFiles.put ["c", Text.fileSafe "layers"] .directory)
        ["c", Text.fileSafe "layers"] (FilePath.join "c" (Text.fileSafe "layers")) twoProcesses
        (layerStores twoProcesses).files ∧
      (layerStores twoProcesses).Crew (FilePath.join "c" (Text.fileSafe "layers")) twoProcesses ∧
      (∀ second, (layerStores twoProcesses).phases second = .waiting) ∧
      (∀ visited, visited <+: layerSchedule.take 6 →
        ((layerStores twoProcesses).run layerRequests visited).Apart layerRequests) ∧
      (∀ p q, (layerRequests p).store ≠ (layerRequests q).store →
        twoProcesses (layerRequests p).store = twoProcesses (layerRequests q).store →
          fileStem (layerRequests p).key ≠ fileStem (layerRequests q).key) ∧
      (∀ i, ((layerStores twoProcesses).stores i).temporaries + layerSchedule.length <
        Nat.pow 2 64) ∧
      Complete layerRequests ["c", Text.fileSafe "layers"]
        (FilePath.join "c" (Text.fileSafe "layers")) (layerStores twoProcesses)
        (layerSchedule.take 6) ∧
      Complete layerRequests ["c", Text.fileSafe "layers"]
        (FilePath.join "c" (Text.fileSafe "layers")) (layerStores twoProcesses) layerSchedule := by
  have hready := ready_layers twoProcesses (by decide)
  have hcrew : (layerStores twoProcesses).Crew (FilePath.join "c" (Text.fileSafe "layers"))
      twoProcesses := crew_opened "c" "layers" twoProcesses cacheFiles
  have hwaiting (second : Bool) : (layerStores twoProcesses).phases second = .waiting := rfl
  have hdistinct : ∀ i j, twoProcesses i = twoProcesses j → i = j := by
    decide
  have hstems (p q : Bool) (hstore : (layerRequests p).store ≠ (layerRequests q).store)
      (hprocess : twoProcesses (layerRequests p).store = twoProcesses (layerRequests q).store) :
      fileStem (layerRequests p).key ≠ fileStem (layerRequests q).key :=
    absurd (hdistinct _ _ hprocess) hstore
  have hroom (i : Bool) : ((layerStores twoProcesses).stores i).temporaries + layerSchedule.length <
      Nat.pow 2 64 := by
    have hcount : ((layerStores twoProcesses).stores i).temporaries = 0 := rfl
    rw [hcount]
    decide
  have hapart (visited : List Bool) (hvisited : visited <+: layerSchedule.take 6) :
      ((layerStores twoProcesses).run layerRequests visited).Apart layerRequests := by
    have hlength : visited.length ≤ layerSchedule.length :=
      Nat.le_trans hvisited.length_le (by decide)
    have hnumbered := (Numbered.of_waiting layerRequests hwaiting).run visited fun i =>
      Nat.lt_of_le_of_lt (Nat.add_le_add_left hlength _) (hroom i)
    exact hnumbered.apart (hcrew.run layerRequests visited) hstems
  exact ⟨hready, hcrew, hwaiting, hapart, hstems, hroom,
    (puts_complete hready hcrew hwaiting (layerSchedule.take 6)).1 hapart,
    (puts_complete hready hcrew hwaiting layerSchedule).2 hstems hroom⟩

/-- If one process has opened both stores, readers find an empty entry after six steps, and after the
last one the second put has failed. -/
theorem puts_torn :
    Ready layerRequests (cacheFiles.put ["c", Text.fileSafe "layers"] .directory)
        ["c", Text.fileSafe "layers"] (FilePath.join "c" (Text.fileSafe "layers")) (fun _ => 7)
        (layerStores fun _ => 7).files ∧
      ¬ Complete layerRequests ["c", Text.fileSafe "layers"]
        (FilePath.join "c" (Text.fileSafe "layers")) (layerStores fun _ => 7)
        (layerSchedule.take 6) ∧
      ¬ Complete layerRequests ["c", Text.fileSafe "layers"]
        (FilePath.join "c" (Text.fileSafe "layers")) (layerStores fun _ => 7) layerSchedule := by
  have hready := ready_layers (fun _ => 7) (by decide)
  have hcrew : (layerStores fun _ => 7).Crew (FilePath.join "c" (Text.fileSafe "layers"))
      fun _ => 7 := crew_opened "c" "layers" (fun _ => 7) cacheFiles
  obtain ⟨hempty, hfailed⟩ := puts_tear (p := false) (q := true) hready hcrew rfl rfl (by decide)
    rfl rfl rfl
  rw [layerSchedule]
  refine ⟨hready, not_complete_of_empty ?_ hempty, fun hcomplete => ?_⟩
  · exact (emptyRoot_cacheFiles.vacant _).missing.find?_eq_none (List.prefix_append _ _)
  · cases hcomplete.succeeds true _ hfailed

end Writers
end DocumentTables
