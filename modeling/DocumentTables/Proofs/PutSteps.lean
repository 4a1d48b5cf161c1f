import DocumentTables.Proofs.StoreFiles

/-!
# Putting documents step by step

A document is put in four steps: the directory is made and a temporary name chosen; the temporary
file is made, or emptied if it is there; the text is written into it; and it gets the name of the
entry.  Stores that share a directory, in one process or in several, take these steps in any order.
Between the second step and the third a file is open, and it stays so when its name goes to another
path or to another file.

**Results.**

* `Writers.run_alone`: taken without a pause, the steps put the document.
* `Writers.advanced`: what one step changes about the stores and the puts.
* `Writers.taken_run`: a put that has taken its steps has finished.
-/

namespace DocumentTables

/-! ## Open files -/

namespace FileTree

variable {t t' : FileTree} {follow : Bool} {links : Nat} {here loc : Location} {path : String}
  {names : List String} {node : Option Node}

/-- Make an empty regular file, or empty the one there is, and leave it open; a link at the end of the
path is followed. -/
def openFile (t : FileTree) (path : String) : Except FileError (Location × FileTree) :=
  if FilePath.leadsToDirectory path then .error .isDirectory
  else
    match t.locate true path with
    | .error e => .error e
    | .ok ⟨_, some .directory⟩ => .error .isDirectory
    | .ok ⟨_, some (.link _)⟩ => .error .tooManyLinks
    | .ok ⟨loc, some (.file _)⟩ => .ok (loc, t.put loc (.file .empty))
    | .ok ⟨loc, none⟩ => .ok (loc, t.put loc (.file .empty))

/-- Write into an open file from its beginning on.  What it has beyond that stays. -/
def overwrite (t : FileTree) (loc : Location) (body : ByteArray) : FileTree :=
  match t.find? loc with
  | some (.file old) => t.put loc (.file (body ++ old.extract body.size old.size))
  | _ => t

/-- The location that a path names, whether anything stands there or not. -/
def placeOf (t : FileTree) (path : String) : Option Location :=
  match t.locate false path with
  | .ok place => some place.location
  | .error _ => none

/-- The top is a directory, so whatever else a path leads to is below it. -/
theorem location_ne_nil
    (h : t.resolveFrom follow links here names = .ok ⟨loc, node⟩)
    (hnode : node ≠ some .directory) :
    loc ≠ [] := by
  induction links, here, names using resolve_induction with
  | nil links here =>
      rw [resolveFrom_nil] at h
      cases h
      exact absurd rfl hnode
  | cons links here name names ihnames ihlinks =>
      rw [resolveFrom_cons] at h
      split at h
      · exact ihnames _ h
      · cases h
      · split at h <;> cases h
        simp
      · split at h <;> cases h
        simp
      · split at h
        · cases h
          simp
        · cases links with
          | zero =>
              cases h
          | succ links =>
              exact ihlinks links _ _ (Nat.lt_succ_self _) h

theorem put_put
    (t : FileTree) (loc : Location) (first second : Node) :
    (t.put loc first).put loc second = t.put loc second := by
  rw [put, put, put, List.filter_cons_of_neg (by simp), List.filter_filter]
  simp

theorem overwrite_of_find?
    {old : ByteArray} (h : t.find? loc = some (.file old)) (body : ByteArray) :
    t.overwrite loc body = t.put loc (.file (body ++ old.extract body.size old.size)) := by
  rw [overwrite, h]

theorem overwrite_of_empty
    (h : t.find? loc = some (.file .empty)) (body : ByteArray) :
    t.overwrite loc body = t.put loc (.file body) := by
  have hrest : ByteArray.empty.extract body.size ByteArray.empty.size = ByteArray.empty :=
    ByteArray.extract_eq_empty_iff.mpr (by simp)
  rw [overwrite_of_find? h, hrest, ByteArray.append_empty]

/-- To write a file is to open it and to write into it. -/
theorem writeFile_eq
    (t : FileTree) (path : String) (body : ByteArray) :
    t.writeFile path body = (t.openFile path).map fun opened => opened.2.overwrite opened.1 body := by
  rw [writeFile, openFile]
  split
  · rfl
  · cases hlocate : t.locate true path with
    | error e =>
        rfl
    | ok place =>
        obtain ⟨loc, node⟩ := place
        have hput (hnode : node ≠ some .directory) : t.put loc (.file body) =
            (t.put loc (.file .empty)).overwrite loc body := by
          have hresult := (resolve_eq_ok hlocate).2.2.2
          rw [overwrite_of_empty (find?_put_self t _ (location_ne_nil hresult hnode)), put_put]
        rcases node with _ | _ | content | target
        · exact congrArg Except.ok (hput (by simp))
        · rfl
        · exact congrArg Except.ok (hput (by simp))
        · rfl

end FileTree

open FileTree

namespace DiskCache

/-- The temporary file for a key that has the given number. -/
def numberedPath (c : DiskCache) (number : Nat) (key : PrimaryKey) : String :=
  { c with temporaries := number }.temporaryPath key

/-- Where an open file is after a temporary file got the name of its entry, or was removed since that
failed.  The file that was the entry before is nowhere. -/
def placeAfter (files : FileTree) (temporary entry : String) (loc : Location) :
    Option Location :=
  match files.rename temporary entry with
  | .ok _ =>
      if files.placeOf temporary = some loc then files.placeOf entry
      else if files.placeOf entry = some loc then none else some loc
  | .error _ =>
      match files.removeFile temporary with
      | .ok _ => if files.placeOf temporary = some loc then none else some loc
      | .error _ => some loc

end DiskCache

/-! ## Stores that put documents -/

/-- A document to be put for a key, by one of the stores. -/
structure PutRequest (ι : Type) where
  store : ι
  key : PrimaryKey
  doc : Document

/-- How far a put has come. -/
inductive PutPhase where
  /-- About to make the directory and to choose a temporary file. -/
  | waiting
  /-- About to make the temporary file with the chosen number. -/
  | named (number : Nat)
  /-- About to write into the temporary file, which is open and stands at a location if it has one. -/
  | opened (number : Nat) (place : Option Location)
  /-- About to give the temporary file the name of the entry. -/
  | written (number : Nat)
  | finished (result : Except CacheError Unit)

namespace PutPhase

/-- The number of the temporary file, from its choice to the end. -/
def number? : PutPhase → Option Nat
  | .named number => some number
  | .opened number _ => some number
  | .written number => some number
  | _ => none

/-- The number of the temporary file while the put uses the file. -/
def using? : PutPhase → Option Nat
  | .opened number _ => some number
  | .written number => some number
  | _ => none

/-- An open file has come to another place. -/
def follow (move : Location → Option Location) : PutPhase → PutPhase
  | .opened number place => .opened number (place.bind move)
  | phase => phase

theorem follow_some
    (phase : PutPhase) :
    phase.follow some = phase := by
  cases phase with
  | opened number place =>
      cases place <;> rfl
  | _ =>
      rfl

/-- How many steps were taken, at least. -/
def taken : PutPhase → Nat
  | .waiting => 0
  | .named _ => 1
  | .opened _ _ => 2
  | .written _ => 3
  | .finished _ => 4

section

variable {phase : PutPhase} {number : Nat}

@[simp] theorem number?_follow
    (phase : PutPhase) (move : Location → Option Location) :
    (phase.follow move).number? = phase.number? := by
  cases phase <;> rfl

@[simp] theorem taken_follow
    (phase : PutPhase) (move : Location → Option Location) :
    (phase.follow move).taken = phase.taken := by
  cases phase <;> rfl

theorem follow_eq_finished_iff
    {result : Except CacheError Unit} (move : Location → Option Location) :
    phase.follow move = .finished result ↔ phase = .finished result := by
  cases phase <;> simp [follow]

theorem number?_of_using?
    (h : phase.using? = some number) :
    phase.number? = some number := by
  cases phase <;> first | exact h | cases h

theorem finished_of_taken
    (h : 4 ≤ phase.taken) :
    ∃ result, phase = .finished result := by
  cases phase with
  | finished result =>
      exact ⟨result, rfl⟩
  | _ =>
      simp [taken] at h

end

end PutPhase

/-- The files that stores share, the stores, and the puts. -/
structure Writers (ι P : Type) where
  files : FileTree
  stores : ι → DiskCache
  phases : P → PutPhase

namespace Writers

open DiskCache

variable {ι P : Type} {requests : P → PutRequest ι} {s : Writers ι P} {p q : P} {i j : ι}
  {files : FileTree} {phase : PutPhase} {number : Nat} {key : PrimaryKey} {loc : Location}

/-- One put has come further. -/
def become [DecidableEq P] (s : Writers ι P) (p : P) (phase : PutPhase) : Writers ι P :=
  { s with phases := fun q => if q = p then phase else s.phases q }

/-- A store has chosen a temporary file. -/
def counted [DecidableEq ι] (s : Writers ι P) (i : ι) : Writers ι P :=
  { s with
    stores := fun j =>
      if j = i then { s.stores i with temporaries := ((s.stores i).temporaries + 1) % Nat.pow 2 64 }
      else s.stores j }

/-- The temporary file of a put with the given number. -/
def temporaryOf (requests : P → PutRequest ι) (s : Writers ι P) (p : P) (number : Nat) : String :=
  (s.stores (requests p).store).numberedPath number (requests p).key

/-- The entry that a put is to write. -/
def entryOf (requests : P → PutRequest ι) (s : Writers ι P) (p : P) : String :=
  (s.stores (requests p).store).entryPath (requests p).key

/-- The text that a put writes. -/
def bodyOf (requests : P → PutRequest ι) (p : P) : ByteArray :=
  (Document.text (requests p).doc).toUTF8

section

variable [DecidableEq P]

@[simp] theorem phases_become_self
    (s : Writers ι P) (p : P) (phase : PutPhase) :
    (s.become p phase).phases p = phase := by
  simp [become]

theorem phases_become_of_ne
    (s : Writers ι P) (phase : PutPhase) (h : q ≠ p) :
    (s.become p phase).phases q = s.phases q := by
  simp [become, h]

@[simp] theorem files_become
    (s : Writers ι P) (p : P) (phase : PutPhase) :
    (s.become p phase).files = s.files := by
  rfl

@[simp] theorem stores_become
    (s : Writers ι P) (p : P) (phase : PutPhase) :
    (s.become p phase).stores = s.stores := by
  rfl

end

section

variable [DecidableEq ι]

@[simp] theorem files_counted
    (s : Writers ι P) (i : ι) :
    (s.counted i).files = s.files := by
  rfl

@[simp] theorem phases_counted
    (s : Writers ι P) (i : ι) :
    (s.counted i).phases = s.phases := by
  rfl

theorem stores_counted_self
    (s : Writers ι P) (i : ι) :
    (s.counted i).stores i =
      { s.stores i with temporaries := ((s.stores i).temporaries + 1) % Nat.pow 2 64 } := by
  simp [counted]

theorem stores_counted_of_ne
    (s : Writers ι P) (h : j ≠ i) :
    (s.counted i).stores j = s.stores j := by
  simp [counted, h]

/-- To choose a temporary file does not change the paths that a store names. -/
theorem directory_counted
    (s : Writers ι P) (i j : ι) :
    ((s.counted i).stores j).directory = (s.stores j).directory ∧
      ((s.counted i).stores j).process = (s.stores j).process := by
  by_cases h : j = i
  · subst h
    rw [stores_counted_self]
    exact ⟨rfl, rfl⟩
  · rw [stores_counted_of_ne s h]
    exact ⟨rfl, rfl⟩

end

variable [DecidableEq ι] [DecidableEq P]

/-- A put takes its next step.  One that has finished stays as it is. -/
def advance (requests : P → PutRequest ι) (s : Writers ι P) (p : P) : Writers ι P :=
  match s.phases p with
  | .waiting =>
      let c := s.stores (requests p).store
      match s.files.createDirectories c.directory with
      | (.error e, files) =>
          { s with files := files }.become p (.finished (.error (ioError c.directory e)))
      | (.ok (), files) =>
          ({ s with files := files }.counted (requests p).store).become p (.named c.temporaries)
  | .named number =>
      match s.files.openFile (s.temporaryOf requests p number) with
      | .error e =>
          s.become p (.finished (.error (ioError (s.temporaryOf requests p number) e)))
      | .ok (loc, files) => { s with files := files }.become p (.opened number (some loc))
  | .opened number place =>
      match place with
      | some loc =>
          { s with files := s.files.overwrite loc (bodyOf requests p) }.become p (.written number)
      | none => s.become p (.written number)
  | .written number =>
      let temporary := s.temporaryOf requests p number
      let entry := s.entryOf requests p
      let (result, files) := publish s.files temporary entry
      { s with
        files := files
        phases := fun q => (s.phases q).follow (placeAfter s.files temporary entry) }.become p
          (.finished result)
  | .finished _ => s

/-- The puts take steps in the given order. -/
def run (requests : P → PutRequest ι) (s : Writers ι P) (schedule : List P) : Writers ι P :=
  schedule.foldl (advance requests) s

/-! ## Single steps -/

theorem advance_unmade
    {e : FileError} (h : s.phases p = .waiting)
    (hcreate : s.files.createDirectories (s.stores (requests p).store).directory =
      (.error e, files)) :
    s.advance requests p = { s with files := files }.become p
      (.finished (.error (ioError (s.stores (requests p).store).directory e))) := by
  simp only [advance, h, hcreate]

theorem advance_waiting
    (h : s.phases p = .waiting)
    (hcreate : s.files.createDirectories (s.stores (requests p).store).directory =
      (.ok (), files)) :
    s.advance requests p = ({ s with files := files }.counted (requests p).store).become p
      (.named (s.stores (requests p).store).temporaries) := by
  simp only [advance, h, hcreate]

theorem advance_unopened
    {e : FileError} (h : s.phases p = .named number)
    (hopen : s.files.openFile (s.temporaryOf requests p number) = .error e) :
    s.advance requests p =
      s.become p (.finished (.error (ioError (s.temporaryOf requests p number) e))) := by
  simp only [advance, h, hopen]

theorem advance_named
    (h : s.phases p = .named number)
    (hopen : s.files.openFile (s.temporaryOf requests p number) = .ok (loc, files)) :
    s.advance requests p =
      { s with files := files }.become p (.opened number (some loc)) := by
  simp only [advance, h, hopen]

theorem advance_opened
    (h : s.phases p = .opened number (some loc)) :
    s.advance requests p =
      { s with files := s.files.overwrite loc (bodyOf requests p) }.become p
        (.written number) := by
  simp only [advance, h]

theorem advance_closed
    (h : s.phases p = .opened number none) :
    s.advance requests p = s.become p (.written number) := by
  simp only [advance, h]

theorem advance_written
    (h : s.phases p = .written number) :
    s.advance requests p =
      { s with
        files := (publish s.files (s.temporaryOf requests p number) (s.entryOf requests p)).2
        phases := fun q => (s.phases q).follow
          (placeAfter s.files (s.temporaryOf requests p number) (s.entryOf requests p)) }.become p
        (.finished
          (publish s.files (s.temporaryOf requests p number) (s.entryOf requests p)).1) := by
  simp only [advance, h]

theorem advance_finished
    {result : Except CacheError Unit} (h : s.phases p = .finished result) :
    s.advance requests p = s := by
  simp only [advance, h]

theorem run_nil
    (requests : P → PutRequest ι) (s : Writers ι P) :
    s.run requests [] = s := by
  rfl

theorem run_cons
    (requests : P → PutRequest ι) (s : Writers ι P) (p : P) (schedule : List P) :
    s.run requests (p :: schedule) = (s.advance requests p).run requests schedule := by
  rfl

/-- A put that has finished takes no further steps. -/
theorem run_finished
    {result : Except CacheError Unit} (h : s.phases p = .finished result) (steps : Nat) :
    s.run requests (List.replicate steps p) = s := by
  induction steps with
  | zero =>
      rfl
  | succ steps ih =>
      rw [List.replicate_succ, run_cons, advance_finished h, ih]

/-- The put has finished with the result, and left the store and the files. -/
structure Leaves (requests : P → PutRequest ι) (s : Writers ι P) (p : P)
    (result : Except CacheError Unit) (store : DiskCache) (files : FileTree) : Prop where
  phase : s.phases p = .finished result
  store : s.stores (requests p).store = store
  files : s.files = files

omit [DecidableEq ι] [DecidableEq P] in
/-- What a put comes to once its directory is there. -/
theorem put_of_created
    {c : DiskCache} {made : FileTree} (hcreate : files.createDirectories c.directory = (.ok (), made))
    (key : PrimaryKey) (doc : Document) :
    c.put files key doc =
      match made.openFile (c.temporaryPath key) with
      | .error e =>
          (.error (ioError (c.temporaryPath key) e),
            { c with temporaries := (c.temporaries + 1) % Nat.pow 2 64 }, made)
      | .ok (loc, opened) =>
          let published := publish (opened.overwrite loc (Document.text doc).toUTF8)
            (c.temporaryPath key) (c.entryPath key)
          (published.1, { c with temporaries := (c.temporaries + 1) % Nat.pow 2 64 },
            published.2) := by
  have hwrite := writeFile_eq made (c.temporaryPath key) (Document.text doc).toUTF8
  cases hopen : made.openFile (c.temporaryPath key) with
  | error e =>
      rw [hopen] at hwrite
      exact put_of_unwritten hcreate hwrite
  | ok opened =>
      rw [hopen] at hwrite
      exact put_of_written hcreate hwrite

omit [DecidableEq ι] [DecidableEq P] in
/-- The paths of a put depend on the stores only. -/
theorem paths_congr
    {s' : Writers ι P} (h : s'.stores = s.stores) (requests : P → PutRequest ι) (p : P)
    (number : Nat) :
    s'.temporaryOf requests p number = s.temporaryOf requests p number ∧
      s'.entryOf requests p = s.entryOf requests p := by
  rw [temporaryOf, temporaryOf, entryOf, entryOf, h]
  exact ⟨rfl, rfl⟩

/-- The last step of a put. -/
theorem leaves_written
    (requests : P → PutRequest ι) (h : s.phases p = .written number) :
    (s.advance requests p).Leaves requests p
      (publish s.files (s.temporaryOf requests p number) (s.entryOf requests p)).1
      (s.stores (requests p).store)
      (publish s.files (s.temporaryOf requests p number) (s.entryOf requests p)).2 := by
  rw [advance_written h]
  exact ⟨phases_become_self .., by rw [stores_become], by rw [files_become]⟩

/-- The last two steps of a put. -/
theorem leaves_opened
    (requests : P → PutRequest ι) (h : s.phases p = .opened number (some loc)) :
    ((s.advance requests p).advance requests p).Leaves requests p
      (publish (s.files.overwrite loc (bodyOf requests p)) (s.temporaryOf requests p number)
        (s.entryOf requests p)).1
      (s.stores (requests p).store)
      (publish (s.files.overwrite loc (bodyOf requests p)) (s.temporaryOf requests p number)
        (s.entryOf requests p)).2 := by
  have hfiles : (s.advance requests p).files = s.files.overwrite loc (bodyOf requests p) := by
    rw [advance_opened h, files_become]
  have hstores : (s.advance requests p).stores = s.stores := by
    rw [advance_opened h, stores_become]
  have hphase : (s.advance requests p).phases p = .written number := by
    rw [advance_opened h, phases_become_self]
  obtain ⟨htemporary, hentry⟩ := paths_congr hstores requests p number
  have hleaves := leaves_written requests hphase
  rwa [hfiles, hstores, htemporary, hentry] at hleaves

/-- Taken without a pause, the steps of a put are the call of the store. -/
theorem run_alone
    (requests : P → PutRequest ι) (s : Writers ι P) (h : s.phases p = .waiting) :
    (s.run requests (List.replicate 4 p)).Leaves requests p
      ((s.stores (requests p).store).put s.files (requests p).key (requests p).doc).1
      ((s.stores (requests p).store).put s.files (requests p).key (requests p).doc).2.1
      ((s.stores (requests p).store).put s.files (requests p).key (requests p).doc).2.2 := by
  cases hcreate : s.files.createDirectories (s.stores (requests p).store).directory with
  | mk result made =>
      obtain e | _ := result
      · rw [put_of_uncreated hcreate, List.replicate_succ, run_cons, advance_unmade h hcreate,
          run_finished (phases_become_self ..)]
        exact ⟨phases_become_self .., rfl, rfl⟩
      have hnext := advance_waiting h hcreate
      have hphase : (s.advance requests p).phases p =
          .named (s.stores (requests p).store).temporaries := by
        rw [hnext, phases_become_self]
      have hfiles : (s.advance requests p).files = made := by
        rw [hnext, files_become, files_counted]
      have hstore : (s.advance requests p).stores (requests p).store =
          { s.stores (requests p).store with
            temporaries := ((s.stores (requests p).store).temporaries + 1) % Nat.pow 2 64 } := by
        rw [hnext, stores_become, stores_counted_self]
      rw [put_of_created hcreate, List.replicate_succ, run_cons]
      generalize s.advance requests p = first at hphase hstore hfiles ⊢
      have htemporary : first.temporaryOf requests p (s.stores (requests p).store).temporaries =
          (s.stores (requests p).store).temporaryPath (requests p).key := by
        rw [temporaryOf, hstore]
        rfl
      have hentry : first.entryOf requests p =
          (s.stores (requests p).store).entryPath (requests p).key := by
        rw [entryOf, hstore]
        rfl
      rw [← htemporary, ← hentry, ← hfiles, ← hstore]
      cases hopen : first.files.openFile
          (first.temporaryOf requests p (s.stores (requests p).store).temporaries) with
      | error e =>
          rw [List.replicate_succ, run_cons, advance_unopened hphase hopen,
            run_finished (phases_become_self ..)]
          exact ⟨phases_become_self .., rfl, rfl⟩
      | ok opened =>
          obtain ⟨loc, opened⟩ := opened
          have hnext := advance_named hphase hopen
          have hopened : (first.advance requests p).phases p =
              .opened (s.stores (requests p).store).temporaries (some loc) := by
            rw [hnext, phases_become_self]
          have hstores : (first.advance requests p).stores = first.stores := by
            rw [hnext, stores_become]
          have hfiles : (first.advance requests p).files = opened := by
            rw [hnext, files_become]
          obtain ⟨htemporary, hentry⟩ := paths_congr hstores requests p
            (s.stores (requests p).store).temporaries
          have hleaves := leaves_opened requests hopened
          have hrun : first.run requests (List.replicate 3 p) =
              ((first.advance requests p).advance requests p).advance requests p := rfl
          rw [hfiles, hstores, htemporary, hentry, bodyOf] at hleaves
          rw [hrun]
          dsimp only
          exact hleaves

/-! ## What every step keeps -/

omit [DecidableEq P] in
/-- What a step of one put changes about the stores and the puts: the others stay in their phases, if
not with their files in place, and a number is used only after the store has counted it. -/
structure Advanced (requests : P → PutRequest ι) (s s' : Writers ι P) (p : P) : Prop where
  others : ∀ q, q ≠ p → ∃ move, s'.phases q = (s.phases q).follow move
  taken : 4 ≤ (s'.phases p).taken ∨ (s.phases p).taken < (s'.phases p).taken
  stores :
    (s'.stores = s.stores ∧
        ∀ number, (s'.phases p).number? = some number → (s.phases p).number? = some number) ∨
      s'.stores = (s.counted (requests p).store).stores ∧
        s'.phases p = .named (s.stores (requests p).store).temporaries

theorem Advanced.of_become
    {s' : Writers ι P} (hnext : s' = { s with files := files }.become p phase)
    (htaken : 4 ≤ phase.taken ∨ (s.phases p).taken < phase.taken)
    (hnumber : ∀ number, phase.number? = some number → (s.phases p).number? = some number) :
    s.Advanced requests s' p := by
  subst hnext
  refine ⟨fun q hq => ⟨some, ?_⟩, by rwa [phases_become_self], .inl ⟨rfl, ?_⟩⟩
  · rw [phases_become_of_ne _ _ hq, PutPhase.follow_some]
  · rwa [phases_become_self]

theorem advanced
    (requests : P → PutRequest ι) (s : Writers ι P) (p : P) :
    s.Advanced requests (s.advance requests p) p := by
  cases hp : s.phases p with
  | waiting =>
      cases hcreate : s.files.createDirectories (s.stores (requests p).store).directory with
      | mk result made =>
          cases result with
          | error e =>
              exact .of_become (advance_unmade hp hcreate) (.inl (Nat.le_refl 4)) (by rintro _ ⟨⟩)
          | ok =>
              rw [advance_waiting hp hcreate]
              refine ⟨fun q hq => ⟨some, ?_⟩, .inr ?_, .inr ⟨rfl, phases_become_self ..⟩⟩
              · rw [phases_become_of_ne _ _ hq, PutPhase.follow_some, phases_counted]
              · rw [phases_become_self, hp]
                exact Nat.zero_lt_one
  | named number =>
      cases hopen : s.files.openFile (s.temporaryOf requests p number) with
      | error e =>
          exact .of_become (advance_unopened hp hopen) (.inl (Nat.le_refl 4)) (by rintro _ ⟨⟩)
      | ok opened =>
          exact .of_become (advance_named hp hopen) (.inr (by rw [hp]; exact Nat.lt_succ_self _))
            fun m hm => by rwa [hp]
  | opened number place =>
      cases place with
      | none =>
          exact .of_become (advance_closed hp) (.inr (by rw [hp]; exact Nat.lt_succ_self _))
            fun m hm => by rwa [hp]
      | some loc =>
          exact .of_become (advance_opened hp) (.inr (by rw [hp]; exact Nat.lt_succ_self _))
            fun m hm => by rwa [hp]
  | written number =>
      rw [advance_written hp]
      generalize publish s.files (s.temporaryOf requests p number) (s.entryOf requests p) =
        published
      generalize placeAfter s.files (s.temporaryOf requests p number) (s.entryOf requests p) = move
      refine ⟨fun q hq => ⟨move, phases_become_of_ne _ _ hq⟩, .inl ?_, .inl ⟨rfl, ?_⟩⟩
      · rw [phases_become_self]
        exact Nat.le_refl 4
      · rw [phases_become_self]
        rintro _ ⟨⟩
  | finished result =>
      rw [advance_finished hp]
      refine ⟨fun q _ => ⟨some, (PutPhase.follow_some _).symm⟩, .inl ?_, .inl ⟨rfl, fun _ => id⟩⟩
      rw [hp]
      exact Nat.le_refl 4

/-- A put takes as many steps as it is given, until it has finished. -/
theorem taken_run
    (requests : P → PutRequest ι) (s : Writers ι P) (schedule : List P) (p : P) :
    min 4 ((s.phases p).taken + schedule.count p) ≤ ((s.run requests schedule).phases p).taken := by
  induction schedule generalizing s with
  | nil =>
      exact Nat.min_le_right _ _
  | cons q schedule ih =>
      have hadvanced := advanced requests s q
      refine Nat.le_trans ?_ (ih (s.advance requests q))
      by_cases hq : p = q
      · subst hq
        rw [List.count_cons_self]
        rcases hadvanced.taken with htaken | htaken <;> omega
      · obtain ⟨move, hmove⟩ := hadvanced.others p hq
        rw [List.count_cons_of_ne (Ne.symm hq), hmove, PutPhase.taken_follow]

end Writers
end DocumentTables
