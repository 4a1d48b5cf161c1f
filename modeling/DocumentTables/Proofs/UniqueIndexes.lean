import Mathlib
import DocumentTables.Backend.Memory
import DocumentTables.Proofs.CollectionContents
import DocumentTables.Proofs.TableEffects
import DocumentTables.Sample

/-!
# Unique indexes over a run

The calls of a run are numbered, and each document carries the number of the call that wrote it last,
each index the number of the call that made it.  A write is compared with all other documents under
all indexes there are, so two documents that agree on an index were both written before it was made.

**Results.**

* `Collection.clash?_eq_none_iff`: a write passes if the document agrees with no other one.
* `DatedCollection.undated_step`: the dates are those of what the calls do.
* `DatedCollection.Kept.step`: what one call keeps of the relation between dates and indexes.
* `DatabaseCall.refused_iff`: when a call is refused, which leaves the backend as it is.
* `DatabaseCall.indexes_hold`: unique indexes over a run.
-/

namespace DocumentTables

/-- Two documents have the same values at all given paths; a missing value is the same as a missing
one only. -/
def Document.SameAt (paths : List String) (a b : Document) : Prop :=
  ∀ path ∈ paths, a.lookup path = none ∧ b.lookup path = none ∨
    ∃ v w, a.lookup path = some v ∧ b.lookup path = some w ∧ v.same w = true

theorem Document.SameAt.symm
    {paths : List String} {a b : Document} (h : Document.SameAt paths a b) :
    Document.SameAt paths b a := by
  intro path hpath
  rcases h path hpath with ⟨ha, hb⟩ | ⟨v, w, ha, hb, hsame⟩
  · exact .inl ⟨hb, ha⟩
  · exact .inr ⟨w, v, hb, ha, Value.same_symm hsame⟩

namespace Collection

variable {c c' : Collection} {doc : Document} {position : Nat} {index : List String}

theorem sameValue_iff
    (a b : Option Value) :
    sameValue a b = true ↔
      a = none ∧ b = none ∨ ∃ v w, a = some v ∧ b = some w ∧ v.same w = true := by
  cases a <;> cases b <;> simp [sameValue]

theorem agree_iff_sameAt
    (index : List String) (a b : Document) :
    agree index a b = true ↔ Document.SameAt index a b := by
  rw [agree, indexValues, indexValues, sameValues_map]
  exact forall₂_congr fun path _ => sameValue_iff _ _

/-- A document has the values of another one at the paths of an index. -/
def Clashes (indexes : List (List String)) (others : List Document) (doc : Document) : Prop :=
  ∃ index ∈ indexes, ∃ other ∈ others, Document.SameAt index other doc

theorem clash?_eq_none_iff
    {indexes : List (List String)} {others : List Document} :
    clash? indexes others doc = none ↔ ¬ Clashes indexes others doc := by
  rw [clash?, List.find?_eq_none]
  simp only [List.any_eq_true, agree_iff_sameAt, Clashes, not_exists, not_and]

theorem insert_cases
    (c : Collection) (doc : Document) :
    (¬ Clashes c.uniqueIndexes c.documents doc ∧
        c.insert doc = .ok ⟨c.documents ++ [doc], c.uniqueIndexes⟩) ∨
      Clashes c.uniqueIndexes c.documents doc ∧ ∃ key, c.insert doc = .error key := by
  rw [insert, ← clash?_eq_none_iff, ← not_not (a := Clashes _ _ _), ← clash?_eq_none_iff]
  cases clash? c.uniqueIndexes c.documents doc with
  | none => exact .inl ⟨rfl, rfl⟩
  | some index => exact .inr ⟨by simp, _, rfl⟩

theorem replace_cases
    (c : Collection) (position : Nat) (doc : Document) :
    (¬ Clashes c.uniqueIndexes (c.documents.eraseIdx position) doc ∧
        c.replace position doc = .ok ⟨c.documents.set position doc, c.uniqueIndexes⟩) ∨
      Clashes c.uniqueIndexes (c.documents.eraseIdx position) doc ∧
        ∃ key, c.replace position doc = .error key := by
  rw [replace, ← clash?_eq_none_iff, ← not_not (a := Clashes _ _ _), ← clash?_eq_none_iff]
  cases clash? c.uniqueIndexes (c.documents.eraseIdx position) doc with
  | none => exact .inl ⟨rfl, rfl⟩
  | some index => exact .inr ⟨by simp, _, rfl⟩

end Collection

namespace Database

theorem collection_insert_of_ne
    (db : Database) {name other : String} (c : Collection) (h : other ≠ name) :
    collection (NameMap.insert db name c) other = collection db other := by
  rw [collection, collection, NameMap.get?_insert_of_ne db c h]

theorem collection_dropCollection_of_ne
    (db : Database) {name other : String} (h : other ≠ name) :
    collection (db.dropCollection name) other = collection db other := by
  have hget : NameMap.get? (NameMap.erase db name) other = NameMap.get? db other := by
    rw [NameMap.erase]
    induction db with
    | nil =>
        rfl
    | cons pair rest ih =>
        obtain ⟨k, c⟩ := pair
        by_cases hk : k = name
        · rw [List.filter_cons_of_neg (by simpa using hk), ih, NameMap.get?_cons, if_neg]
          exact fun hother => h (hother.trans hk)
        · rw [List.filter_cons_of_pos (by simpa using hk), NameMap.get?_cons, NameMap.get?_cons, ih]
  rw [dropCollection, collection, collection, hget]

end Database

/-! ## Calls -/

/-- A call that may change a database. -/
inductive DatabaseCall where
  | insertOne (name : String) (doc : Document)
  | replaceOne (name : String) (filter : Filter) (doc : Document)
  | findOneAndDelete (name : String) (filter : Filter)
  | createCollection (name : String)
  | createUniqueIndex (name : String) (index : List String)
  | dropCollection (name : String)

namespace DatabaseCall

/-- The name of the collection that a call is about. -/
def collectionName : DatabaseCall → String
  | insertOne name _ => name
  | replaceOne name _ _ => name
  | findOneAndDelete name _ => name
  | createCollection name => name
  | createUniqueIndex name _ => name
  | dropCollection name => name

/-- Make a call.  What it answers, if it does not fail, is left out. -/
def perform : DatabaseCall → BackendAction MemoryBackend Unit
  | insertOne name doc => MemoryBackend.backend.insertOne name doc
  | replaceOne name filter doc =>
      (MemoryBackend.backend.replaceOne name filter doc).andThen fun _ => .pure ()
  | findOneAndDelete name filter =>
      (MemoryBackend.backend.findOneAndDelete name filter).andThen fun _ => .pure ()
  | createCollection name => MemoryBackend.backend.createCollection name
  | createUniqueIndex name index => MemoryBackend.backend.createUniqueIndex name index
  | dropCollection name => MemoryBackend.backend.dropCollection name

/-- A backend after some calls, whether they fail or not. -/
def performAll (m : MemoryBackend) (calls : List DatabaseCall) : MemoryBackend :=
  calls.foldl (fun m call => (call.perform m).2) m

/-- The documents of a collection after some calls on an empty backend. -/
def documentsAfter (calls : List DatabaseCall) (name : String) : List Document :=
  ((performAll .empty calls).database.collection name).documents

/-- What a call makes of the collection that it is about, unless it is refused. -/
def change (c : Collection) : DatabaseCall → Except String Collection
  | insertOne _ doc => c.insert doc
  | replaceOne _ filter doc =>
      match c.position? filter with
      | none => .ok c
      | some position => c.replace position doc
  | findOneAndDelete _ filter =>
      match c.position? filter with
      | none => .ok c
      | some position => .ok { c with documents := c.documents.eraseIdx position }
  | createCollection _ => .ok c
  | createUniqueIndex _ index => .ok (c.addIndex index)
  | dropCollection _ => .ok .empty

/-- The call would write a document with the values of another one at the paths of an index, where
the document that it replaces does not count. -/
def Repeats (db : Database) : DatabaseCall → Prop
  | insertOne name doc =>
      Collection.Clashes (db.collection name).uniqueIndexes (db.collection name).documents doc
  | replaceOne name filter doc =>
      ∃ position, (db.collection name).position? filter = some position ∧
        Collection.Clashes (db.collection name).uniqueIndexes
          ((db.collection name).documents.eraseIdx position) doc
  | _ => False

end DatabaseCall

/-! ## Answers -/

namespace DatabaseCall

variable {call : DatabaseCall} {m : MemoryBackend}

/-- After a call the collection that it is about is the given one, and all others are as before. -/
def Puts (db : Database) (name : String) (c : Collection) (db' : Database) : Prop :=
  ∀ other, db'.collection other = if name = other then c else db.collection other

theorem puts_insert
    (db : Database) (name : String) (c : Collection) :
    Puts db name c (NameMap.insert db name c) := by
  intro other
  split
  · next h =>
      rw [← h, Database.collection_insert]
  · next h =>
      rw [Database.collection_insert_of_ne db c (Ne.symm h)]

theorem puts_self
    (db : Database) (name : String) :
    Puts db name (db.collection name) db := by
  intro other
  split
  · next h => rw [h]
  · rfl

/-- A call is made, and changes the one collection that it is about, or it is refused. -/
theorem perform_cases
    (call : DatabaseCall) (m : MemoryBackend) :
    (∃ c db, call.change (m.database.collection call.collectionName) = .ok c ∧
        call.perform m = (.ok (), { m with database := db }) ∧
        Puts m.database call.collectionName c db) ∨
      ∃ key, call.change (m.database.collection call.collectionName) = .error key ∧
        call.perform m = (.error (.duplicateKey call.collectionName key), m) := by
  cases call with
  | insertOne name doc =>
      simp only [change, collectionName, perform, MemoryBackend.backend, MemoryBackend.change,
        Database.insertOne]
      cases (m.database.collection name).insert doc with
      | error key => exact .inr ⟨key, rfl, rfl⟩
      | ok c => exact .inl ⟨c, _, rfl, rfl, puts_insert _ _ _⟩
  | replaceOne name filter doc =>
      simp only [change, collectionName, perform, MemoryBackend.backend, MemoryBackend.change,
        Database.replaceOne, BackendAction.andThen, BackendAction.pure]
      cases (m.database.collection name).position? filter with
      | none => exact .inl ⟨_, _, rfl, rfl, puts_self _ _⟩
      | some position =>
          simp only
          cases (m.database.collection name).replace position doc with
          | error key => exact .inr ⟨key, rfl, rfl⟩
          | ok c => exact .inl ⟨c, _, rfl, rfl, puts_insert _ _ _⟩
  | findOneAndDelete name filter =>
      simp only [change, collectionName, perform, MemoryBackend.backend, MemoryBackend.change,
        Database.findOneAndDelete, BackendAction.andThen, BackendAction.pure]
      cases (m.database.collection name).position? filter with
      | none => exact .inl ⟨_, _, rfl, rfl, puts_self _ _⟩
      | some position => exact .inl ⟨_, _, rfl, rfl, puts_insert _ _ _⟩
  | createCollection name =>
      exact .inl ⟨_, _, rfl, rfl, puts_insert _ _ _⟩
  | createUniqueIndex name index =>
      exact .inl ⟨_, _, rfl, rfl, puts_insert _ _ _⟩
  | dropCollection name =>
      refine .inl ⟨_, _, rfl, rfl, fun other => ?_⟩
      by_cases h : name = other
      · rw [← h, Database.collection_dropCollection]
        exact (if_pos rfl).symm
      · rw [Database.collection_dropCollection_of_ne _ (Ne.symm h)]
        exact (if_neg h).symm

/-- A call is refused if it would repeat values, and for no other reason. -/
theorem change_error_iff
    (call : DatabaseCall) (db : Database) :
    (∃ key, call.change (db.collection call.collectionName) = .error key) ↔ call.Repeats db := by
  cases call with
  | insertOne name doc =>
      simp only [change, collectionName, Repeats]
      rcases (db.collection name).insert_cases doc with ⟨hclash, hinsert⟩ | ⟨hclash, key, hinsert⟩
      · simp [hinsert, hclash]
      · simp [hinsert, hclash]
  | replaceOne name filter doc =>
      simp only [change, collectionName, Repeats]
      cases (db.collection name).position? filter with
      | none =>
          simp
      | some position =>
          rcases (db.collection name).replace_cases position doc with
            ⟨hclash, hreplace⟩ | ⟨hclash, key, hreplace⟩
          · simp [hreplace, hclash]
          · simp [hreplace, hclash]
  | findOneAndDelete name filter =>
      simp only [change, collectionName, Repeats]
      cases (db.collection name).position? filter <;> simp
  | _ =>
      simp [change, Repeats]

/-- A refused call leaves the backend as it is. -/
theorem refused_iff
    (call : DatabaseCall) (m : MemoryBackend) :
    (∀ e, (call.perform m).1 = .error e →
        (∃ key, e = .duplicateKey call.collectionName key) ∧ (call.perform m).2 = m) ∧
      ((∃ e, (call.perform m).1 = .error e) ↔ call.Repeats m.database) := by
  rw [← change_error_iff]
  rcases call.perform_cases m with ⟨c, db, hchange, hperform, -⟩ | ⟨key, hchange, hperform⟩
  · rw [hperform, hchange]
    simp
  · rw [hperform, hchange]
    simp

end DatabaseCall

/-! ## Dates -/

/-- A collection with the number of the call that last wrote each document, and of the one that made
each index. -/
structure DatedCollection where
  documents : List (Document × Nat)
  indexes : List (List String × Nat)

namespace DatedCollection

/-- No documents, no indexes. -/
def empty : DatedCollection := ⟨[], []⟩

/-- The collection without the numbers. -/
def undated (c : DatedCollection) : Collection :=
  ⟨c.documents.map (·.1), c.indexes.map (·.1)⟩

/-- A document is added, unless that is refused. -/
def insert (c : DatedCollection) (doc : Document) (now : Nat) : DatedCollection :=
  match c.undated.insert doc with
  | .ok _ => { c with documents := c.documents ++ [(doc, now)] }
  | .error _ => c

/-- The first document that a filter accepts is replaced, unless that is refused. -/
def replaceFirst (c : DatedCollection) (filter : Filter) (doc : Document) (now : Nat) :
    DatedCollection :=
  match c.undated.position? filter with
  | none => c
  | some position =>
      match c.undated.replace position doc with
      | .ok _ => { c with documents := c.documents.set position (doc, now) }
      | .error _ => c

/-- The first document that a filter accepts is removed. -/
def deleteFirst (c : DatedCollection) (filter : Filter) : DatedCollection :=
  match c.undated.position? filter with
  | none => c
  | some position => { c with documents := c.documents.eraseIdx position }

/-- An index is added, once. -/
def addIndex (c : DatedCollection) (index : List String) (now : Nat) : DatedCollection :=
  if c.undated.uniqueIndexes.contains index then c
  else { c with indexes := c.indexes ++ [(index, now)] }

/-- What the call with the given number does to the collection it is about. -/
def apply (c : DatedCollection) (now : Nat) : DatabaseCall → DatedCollection
  | .insertOne _ doc => c.insert doc now
  | .replaceOne _ filter doc => c.replaceFirst filter doc now
  | .findOneAndDelete _ filter => c.deleteFirst filter
  | .createCollection _ => c
  | .createUniqueIndex _ index => c.addIndex index now
  | .dropCollection _ => empty

/-- What the call with the given number does to the collection with the given name. -/
def step (name : String) (c : DatedCollection) (now : Nat) (call : DatabaseCall) :
    DatedCollection :=
  if call.collectionName = name then c.apply now call else c

/-- The collection with the given name after some calls on an empty backend, which are numbered from
zero. -/
def after (name : String) (calls : List DatabaseCall) : DatedCollection :=
  calls.zipIdx.foldl (fun c call => c.step name call.2 call.1) empty

variable {c : DatedCollection} {now : Nat} {doc : Document} {filter : Filter} {name : String}
  {index : List String}

theorem after_concat
    (name : String) (calls : List DatabaseCall) (call : DatabaseCall) :
    after name (calls ++ [call]) = (after name calls).step name calls.length call := by
  simp [after, List.zipIdx_append]

/-! ## What one call does -/

/-- The step keeps some of the documents, all if it does nothing. -/
def Keeps (c c' : DatedCollection) : Prop :=
  ∃ kept, kept.Sublist c.documents ∧ c' = ⟨kept, c.indexes⟩

/-- The step writes a document, at the end or in the place of another one, that has the values of no
other one at the paths of an index. -/
def Writes (c : DatedCollection) (now : Nat) (c' : DatedCollection) : Prop :=
  ∃ doc before after, (before ++ after).Sublist c.documents ∧
    ¬ Collection.Clashes (c.indexes.map (·.1)) ((before ++ after).map (·.1)) doc ∧
    c' = ⟨before ++ (doc, now) :: after, c.indexes⟩

theorem Keeps.refl
    (c : DatedCollection) :
    c.Keeps c := by
  exact ⟨c.documents, List.Sublist.refl _, rfl⟩

theorem insert_cases
    (c : DatedCollection) (doc : Document) (now : Nat) :
    c.Writes now (c.insert doc now) ∨ c.Keeps (c.insert doc now) := by
  rw [insert]
  rcases c.undated.insert_cases doc with ⟨hclash, hinsert⟩ | ⟨-, key, hinsert⟩
  · rw [hinsert]
    refine .inl ⟨doc, c.documents, [], by simp, ?_, rfl⟩
    rw [List.append_nil]
    exact hclash
  · rw [hinsert]
    exact .inr (Keeps.refl c)

theorem replaceFirst_cases
    (c : DatedCollection) (filter : Filter) (doc : Document) (now : Nat) :
    c.Writes now (c.replaceFirst filter doc now) ∨ c.Keeps (c.replaceFirst filter doc now) := by
  rw [replaceFirst]
  cases hposition : c.undated.position? filter with
  | none =>
      exact .inr (Keeps.refl c)
  | some position =>
      rcases c.undated.replace_cases position doc with ⟨hclash, hreplace⟩ | ⟨-, key, hreplace⟩
      · have hlt : position < c.documents.length := by
          obtain ⟨hlt, -⟩ := List.findIdx?_eq_some_iff_getElem.mp hposition
          simpa [undated] using hlt
        have hothers : c.undated.documents.eraseIdx position =
            (c.documents.take position ++ c.documents.drop (position + 1)).map (·.1) := by
          simp [undated, List.eraseIdx_eq_take_drop_succ]
        simp only [hreplace, List.set_eq_take_append_cons_drop, if_pos hlt]
        refine .inl ⟨doc, _, _, ?_, ?_, rfl⟩
        · rw [← List.eraseIdx_eq_take_drop_succ]
          exact List.eraseIdx_sublist _ _
        · rw [← hothers]
          exact hclash
      · simp only [hreplace]
        exact .inr (Keeps.refl c)

/-- A call writes a document, or keeps some of them, or makes an index, or drops the collection. -/
theorem step_cases
    (name : String) (c : DatedCollection) (now : Nat) (call : DatabaseCall) :
    c.Writes now (c.step name now call) ∨ c.Keeps (c.step name now call) ∨
      (∃ index, c.step name now call = ⟨c.documents, c.indexes ++ [(index, now)]⟩) ∨
      c.step name now call = empty := by
  rw [step]
  split
  · cases call with
    | insertOne _ doc =>
        exact (c.insert_cases doc now).imp_right .inl
    | replaceOne _ filter doc =>
        exact (c.replaceFirst_cases filter doc now).imp_right .inl
    | findOneAndDelete _ filter =>
        rw [apply, deleteFirst]
        split
        · exact .inr (.inl (Keeps.refl c))
        · exact .inr (.inl ⟨_, List.eraseIdx_sublist _ _, rfl⟩)
    | createCollection _ =>
        exact .inr (.inl (Keeps.refl c))
    | createUniqueIndex _ index =>
        rw [apply, addIndex]
        split
        · exact .inr (.inl (Keeps.refl c))
        · exact .inr (.inr (.inl ⟨index, rfl⟩))
    | dropCollection _ =>
        exact .inr (.inr (.inr rfl))
  · exact .inr (.inl (Keeps.refl c))

/-! ## What a run keeps -/

/-- No two of the documents have the same values at the paths. -/
def Distinct (paths : List String) (docs : List Document) : Prop :=
  docs.Pairwise fun a b => ¬ Document.SameAt paths a b

/-- If two documents agree on an index, both were written before it was made. -/
def Older (index : List String × Nat) (a b : Document × Nat) : Prop :=
  Document.SameAt index.1 a.1 b.1 → a.2 < index.2 ∧ b.2 < index.2

theorem Older.symm
    {index : List String × Nat} {a b : Document × Nat} (h : Older index a b) :
    Older index b a := by
  exact fun hsame => (h hsame.symm).symm

/-- Before the call with the given number is made: `past` tells the documents that there were before
each earlier one. -/
structure Kept (c : DatedCollection) (now : Nat) (past : Nat → List Document) : Prop where
  written : ∀ doc ∈ c.documents, doc.2 < now
  older : ∀ index ∈ c.indexes, c.documents.Pairwise (Older index)
  distinct : ∀ index ∈ c.indexes, Distinct index.1 (past index.2) →
    c.documents.Pairwise fun a b => ¬ Document.SameAt index.1 a.1 b.1

namespace Kept

variable {c' : DatedCollection} {past : Nat → List Document}

theorem keeps
    (h : c.Kept now past) (hkeeps : c.Keeps c') :
    c'.Kept (now + 1) past := by
  obtain ⟨kept, hsub, rfl⟩ := hkeeps
  refine ⟨?_, ?_, ?_⟩
  · intro doc hdoc
    exact Nat.lt_succ_of_lt (h.written doc (hsub.subset hdoc))
  · intro index hindex
    exact (h.older index hindex).sublist hsub
  · intro index hindex hpast
    exact (h.distinct index hindex hpast).sublist hsub

theorem writes
    (h : c.Kept now past) (hwrites : c.Writes now c') :
    c'.Kept (now + 1) past := by
  obtain ⟨doc, before, after, hsub, hclash, rfl⟩ := hwrites
  refine ⟨?_, ?_, ?_⟩
  · intro other hother
    rw [List.mem_append, List.mem_cons, or_left_comm, ← List.mem_append] at hother
    rcases hother with rfl | hother
    · exact Nat.lt_succ_self now
    · exact Nat.lt_succ_of_lt (h.written other (hsub.subset hother))
  · intro index hindex
    rw [List.pairwise_middle Older.symm, List.pairwise_cons]
    refine ⟨fun other hother hsame => absurd ?_ hclash, (h.older index hindex).sublist hsub⟩
    exact ⟨_, List.mem_map_of_mem hindex, _, List.mem_map_of_mem hother, hsame.symm⟩
  · intro index hindex hpast
    rw [List.pairwise_middle fun hne hsame => hne hsame.symm, List.pairwise_cons]
    refine ⟨fun other hother hsame => hclash ?_, (h.distinct index hindex hpast).sublist hsub⟩
    exact ⟨_, List.mem_map_of_mem hindex, _, List.mem_map_of_mem hother, hsame.symm⟩

theorem makesIndex
    (h : c.Kept now past) (hpast : past now = c.undated.documents) (index : List String) :
    Kept ⟨c.documents, c.indexes ++ [(index, now)]⟩ (now + 1) past := by
  refine ⟨?_, ?_, ?_⟩
  · intro doc hdoc
    exact Nat.lt_succ_of_lt (h.written doc hdoc)
  · intro other hother
    rw [List.mem_append, List.mem_singleton] at hother
    rcases hother with hother | rfl
    · exact h.older other hother
    · exact List.pairwise_of_forall_mem_list fun a ha b hb _ => ⟨h.written a ha, h.written b hb⟩
  · intro other hother
    rw [List.mem_append, List.mem_singleton] at hother
    rcases hother with hother | rfl
    · exact h.distinct other hother
    · intro hdistinct
      rw [hpast] at hdistinct
      exact List.pairwise_map.mp hdistinct

theorem empty
    (now : Nat) (past : Nat → List Document) :
    DatedCollection.empty.Kept now past := by
  exact ⟨by rintro _ ⟨⟩, by rintro _ ⟨⟩, by rintro _ ⟨⟩⟩

/-- One call keeps the relation between the dates of documents and indexes. -/
theorem step
    (h : c.Kept now past) (hpast : past now = c.undated.documents) (name : String)
    (call : DatabaseCall) :
    (c.step name now call).Kept (now + 1) past := by
  rcases c.step_cases name now call with hwrites | hkeeps | ⟨index, hstep⟩ | hstep
  · exact h.writes hwrites
  · exact h.keeps hkeeps
  · rw [hstep]
    exact h.makesIndex hpast index
  · rw [hstep]
    exact Kept.empty _ _

end Kept

/-! ## The dates of a run -/

/-- Without the dates a call does to a collection what it does in the database. -/
theorem undated_apply
    (c : DatedCollection) (now : Nat) (call : DatabaseCall) :
    call.change c.undated = .ok (c.apply now call).undated ∨
      (∃ key, call.change c.undated = .error key) ∧ c.apply now call = c := by
  cases call with
  | insertOne _ doc =>
      simp only [DatabaseCall.change, apply, insert]
      rcases c.undated.insert_cases doc with ⟨-, hinsert⟩ | ⟨-, key, hinsert⟩
      · refine .inl ?_
        rw [hinsert]
        simp [undated]
      · rw [hinsert]
        exact .inr ⟨⟨key, rfl⟩, rfl⟩
  | replaceOne _ filter doc =>
      simp only [DatabaseCall.change, apply, replaceFirst]
      cases c.undated.position? filter with
      | none =>
          exact .inl rfl
      | some position =>
          simp only
          rcases c.undated.replace_cases position doc with ⟨-, hreplace⟩ | ⟨-, key, hreplace⟩
          · refine .inl ?_
            rw [hreplace]
            simp [undated, List.map_set]
          · rw [hreplace]
            exact .inr ⟨⟨key, rfl⟩, rfl⟩
  | findOneAndDelete _ filter =>
      simp only [DatabaseCall.change, apply, deleteFirst]
      cases c.undated.position? filter with
      | none => exact .inl rfl
      | some position => exact .inl (by simp [undated, List.eraseIdx_map])
  | createCollection _ =>
      exact .inl rfl
  | createUniqueIndex _ index =>
      simp only [DatabaseCall.change, apply, addIndex, Collection.addIndex, List.contains_iff_mem]
      split
      · exact .inl rfl
      · exact .inl (by simp [undated])
  | dropCollection _ =>
      exact .inl rfl

/-- The dates are those of what the calls do. -/
theorem undated_step
    {m : MemoryBackend} (hc : c.undated = m.database.collection name) (now : Nat)
    (call : DatabaseCall) :
    (c.step name now call).undated = (call.perform m).2.database.collection name := by
  rw [step]
  rcases call.perform_cases m with ⟨c', db, hchange, hperform, hputs⟩ | ⟨key, hchange, hperform⟩
  · rw [hperform, hputs name]
    by_cases hname : call.collectionName = name
    · rw [if_pos hname, if_pos hname]
      rw [hname, ← hc] at hchange
      rcases c.undated_apply now call with happly | ⟨⟨key, hrefused⟩, -⟩
      · exact Except.ok.inj (happly.symm.trans hchange)
      · rw [hrefused] at hchange
        cases hchange
    · rw [if_neg hname, if_neg hname, hc]
  · rw [hperform]
    by_cases hname : call.collectionName = name
    · rw [if_pos hname]
      rw [hname, ← hc] at hchange
      rcases c.undated_apply now call with happly | ⟨-, happly⟩
      · rw [happly] at hchange
        cases hchange
      · rw [happly, hc]
    · rw [if_neg hname, hc]

theorem undated_after
    (name : String) (calls : List DatabaseCall) :
    (after name calls).undated =
      (DatabaseCall.performAll .empty calls).database.collection name := by
  induction calls using List.reverseRecOn with
  | nil =>
      rfl
  | append_singleton calls call ih =>
      rw [after_concat, undated_step ih, DatabaseCall.performAll, DatabaseCall.performAll,
        List.foldl_append]
      rfl

/-- Every part of a run keeps the relation between the dates of documents and indexes. -/
theorem kept_after
    (name : String) {calls before : List DatabaseCall} (h : before <+: calls) :
    (after name before).Kept before.length
      fun now => DatabaseCall.documentsAfter (calls.take now) name := by
  induction before using List.reverseRecOn with
  | nil =>
      exact Kept.empty _ _
  | append_singleton before call ih =>
      have hbefore : before <+: calls := (List.prefix_append before [call]).trans h
      rw [after_concat, List.length_append]
      refine (ih hbefore).step ?_ name call
      rw [← List.prefix_iff_eq_take.mp hbefore, undated_after]
      rfl

end DatedCollection

namespace DatabaseCall

open DatedCollection

/-- Two documents that agree on an index were both last written before the index was made, so an
index made on documents that are distinct keeps them so.  A call is refused exactly if it would
repeat the values of another document, and then the backend is as before. -/
theorem indexes_hold
    (calls : List DatabaseCall) (name : String) :
    (after name calls).undated = (performAll .empty calls).database.collection name ∧
    (∀ index ∈ (after name calls).indexes,
      (after name calls).documents.Pairwise fun a b =>
        Document.SameAt index.1 a.1 b.1 → a.2 < index.2 ∧ b.2 < index.2) ∧
    (∀ index ∈ (after name calls).indexes,
      Distinct index.1 (documentsAfter (calls.take index.2) name) →
        Distinct index.1 (documentsAfter calls name)) ∧
    ∀ (call : DatabaseCall) (m : MemoryBackend),
      (∀ e, (call.perform m).1 = .error e →
        (∃ key, e = .duplicateKey call.collectionName key) ∧ (call.perform m).2 = m) ∧
      ((∃ e, (call.perform m).1 = .error e) ↔ call.Repeats m.database) := by
  have hkept := kept_after name (List.prefix_refl calls)
  refine ⟨undated_after name calls, hkept.older, ?_, refused_iff⟩
  intro index hindex hdistinct
  have hdocuments : documentsAfter calls name = (after name calls).documents.map (·.1) := by
    rw [documentsAfter, ← undated_after]
    rfl
  rw [hdocuments, Distinct, List.pairwise_map]
  exact hkept.distinct index hindex hdistinct

/-- Layers are added, two of them with one identity, before and after indexes are made. -/
def layerCalls : List DatabaseCall :=
  [.insertOne "layers" (Sample.layer "a" true), .insertOne "layers" (Sample.layer "a" false),
    .createUniqueIndex "layers" ["id"], .insertOne "layers" (Sample.layer "b" true),
    .createUniqueIndex "layers" ["id", "enabled"], .insertOne "layers" (Sample.layer "c" true)]

/-- The layers with one identity are older than the first index, no two layers agree on the second
one, and a third layer with that identity is refused. -/
theorem indexes_hold_layers :
    (after "layers" layerCalls).indexes = [(["id"], 2), (["id", "enabled"], 4)] ∧
    (after "layers" layerCalls).documents =
      [(Sample.layer "a" true, 0), (Sample.layer "a" false, 1), (Sample.layer "b" true, 3),
        (Sample.layer "c" true, 5)] ∧
    (after "layers" layerCalls).documents.Pairwise (Older (["id"], 2)) ∧
    Document.SameAt ["id"] (Sample.layer "a" true) (Sample.layer "a" false) ∧
    Distinct ["id", "enabled"] (documentsAfter layerCalls "layers") ∧
    ∃ e, ((insertOne "layers" (Sample.layer "a" true)).perform
      (performAll .empty layerCalls)).1 = .error e := by
  obtain ⟨-, holder, hdistinct, hrefused⟩ := indexes_hold layerCalls "layers"
  have hindexes : (after "layers" layerCalls).indexes = [(["id"], 2), (["id", "enabled"], 4)] := by
    cbv
  have hbefore : documentsAfter (layerCalls.take 4) "layers" =
      [Sample.layer "a" true, Sample.layer "a" false, Sample.layer "b" true] := by
    cbv
  have hcollection : (performAll .empty layerCalls).database.collection "layers" =
      ⟨[Sample.layer "a" true, Sample.layer "a" false, Sample.layer "b" true,
        Sample.layer "c" true], [["id"], ["id", "enabled"]]⟩ := by
    cbv
  have hsame : Document.SameAt ["id"] (Sample.layer "a" true) (Sample.layer "a" false) := by
    rw [← Collection.agree_iff_sameAt]
    cbv
  refine ⟨hindexes, by cbv, holder (["id"], 2) (by simp [hindexes]), hsame, ?_, ?_⟩
  · refine hdistinct (["id", "enabled"], 4) (by simp [hindexes]) ?_
    rw [hbefore, Distinct]
    simp only [← Collection.agree_iff_sameAt]
    decide
  · refine (hrefused (insertOne "layers" (Sample.layer "a" true)) _).2.mpr ?_
    rw [Repeats, hcollection]
    refine ⟨["id"], by simp, Sample.layer "a" false, by simp, hsame.symm⟩

end DatabaseCall
end DocumentTables
