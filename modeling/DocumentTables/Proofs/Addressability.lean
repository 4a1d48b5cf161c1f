import DocumentTables.Proofs.CollectionContents
import DocumentTables.Proofs.TableEffects
import DocumentTables.Sample

/-!
# Documents that were accepted

A document that a table accepts has a key, which is read off the document by the names of its fields.
The filter of the key asks for paths.  If no name has a point in it, both lead to the same values, so
the document is found again; otherwise it may be out of reach as soon as it is stored.

**Results.**

* `KeySchema.filter_holds_of_extractKey`: the filter of a document's own key accepts it.
* `Network.connects_of_execute_ok`: who was let through once is let through again.
* `Table.insert_addressable`: a document that was accepted can be addressed.
* `Table.insert_unaddressable`: not so if a point is in the name of its identity.
-/

namespace DocumentTables

/-! ## The filter of a document's own key -/

/-- Where no name has a point, the key of a document asks for the values that the document has. -/
theorem KeySchema.filter_holds_of_extractKey
    {schema : KeySchema} {doc : Document} {key : PrimaryKey} (hdots : schema.DotFree)
    (hkey : schema.extractKey doc = .ok key) (hvalid : key.ensureValid = .ok ()) :
    key.filter.holds doc = true := by
  exact (holds_iff hdots ⟨hkey, hvalid⟩ (shapes_of_extractKey hkey)).mpr (PrimaryKey.same_refl key)

/-! ## The next call -/

namespace ConnectionManager

variable {σ α : Type} {m : ConnectionManager σ} {operation : BackendAction σ α}
  {s s' : ConnectionState σ} {a : α}

/-- The world is what a successful attempt with the remembered parameters left. -/
def LeftByAttempt (m : ConnectionManager σ) (operation : BackendAction σ α)
    (s' : ConnectionState σ) (a : α) : Prop :=
  ∃ params w, s'.remembered = some params ∧ m.attempt operation params w = (.ok a, s'.world)

theorem attemptsFrom_leaves
    {later number : Nat} {params : ConnectionParameters}
    (hremembered : s.remembered = some params)
    (h : m.attemptsFrom operation later number params s = (.ok a, s')) :
    m.LeftByAttempt operation s' a := by
  induction later generalizing number params s with
  | zero =>
      rw [attemptsFrom] at h
      split at h
      · next hattempt =>
          cases h
          exact ⟨params, s.world, hremembered, hattempt⟩
      · simp only at h
        split at h <;> cases h
  | succ later ih =>
      rw [attemptsFrom] at h
      split at h
      · next hattempt =>
          cases h
          exact ⟨params, s.world, hremembered, hattempt⟩
      · simp only at h
        split at h
        · cases h
        · split at h
          · cases h
          · next hresolve =>
              refine ih ?_ h
              rw [resolveParameters] at hresolve
              split at hresolve <;> cases hresolve
              rfl

theorem execute_leaves
    (h : m.execute operation s = (.ok a, s')) :
    m.LeftByAttempt operation s' a := by
  rw [execute, currentParameters] at h
  cases hremembered : s.remembered with
  | some params =>
      rw [hremembered] at h
      exact attemptsFrom_leaves hremembered h
  | none =>
      rw [hremembered, resolveParameters] at h
      simp only at h
      split at h
      · cases h
      · next hresolve =>
          split at hresolve <;> cases hresolve
          exact attemptsFrom_leaves rfl h

end ConnectionManager

namespace Network

variable {τ α : Type} {n : Network τ}

/-- Right after an attempt that was let through the next one is, too. -/
def LetsThroughAgain (n : Network τ) : Prop :=
  ∀ params t t', n.refuse params t = (none, t') → (n.refuse params t').1 = none

/-- No faults are left once an attempt was let through. -/
theorem letsThroughAgain_ofFaults
    (policy : RetryPolicy) (resolve : Faults → Except Error ConnectionParameters × Faults) :
    (ofFaults policy resolve).LetsThroughAgain := by
  intro params f f' h
  obtain ⟨hrefuse, rfl⟩ := Prod.mk.inj h
  have hfailing : f.failing = false := by
    cases hfails : f.failing <;> simp_all
  have hagain : f.afterAttempt.failing = false := by
    simp only [Faults.failing, Faults.afterAttempt, Bool.or_eq_false_iff, bne_eq_false_iff_eq]
      at hfailing ⊢
    simp [hfailing]
  simp [ofFaults, hagain]

/-- An attempt that succeeds was let through and had the credentials that are required, and leaves
them as they are. -/
theorem admits_of_attempt_ok
    {step : Database → Except BackendError (α × Database)} {params : ConnectionParameters} {a : α}
    {t t' : τ} {m m' : MemoryBackend}
    (h : n.manager.attempt (MemoryBackend.change step).onSecond params (t, m) = (.ok a, (t', m'))) :
    n.refuse params t = (none, t') ∧ m'.admits params = true := by
  rw [ConnectionManager.attempt, BackendAction.andThen] at h
  simp only [manager, connect] at h
  cases hrefuse : n.refuse params t with
  | mk refusal t₁ =>
      cases refusal with
      | some e =>
          simp [hrefuse] at h
      | none =>
          simp only [hrefuse, BackendAction.onSecond, MemoryBackend.connect] at h
          by_cases hadmits : m.admits params = true
          · simp only [hadmits, if_true, MemoryBackend.change] at h
            split at h <;> cases h
            exact ⟨rfl, hadmits⟩
          · simp [hadmits] at h

/-- A call that has succeeded leaves a connection that can be opened again. -/
theorem connects_of_execute_ok
    (hopen : n.LetsThroughAgain) {step : Database → Except BackendError (α × Database)} {a : α}
    {s s' : ConnectionState (τ × MemoryBackend)}
    (h : n.manager.execute (MemoryBackend.change step).onSecond s = (.ok a, s')) :
    n.manager.Connects s' := by
  obtain ⟨params, ⟨t, m⟩, hremembered, hattempt⟩ := ConnectionManager.execute_leaves h
  obtain ⟨⟨t', m'⟩, remembered, waits⟩ := s'
  obtain rfl : remembered = some params := hremembered
  obtain ⟨hrefuse, hadmits⟩ := admits_of_attempt_ok hattempt
  have hagain : n.refuse params t' = (none, (n.refuse params t').2) :=
    Prod.ext (hopen params t t' hrefuse) rfl
  refine ⟨params, _, ((n.refuse params t').2, { m' with opened := m'.opened + 1 }), rfl, ?_⟩
  change n.connect params (t', m') = _
  rw [connect, hagain]
  simp only [BackendAction.onSecond, MemoryBackend.connect, hadmits, if_true]

end Network

namespace Table

open Network

variable {τ : Type} {n : Network τ} {s s' : TableState (τ × MemoryBackend)} {doc : Document}
  {key : PrimaryKey}

/-- After a document was accepted its table can be asked, and answers whether a document with the key
is stored. -/
theorem existsDocument_after_insertWith
    (hopen : n.LetsThroughAgain) (h : (insertWith n.manager doc true).run s = (.ok (), s'))
    (hvalid : key.ensureValid = .ok ()) :
    ∃ s'', (existsDocument n.manager key).run s' =
      (.ok (s'.collection.documents.any fun other => key.filter.holds other), s'') := by
  obtain ⟨safe, hkey⟩ := PrimaryKey.exists_validate_of_ensureValid hvalid
  have hconnects : n.manager.Connects s'.connection := by
    rw [run_insertWith, backend_insertOne] at h
    split at h
    · cases h
    · rw [run_execute] at h
      obtain ⟨hcall, rfl⟩ := Prod.mk.inj h
      exact connects_of_execute_ok hopen (Prod.ext hcall rfl)
  obtain ⟨answer, s'', hexists⟩ := existsDocument_of_connects hconnects hkey
  obtain ⟨-, hanswer, -⟩ := existsDocument_ok hexists
  refine ⟨s'', ?_⟩
  rw [hexists, hanswer, Bool.eq_iff_iff.mpr (List.find?_isSome.trans List.any_eq_true.symm)]

/-- A document that was accepted has a key, and its table then answers whether a document with that
key is stored.  If no name of the schema has a point in it, the key's filter accepts the document, and
the answer is yes. -/
theorem insert_addressable
    {policy : RetryPolicy} {resolve : Faults → Except Error ConnectionParameters × Faults}
    {s s' : TableState (Faults × MemoryBackend)} {doc : Document}
    (h : (insertWith (ofFaults policy resolve).manager doc true).run s = (.ok (), s')) :
    ∃ key s'', s.table.schema.extractKey doc = .ok key ∧
      (existsDocument (ofFaults policy resolve).manager key).run s' =
        (.ok (s'.collection.documents.any fun other => key.filter.holds other), s'') ∧
      (s.table.schema.DotFree → key.filter.holds doc = true ∧
        (existsDocument (ofFaults policy resolve).manager key).run s' = (.ok true, s'')) := by
  obtain ⟨⟨own, hown⟩, hinsert, -⟩ := insertWith_ok h
  obtain ⟨key, -, hkey, hvalid⟩ := KeySchema.keyToWrite_eq_ok_iff.mp hown
  obtain ⟨s'', hexists⟩ :=
    existsDocument_after_insertWith (letsThroughAgain_ofFaults policy resolve) h hvalid
  refine ⟨key, s'', hkey, hexists, fun hdots => ?_⟩
  have hholds := KeySchema.filter_holds_of_extractKey hdots hkey hvalid
  have hstored : doc ∈ s'.collection.documents := by
    rw [Collection.documents_of_insert hinsert]
    exact List.mem_append_right _ List.mem_cons_self
  refine ⟨hholds, ?_⟩
  rw [hexists, List.any_eq_true.mpr ⟨doc, hstored, hholds⟩]

/-- Two attempts, with the sample parameters each time. -/
def sampleFaults : Network Faults :=
  ofFaults ⟨2, Duration.ofSeconds 1⟩ fun faults => (.ok Sample.parameters, faults)

/-- A table on an empty database.  The first attempt to connect fails. -/
def rows (schema : KeySchema) : TableState (Faults × MemoryBackend) where
  table := .new "rows" schema "cache" 0
  connection := .initial ({ Faults.none with pending := 1 }, .empty)
  files := .empty

/-- The answer and the state after a document was inserted into such a table. -/
def insertedRow (schema : KeySchema) (doc : Document) :
    Except Error Unit × TableState (Faults × MemoryBackend) :=
  (insertWith sampleFaults.manager doc true).run (rows schema)

/-- A table of metadata accepts a document at the second attempt, and then answers that it is
there. -/
theorem insert_addressable_metadata :
    (insertedRow (.composite "id" ["datatype", "id"]) (Sample.metadata "LAYER" "a")).1 = .ok () ∧
    (Sample.metadataKey "LAYER" "a").filter.holds (Sample.metadata "LAYER" "a") = true ∧
    ((existsDocument sampleFaults.manager (Sample.metadataKey "LAYER" "a")).run
      (insertedRow (.composite "id" ["datatype", "id"]) (Sample.metadata "LAYER" "a")).2).1 =
        .ok true := by
  have hinsert : (insertedRow (.composite "id" ["datatype", "id"])
      (Sample.metadata "LAYER" "a")).1 = .ok () := rfl
  have hown : (KeySchema.composite "id" ["datatype", "id"]).extractKey
      (Sample.metadata "LAYER" "a") = .ok (Sample.metadataKey "LAYER" "a") := rfl
  generalize hafter : insertedRow (.composite "id" ["datatype", "id"])
    (Sample.metadata "LAYER" "a") = after at hinsert ⊢
  obtain ⟨answer, s'⟩ := after
  obtain rfl : answer = .ok () := hinsert
  obtain ⟨key, s'', hkey, -, haddressed⟩ := insert_addressable hafter
  cases hkey.symm.trans hown
  obtain ⟨hholds, hexists⟩ := haddressed (by decide)
  exact ⟨rfl, hholds, congrArg Prod.fst hexists⟩

/-- A document whose identity is in a field with a point in its name. -/
def pointedRow : Document :=
  [("a.b", .string "x")]

/-- The document is accepted, and at once the table answers that no document with its key is there:
the filter of the key asks for a field inside another one. -/
theorem insert_unaddressable :
    (insertedRow (.single "a.b") pointedRow).1 = .ok () ∧
    (KeySchema.single "a.b").extractKey pointedRow = .ok (.single "a.b" (.string "x")) ∧
    (PrimaryKey.single "a.b" (.string "x")).filter.holds pointedRow = false ∧
    ((existsDocument sampleFaults.manager (.single "a.b" (.string "x"))).run
      (insertedRow (.single "a.b") pointedRow).2).1 = .ok false :=
  ⟨rfl, rfl, rfl, rfl⟩

end Table
end DocumentTables
