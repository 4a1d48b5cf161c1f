import DocumentTables.Proofs.MapRefinement
import DocumentTables.Proofs.ProjectedKeys
import DocumentTables.Table.Listing

/-!
# What a listing yields

A listing asks for the identities of documents, and looks each document up by its key when its turn
comes.  If the table alone writes its collection, and writes only validated documents while the
collection has the index of the identity, then every document is found again under its key, in the
backend or in the cache.

**Results.**

* `TableState.Kept.request`: what such a table keeps to.
* `Listing.Consumes.pending`: how far a listing has come.
* `Run.listing`: a listing yields the documents that its filter accepts, in order.
-/

namespace DocumentTables

namespace TableState

variable {τ : Type}

/-- The requests of those who alone write the collection: they validate what they write, which they
do while the collection has the index of the identity, they use keys of the schema's shape, without
floating-point numbers in those that are written, and they do not let the cache be on disk. -/
def Admits (s : TableState (τ × MemoryBackend)) : Request → Prop
  | .insert doc validate =>
      validate = true ∧ s.table.schema.indexFields ∈ s.collection.uniqueIndexes ∧
        s.table.schema.FloatFree doc
  | .update doc oldKey validate =>
      validate = true ∧ s.table.schema.indexFields ∈ s.collection.uniqueIndexes ∧
        s.table.schema.FloatFree doc ∧ s.table.schema.Suits oldKey
  | .delete key => s.table.schema.Suits key
  | .existsDocument key => s.table.schema.Shapes key
  | .select key _ => s.table.schema.Shapes key
  | .setCacheStrategy strategy => strategy ≠ .disk
  | .selectKeys _ | .exists | .create | .drop | .clearCache => True

/-- Nothing is stored, and nothing is held. -/
structure Vacant (s : TableState (τ × MemoryBackend)) : Prop where
  dots : s.table.schema.DotFree
  isVolatile : s.Volatile
  documents : s.collection.documents = []
  held : s.held = .empty

/-- The collection is a map from keys of which the cache shows some, or nothing is stored yet or any
more. -/
def Kept (s : TableState (τ × MemoryBackend)) : Prop :=
  s.Coherent ∨ s.Vacant

variable {n : Network τ} {s s' : TableState (τ × MemoryBackend)} {c : Collection} {held : KeyMap}
  {result : Except Error Answer}

theorem Leaves.vacant
    (h : s.Leaves s' c held) (hdots : s.table.schema.DotFree) (hs : s.Volatile)
    (hdocuments : c.documents = []) (hheld : held.Within .empty) :
    s'.Vacant := by
  refine ⟨?_, h.isVolatile hs, ?_, ?_⟩
  · rw [h.schema]
    exact hdots
  · rw [h.collection]
    exact hdocuments
  · rw [h.held]
    exact hheld.eq_empty

namespace Vacant

/-- With its index, an empty collection is a map from keys. -/
theorem coherent
    (h : s.Vacant) (hindexed : s.table.schema.indexFields ∈ s.collection.uniqueIndexes) :
    s.Coherent := by
  refine ⟨h.dots, h.isVolatile, ⟨hindexed, ?_, ?_⟩, ?_⟩
  · rw [h.documents]
    simp
  · rw [h.documents]
    exact List.Pairwise.nil
  · rw [h.held]
    exact KeyMap.Within.of_empty

/-- A step that leaves the collection alone, and the cache with no more than it held. -/
theorem of_same
    (h : s.Vacant) (hleaves : s.Leaves s' s.collection held) (hheld : held.Within s.held) :
    s'.Vacant ∧ s'.table.schema = s.table.schema := by
  rw [h.held] at hheld
  exact ⟨hleaves.vacant h.dots h.isVolatile h.documents hheld, hleaves.schema⟩

/-- Nothing is found. -/
theorem position?_eq_none
    (h : s.Vacant) (filter : Filter) :
    s.collection.position? filter = none := by
  rw [Collection.position?, h.documents]
  rfl

/-- Without an index nothing is written, so nothing is stored after a request. -/
theorem request
    (h : s.Vacant) (hindex : s.table.schema.indexFields ∉ s.collection.uniqueIndexes)
    {request : Request} (hadmits : s.Admits request)
    (hrun : (request.perform n.manager).run s = (result, s')) :
    s'.Vacant ∧ s'.table.schema = s.table.schema := by
  have hself := KeyMap.Within.refl s.held
  cases result with
  | error e =>
      obtain ⟨held, hleaves, hheld⟩ := Request.leaves_of_error h.isVolatile hrun
      exact h.of_same hleaves hheld
  | ok answer =>
      cases request with
      | insert doc validate =>
          exact absurd hadmits.2.1 hindex
      | update doc key validate =>
          exact absurd hadmits.2.1 hindex
      | delete key =>
          obtain ⟨_, hrun⟩ := TableAction.exists_run_of_map hrun
          obtain ⟨-, ⟨-, -, hleaves⟩ | ⟨position, hposition, -⟩⟩ :=
            Table.delete_ok h.isVolatile hrun
          · exact h.of_same hleaves hself.erase_left
          · rw [h.position?_eq_none] at hposition
            simp at hposition
      | existsDocument key =>
          obtain ⟨_, hrun⟩ := TableAction.exists_run_of_map hrun
          exact h.of_same (Table.existsDocument_ok hrun).2.2 hself
      | select key mode =>
          obtain ⟨found, hrun⟩ := TableAction.exists_run_of_map hrun
          obtain ⟨-, ⟨-, -, -, hleaves⟩ | ⟨hfound, hleaves⟩⟩ :=
            Table.selectWith_ok h.isVolatile hrun
          · exact h.of_same hleaves hself
          · rw [h.documents, List.find?_nil] at hfound
            subst hfound
            rw [Table.heldAfterFetch] at hleaves
            split at hleaves
            · exact h.of_same hleaves hself.erase_left
            · exact h.of_same hleaves hself
      | selectKeys filter =>
          obtain ⟨_, hrun⟩ := TableAction.exists_run_of_map hrun
          exact h.of_same (Table.selectKeys_leaves hrun) hself
      | «exists» =>
          obtain ⟨_, hrun⟩ := TableAction.exists_run_of_map hrun
          exact h.of_same (Table.exists_leaves hrun) hself
      | create =>
          obtain ⟨_, hrun⟩ := TableAction.exists_run_of_map hrun
          have hleaves := Table.create_ok hrun
          have hdocuments :
              (s.collection.addIndex s.table.schema.indexFields).documents = [] := by
            rw [Collection.addIndex]
            split <;> exact h.documents
          rw [h.held] at hleaves
          exact ⟨hleaves.vacant h.dots h.isVolatile hdocuments (.refl _), hleaves.schema⟩
      | drop =>
          obtain ⟨_, hrun⟩ := TableAction.exists_run_of_map hrun
          have hleaves := Table.drop_ok h.isVolatile hrun
          exact ⟨hleaves.vacant h.dots h.isVolatile rfl (.refl _), hleaves.schema⟩
      | clearCache =>
          obtain ⟨_, hrun⟩ := TableAction.exists_run_of_map hrun
          rw [Table.run_clearCache h.isVolatile] at hrun
          cases hrun
          exact h.of_same Table.clearCache_leaves .of_empty
      | setCacheStrategy strategy =>
          obtain ⟨_, hrun⟩ := TableAction.exists_run_of_map hrun
          obtain ⟨-, -, hschema, hstrategy, hcollection, hheld⟩ :=
            Table.setCacheStrategy_ok h.isVolatile hrun
          refine ⟨⟨?_, ?_, ?_, ?_⟩, hschema⟩
          · rw [hschema]
            exact h.dots
          · rw [Volatile, Cache.Volatile, hstrategy]
            exact hadmits
          · rw [hcollection]
            exact h.documents
          · rcases hheld with hheld | hheld
            · rw [hheld, h.held]
            · exact hheld

end Vacant

/-- With the index, a request keeps the collection a map, or drops it. -/
theorem Coherent.kept
    (h : s.Coherent) {request : Request} (hadmits : s.Admits request)
    (hrun : (request.perform n.manager).run s = (result, s')) :
    s'.Kept ∧ s'.table.schema = s.table.schema := by
  have hmap : request.Mapped s.table.schema → s'.Kept ∧ s'.table.schema = s.table.schema := by
    intro hmapped
    obtain ⟨hcoherent, hschema, -⟩ := h.request hmapped hrun
    exact ⟨.inl hcoherent, hschema⟩
  have hsame : s.Leaves s' s.collection s.held →
      s'.Kept ∧ s'.table.schema = s.table.schema := by
    intro hleaves
    obtain ⟨hcoherent, hschema, -⟩ := h.of_same hleaves h.current
    exact ⟨.inl hcoherent, hschema⟩
  cases request with
  | insert doc validate =>
      exact hmap ⟨hadmits.1, hadmits.2.2⟩
  | update doc key validate =>
      exact hmap ⟨hadmits.1, hadmits.2.2⟩
  | delete key =>
      exact hmap hadmits
  | existsDocument key =>
      exact hmap hadmits
  | select key mode =>
      exact hmap hadmits
  | clearCache =>
      exact hmap trivial
  | setCacheStrategy strategy =>
      exact hmap hadmits
  | selectKeys filter =>
      obtain ⟨_, hrun, -⟩ := TableAction.run_map_eq_iff.mp hrun
      exact hsame (Table.selectKeys_leaves hrun)
  | «exists» =>
      obtain ⟨_, hrun, -⟩ := TableAction.run_map_eq_iff.mp hrun
      exact hsame (Table.exists_leaves hrun)
  | create =>
      obtain ⟨r, hrun, -⟩ := TableAction.run_map_eq_iff.mp hrun
      cases r with
      | error e =>
          exact hsame (Table.create_error hrun)
      | ok _ =>
          have hleaves := Table.create_ok hrun
          rw [Collection.addIndex, if_pos h.keyed.indexed] at hleaves
          exact hsame hleaves
  | drop =>
      obtain ⟨r, hrun, -⟩ := TableAction.run_map_eq_iff.mp hrun
      cases r with
      | error e =>
          exact hsame (Table.drop_error h.isVolatile hrun)
      | ok _ =>
          have hleaves := Table.drop_ok h.isVolatile hrun
          exact ⟨.inr (hleaves.vacant h.dots h.isVolatile rfl (.refl _)), hleaves.schema⟩

namespace Kept

theorem isVolatile
    (h : s.Kept) :
    s.Volatile := by
  rcases h with h | h
  · exact h.isVolatile
  · exact h.isVolatile

/-- Such a table keeps to it. -/
theorem request
    (h : s.Kept) {request : Request} (hadmits : s.Admits request)
    (hrun : (request.perform n.manager).run s = (result, s')) :
    s'.Kept ∧ s'.table.schema = s.table.schema := by
  rcases h with h | h
  · exact h.kept hadmits hrun
  · by_cases hindex : s.table.schema.indexFields ∈ s.collection.uniqueIndexes
    · exact (h.coherent hindex).kept hadmits hrun
    · obtain ⟨hvacant, hschema⟩ := h.request hindex hadmits hrun
      exact ⟨.inr hvacant, hschema⟩

theorem elsewhere
    (h : s.Kept) (htable : s'.table = s.table) (hcollection : s'.collection = s.collection) :
    s'.Kept := by
  have hleaves := leaves_of_elsewhere htable hcollection
  rcases h with h | h
  · exact .inl (h.of_same hleaves h.current).1
  · exact .inr (h.of_same hleaves (.refl _)).1

/-- Every stored document has a valid key, under which it is found again in the collection, and
nothing else in the cache. -/
theorem document
    (h : s.Kept) {doc : Document} (hdoc : doc ∈ s.collection.documents) :
    ∃ own, s.table.schema.Identifies doc own ∧
      (s.collection.documents.find? fun doc => own.filter.holds doc) = some doc ∧
      ∀ d, s.held.find own = some d → d = doc := by
  rcases h with h | h
  · obtain ⟨own, hown⟩ := h.keyed.valid doc hdoc
    have hfind : s.contents.find own = some doc := h.keyed.find_of_mem hdoc hown.1
    refine ⟨own, hown, ?_, fun d hd => ?_⟩
    · rw [h.keyed.find?_filter h.dots (KeySchema.shapes_of_extractKey hown.1)]
      exact hfind
    · have hcurrent := h.current own d hd
      rw [hfind, Option.some.injEq] at hcurrent
      exact hcurrent.symm
  · rw [h.documents] at hdoc
    simp at hdoc

end Kept
end TableState

/-! ## Keys and documents -/

namespace Table

variable {τ : Type} {n : Network τ} {s s' : TableState (τ × MemoryBackend)}

/-- A look-up of a stored document's key answers with the document, in either mode. -/
theorem selectWith_of_stored
    (hkept : s.Kept) (hconnects : n.manager.Connects s.connection) {doc : Document}
    (hdoc : doc ∈ s.collection.documents) {own : PrimaryKey}
    (hown : s.table.schema.Identifies doc own) (mode : CacheMode) :
    ∃ s', (selectWith n.manager own mode).run s = (.ok (some doc), s') := by
  obtain ⟨safe, hkey⟩ := PrimaryKey.exists_validate_of_ensureValid hown.2
  have hanswer : ∃ found s', (selectWith n.manager own mode).run s = (.ok found, s') :=
    selectWith_of_connects hconnects hkey
  obtain ⟨found, s', hrun⟩ := hanswer
  obtain ⟨own', hown', hfind, hheld⟩ := hkept.document hdoc
  obtain rfl : own' = own := Except.ok.inj (hown'.1.symm.trans hown.1)
  refine ⟨s', ?_⟩
  obtain ⟨-, ⟨-, hne, hfound, -⟩ | ⟨hfound, -⟩⟩ := selectWith_ok hkept.isVolatile hrun
  · obtain ⟨d, rfl⟩ := Option.ne_none_iff_exists'.mp hne
    rwa [hheld d hfound] at hrun
  · rwa [← hfound, hfind] at hrun

end Table

namespace Listing

variable {σ : Type} {m : ConnectionManager σ} {s s' : TableState σ} {key : PrimaryKey}
  {keys : List PrimaryKey}

theorem run_ofFilter
    (filter : Filter) :
    (ofFilter m filter).run s =
      match (Table.selectKeys m filter).run s with
      | (.ok keys, s') => (.ok ⟨keys⟩, s')
      | (.error e, s') => (.error e, s') := by
  rw [ofFilter, TableAction.run_bind]
  rcases (Table.selectKeys m filter).run s with ⟨_ | _, _⟩ <;> rfl

theorem run_next?_nil :
    (next? m ⟨[]⟩).run s = (.ok none, s) := by
  rfl

/-- The next document is the answer of a look-up in the table's own mode. -/
theorem run_document
    (key : PrimaryKey) :
    (document m key).run s =
      match (Table.selectWith m key s.table.mode).run s with
      | (.ok found, s') => (.ok found, s')
      | (.error _, s') => (.ok none, s') := by
  have hselect : (Table.select m key).run s = (Table.selectWith m key s.table.mode).run s := by
    rw [Table.select, TableAction.run_bind, TableAction.run_table]
  rw [document, TableAction.run_tryCatch, hselect]
  rcases (Table.selectWith m key s.table.mode).run s with ⟨_ | _, _⟩ <;> rfl

/-- While keys are left, there is a next document or a gap. -/
theorem run_next?_cons
    (m : ConnectionManager σ) (s : TableState σ) (key : PrimaryKey) (keys : List PrimaryKey) :
    ∃ found s', (next? m ⟨key :: keys⟩).run s = (.ok (some (found, ⟨keys⟩)), s') ∧
      ∀ doc s'', (Table.selectWith m key s.table.mode).run s = (.ok doc, s'') →
        found = doc ∧ s' = s'' := by
  rw [next?, TableAction.run_bind, run_document]
  rcases (Table.selectWith m key s.table.mode).run s with ⟨e | found, s'⟩
  · exact ⟨none, s', rfl, by simp⟩
  · refine ⟨found, s', rfl, ?_⟩
    rintro doc s'' ⟨⟩
    exact ⟨rfl, rfl⟩

end Listing

/-! ## Consumption -/

/-- The request writes nothing. -/
def Request.Reads : Request → Prop
  | .insert _ _ | .update _ _ _ | .delete _ | .create | .drop => False
  | _ => True

/-- A reading request leaves the collection as it is. -/
theorem Request.Reads.collection
    {τ : Type} {n : Network τ} {s s' : TableState (τ × MemoryBackend)} {request : Request}
    (h : request.Reads) (hs : s.Volatile) {result : Except Error Answer}
    (hrun : (request.perform n.manager).run s = (result, s')) :
    s'.collection = s.collection := by
  cases result with
  | error e =>
      obtain ⟨_, hleaves, -⟩ := Request.leaves_of_error hs hrun
      exact hleaves.collection
  | ok answer =>
      cases request with
      | insert doc validate =>
          exact h.elim
      | update doc key validate =>
          exact h.elim
      | delete key =>
          exact h.elim
      | create =>
          exact h.elim
      | drop =>
          exact h.elim
      | existsDocument key =>
          obtain ⟨_, hrun⟩ := TableAction.exists_run_of_map hrun
          exact (Table.existsDocument_ok hrun).2.2.collection
      | select key mode =>
          obtain ⟨_, hrun⟩ := TableAction.exists_run_of_map hrun
          obtain ⟨-, ⟨-, -, -, hleaves⟩ | ⟨-, hleaves⟩⟩ := Table.selectWith_ok hs hrun
          · exact hleaves.collection
          · exact hleaves.collection
      | selectKeys filter =>
          obtain ⟨_, hrun⟩ := TableAction.exists_run_of_map hrun
          exact (Table.selectKeys_leaves hrun).collection
      | «exists» =>
          obtain ⟨_, hrun⟩ := TableAction.exists_run_of_map hrun
          exact (Table.exists_leaves hrun).collection
      | clearCache =>
          obtain ⟨_, hrun⟩ := TableAction.exists_run_of_map hrun
          rw [Table.run_clearCache hs] at hrun
          cases hrun
          exact Table.clearCache_leaves.collection
      | setCacheStrategy strategy =>
          obtain ⟨_, hrun⟩ := TableAction.exists_run_of_map hrun
          exact (Table.setCacheStrategy_ok hs hrun).2.2.2.2.1

/-- A listing is consumed while nothing is written: one document after the other, each while the
network lets the first attempt through.  In between, other things may be asked of the table, and
everything may happen elsewhere. -/
inductive Listing.Consumes {τ : Type} (n : Network τ) (l : Listing)
    (s : TableState (τ × MemoryBackend)) :
    List (Option Document) → Listing → TableState (τ × MemoryBackend) → Prop
  | start : Consumes n l s [] l s
  | elsewhere {given : List (Option Document)} {rest : Listing}
      {s₁ s₂ : TableState (τ × MemoryBackend)} :
      Consumes n l s given rest s₁ → s₂.table = s₁.table → s₂.collection = s₁.collection →
      Consumes n l s given rest s₂
  | request {given : List (Option Document)} {rest : Listing}
      {s₁ s₂ : TableState (τ × MemoryBackend)} {request : Request} {result : Except Error Answer} :
      Consumes n l s given rest s₁ → request.Reads → s₁.Admits request →
      (request.perform n.manager).run s₁ = (result, s₂) → Consumes n l s given rest s₂
  | next {given : List (Option Document)} {rest rest' : Listing} {found : Option Document}
      {s₁ s₂ : TableState (τ × MemoryBackend)} :
      Consumes n l s given rest s₁ → n.manager.Connects s₁.connection →
      (rest.next? n.manager).run s₁ = (.ok (some (found, rest')), s₂) →
      Consumes n l s (given ++ [found]) rest' s₂

namespace Listing

variable {τ : Type} {n : Network τ} {s s' : TableState (τ × MemoryBackend)} {l rest : Listing}
  {schema : KeySchema} {c : Collection} {docs : List Document} {given : List (Option Document)}

/-- Of some stored documents, those that were not given yet are still to come, by their keys. -/
structure Pending (schema : KeySchema) (c : Collection) (docs : List Document)
    (given : List (Option Document)) (rest : Listing) (s : TableState (τ × MemoryBackend)) :
    Prop where
  kept : s.Kept
  schema_eq : s.table.schema = schema
  collection_eq : s.collection = c
  toCome : ∃ later, docs.map some = given ++ later.map some ∧ later ⊆ c.documents ∧
    List.Forall₂ schema.Identifies later rest.keys

/-- Documents with valid keys have one key each. -/
theorem forall₂_identifies
    (h : ∀ doc ∈ docs, ∃ own, schema.Identifies doc own) :
    List.Forall₂ schema.Identifies docs
      (docs.filterMap fun doc => (schema.extractKey doc).toOption) := by
  induction docs with
  | nil =>
      exact .nil
  | cons doc docs ih =>
      obtain ⟨own, hown⟩ := h doc List.mem_cons_self
      have hkey : (schema.extractKey doc).toOption = some own := by
        rw [hown.1]
        rfl
      simp only [List.filterMap_cons, hkey]
      exact .cons hown (ih fun d hd => h d (List.mem_cons_of_mem doc hd))

/-- At first all documents that the filter accepts are to come. -/
theorem pending_of_ofFilter
    (hkept : s.Kept) {filter : Filter} (h : (ofFilter n.manager filter).run s = (.ok l, s')) :
    Pending s.table.schema s.collection (s.connection.database.find s.table.name filter) [] l
      s' := by
  have hdots : s.table.schema.DotFree := by
    rcases hkept with h | h
    · exact h.dots
    · exact h.dots
  rw [run_ofFilter] at h
  split at h
  · next keys s₁ hkeys =>
      cases h
      have hleaves := Table.selectKeys_leaves hkeys
      refine ⟨?_, hleaves.schema, hleaves.collection, _, rfl, ?_, ?_⟩
      · rcases hkept with h | h
        · exact .inl (h.of_same hleaves h.current).1
        · exact .inr (h.of_same hleaves (.refl _)).1
      · exact List.filter_subset_self _
      · rw [Table.selectKeys_ok hdots hkeys]
        refine forall₂_identifies fun doc hdoc => ?_
        obtain ⟨own, hown, -⟩ := hkept.document (List.mem_of_mem_filter hdoc)
        exact ⟨own, hown⟩
  · simp at h

namespace Pending

/-- All documents were given, or the next one is stored and has the next key. -/
theorem done_or_next
    (h : Pending schema c docs given rest s) :
    (given = docs.map some ∧ rest.keys = []) ∨
      ∃ doc later key keys, docs.map some = given ++ some doc :: later.map some ∧
        rest.keys = key :: keys ∧ doc ∈ c.documents ∧ schema.Identifies doc key ∧
        later ⊆ c.documents ∧ List.Forall₂ schema.Identifies later keys := by
  obtain ⟨later, hdocs, hstored, hkeys⟩ := h.toCome
  cases hrest : rest.keys with
  | nil =>
      rw [hrest, List.forall₂_nil_right_iff] at hkeys
      subst hkeys
      rw [List.map_nil, List.append_nil] at hdocs
      exact .inl ⟨hdocs.symm, rfl⟩
  | cons key keys =>
      rw [hrest] at hkeys
      cases hkeys with
      | @cons doc _ later _ hkey hkeys =>
          obtain ⟨hdoc, hstored⟩ := List.cons_subset.mp hstored
          exact .inr ⟨doc, later, key, keys, hdocs, rfl, hdoc, hkey, hstored, hkeys⟩

/-- The next document is found under its key, and the others are still to come. -/
theorem next
    (h : Pending schema c docs given rest s) (hconnects : n.manager.Connects s.connection)
    {doc : Document} {later : List Document} {key : PrimaryKey} {keys : List PrimaryKey}
    (hdocs : docs.map some = given ++ some doc :: later.map some) (hrest : rest.keys = key :: keys)
    (hdoc : doc ∈ c.documents) (hkey : schema.Identifies doc key) (hstored : later ⊆ c.documents)
    (hkeys : List.Forall₂ schema.Identifies later keys) :
    ∃ s', (rest.next? n.manager).run s = (.ok (some (some doc, ⟨keys⟩)), s') ∧
      Pending schema c docs (given ++ [some doc]) ⟨keys⟩ s' := by
  rw [← h.collection_eq] at hdoc
  rw [← h.schema_eq] at hkey
  obtain ⟨s', hselect⟩ := Table.selectWith_of_stored h.kept hconnects hdoc hkey s.table.mode
  have hperform : ((Request.select key s.table.mode).perform n.manager).run s =
      (.ok (.found (some doc)), s') := TableAction.run_map_eq_iff.mpr ⟨_, hselect, rfl⟩
  have hshape : s.Admits (.select key s.table.mode) := KeySchema.shapes_of_extractKey hkey.1
  have hreads : (Request.select key s.table.mode).Reads := trivial
  obtain ⟨hkept, hschema⟩ := h.kept.request hshape hperform
  have hcollection := hreads.collection h.kept.isVolatile hperform
  obtain ⟨keys₀⟩ := rest
  subst hrest
  obtain ⟨found, s'', hnext, hfound⟩ := run_next?_cons n.manager s key keys
  obtain ⟨rfl, rfl⟩ := hfound _ _ hselect
  refine ⟨s'', hnext, hkept, hschema.trans h.schema_eq, hcollection.trans h.collection_eq, later,
    ?_, hstored, hkeys⟩
  rw [hdocs, List.append_assoc]
  rfl

end Pending

/-- While a listing is consumed, what was not given is to come. -/
theorem Consumes.pending
    (hstart : Pending schema c docs [] l s) (h : Consumes n l s given rest s') :
    Pending schema c docs given rest s' := by
  induction h with
  | start =>
      exact hstart
  | elsewhere _ htable hcollection ih =>
      refine ⟨ih.kept.elsewhere htable hcollection, ?_, hcollection.trans ih.collection_eq,
        ih.toCome⟩
      rw [htable]
      exact ih.schema_eq
  | request _ hreads hadmits hrun ih =>
      obtain ⟨hkept, hschema⟩ := ih.kept.request hadmits hrun
      exact ⟨hkept, hschema.trans ih.schema_eq,
        (hreads.collection ih.kept.isVolatile hrun).trans ih.collection_eq, ih.toCome⟩
  | @next given rest rest' found s₁ s₂ _ hconnects hrun ih =>
      obtain ⟨-, hend⟩ | ⟨doc, later, key, keys, hdocs, hrest, hnext⟩ := ih.done_or_next
      · obtain ⟨keys⟩ := rest
        subst hend
        rw [run_next?_nil] at hrun
        simp at hrun
      · obtain ⟨hdoc, hkey, hstored, hkeys⟩ := hnext
        obtain ⟨s₃, hrun', hpending⟩ := ih.next hconnects hdocs hrest hdoc hkey hstored hkeys
        rw [hrun] at hrun'
        cases hrun'
        exact hpending

end Listing

/-- A run of a table that alone writes its collection, which is empty at first. -/
theorem Run.kept
    {τ : Type} {n : Network τ} {s₀ s : TableState (τ × MemoryBackend)} {trace : List Event}
    (hrun : Run n TableState.Admits s₀ trace s) (h : s₀.Vacant) :
    s.Kept := by
  induction hrun with
  | start =>
      exact .inr h
  | elsewhere _ htable hcollection ih =>
      exact ih.elsewhere htable hcollection
  | request _ hadmits hperform ih =>
      exact (ih.request hadmits hperform).1

/-- **A listing yields exactly the documents that its filter accepts.**  After any run of a table
that alone writes its collection, and whatever faults it has met: the listing is made if the first
attempt is let through; and however far it was consumed while nothing was written, either all
documents that the filter accepts were given, in the order of the backend and each once, and the
listing is at its end, or those given are the first of them, and the next one is given next, if the
network lets the attempt through. -/
theorem Run.listing
    {τ : Type} {n : Network τ} {s₀ s : TableState (τ × MemoryBackend)} {trace : List Event}
    (hdots : s₀.table.schema.DotFree) (hvolatile : s₀.Volatile) (hheld : s₀.held = .empty)
    (hempty : s₀.collection.documents = []) (hrun : Run n TableState.Admits s₀ trace s)
    (hconnects : n.manager.Connects s.connection) (filter : Filter) :
    ∃ l s₁, (Listing.ofFilter n.manager filter).run s = (.ok l, s₁) ∧
      ∀ given rest s', Listing.Consumes n l s₁ given rest s' →
        (given = (s.connection.database.find s.table.name filter).map some ∧
          (rest.next? n.manager).run s' = (.ok none, s')) ∨
        ∃ doc later found rest' s'',
          (s.connection.database.find s.table.name filter).map some = given ++ some doc :: later ∧
          (rest.next? n.manager).run s' = (.ok (some (found, rest')), s'') ∧
          (n.manager.Connects s'.connection → found = some doc) := by
  have hkept : s.Kept := hrun.kept ⟨hdots, hvolatile, hempty, hheld⟩
  obtain ⟨keys, s₁, hkeys⟩ := Table.selectKeys_of_connects hconnects filter
  have hlist : (Listing.ofFilter n.manager filter).run s = (.ok ⟨keys⟩, s₁) := by
    rw [Listing.run_ofFilter, hkeys]
  refine ⟨⟨keys⟩, s₁, hlist, fun given rest s' hconsumes => ?_⟩
  have hpending := hconsumes.pending (Listing.pending_of_ofFilter hkept hlist)
  obtain ⟨hdone, hend⟩ | ⟨doc, later, key, keys, hdocs, hrest, hnext⟩ := hpending.done_or_next
  · obtain ⟨keys⟩ := rest
    subst hend
    exact .inl ⟨hdone, rfl⟩
  · obtain ⟨hdoc, hkey, hstored, hkeys⟩ := hnext
    have hfound := fun hconnects =>
      hpending.next (n := n) hconnects hdocs hrest hdoc hkey hstored hkeys
    obtain ⟨keys₀⟩ := rest
    subst hrest
    obtain ⟨found, s'', hnext, -⟩ := Listing.run_next?_cons n.manager s' key keys
    refine .inr ⟨doc, later.map some, found, ⟨keys⟩, s'', hdocs, hnext, fun hconnects => ?_⟩
    obtain ⟨s₂, hnext', -⟩ := hfound hconnects
    rw [hnext] at hnext'
    cases hnext'
    rfl

/-- The fourth attempt to connect is refused. -/
def refusedFourth : TableState (List (Option BackendError) × MemoryBackend) :=
  Sample.layers [none, none, none, some (.transient "restart")]

/-- Layers are added, of which one is disabled; another one is refused at first. -/
def layersAdded : TableState (List (Option BackendError) × MemoryBackend) :=
  (Request.performAll Sample.network.manager
    [.create, .insert (Sample.layer "a" true) true, .insert (Sample.layer "b" false) true,
      .insert (Sample.layer "c" true) true, .insert (Sample.layer "c" true) true,
      .select (Sample.singleKey "c") .use] refusedFourth).2

theorem run_layersAdded :
    ∃ trace, Run Sample.network TableState.Admits refusedFourth trace layersAdded := by
  have hstart : Run Sample.network TableState.Admits refusedFourth [] refusedFourth := .start
  have hcreated := hstart.perform .create trivial
  have hfirst := hcreated.perform (.insert (Sample.layer "a" true) true) ⟨rfl, by decide, Sample.floatFree_layer _ _⟩
  have hsecond := hfirst.perform (.insert (Sample.layer "b" false) true) ⟨rfl, by decide, Sample.floatFree_layer _ _⟩
  have hrefused := hsecond.perform (.insert (Sample.layer "c" true) true) ⟨rfl, by decide, Sample.floatFree_layer _ _⟩
  have hthird := hrefused.perform (.insert (Sample.layer "c" true) true) ⟨rfl, by decide, Sample.floatFree_layer _ _⟩
  exact ⟨_, hthird.perform (.select (Sample.singleKey "c") .use) rfl⟩

/-- What is left when the enabled layers were listed. -/
def layersListed : TableState (List (Option BackendError) × MemoryBackend) :=
  ((Listing.ofFilter Sample.network.manager (.eq "enabled" (.bool true))).run layersAdded).2

/-- The enabled layers are listed, and consumed to the end. -/
theorem Run.listing_layers :
    ∃ trace, Run Sample.network TableState.Admits refusedFourth trace layersAdded ∧
      refusedFourth.table.schema.DotFree ∧ refusedFourth.Volatile ∧ refusedFourth.held = .empty ∧
      refusedFourth.collection.documents = [] ∧
      Sample.network.manager.Connects layersAdded.connection ∧
      ∃ l s₁ given rest s',
        (Listing.ofFilter Sample.network.manager (.eq "enabled" (.bool true))).run layersAdded =
          (.ok l, s₁) ∧
        Listing.Consumes Sample.network l s₁ given rest s' ∧
        (rest.next? Sample.network.manager).run s' = (.ok none, s') ∧
        given = [some (Sample.layer "a" true), some (Sample.layer "c" true)] := by
  obtain ⟨trace, hrun⟩ := run_layersAdded
  have hvolatile : refusedFourth.Volatile := Sample.isVolatile_layers _
  have hheld : refusedFourth.held = .empty := Sample.held_layers _
  have hconnects : Sample.network.manager.Connects layersAdded.connection := ⟨_, _, _, rfl, rfl⟩
  obtain ⟨l, s₁, hlist, hconsumed⟩ :=
    hrun.listing (by decide) hvolatile hheld rfl hconnects (.eq "enabled" (.bool true))
  have hkeys : (Listing.ofFilter Sample.network.manager (.eq "enabled" (.bool true))).run
      layersAdded = (.ok ⟨[Sample.singleKey "a", Sample.singleKey "c"]⟩, layersListed) := rfl
  rw [hkeys] at hlist
  cases hlist
  have hstart : Listing.Consumes Sample.network ⟨[Sample.singleKey "a", Sample.singleKey "c"]⟩
      layersListed [] ⟨[Sample.singleKey "a", Sample.singleKey "c"]⟩ layersListed := .start
  have hfirst : Listing.Consumes Sample.network _ layersListed [some (Sample.layer "a" true)]
      ⟨[Sample.singleKey "c"]⟩ _ := hstart.next ⟨_, _, _, rfl, rfl⟩ rfl
  have hsecond : Listing.Consumes Sample.network _ layersListed
      [some (Sample.layer "a" true), some (Sample.layer "c" true)] ⟨[]⟩ _ :=
    hfirst.next ⟨_, _, _, rfl, rfl⟩ rfl
  have hdocs : (layersAdded.connection.database.find layersAdded.table.name
      (.eq "enabled" (.bool true))).map some =
        [some (Sample.layer "a" true), some (Sample.layer "c" true)] := by
    cbv
  rw [hdocs] at hconsumed
  refine ⟨trace, hrun, by decide, hvolatile, hheld, rfl, hconnects, _, _, _, _, _, hkeys, hsecond,
    ?_⟩
  obtain ⟨hgiven, hend⟩ | ⟨doc, later, _, _, _, hmore, -⟩ := hconsumed _ _ _ hsecond
  · exact ⟨hend, hgiven⟩
  · simp at hmore

end DocumentTables
