import Mathlib
import DocumentTables.Proofs.BackedEntries
import DocumentTables.Proofs.CollectionContents
import DocumentTables.Proofs.DiskSimulation
import DocumentTables.Proofs.TableRequests

/-!
# Tables that share their entries on disk

Tables with one name, one schema and one root keep their entries in one directory.  Behind what can
be read there stands the collection: a step on the files may lose entries, whether it fails or not,
but an entry is put only after the backend has answered with its document or has taken it.  Before a
document is replaced or removed, its entry is gone, or the operation has failed and asked nothing of
the backend.

**Results.**

* `TableState.Agrees.request`: what a request of one table keeps.
* `Sharing.Agrees.of_run`: what every run of requests of several tables keeps.
* `SharedRun.select_eq`: a look-up that may be answered from disk answers what the backend would.
-/

namespace DocumentTables

open FileTree Network

/-! ## Stores on disk -/

namespace Cache

variable {store : DiskCache} {files : FileTree} {key : PrimaryKey} {doc : Document}

theorem get_disk :
    get (.disk store) files key = ((store.get files key).1, .disk (store.get files key).2) := by
  rw [get]

theorem get_disk_fst :
    (get (.disk store) files key).1 = (store.get files key).1 := by
  rw [get_disk]

theorem put_disk :
    put (.disk store) files key doc =
      ((store.put files key doc).1, .disk (store.put files key doc).2.1,
        (store.put files key doc).2.2) := by
  rw [put]

theorem remove_disk :
    remove (.disk store) files key =
      ((store.remove files key).1, .disk (store.remove files key).2.1,
        (store.remove files key).2.2) := by
  rw [remove]

theorem clear_disk :
    clear (.disk store) files =
      ((store.clear files).1, .disk store, (store.clear files).2) := by
  rw [clear]

end Cache

/-- The files after a document was not found, asked for and held. -/
theorem TableState.files_holding_asking
    {σ : Type} {s : TableState σ} {store : DiskCache} {connection : ConnectionState σ}
    {key : PrimaryKey} {doc : Document} (hcache : s.table.cache = .disk store) :
    (((s.asking key).calling connection).holding key doc).files =
      ((store.get s.files key).2.put s.files key doc).2.2 := by
  simp only [TableState.holding, TableState.stepped, TableState.calling, TableState.asking, hcache,
    Cache.get_disk, Cache.put_disk]

/-! ## Families of tables -/

/-- What tables have in common that share a collection and their entries: the name, the schema, the
root of the cache and the keys in use.  No name in the schema has a point in it, the keys have the
shape of the schema, and different ones among them have different files. -/
structure Family where
  name : String
  schema : KeySchema
  root : String
  keys : PrimaryKey → Prop
  dotFree : schema.DotFree
  separate : Separate keys
  shapes : ∀ key, keys key → schema.Shapes key

namespace Family

/-- Where the entries are. -/
def directory (f : Family) : String :=
  FilePath.join f.root (Text.fileSafe f.name)

theorem suits
    (f : Family) {key : PrimaryKey} (hkey : f.keys key) :
    f.schema.Suits key := by
  exact ⟨f.shapes key hkey, f.separate.floatFree key hkey⟩

/-- A document that may be written: its numbers are whole, and its key is one of those in use. -/
structure Writable (f : Family) (doc : Document) : Prop where
  integral : doc.Integral
  sorted : doc.Sorted
  key : ∀ own, f.schema.Identifies doc own → f.keys own

/-- A request for keys in use, which validates what it writes. -/
def Allows (f : Family) : Request → Prop
  | .insert doc validate => validate = true ∧ f.Writable doc
  | .update doc oldKey validate => validate = true ∧ f.Writable doc ∧ f.keys oldKey
  | .delete key => f.keys key
  | .select key _ => f.keys key
  | .clearCache => True
  | _ => False

end Family

/-- A table of the family: its entries are on disk. -/
structure Table.Belongs (t : Table) (f : Family) : Prop where
  name : t.name = f.name
  schema : t.schema = f.schema
  onDisk : ∃ store, t.cache = .disk store ∧ store.directory = f.directory

/-- A new table with the name, the schema and the root of the family. -/
theorem Table.belongs_withCache
    (f : Family) (process : Nat) :
    ((Table.new f.name f.schema f.root process).withCache .disk).Belongs f := by
  exact ⟨rfl, rfl, _, rfl, DiskCache.directory_ofTable f.root f.name process⟩

/-! ## Steps of one table -/

/-- A table of the family meets entries behind which a map stands. -/
structure TableState.Stands {σ : Type} (s : TableState σ) (f : Family) (map : KeyMap) : Prop where
  table : s.table.Belongs f
  area : Area f.directory s.files
  backed : Backed f.directory f.keys s.files map

namespace TableState.Stands

variable {σ : Type} {s : TableState σ} {f : Family} {map map' : KeyMap} {key : PrimaryKey}
  {doc : Document}

theorem mono
    (h : s.Stands f map) (hwithin : map.Within map') :
    s.Stands f map' := by
  exact ⟨h.table, h.area, h.backed.mono hwithin⟩

theorem calling
    (h : s.Stands f map) (connection : ConnectionState σ) :
    (s.calling connection).Stands f map := by
  exact ⟨h.table, h.area, h.backed⟩

/-- After a step on the files. -/
theorem stepped
    (h : s.Stands f map) {store : DiskCache} {files : FileTree}
    (hdirectory : store.directory = f.directory) (harea : Area f.directory files)
    (hbacked : Backed f.directory f.keys files map') :
    (s.stepped (.disk store, files)).Stands f map' := by
  exact ⟨⟨h.table.name, h.table.schema, store, rfl, hdirectory⟩, harea, hbacked⟩

theorem asking
    (h : s.Stands f map) (key : PrimaryKey) :
    (s.asking key).Stands f map := by
  obtain ⟨store, hcache, hdirectory⟩ := h.table.onDisk
  rw [TableState.asking, hcache, Cache.get_disk]
  exact h.stepped ((DiskCache.directory_get _ _ _).trans hdirectory) h.area h.backed

theorem forgetting
    (h : s.Stands f map) (hkey : f.keys key) :
    (s.forgetting key).Stands f (map.erase key) := by
  obtain ⟨store, hcache, hdirectory⟩ := h.table.onDisk
  have harea := h.area
  have hbacked := h.backed
  rw [← hdirectory] at harea hbacked
  rw [TableState.forgetting, hcache, Cache.remove_disk]
  refine h.stepped ((DiskCache.directory_remove _ _ _).trans hdirectory) ?_ ?_
  · rw [← hdirectory]
    exact (reads_remove harea key).1
  · rw [← hdirectory]
    exact hbacked.remove f.separate harea hkey

theorem holding
    (h : s.Stands f map) (hkey : f.keys key) (hfind : map.find key = some doc) :
    (s.holding key doc).Stands f map := by
  obtain ⟨store, hcache, hdirectory⟩ := h.table.onDisk
  have harea := h.area
  have hbacked := h.backed
  rw [← hdirectory] at harea hbacked
  rw [TableState.holding, hcache, Cache.put_disk]
  refine h.stepped ((DiskCache.directory_put _ _ _ _).trans hdirectory) ?_ ?_
  · rw [← hdirectory]
    exact (reads_put harea key doc).1
  · rw [← hdirectory]
    exact hbacked.put f.separate harea hkey hfind

theorem clearing
    (h : s.Stands f map) :
    s.clearing.Stands f map := by
  obtain ⟨store, hcache, hdirectory⟩ := h.table.onDisk
  have harea := h.area
  rw [← hdirectory] at harea
  rw [TableState.clearing, hcache, Cache.clear_disk]
  refine h.stepped hdirectory ?_ ?_
  · rw [← hdirectory]
    exact (reads_clear harea).1
  · rw [← hdirectory]
    exact .clear harea

/-- The cache answers with the document that the map has. -/
theorem find_of_get
    (h : s.Stands f map) (hkey : f.keys key)
    (hplain : ∀ key doc, map.find key = some doc → doc.Integral ∧ doc.Sorted)
    (hget : (s.table.cache.get s.files key).1 = .ok (some doc)) :
    map.find key = some doc := by
  obtain ⟨store, hcache, hdirectory⟩ := h.table.onDisk
  have hbacked := h.backed
  rw [← hdirectory] at hbacked
  rw [hcache, Cache.get_disk_fst] at hget
  refine hbacked.get hkey (fun own hown found hfound => ?_) hget
  obtain ⟨hintegral, hsorted⟩ := hplain key own hown
  rw [Document.ofText?_text hintegral hsorted] at hfound
  split at hfound
  · exact (Option.some.inj hfound).symm
  · cases hfound

end TableState.Stands

/-! ## Collections that are written -/

/-- A collection with a unique index on the identity, whose documents have whole numbers. -/
structure Collection.Plain (c : Collection) (schema : KeySchema) : Prop where
  keyed : c.Keyed schema
  plain : ∀ key doc, (c.contents schema).find key = some doc → doc.Integral ∧ doc.Sorted

namespace Collection.Plain

variable {c c' : Collection} {f : Family} {doc : Document} {own key : PrimaryKey} {position : Nat}

/-- A document is added. -/
theorem insert
    (h : c.Plain f.schema) (hwritable : f.Writable doc) (hdoc : f.schema.Identifies doc own)
    (hinsert : c.insert doc = .ok c') :
    c'.Plain f.schema ∧ (c.contents f.schema).Within (c'.contents f.schema) := by
  have hfree := (f.suits (hwritable.key own hdoc)).floatFree
  obtain ⟨hkeyed, hfresh, hcontents⟩ := h.keyed.insert f.dotFree hdoc hfree hinsert
  rw [hcontents]
  refine ⟨⟨hkeyed, fun k d hfind => ?_⟩, (KeyMap.Within.refl _).store_right hfresh doc⟩
  rw [hcontents, KeyMap.find_store] at hfind
  split at hfind
  · cases hfind
    exact ⟨hwritable.integral, hwritable.sorted⟩
  · exact h.plain k d hfind

/-- The document of a key is replaced. -/
theorem replace
    (h : c.Plain f.schema) (hkey : f.keys key) (hwritable : f.Writable doc)
    (hdoc : f.schema.Identifies doc own) (hposition : c.position? key.filter = some position)
    (hreplace : c.replace position doc = .ok c') :
    c'.Plain f.schema ∧ ((c.contents f.schema).erase key).Within (c'.contents f.schema) ∧
      (c'.contents f.schema).find own = some doc := by
  have hfree := (f.suits (hwritable.key own hdoc)).floatFree
  obtain ⟨hkeyed, -, hfresh, hcontents⟩ :=
    h.keyed.replace f.dotFree (f.suits hkey) hdoc hfree hposition hreplace
  rw [hcontents]
  refine ⟨⟨hkeyed, fun k d hfind => ?_⟩, (KeyMap.Within.refl _).store_right hfresh doc,
    KeyMap.find_store_self _ _ _⟩
  rw [hcontents, KeyMap.find_store] at hfind
  split at hfind
  · cases hfind
    exact ⟨hwritable.integral, hwritable.sorted⟩
  · exact h.plain k d (KeyMap.find_of_find_erase hfind).2

/-- The document of a key is removed. -/
theorem eraseIdx
    (h : c.Plain f.schema) (hkey : f.keys key) (hposition : c.position? key.filter = some position)
    (hc : c' = ⟨c.documents.eraseIdx position, c.uniqueIndexes⟩) :
    c'.Plain f.schema ∧ c'.contents f.schema = (c.contents f.schema).erase key := by
  obtain ⟨hkeyed, -, hcontents⟩ := h.keyed.eraseIdx f.dotFree (f.suits hkey) hposition
  rw [← hc] at hkeyed hcontents
  refine ⟨⟨hkeyed, fun k d hfind => ?_⟩, hcontents⟩
  rw [hcontents] at hfind
  exact h.plain k d (KeyMap.find_of_find_erase hfind).2

end Collection.Plain

/-! ## Requests of one table -/

section

variable {τ : Type} {n : Network τ} {f : Family} {s s' : TableState (τ × MemoryBackend)}
  {key : PrimaryKey} {doc : Document} {mode : CacheMode}

/-- Behind the entries that a table of the family meets stands its collection. -/
structure TableState.Agrees (s : TableState (τ × MemoryBackend)) (f : Family) : Prop where
  plain : s.collection.Plain f.schema
  stands : s.Stands f (s.collection.contents f.schema)

namespace TableState.Agrees

/-- The files and the collection are left so that the entries have the collection behind them. -/
theorem of_stands
    {map : KeyMap} {c : Collection} (hstands : s'.Stands f map) (hc : s'.collection = c)
    (hplain : c.Plain f.schema) (hwithin : map.Within (c.contents f.schema)) :
    s'.Agrees f := by
  subst hc
  exact ⟨hplain, hstands.mono hwithin⟩

/-- Entries are lost, and the collection stays. -/
theorem forgetting
    (h : s.Agrees f) (hkey : f.keys key) :
    (s.forgetting key).Agrees f := by
  exact of_stands (h.stands.forgetting hkey) rfl h.plain (KeyMap.Within.refl _).erase_left

/-- A call that changes nothing in the collection. -/
theorem calling
    (h : s.Agrees f) {connection : ConnectionState (τ × MemoryBackend)}
    (hdb : connection.database = s.connection.database) :
    (s.calling connection).Agrees f ∧ (s.calling connection).collection = s.collection := by
  have hc : (s.calling connection).collection = s.collection := by
    rw [TableState.collection, TableState.calling, hdb]
    rfl
  exact ⟨of_stands (h.stands.calling connection) hc h.plain (KeyMap.Within.refl _), hc⟩

/-- What the collection has for a key is what the backend finds. -/
theorem find?_filter
    (h : s.Agrees f) (hkey : f.keys key) :
    (s.collection.documents.find? fun doc => key.filter.holds doc) =
      (s.collection.contents f.schema).find key := by
  exact h.plain.keyed.find?_filter f.dotFree (f.shapes key hkey)

/-! ### Questions -/

/-- A document is asked for and held. -/
theorem fetch
    (h : s.Agrees f) (hkey : f.keys key) {result : Except Error (Option Document)}
    (hrun : (Table.fetch n.manager key key.filter mode).run s = (result, s')) :
    s'.Agrees f ∧ s'.collection = s.collection ∧
      ∀ found, result = .ok found → (s.collection.contents f.schema).find key = found := by
  rw [Table.run_fetch, backend_findOne] at hrun
  split at hrun
  · next doc c hcall =>
      obtain ⟨hdb, hfound⟩ := execute_ask hcall
      obtain ⟨hcalled, hc⟩ := h.calling hdb
      have hfind : (s.collection.contents f.schema).find key = some doc := by
        rw [← h.find?_filter hkey]
        exact hfound _ rfl
      cases hrun
      refine ⟨of_stands (hcalled.stands.holding hkey ?_) rfl hcalled.plain (KeyMap.Within.refl _),
        hc, ?_⟩
      · rw [hc, hfind]
      · rintro found hresult
        cases hresult
        exact hfind
  · next c hcall =>
      obtain ⟨hdb, hfound⟩ := execute_ask hcall
      obtain ⟨hcalled, hc⟩ := h.calling hdb
      have hfind : (s.collection.contents f.schema).find key = none := by
        rw [← h.find?_filter hkey]
        exact hfound _ rfl
      cases hrun
      refine ⟨?_, ?_, ?_⟩
      · split
        · exact hcalled.forgetting hkey
        · exact hcalled
      · split <;> exact hc
      · rintro found hresult
        cases hresult
        exact hfind
  · next c hcall =>
      obtain ⟨hdb, -⟩ := execute_ask hcall
      obtain ⟨hcalled, hc⟩ := h.calling hdb
      cases hrun
      exact ⟨hcalled, hc, fun found hresult => by cases hresult⟩

/-- A look-up answers with the document that the collection has for the key, from wherever. -/
theorem selectWith
    (h : s.Agrees f) (hkey : f.keys key) {result : Except Error (Option Document)}
    (hrun : (Table.selectWith n.manager key mode).run s = (result, s')) :
    s'.Agrees f ∧ s'.collection = s.collection ∧
      ∀ found, result = .ok found → (s.collection.contents f.schema).find key = found := by
  have hasked : (s.asking key).Agrees f :=
    of_stands (h.stands.asking key) rfl h.plain (KeyMap.Within.refl _)
  rw [Table.run_selectWith_eq] at hrun
  split at hrun
  · cases hrun
    exact ⟨h, rfl, fun found hresult => by cases hresult⟩
  · split at hrun
    · split at hrun
      · next doc hget =>
          cases hrun
          refine ⟨hasked, rfl, fun found hresult => ?_⟩
          cases hresult
          exact h.stands.find_of_get hkey h.plain.plain hget
      · exact hasked.fetch hkey hrun
    · exact h.fetch hkey hrun

/-! ### Writes -/

theorem insertWith
    (h : s.Agrees f) (hwritable : f.Writable doc) {result : Except Error Unit}
    (hrun : (Table.insertWith n.manager doc true).run s = (result, s')) :
    s'.Agrees f := by
  rw [Table.run_insertWith, backend_insertOne, h.stands.table.schema] at hrun
  split at hrun
  · cases hrun
    exact h
  · next own hown =>
      obtain ⟨key, -, hdoc⟩ := KeySchema.keyToWrite_eq_ok_iff.mp hown
      rw [Table.run_execute] at hrun
      obtain ⟨hcall, rfl⟩ := Prod.mk.inj hrun
      have happlies := execute_applies (Prod.ext hcall rfl)
      cases result with
      | error e =>
          exact (h.calling (applies_error_iff.mp happlies)).1
      | ok _ =>
          rw [applies_ok_iff] at happlies
          cases hinsert : s.connection.database.insertOne s.table.name doc with
          | error e =>
              simp [hinsert, Except.map] at happlies
          | ok db =>
              simp only [hinsert, Except.map, Except.ok.injEq, Prod.mk.injEq, true_and] at happlies
              have hcollection := Database.collection_of_insertOne hinsert
              rw [happlies] at hcollection
              obtain ⟨hplain, hwithin⟩ := h.plain.insert hwritable hdoc hcollection
              exact of_stands (h.stands.calling _) rfl hplain hwithin

/-- Before the document is replaced its entry is gone, so no entry is left that the new collection
does not stand behind. -/
theorem updateWith
    (h : s.Agrees f) (hwritable : f.Writable doc) (hkey : f.keys key)
    {result : Except Error Unit}
    (hrun : (Table.updateWith n.manager doc key true).run s = (result, s')) :
    s'.Agrees f := by
  rw [Table.run_updateWith_eq, backend_replaceOne, h.stands.table.schema] at hrun
  have hforgot := h.forgetting hkey
  split at hrun
  · cases hrun
    exact h
  · split at hrun
    · cases hrun
      exact hforgot
    · split at hrun
      · cases hrun
        exact hforgot
      · next own hown =>
          obtain ⟨new, rfl, hdoc⟩ := KeySchema.keyToWrite_eq_ok_iff.mp hown
          split at hrun
          · next matched c hcall =>
              have happlies := applies_ok_iff.mp (execute_applies hcall)
              rcases Database.collection_of_replaceOne happlies with
                ⟨rfl, -, hsame⟩ | ⟨rfl, position, hposition, hreplace⟩
              · cases hrun
                exact of_stands (hforgot.stands.calling c) hsame h.plain (KeyMap.Within.refl _)
              · obtain ⟨hplain, hwithin, hfind⟩ :=
                  h.plain.replace hkey hwritable hdoc hposition hreplace
                cases hrun
                have hcalled := ((h.stands.forgetting hkey).calling c).mono hwithin
                exact of_stands (hcalled.holding (hwritable.key new hdoc) hfind) rfl hplain
                  (KeyMap.Within.refl _)
          · next c hcall =>
              have happlies := applies_error_iff.mp (execute_applies hcall)
              cases hrun
              exact (hforgot.calling happlies).1

/-- Before the document is removed its entry is gone. -/
theorem delete
    (h : s.Agrees f) (hkey : f.keys key) {result : Except Error (Option Document)}
    (hrun : (Table.delete n.manager key).run s = (result, s')) :
    s'.Agrees f := by
  rw [Table.run_delete_eq, backend_findOneAndDelete] at hrun
  have hforgot := h.forgetting hkey
  split at hrun
  · cases hrun
    exact h
  · split at hrun
    · cases hrun
      exact hforgot
    · rw [Table.run_execute] at hrun
      obtain ⟨hcall, rfl⟩ := Prod.mk.inj hrun
      have happlies := execute_applies (Prod.ext hcall rfl)
      cases result with
      | error e =>
          exact (hforgot.calling (applies_error_iff.mp happlies)).1
      | ok found =>
          simp only [applies_ok_iff, Except.ok.injEq, Prod.ext_iff] at happlies
          obtain ⟨-, hdb⟩ := happlies
          have hstands := (h.stands.forgetting hkey).calling
            (n.manager.execute (MemoryBackend.change fun db =>
              .ok (db.findOneAndDelete s.table.name key.filter)).onSecond
              (s.forgetting key).connection).2
          have hcollection :=
            congrArg (fun db => Database.collection db s.table.name) hdb.symm
          rcases Database.collection_findOneAndDelete s.connection.database s.table.name
            key.filter with ⟨-, -, hsame⟩ | ⟨position, hposition, -, herased⟩
          · exact of_stands hstands (hcollection.trans hsame) h.plain
              (KeyMap.Within.refl _).erase_left
          · obtain ⟨hplain, hcontents⟩ := h.plain.eraseIdx hkey hposition herased
            exact of_stands hstands hcollection hplain (hcontents ▸ KeyMap.Within.refl _)

theorem clearCache
    (h : s.Agrees f) {result : Except Error Unit}
    (hrun : Table.clearCache.run s = (result, s')) :
    s'.Agrees f := by
  rw [Table.run_clearCache_eq] at hrun
  have hcleared : s.clearing.Agrees f :=
    of_stands h.stands.clearing rfl h.plain (KeyMap.Within.refl _)
  split at hrun
  · cases hrun
    exact hcleared
  · cases hrun
    exact hcleared

/-- Every request that is allowed, whatever becomes of it. -/
theorem request
    (h : s.Agrees f) {request : Request} (hallowed : f.Allows request)
    {result : Except Error Answer} (hrun : (request.perform n.manager).run s = (result, s')) :
    s'.Agrees f := by
  cases request with
  | insert doc validate =>
      obtain ⟨rfl, hwritable⟩ := hallowed
      obtain ⟨r, hr, -⟩ := TableAction.run_map_eq_iff.mp hrun
      exact h.insertWith hwritable hr
  | update doc oldKey validate =>
      obtain ⟨rfl, hwritable, hkey⟩ := hallowed
      obtain ⟨r, hr, -⟩ := TableAction.run_map_eq_iff.mp hrun
      exact h.updateWith hwritable hkey hr
  | delete key =>
      obtain ⟨r, hr, -⟩ := TableAction.run_map_eq_iff.mp hrun
      exact h.delete hallowed hr
  | select key mode =>
      obtain ⟨r, hr, -⟩ := TableAction.run_map_eq_iff.mp hrun
      exact (h.selectWith hallowed hr).1
  | clearCache =>
      obtain ⟨r, hr, -⟩ := TableAction.run_map_eq_iff.mp hrun
      exact h.clearCache hr
  | existsDocument key =>
      exact hallowed.elim
  | selectKeys filter =>
      exact hallowed.elim
  | «exists» =>
      exact hallowed.elim
  | create =>
      exact hallowed.elim
  | drop =>
      exact hallowed.elim
  | setCacheStrategy strategy =>
      exact hallowed.elim

end TableState.Agrees
end

/-! ## Several tables -/

/-- Some tables, the files that they all see, and the collection that they all name. -/
structure Sharing (ι : Type) where
  tables : ι → Table
  files : FileTree
  collection : Collection

namespace Sharing

variable {ι τ : Type}

/-- What one of the tables meets: itself, the files and the collection.  Its connection may be in
any state, and there may be anything else in the database. -/
structure Meets (sharing : Sharing ι) (i : ι) (s : TableState (τ × MemoryBackend)) : Prop where
  table : s.table = sharing.tables i
  files : s.files = sharing.files
  collection : s.collection = sharing.collection

/-- What is there after an operation of one of the tables. -/
def after [DecidableEq ι] (sharing : Sharing ι) (i : ι) (s : TableState (τ × MemoryBackend)) :
    Sharing ι where
  tables := Function.update sharing.tables i s.table
  files := s.files
  collection := s.collection

/-- In the beginning the tables belong to the family, the root is an empty directory, and the
collection has no documents but its unique index. -/
structure Starts (sharing : Sharing ι) (f : Family) : Prop where
  tables : ∀ i, (sharing.tables i).Belongs f
  root : ∃ loc, EmptyRoot sharing.files f.root loc
  documents : sharing.collection.documents = []
  indexed : f.schema.indexFields ∈ sharing.collection.uniqueIndexes

/-- Behind the entries that the tables share stands the collection. -/
structure Agrees (sharing : Sharing ι) (f : Family) : Prop where
  tables : ∀ i, (sharing.tables i).Belongs f
  plain : sharing.collection.Plain f.schema
  area : Area f.directory sharing.files
  backed : Backed f.directory f.keys sharing.files (sharing.collection.contents f.schema)

variable {sharing : Sharing ι} {f : Family} {i : ι} {s : TableState (τ × MemoryBackend)}

theorem Agrees.of_starts
    (h : sharing.Starts f) :
    sharing.Agrees f := by
  obtain ⟨loc, hroot⟩ := h.root
  obtain ⟨harea, hnone⟩ := hroot.area f.name
  have hno : ∀ key, (sharing.collection.contents f.schema).find key = none := by
    intro key
    change sharing.collection.documents.find? _ = none
    rw [h.documents]
    rfl
  refine ⟨h.tables, ⟨⟨h.indexed, ?_, ?_⟩, ?_⟩, harea, .of_not_reads hnone⟩
  · rw [h.documents]
    intro doc hdoc
    cases hdoc
  · rw [h.documents]
    exact .nil
  · intro key doc hfind
    rw [hno key] at hfind
    cases hfind

theorem Agrees.meets
    (h : sharing.Agrees f) (hs : sharing.Meets i s) :
    s.Agrees f := by
  refine ⟨?_, ⟨?_, ?_, ?_⟩⟩
  · rw [hs.collection]
    exact h.plain
  · rw [hs.table]
    exact h.tables i
  · rw [hs.files]
    exact h.area
  · rw [hs.files, hs.collection]
    exact h.backed

theorem Agrees.after
    [DecidableEq ι] (h : sharing.Agrees f) (i : ι) (hs : s.Agrees f) :
    (sharing.after i s).Agrees f := by
  refine ⟨fun j => ?_, hs.plain, hs.stands.area, hs.stands.backed⟩
  by_cases hj : j = i
  · subst hj
    simp only [Sharing.after, Function.update_self]
    exact hs.stands.table
  · simp only [Sharing.after, Function.update_of_ne hj]
    exact h.tables j

end Sharing

/-- Tables over one collection and one tree of files run one allowed request after another, each
over a network of its own that may refuse any attempt. -/
inductive SharedRun {ι τ : Type} [DecidableEq ι] (network : ι → Network τ)
    (allowed : Request → Prop) (start : Sharing ι) : Sharing ι → Prop
  | start : SharedRun network allowed start start
  | request {sharing : Sharing ι} {i : ι} {s s' : TableState (τ × MemoryBackend)}
      {request : Request} {result : Except Error Answer} :
      SharedRun network allowed start sharing → sharing.Meets i s → allowed request →
      (request.perform (network i).manager).run s = (result, s') →
      SharedRun network allowed start (sharing.after i s')

section

variable {ι τ : Type} [DecidableEq ι] {network : ι → Network τ} {f : Family}
  {start sharing : Sharing ι}

/-- Behind the entries stands the collection all along. -/
theorem Sharing.Agrees.of_run
    (h : SharedRun network f.Allows start sharing) (hstart : start.Starts f) :
    sharing.Agrees f := by
  induction h with
  | start =>
      exact .of_starts hstart
  | request _ hs hallowed hrun ih =>
      exact ih.after _ ((ih.meets hs).request hallowed hrun)

/-- In every run of tables of a family, a look-up of any of them that may be answered from disk
answers what the backend finds for the key, if it answers at all. -/
theorem SharedRun.select_eq
    (h : SharedRun network f.Allows start sharing) (hstart : start.Starts f)
    {i : ι} {s s' : TableState (τ × MemoryBackend)} (hs : sharing.Meets i s)
    {key : PrimaryKey} (hkey : f.keys key) {found : Option Document}
    (hselect : (Table.selectWith (network i).manager key .use).run s = (.ok found, s')) :
    s.connection.database.findOne f.name key.filter = found ∧
      s'.connection.database.findOne f.name key.filter = found := by
  have hagrees := (Sharing.Agrees.of_run h hstart).meets hs
  obtain ⟨hafter, hcollection, hfound⟩ := hagrees.selectWith hkey hselect
  have hfind : (s.collection.documents.find? fun doc => key.filter.holds doc) = found := by
    rw [hagrees.find?_filter hkey, hfound found rfl]
  have hfind' := hfind
  rw [← hcollection] at hfind'
  rw [TableState.collection, hagrees.stands.table.name] at hfind
  rw [TableState.collection, hafter.stands.table.name] at hfind'
  exact ⟨hfind, hfind'⟩

end

/-! ## Two tables of layers -/

/-- Tables of layers below one root, which look for two layers. -/
def layerFamily : Family where
  name := "layers"
  schema := .single "id"
  root := "c"
  keys := LayerKey
  dotFree := by decide
  separate := separate_layerKey
  shapes := by
    rintro key (rfl | rfl)
    · rfl
    · rfl

/-- Two tables in two processes, with no files and no documents. -/
def twoTables : Sharing Bool where
  tables := fun second =>
    (Table.new "layers" (.single "id") "c" (if second then 8 else 7)).withCache .disk
  files := cacheFiles
  collection := ⟨[], [["id"]]⟩

/-- What a table meets when the database has nothing but the collection, and the network refuses
attempts as a list says. -/
def Sharing.state {ι : Type} (sharing : Sharing ι) (i : ι) (refusals : List (Option BackendError)) :
    TableState (List (Option BackendError) × MemoryBackend) where
  table := sharing.tables i
  connection := .initial (refusals, ⟨[((sharing.tables i).name, sharing.collection)], none, 0⟩)
  files := sharing.files

theorem Sharing.meets_state
    {ι : Type} (sharing : Sharing ι) (i : ι) (refusals : List (Option BackendError)) :
    sharing.Meets i (sharing.state i refusals) := by
  refine ⟨rfl, rfl, ?_⟩
  simp [Sharing.state, TableState.collection, ConnectionState.database, ConnectionState.initial,
    Database.collection, NameMap.get?_cons]

theorem Sharing.connects_state
    {ι : Type} (sharing : Sharing ι) (i : ι) :
    Sample.network.manager.Connects (sharing.state i []).connection := by
  exact ⟨_, _, _, rfl, rfl⟩

theorem starts_twoTables :
    twoTables.Starts layerFamily := by
  refine ⟨fun second => ?_, ⟨["c"], emptyRoot_cacheFiles⟩, rfl, List.mem_singleton_self _⟩
  cases second with
  | false =>
      exact Table.belongs_withCache layerFamily 7
  | true =>
      exact Table.belongs_withCache layerFamily 8

theorem writable_layer
    (enabled : Bool) :
    layerFamily.Writable (Sample.layer "a" enabled) := by
  have hstorable := storable_layer "a" enabled
  refine ⟨hstorable.integral, hstorable.sorted, fun own hown => .inl ?_⟩
  have hextract : layerFamily.schema.extractKey (Sample.layer "a" enabled) =
      .ok (Sample.singleKey "a") := by
    cbv
  exact Except.ok.inj (hown.1.symm.trans hextract)

/-- The second store after a look-up. -/
def askedStore : DiskCache :=
  ((DiskCache.ofTable "c" "layers" 8).get cacheFiles (Sample.singleKey "a")).2

/-- The files after the second store was given the layer to hold. -/
def heldFiles : FileTree :=
  (askedStore.put cacheFiles (Sample.singleKey "a") (Sample.layer "a" true)).2.2

/-- What the second store does not find, and is given to hold, the first one finds. -/
theorem get_heldFiles :
    ((DiskCache.ofTable "c" "layers" 8).get cacheFiles (Sample.singleKey "a")).1 = .ok none ∧
      ((DiskCache.ofTable "c" "layers" 7).get heldFiles (Sample.singleKey "a")).1 =
        .ok (some (Sample.layer "a" true)) := by
  have htable : (Text.fileSafe "layers").utf8ByteSize ≤ maxNameBytes := by decide
  have hname : Text.fileSafe "layers" ≠ "" := by decide
  rw [heldFiles, askedStore]
  exact EmptyRoot.get_put emptyRoot_cacheFiles htable separate_layerKey (.inl rfl)
    (storable_layer "a" true) (by decide) (by decide) (fun _ h => h) pathsShort_layers
    (fun hempty => absurd hempty hname)

/-- The first table adds the layer. -/
theorem exists_addedRun :
    ∃ sharing : Sharing Bool,
      SharedRun (fun _ => Sample.network) layerFamily.Allows twoTables sharing ∧
      sharing.tables = twoTables.tables ∧ sharing.files = cacheFiles ∧
      sharing.collection = ⟨[Sample.layer "a" true], [["id"]]⟩ := by
  have hinserted : (twoTables.state false []).collection.insert (Sample.layer "a" true) =
      .ok ⟨[Sample.layer "a" true], [["id"]]⟩ := by
    rfl
  have hown : Table.keyToWrite (.single "id") (Sample.layer "a" true) true =
      .ok (some (Sample.singleKey "a")) := by
    cbv
  obtain ⟨s, hinsert⟩ :=
    Table.insertWith_of_connects (twoTables.connects_state false) hown hinserted
  have hcollection := Except.ok.inj ((Table.insertWith_ok hinsert).2.1.symm.trans hinserted)
  have hadd : layerFamily.Allows (.insert (Sample.layer "a" true) true) :=
    ⟨rfl, writable_layer true⟩
  have hrun : ((Request.insert (Sample.layer "a" true) true).perform Sample.network.manager).run
      (twoTables.state false []) = (.ok .done, s) :=
    TableAction.run_map_eq_iff.mpr ⟨_, hinsert, rfl⟩
  obtain ⟨connection, rfl⟩ := Table.exists_calling_of_insertWith hinsert
  refine ⟨_, .request .start (twoTables.meets_state false []) hadd hrun, ?_, rfl, hcollection⟩
  exact Function.update_eq_self false twoTables.tables

/-- The second table looks for the layer and holds it on disk. -/
theorem exists_heldRun :
    ∃ sharing : Sharing Bool,
      SharedRun (fun _ => Sample.network) layerFamily.Allows twoTables sharing ∧
      sharing.tables false = twoTables.tables false ∧ sharing.files = heldFiles := by
  obtain ⟨sharing, hrun, htables, hfiles, hcollection⟩ := exists_addedRun
  have hmeets := sharing.meets_state true []
  have hvalid : (Sample.singleKey "a").validate = .ok true := by
    rfl
  have hcache : (sharing.state true []).table.cache = .disk (.ofTable "c" "layers" 8) := by
    rw [hmeets.table, htables]
    rfl
  have hget : ((sharing.state true []).table.cache.get (sharing.state true []).files
      (Sample.singleKey "a")).1 = .ok none := by
    rw [hcache, hmeets.files, hfiles, Cache.get_disk_fst]
    exact get_heldFiles.1
  have hfind : (sharing.state true []).connection.database.findOne
      (sharing.state true []).table.name (Sample.singleKey "a").filter =
        some (Sample.layer "a" true) := by
    have hstate := hmeets.collection
    rw [TableState.collection, hcollection] at hstate
    rw [Database.findOne, hstate]
    rfl
  obtain ⟨connection, hselect⟩ :=
    Table.selectWith_of_absent (sharing.connects_state true) hvalid hget hfind
  have hlook : layerFamily.Allows (.select (Sample.singleKey "a") .use) := .inl rfl
  refine ⟨_, .request hrun hmeets hlook (TableAction.run_map_eq_iff.mpr ⟨_, hselect, rfl⟩), ?_, ?_⟩
  · simp only [Sharing.after, Function.update_of_ne Bool.false_ne_true, htables]
  · rw [Sharing.after, TableState.files_holding_asking hcache, hmeets.files, hfiles, heldFiles,
      askedStore]

/-- The first table finds the layer that the second one holds on disk, although its attempts to
connect are refused. -/
theorem SharedRun.select_eq_layer :
    ∃ (sharing : Sharing Bool) (s s' : TableState (List (Option BackendError) × MemoryBackend)),
      SharedRun (fun _ => Sample.network) layerFamily.Allows twoTables sharing ∧
      twoTables.Starts layerFamily ∧ sharing.Meets false s ∧
      s.connection.world.1 = [some (.transient "restart")] ∧
      layerFamily.keys (Sample.singleKey "a") ∧
      (Table.selectWith Sample.network.manager (Sample.singleKey "a") .use).run s =
        (.ok (some (Sample.layer "a" true)), s') ∧
      s.connection.database.findOne "layers" (Sample.singleKey "a").filter =
        some (Sample.layer "a" true) ∧
      s'.connection.database.findOne "layers" (Sample.singleKey "a").filter =
        some (Sample.layer "a" true) := by
  obtain ⟨sharing, hrun, htable, hfiles⟩ := exists_heldRun
  have hmeets := sharing.meets_state false [some (.transient "restart")]
  generalize hs : sharing.state false [some (.transient "restart")] = s at hmeets
  have hkey : layerFamily.keys (Sample.singleKey "a") := .inl rfl
  have hvalid : (Sample.singleKey "a").validate = .ok true := by
    rfl
  have hget : (s.table.cache.get s.files (Sample.singleKey "a")).1 =
      .ok (some (Sample.layer "a" true)) := by
    have hcache : s.table.cache = .disk (.ofTable "c" "layers" 7) := by
      rw [hmeets.table, htable]
      rfl
    rw [hcache, hmeets.files, hfiles, Cache.get_disk_fst]
    exact get_heldFiles.2
  have hselect : (Table.selectWith Sample.network.manager (Sample.singleKey "a") .use).run s =
      (.ok (some (Sample.layer "a" true)), s.asking (Sample.singleKey "a")) := by
    rw [Table.run_selectWith_eq, hvalid]
    simp only [hget, if_true]
  obtain ⟨hbefore, hafter⟩ := SharedRun.select_eq hrun starts_twoTables hmeets hkey hselect
  refine ⟨sharing, s, _, hrun, starts_twoTables, hmeets, ?_, hkey, hselect, hbefore, hafter⟩
  rw [← hs]
  rfl

end DocumentTables
