import DocumentTables.Proofs.TableEffects

/-!
# Interleaved requests

Several clients share one table with a cache in memory.  Each has one request, which is a sequence
of steps: a look-up asks the cache, then the backend, and then puts what it found into the cache;
an update forgets the old key, replaces the document, and puts the new one into the cache; a
removal forgets the key and removes the document.  Each step is atomic, and the steps of different
clients may be interleaved in any order.

To tell the order of steps there is a count beside the system: how often the document of each key
was written.  No step depends on it.

**Results.**

* `System.Solo.selectWith`, `System.Solo.updateWith`, `System.Solo.delete`: taken without a pause,
  the steps of a request are the operation of the table.
-/

namespace DocumentTables

/-- How far a client has come with its request. -/
inductive Client where
  /-- About to ask the cache. -/
  | selecting (key : PrimaryKey)
  /-- About to ask the backend, as the cache had no answer. -/
  | finding (key : PrimaryKey)
  /-- About to forget the old key. -/
  | updating (doc : Document) (oldKey : PrimaryKey)
  /-- About to replace the document. -/
  | replacing (doc : Document) (oldKey : PrimaryKey)
  /-- About to put a document into the cache, found or written when its key had the given count. -/
  | putting (key : PrimaryKey) (doc : Document) (count : Nat)
  /-- About to forget the key. -/
  | deleting (key : PrimaryKey)
  /-- About to remove the document. -/
  | removing (key : PrimaryKey)
  | finished

namespace Client

/-- The client has not begun with its request, and its keys have the schema's shape and ask for no
floating-point numbers. -/
def Starts (schema : KeySchema) : Client → Prop
  | .selecting key => schema.Suits key
  | .updating doc oldKey => schema.FloatFree doc ∧ schema.Suits oldKey
  | .deleting key => schema.Suits key
  | _ => False

/-- The next step is a call of the backend, which may fail. -/
def Calls : Client → Prop
  | .finding _ => True
  | .replacing _ _ => True
  | .removing _ => True
  | _ => False

end Client

/-- The cache and the collection that clients share, the counts of writes, and the clients. -/
structure System (ι : Type) where
  cache : MemoryCache
  collection : Collection
  counts : PrimaryKey → Nat
  clients : ι → Client

namespace System

variable {ι : Type}

/-- The collection was written, which counts for some keys. -/
def written (s : System ι) (c : Collection) (touched : PrimaryKey → Bool) : System ι :=
  { s with
    collection := c
    counts := fun k => if touched k then s.counts k + 1 else s.counts k }

/-- The system has the cache and the collection of a table. -/
structure Shows {τ : Type} (s : System ι) (t : TableState (τ × MemoryBackend)) : Prop where
  cache : t.table.cache = .memory s.cache
  collection : t.collection = s.collection

namespace Shows

variable {τ : Type} {s : System ι} {t : TableState (τ × MemoryBackend)}

theorem isVolatile
    (h : s.Shows t) :
    t.Volatile := by
  rw [TableState.Volatile, Cache.Volatile, h.cache]
  simp [Cache.strategy]

theorem held_eq
    (h : s.Shows t) :
    t.held = s.cache.contents := by
  rw [TableState.held, h.cache]
  rfl

theorem asking
    (h : s.Shows t) (key : PrimaryKey) :
    { s with cache := (s.cache.get key).2 }.Shows (t.asking key) := by
  refine ⟨?_, h.collection⟩
  simp [TableState.asking, TableState.stepped, h.cache, Cache.get]

theorem holding
    (h : s.Shows t) (key : PrimaryKey) (doc : Document) :
    { s with cache := s.cache.put key doc }.Shows (t.holding key doc) := by
  refine ⟨?_, h.collection⟩
  simp [TableState.holding, TableState.stepped, h.cache, Cache.put]

theorem forgetting
    (h : s.Shows t) (key : PrimaryKey) :
    { s with cache := s.cache.remove key }.Shows (t.forgetting key) := by
  refine ⟨?_, h.collection⟩
  simp [TableState.forgetting, TableState.stepped, h.cache, Cache.remove]

/-- After a call the system has the collection that the call left. -/
theorem calling
    (h : s.Shows t) (connection : ConnectionState (τ × MemoryBackend)) {c : Collection}
    (hc : connection.database.collection t.table.name = c) (counts : PrimaryKey → Nat) :
    { s with collection := c, counts }.Shows (t.calling connection) := by
  exact ⟨h.cache, hc⟩

end Shows

variable [DecidableEq ι]

/-- One client has come further. -/
def become (s : System ι) (i : ι) (client : Client) : System ι :=
  { s with clients := fun j => if j = i then client else s.clients j }

/-- A client takes its next step.  One that has finished stays as it is. -/
def advance (schema : KeySchema) (s : System ι) (i : ι) : System ι :=
  match s.clients i with
  | .selecting key =>
      match s.cache.get key with
      | (some _, cache) => { s with cache }.become i .finished
      | (none, cache) => { s with cache }.become i (.finding key)
  | .finding key =>
      match s.collection.documents.find? fun doc => key.filter.holds doc with
      | some doc => s.become i (.putting key doc (s.counts key))
      | none => s.become i .finished
  | .updating doc oldKey =>
      { s with cache := s.cache.remove oldKey }.become i (.replacing doc oldKey)
  | .replacing doc oldKey =>
      match schema.validKey? doc, s.collection.position? oldKey.filter with
      | some own, some position =>
          match s.collection.replace position doc with
          | .ok c =>
              let s := s.written c fun k => oldKey.same k || own.same k
              s.become i (.putting own doc (s.counts own))
          | .error _ => s.become i .finished
      | _, _ => s.become i .finished
  | .putting key doc _ => { s with cache := s.cache.put key doc }.become i .finished
  | .deleting key => { s with cache := s.cache.remove key }.become i (.removing key)
  | .removing key =>
      match s.collection.position? key.filter with
      | some position =>
          (s.written ⟨s.collection.documents.eraseIdx position, s.collection.uniqueIndexes⟩
            key.same).become i .finished
      | none => s.become i .finished
  | .finished => s

/-- A client takes its next step, or its call of the backend fails. -/
inductive Step (schema : KeySchema) (i : ι) (s : System ι) : System ι → Prop
  | advance : Step schema i s (s.advance schema i)
  | fail : (s.clients i).Calls → Step schema i s (s.become i .finished)

/-- One client takes its steps without a pause. -/
inductive Solo (schema : KeySchema) (i : ι) : System ι → System ι → Prop
  | done {s : System ι} : s.clients i = .finished → Solo schema i s s
  | step {s s₁ s₂ : System ι} : Step schema i s s₁ → Solo schema i s₁ s₂ → Solo schema i s s₂

variable {schema : KeySchema} {s s' : System ι} {i j : ι} {client : Client} {key own : PrimaryKey}
  {doc : Document}

@[simp] theorem clients_become_self :
    (s.become i client).clients i = client := by
  simp [become]

theorem clients_become_of_ne
    (h : j ≠ i) :
    (s.become i client).clients j = s.clients j := by
  simp [become, h]

/-- A client that meets a condition is the one that has come further, or met it before. -/
theorem clients_become_or
    {P : Client → Prop} (h : P ((s.become i client).clients j)) :
    (j = i ∧ P client) ∨ (j ≠ i ∧ P (s.clients j)) := by
  by_cases hij : j = i
  · subst hij
    rw [clients_become_self] at h
    exact .inl ⟨rfl, h⟩
  · rw [clients_become_of_ne hij] at h
    exact .inr ⟨hij, h⟩

theorem Shows.become
    {τ : Type} {t : TableState (τ × MemoryBackend)} (h : s.Shows t) (i : ι) (client : Client) :
    (s.become i client).Shows t := by
  exact ⟨h.cache, h.collection⟩

/-! ## Steps -/

theorem advance_hit
    (h : s.clients i = .selecting key) (hheld : s.cache.contents.find key = some doc) :
    s.advance schema i = { s with cache := (s.cache.get key).2 }.become i .finished := by
  have hget : s.cache.get key = (some doc, (s.cache.get key).2) :=
    Prod.ext ((s.cache.get_fst key).trans hheld) rfl
  rw [advance, h]
  simp only
  rw [hget]

theorem advance_miss
    (h : s.clients i = .selecting key) (hheld : s.cache.contents.find key = none) :
    s.advance schema i = { s with cache := (s.cache.get key).2 }.become i (.finding key) := by
  have hget : s.cache.get key = (none, (s.cache.get key).2) :=
    Prod.ext ((s.cache.get_fst key).trans hheld) rfl
  rw [advance, h]
  simp only
  rw [hget]

theorem advance_found
    (h : s.clients i = .finding key)
    (hfind : s.collection.documents.find? (fun doc => key.filter.holds doc) = some doc) :
    s.advance schema i = s.become i (.putting key doc (s.counts key)) := by
  simp [advance, h, hfind]

theorem advance_absent
    (h : s.clients i = .finding key)
    (hfind : s.collection.documents.find? (fun doc => key.filter.holds doc) = none) :
    s.advance schema i = s.become i .finished := by
  simp only [advance, h, hfind]

theorem advance_updating
    (h : s.clients i = .updating doc key) :
    s.advance schema i =
      { s with cache := s.cache.remove key }.become i (.replacing doc key) := by
  simp [advance, h]

theorem advance_replaced
    (h : s.clients i = .replacing doc key) (hown : schema.validKey? doc = some own)
    {position : Nat} (hposition : s.collection.position? key.filter = some position)
    {c : Collection} (hreplace : s.collection.replace position doc = .ok c) :
    s.advance schema i =
      (s.written c fun k => key.same k || own.same k).become i
        (.putting own doc ((s.written c fun k => key.same k || own.same k).counts own)) := by
  simp only [advance, h, hown, hposition, hreplace]

theorem advance_unmatched
    (h : s.clients i = .replacing doc key) (hposition : s.collection.position? key.filter = none) :
    s.advance schema i = s.become i .finished := by
  cases hown : schema.validKey? doc <;> simp [advance, h, hown, hposition]

/-- A replacement is made, or not. -/
theorem advance_replacing
    (schema : KeySchema) (h : s.clients i = .replacing doc key) :
    s.advance schema i = s.become i .finished ∨
      ∃ own position c, schema.validKey? doc = some own ∧
        s.collection.position? key.filter = some position ∧
        s.collection.replace position doc = .ok c ∧
        s.advance schema i =
          (s.written c fun k => key.same k || own.same k).become i
            (.putting own doc ((s.written c fun k => key.same k || own.same k).counts own)) := by
  cases hown : schema.validKey? doc with
  | none =>
      simp [advance, h, hown]
  | some own =>
      cases hposition : s.collection.position? key.filter with
      | none =>
          simp [advance, h, hown, hposition]
      | some position =>
          cases hreplace : s.collection.replace position doc with
          | error e =>
              simp [advance, h, hown, hposition, hreplace]
          | ok c =>
              exact .inr ⟨own, position, c, rfl, rfl, hreplace,
                advance_replaced h hown hposition hreplace⟩

theorem advance_putting
    {count : Nat} (h : s.clients i = .putting key doc count) :
    s.advance schema i = { s with cache := s.cache.put key doc }.become i .finished := by
  simp [advance, h]

theorem advance_deleting
    (h : s.clients i = .deleting key) :
    s.advance schema i = { s with cache := s.cache.remove key }.become i (.removing key) := by
  simp [advance, h]

theorem advance_removed
    (h : s.clients i = .removing key) {position : Nat}
    (hposition : s.collection.position? key.filter = some position) :
    s.advance schema i =
      (s.written ⟨s.collection.documents.eraseIdx position, s.collection.uniqueIndexes⟩
        key.same).become i .finished := by
  simp [advance, h, hposition]

theorem advance_nothing
    (h : s.clients i = .removing key) (hposition : s.collection.position? key.filter = none) :
    s.advance schema i = s.become i .finished := by
  simp [advance, h, hposition]

theorem become_of_finished
    (h : s.clients i = .finished) :
    s.become i .finished = s := by
  have hclients : (s.become i .finished).clients = s.clients := by
    funext j
    by_cases hij : j = i
    · rw [hij, clients_become_self, h]
    · exact clients_become_of_ne hij
  exact congrArg (System.mk s.cache s.collection s.counts) hclients

/-- A step brings its client further and no other.  What it is to put next was found or written just
now. -/
theorem exists_become
    (schema : KeySchema) (s : System ι) (i : ι) :
    ∃ (s₁ : System ι) (client : Client),
      s.advance schema i = s₁.become i client ∧ s₁.clients = s.clients ∧
        ∀ key doc count, client = .putting key doc count → count = s₁.counts key := by
  cases hclient : s.clients i with
  | selecting key =>
      cases hheld : s.cache.contents.find key with
      | some doc =>
          exact ⟨_, _, advance_hit hclient hheld, rfl, by simp⟩
      | none =>
          exact ⟨_, _, advance_miss hclient hheld, rfl, by simp⟩
  | finding key =>
      cases hfind : s.collection.documents.find? (fun doc => key.filter.holds doc) with
      | some doc =>
          exact ⟨_, _, advance_found hclient hfind, rfl, by simp⟩
      | none =>
          exact ⟨_, _, advance_absent hclient hfind, rfl, by simp⟩
  | updating doc key =>
      exact ⟨_, _, advance_updating hclient, rfl, by simp⟩
  | replacing doc key =>
      rcases advance_replacing schema hclient with hquiet | ⟨own, position, c, -, -, -, hmade⟩
      · exact ⟨_, _, hquiet, rfl, by simp⟩
      · refine ⟨_, _, hmade, rfl, ?_⟩
        rintro _ _ _ ⟨⟩
        rfl
  | putting key doc count =>
      exact ⟨_, _, advance_putting hclient, rfl, by simp⟩
  | deleting key =>
      exact ⟨_, _, advance_deleting hclient, rfl, by simp⟩
  | removing key =>
      cases hposition : s.collection.position? key.filter with
      | some position =>
          exact ⟨_, _, advance_removed hclient hposition, rfl, by simp⟩
      | none =>
          exact ⟨_, _, advance_nothing hclient hposition, rfl, by simp⟩
  | finished =>
      refine ⟨s, .finished, ?_, rfl, by simp⟩
      rw [become_of_finished hclient]
      simp [advance, hclient]

/-! ## Requests without interleaving -/

namespace Solo

open Network

variable {τ : Type} {n : Network τ} {t t' : TableState (τ × MemoryBackend)} {safe : Bool}

/-- One more step. -/
theorem more
    {s₁ : System ι} (hstep : s.advance schema i = s₁) (h : Solo schema i s₁ s') :
    Solo schema i s s' := by
  subst hstep
  exact .step .advance h

theorem finished
    (s : System ι) (i : ι) :
    Solo schema i (s.become i .finished) (s.become i .finished) := by
  exact .done clients_become_self

/-- A call of the backend fails. -/
theorem failed
    (h : (s.clients i).Calls) :
    Solo schema i s (s.become i .finished) := by
  exact .step (.fail h) (finished s i)

/-- A document is put into the cache. -/
theorem put
    (schema : KeySchema) (hshows : s.Shows t) {count : Nat}
    (hclient : s.clients i = .putting key doc count) :
    ∃ s', Solo schema i s s' ∧ s'.Shows (t.holding key doc) := by
  exact ⟨_, more (advance_putting hclient) (finished _ i),
    (hshows.holding key doc).become i .finished⟩

/-- A look-up in the backend, with what it puts into the cache. -/
theorem fetch
    (schema : KeySchema) (hshows : s.Shows t) (hclient : s.clients i = .finding key)
    {result : Except Error (Option Document)}
    (hrun : (Table.fetch n.manager key key.filter .use).run t = (result, t')) :
    ∃ s', Solo schema i s s' ∧ s'.Shows t' := by
  have hcalled : ∀ {connection : ConnectionState (τ × MemoryBackend)},
      connection.database = t.connection.database → s.Shows (t.calling connection) :=
    fun hdb => hshows.calling _ (by rw [hdb]; exact hshows.collection) s.counts
  rw [Table.run_fetch, backend_findOne] at hrun
  split at hrun
  · next doc c hcall =>
      obtain ⟨hdb, hfound⟩ := execute_ask hcall
      have hfind : s.collection.documents.find? (fun doc => key.filter.holds doc) = some doc := by
        rw [← hshows.collection]
        exact hfound _ rfl
      cases hrun
      obtain ⟨s', hsolo, hshows'⟩ := put schema
        ((hcalled hdb).become i (.putting key doc (s.counts key))) clients_become_self
      exact ⟨s', more (advance_found hclient hfind) hsolo, hshows'⟩
  · next c hcall =>
      obtain ⟨hdb, hfound⟩ := execute_ask hcall
      have hfind : s.collection.documents.find? (fun doc => key.filter.holds doc) = none := by
        rw [← hshows.collection]
        exact hfound _ rfl
      cases hrun
      exact ⟨_, more (advance_absent hclient hfind) (finished s i),
        (hcalled hdb).become i .finished⟩
  · next hcall =>
      cases hrun
      exact ⟨_, failed (by rw [hclient]; trivial),
        (hcalled (execute_ask hcall).1).become i .finished⟩

/-- A look-up through the cache. -/
theorem selectWith
    (hshows : s.Shows t) (hclient : s.clients i = .selecting key) (hkey : key.validate = .ok safe)
    {result : Except Error (Option Document)}
    (hrun : (Table.selectWith n.manager key .use).run t = (result, t')) :
    ∃ s', Solo schema i s s' ∧ s'.Shows t' := by
  rw [Table.run_selectWith hshows.isVolatile, hkey] at hrun
  simp only [if_true] at hrun
  have hasked := hshows.asking key
  split at hrun
  · next doc hheld =>
      rw [hshows.held_eq] at hheld
      cases hrun
      exact ⟨_, more (advance_hit hclient hheld) (finished _ i),
        hasked.become i .finished⟩
  · next hheld =>
      rw [hshows.held_eq] at hheld
      obtain ⟨s', hsolo, hshows'⟩ :=
        fetch schema (hasked.become i (.finding key)) clients_become_self hrun
      exact ⟨s', more (advance_miss hclient hheld) hsolo, hshows'⟩

/-- A replacement in the backend, with what it puts into the cache. -/
theorem replace
    (schema : KeySchema) (hshows : s.Shows t) (hclient : s.clients i = .replacing doc key)
    (hown : schema.validKey? doc = some own) {matched : Bool}
    {c : ConnectionState (τ × MemoryBackend)}
    (hcall : n.manager.execute (n.manager.backend.replaceOne t.table.name key.filter doc)
      t.connection = (.ok matched, c)) :
    ∃ s', Solo schema i s s' ∧
      s'.Shows (if matched then (t.calling c).holding own doc else t.calling c) := by
  rw [backend_replaceOne] at hcall
  have happlies := applies_ok_iff.mp (execute_applies hcall)
  have hcollection := hshows.collection
  rw [TableState.collection] at hcollection
  rcases Database.collection_of_replaceOne happlies with
    ⟨rfl, hnone, hsame⟩ | ⟨rfl, position, hposition, hreplace⟩
  · rw [hcollection] at hnone hsame
    exact ⟨_, more (advance_unmatched hclient hnone) (finished s i),
      (hshows.calling _ hsame s.counts).become i .finished⟩
  · rw [hcollection] at hposition hreplace
    have hwritten := hshows.calling c rfl
      (s.written (c.database.collection t.table.name) fun k => key.same k || own.same k).counts
    obtain ⟨s', hsolo, hshows'⟩ := put schema
      (hwritten.become i (.putting own doc
        ((s.written (c.database.collection t.table.name) fun k =>
          key.same k || own.same k).counts own))) clients_become_self
    exact ⟨s', more (advance_replaced hclient hown hposition hreplace) hsolo,
      hshows'⟩

/-- An update by a document with a valid key. -/
theorem updateWith
    (hshows : s.Shows t) (hclient : s.clients i = .updating doc key)
    (hkey : key.validate = .ok safe) (hown : t.table.schema.validKey? doc = some own)
    {result : Except Error Unit}
    (hrun : (Table.updateWith n.manager doc key true).run t = (result, t')) :
    ∃ s', Solo t.table.schema i s s' ∧ s'.Shows t' := by
  have hwrite : Table.keyToWrite t.table.schema doc true = .ok (some own) :=
    KeySchema.keyToWrite_eq_ok_iff.mpr ⟨own, rfl, KeySchema.validKey?_eq_some_iff.mp hown⟩
  have hforgot := (hshows.forgetting key).become i (.replacing doc key)
  rw [Table.run_updateWith hshows.isVolatile, hkey, hwrite] at hrun
  simp only at hrun
  split at hrun
  · next matched c hcall =>
      obtain ⟨s', hsolo, hshows'⟩ :=
        replace t.table.schema hforgot clients_become_self hown hcall
      refine ⟨s', more (advance_updating hclient) hsolo, ?_⟩
      cases hrun
      cases matched <;> exact hshows'
  · next c hcall =>
      rw [backend_replaceOne] at hcall
      have hdb := applies_error_iff.mp (execute_applies hcall)
      have hcalled := hforgot.calling c (c := s.collection)
        (by rw [hdb]; exact hshows.collection) s.counts
      cases hrun
      exact ⟨_, more (advance_updating hclient)
        (failed (by rw [clients_become_self]; trivial)), hcalled.become i .finished⟩

/-- A removal. -/
theorem delete
    (hshows : s.Shows t) (hclient : s.clients i = .deleting key) (hkey : key.validate = .ok safe)
    {result : Except Error (Option Document)}
    (hrun : (Table.delete n.manager key).run t = (result, t')) :
    ∃ s', Solo schema i s s' ∧ s'.Shows t' := by
  have hforgot := (hshows.forgetting key).become i (.removing key)
  rw [Table.run_delete hshows.isVolatile, hkey, backend_findOneAndDelete] at hrun
  simp only [Table.run_execute] at hrun
  rcases hcall : n.manager.execute (MemoryBackend.change fun db =>
    .ok (db.findOneAndDelete t.table.name key.filter)).onSecond (t.forgetting key).connection
    with ⟨r, c⟩
  rw [hcall] at hrun
  cases hrun
  have happlies := execute_applies hcall
  have hcollection := hshows.collection
  rw [TableState.collection] at hcollection
  cases r with
  | ok found =>
      have hdb := congrArg Prod.snd (Except.ok.inj (applies_ok_iff.mp happlies))
      rcases Database.collection_findOneAndDelete t.connection.database t.table.name key.filter with
        ⟨hnone, -, hsame⟩ | ⟨position, hposition, -, herased⟩
      · rw [hcollection] at hnone hsame
        have hcalled := hforgot.calling _
          ((congrArg (Database.collection · _) hdb).symm.trans hsame) s.counts
        exact ⟨_, more (advance_deleting hclient)
          (more (advance_nothing clients_become_self hnone) (finished _ i)),
          hcalled.cache, hcalled.collection⟩
      · rw [hcollection] at hposition herased
        have hcalled := hforgot.calling _
          ((congrArg (Database.collection · _) hdb).symm.trans herased) s.counts
        exact ⟨_, more (advance_deleting hclient)
          (more (advance_removed clients_become_self hposition) (finished _ i)),
          hcalled.cache, hcalled.collection⟩
  | error e =>
      have hcalled := hforgot.calling c (c := s.collection)
        (by rw [applies_error_iff.mp happlies]; exact hcollection) s.counts
      exact ⟨_, more (advance_deleting hclient)
        (failed (by rw [clients_become_self]; trivial)), hcalled.become i .finished⟩

end Solo
end System
end DocumentTables
