import DocumentTables.Proofs.ServedDocuments
import DocumentTables.Proofs.WriteEviction

/-!
# How stale a cached document can be

Others may write to the database at any time: between the requests of a table, and while one of its
calls asks for parameters, waits or connects.  A document that the cache answers with was given by
the database to a look-up of the key, or written by an update for the key, and since that moment
nothing has happened that forgets the key.

**Results.**

* `ConnectionManager.execute_ok`: an answer is that of the last attempt.
* `Moment.held`: what is held after a request was held before it, or was shown by it.
* `Table.selectWith_use_of_bypass`: a look-up past the cache renews what the next one answers.
* `History.staleness`: what a look-up through the cache answers.
-/

namespace DocumentTables

/-! ## Calls while others write -/

/-- An answer comes from the operation in the world of the last attempt. -/
theorem ConnectionManager.attemptsFrom_ok
    {σ α : Type} {m : ConnectionManager σ} {operation : BackendAction σ α} {later number : Nat}
    {params : ConnectionParameters} {s s' : ConnectionState σ} {a : α}
    (h : m.attemptsFrom operation later number params s = (.ok a, s')) :
    ∃ w, operation w = (.ok a, s'.world) := by
  have hattempt : ∀ {params : ConnectionParameters} {w w' : σ},
      m.attempt operation params w = (.ok a, w') → ∃ w₁, operation w₁ = (.ok a, w') := by
    intro params w w' hrun
    rw [attempt, BackendAction.andThen] at hrun
    split at hrun
    · exact ⟨_, hrun⟩
    · simp at hrun
  induction later generalizing number params s with
  | zero =>
      rw [attemptsFrom] at h
      split at h
      · next hrun =>
          cases h
          exact hattempt hrun
      · simp only at h
        split at h <;> simp at h
  | succ later ih =>
      rw [attemptsFrom] at h
      split at h
      · next hrun =>
          cases h
          exact hattempt hrun
      · simp only at h
        split at h
        · simp at h
        · split at h
          · simp at h
          · exact ih h

theorem ConnectionManager.execute_ok
    {σ α : Type} {m : ConnectionManager σ} {operation : BackendAction σ α}
    {s s' : ConnectionState σ} {a : α} (h : m.execute operation s = (.ok a, s')) :
    ∃ w, operation w = (.ok a, s'.world) := by
  rw [execute] at h
  split at h
  · simp at h
  · exact attemptsFrom_ok h

/-- A network in which others may write to the database while its users ask for parameters and
connect.  Between the attempts of a call they may write before the next one. -/
structure BusyNetwork (τ : Type) where
  policy : RetryPolicy
  resolve : τ × MemoryBackend → Except Error ConnectionParameters × (τ × MemoryBackend)
  connect : ConnectionParameters → BackendAction (τ × MemoryBackend) Unit

namespace BusyNetwork

variable {τ α : Type} {n : BusyNetwork τ} {s s' : ConnectionState (τ × MemoryBackend)}

/-- The manager that works with the database over the network. -/
def manager (n : BusyNetwork τ) : ConnectionManager (τ × MemoryBackend) where
  policy := n.policy
  resolve := n.resolve
  backend := { MemoryBackend.backend.onSecond with connect := n.connect }

/-- An answered question is answered as the database is when the call ends. -/
theorem execute_ask
    (question : Database → α) {a : α}
    (h : n.manager.execute (MemoryBackend.ask question).onSecond s = (.ok a, s')) :
    question s'.database = a := by
  obtain ⟨w, hw⟩ := ConnectionManager.execute_ok h
  simp only [BackendAction.onSecond, MemoryBackend.ask, Prod.mk.injEq, Except.ok.injEq] at hw
  obtain ⟨ha, hworld⟩ := hw
  rw [ConnectionState.database, ← hworld]
  exact ha

/-- A change that succeeds is made last. -/
theorem execute_change
    (step : Database → Except BackendError (α × Database)) {a : α}
    (h : n.manager.execute (MemoryBackend.change step).onSecond s = (.ok a, s')) :
    ∃ db, step db = .ok (a, s'.database) := by
  obtain ⟨w, hw⟩ := ConnectionManager.execute_ok h
  simp only [BackendAction.onSecond, MemoryBackend.change] at hw
  refine ⟨w.2.database, ?_⟩
  split at hw
  · next hstep =>
      simp only [Prod.mk.injEq, Except.ok.injEq] at hw
      obtain ⟨rfl, hworld⟩ := hw
      rw [hstep, ConnectionState.database, ← hworld]
  · simp at hw

end BusyNetwork

/-- A network on which nobody writes meanwhile. -/
def Network.busy {τ : Type} (n : Network τ) : BusyNetwork τ :=
  ⟨n.policy, n.manager.resolve, n.connect⟩

/-! ## Moments -/

/-- A request with its result, the state that it met and the state that it left. -/
structure Moment (τ : Type) where
  before : TableState (τ × MemoryBackend)
  request : Request
  result : Except Error Answer
  after : TableState (τ × MemoryBackend)

namespace Moment

variable {τ : Type}

/-- The document is what the database answers to a look-up of the key, or it is written by an update
whose new key this is. -/
def Shows (x : Moment τ) (k : PrimaryKey) (doc : Document) : Prop :=
  match x.request with
  | .select key _ =>
      key.same k = true ∧ x.result = .ok (.found (some doc)) ∧
        x.after.connection.database.findOne x.after.table.name key.filter = some doc
  | .update written _ _ =>
      written = doc ∧ x.result = .ok .done ∧ doc ∈ x.after.collection.documents ∧
        ∃ own, x.before.table.schema.extractKey doc = .ok own ∧ own.same k = true
  | _ => False

/-- The cache is told to forget the key: by a look-up past the cache that is answered, by an update
or a removal whose key can identify a document, or together with all other keys. -/
def Evicts (x : Moment τ) (k : PrimaryKey) : Prop :=
  match x.request with
  | .select key .bypass => key.same k = true ∧ ∃ answer, x.result = .ok answer
  | .update _ oldKey _ => oldKey.same k = true ∧ ∃ safe, oldKey.validate = .ok safe
  | .delete key => key.same k = true ∧ ∃ safe, key.validate = .ok safe
  | .clearCache => True
  | .setCacheStrategy strategy => strategy ≠ x.before.table.cache.strategy
  | .drop => ∃ answer, x.result = .ok answer
  | _ => False

end Moment

namespace TableState

variable {σ : Type} {s : TableState σ} {key k : PrimaryKey} {doc d : Document}

/-- What is held after a document was held is that document, for its key, or was held before. -/
theorem find_held_holding
    (h : (s.holding key doc).held.find k = some d) :
    (key.alike k = true ∧ doc = d) ∨ (key.alike k = false ∧ s.held.find k = some d) := by
  by_cases hmemory : s.table.cache.strategy = .memory
  · rw [held_holding hmemory, KeyMap.find_store] at h
    split at h
    · next halike =>
        cases h
        exact .inl ⟨halike, rfl⟩
    · next halike =>
        exact .inr ⟨by simpa using halike, h⟩
  · -- a store that is not in memory holds nothing
    have hempty : (s.holding key doc).held = .empty := by
      apply Cache.held_of_ne_memory
      simpa [holding, stepped] using hmemory
    simp [hempty] at h

/-- For a key without floating-point numbers it is the same to be equal. -/
theorem find_held_holding_same
    (hfree : k.FloatFree) (h : (s.holding key doc).held.find k = some d) :
    (key.same k = true ∧ doc = d) ∨ (key.same k = false ∧ s.held.find k = some d) := by
  rw [← hfree.alike_eq_same_right]
  exact find_held_holding h

theorem find_held_forgetting
    (hfree : k.FloatFree) (h : (s.forgetting key).held.find k = some d) :
    key.same k = false ∧ s.held.find k = some d := by
  rw [held_forgetting] at h
  rw [← hfree.alike_eq_same_right]
  exact KeyMap.find_of_find_erase h

@[simp] theorem held_asking :
    (s.asking key).held = s.held := by
  exact Cache.held_get

@[simp] theorem isVolatile_asking :
    (s.asking key).Volatile ↔ s.Volatile := by
  simp [Volatile, Cache.Volatile, asking, stepped]

@[simp] theorem isVolatile_holding :
    (s.holding key doc).Volatile ↔ s.Volatile := by
  simp [Volatile, Cache.Volatile, holding, stepped]

@[simp] theorem isVolatile_forgetting :
    (s.forgetting key).Volatile ↔ s.Volatile := by
  simp [Volatile, Cache.Volatile, forgetting, stepped]

@[simp] theorem isVolatile_clearing :
    s.clearing.Volatile ↔ s.Volatile := by
  simp [Volatile, Cache.Volatile, clearing, stepped]

@[simp] theorem isVolatile_calling
    (connection : ConnectionState σ) :
    (s.calling connection).Volatile ↔ s.Volatile := by
  rfl

@[simp] theorem held_clearing :
    s.clearing.held = .empty := by
  exact Cache.held_clear

end TableState

namespace Request

section Strategy

variable {σ : Type} {m : ConnectionManager σ} {s s' : TableState σ}

theorem isVolatile_of_fetch
    (hs : s.Volatile) {key : PrimaryKey} {filter : Filter} {mode : CacheMode}
    {found : Except Error (Option Document)}
    (h : (Table.fetch m key filter mode).run s = (found, s')) :
    s'.Volatile := by
  rw [Table.run_fetch] at h
  split at h
  · cases h
    simpa using hs
  · cases h
    split <;> simpa using hs
  · cases h
    simpa using hs

/-- Whatever happens over the connection, only a change of the strategy leads to a cache on disk. -/
theorem isVolatile_of_perform
    (hs : s.Volatile) {request : Request} (hdisk : request.OffDisk) {result : Except Error Answer}
    (h : (request.perform m).run s = (result, s')) :
    s'.Volatile := by
  cases request with
  | insert doc validate =>
      obtain ⟨r, hrun, -⟩ := TableAction.run_map_eq_iff.mp h
      obtain ⟨c, rfl⟩ := Table.exists_calling_of_insertWith hrun
      exact hs
  | update doc key validate =>
      obtain ⟨r, hrun, -⟩ := TableAction.run_map_eq_iff.mp h
      rw [Table.run_updateWith hs] at hrun
      split at hrun
      · cases hrun
        exact hs
      · split at hrun
        · cases hrun
          simpa using hs
        · split at hrun <;> cases hrun
          · split <;> simpa using hs
          · simpa using hs
  | delete key =>
      obtain ⟨r, hrun, -⟩ := TableAction.run_map_eq_iff.mp h
      rw [Table.run_delete hs] at hrun
      split at hrun <;> cases hrun
      · exact hs
      · exact TableState.isVolatile_forgetting.mpr hs
  | existsDocument key =>
      obtain ⟨r, hrun, -⟩ := TableAction.run_map_eq_iff.mp h
      rw [Table.run_existsDocument] at hrun
      split at hrun
      · cases hrun
        exact hs
      · split at hrun <;> cases hrun <;> exact hs
  | select key mode =>
      obtain ⟨r, hrun, -⟩ := TableAction.run_map_eq_iff.mp h
      rw [Table.run_selectWith hs] at hrun
      split at hrun
      · cases hrun
        exact hs
      · split at hrun
        · split at hrun
          · cases hrun
            simpa using hs
          · exact isVolatile_of_fetch (by simpa using hs) hrun
        · exact isVolatile_of_fetch hs hrun
  | selectKeys filter =>
      obtain ⟨r, hrun, -⟩ := TableAction.run_map_eq_iff.mp h
      rw [Table.run_selectKeys] at hrun
      split at hrun <;> cases hrun <;> exact hs
  | «exists» =>
      obtain ⟨r, hrun, -⟩ := TableAction.run_map_eq_iff.mp h
      rw [Table.run_exists] at hrun
      split at hrun <;> cases hrun <;> exact hs
  | create =>
      obtain ⟨r, hrun, -⟩ := TableAction.run_map_eq_iff.mp h
      rw [Table.run_create] at hrun
      cases hrun
      exact hs
  | drop =>
      obtain ⟨r, hrun, -⟩ := TableAction.run_map_eq_iff.mp h
      rw [Table.run_drop hs] at hrun
      split at hrun <;> cases hrun
      · simpa using hs
      · exact hs
  | clearCache =>
      obtain ⟨r, hrun, -⟩ := TableAction.run_map_eq_iff.mp h
      rw [Table.run_clearCache hs] at hrun
      cases hrun
      simpa using hs
  | setCacheStrategy strategy =>
      obtain ⟨r, hrun, -⟩ := TableAction.run_map_eq_iff.mp h
      rw [Table.run_setCacheStrategy hs] at hrun
      split at hrun <;> cases hrun
      · exact hs
      · simpa [TableState.Volatile, Cache.Volatile, Table.withCache, OffDisk] using hdisk

end Strategy

variable {τ : Type} {n : BusyNetwork τ} {s s' : TableState (τ × MemoryBackend)} {k : PrimaryKey}
  {d : Document}

/-- What is held after a look-up that asks the database was held before, or is the answer. -/
theorem held_of_fetch
    {key : PrimaryKey} {mode : CacheMode} {before : TableState (τ × MemoryBackend)}
    {found : Except Error (Option Document)}
    (hfree : k.FloatFree) (hbefore : before.held = s.held)
    (h : (Table.fetch n.manager key key.filter mode).run s = (found, s'))
    (hheld : s'.held.find k = some d) :
    (before.held.find k = some d ∧
        ¬ Moment.Evicts ⟨before, .select key mode, found.map .found, s'⟩ k) ∨
      Moment.Shows ⟨before, .select key mode, found.map .found, s'⟩ k d := by
  rw [Table.run_fetch] at h
  rw [hbefore]
  split at h
  · next doc c hcall =>
      have hanswer := BusyNetwork.execute_ask (fun db => db.findOne s.table.name key.filter) hcall
      cases h
      obtain ⟨hsame, rfl⟩ | ⟨hne, hheld⟩ := TableState.find_held_holding_same hfree hheld
      · exact .inr ⟨hsame, rfl, hanswer⟩
      · refine .inl ⟨hheld, ?_⟩
        cases mode <;> simp [Moment.Evicts, hne]
  · next c hcall =>
      cases h
      split at hheld
      · obtain ⟨hne, hheld⟩ := TableState.find_held_forgetting hfree hheld
        refine .inl ⟨hheld, ?_⟩
        cases mode <;> simp [Moment.Evicts, hne]
      · next hmode =>
          refine .inl ⟨hheld, ?_⟩
          cases mode with
          | use =>
              simp [Moment.Evicts]
          | bypass =>
              simp at hmode
  · cases h
    refine .inl ⟨hheld, ?_⟩
    cases mode <;> simp [Moment.Evicts, Except.map]

/-- What is held after a request was held before it, which did not forget it, or was shown by it. -/
theorem held_of_perform
    (hs : s.Volatile) (hfree : k.FloatFree) {request : Request} {result : Except Error Answer}
    (h : (request.perform n.manager).run s = (result, s')) (hheld : s'.held.find k = some d) :
    (s.held.find k = some d ∧ ¬ Moment.Evicts ⟨s, request, result, s'⟩ k) ∨
      Moment.Shows ⟨s, request, result, s'⟩ k d := by
  cases request with
  | insert doc validate =>
      obtain ⟨r, hrun, -⟩ := TableAction.run_map_eq_iff.mp h
      obtain ⟨c, rfl⟩ := Table.exists_calling_of_insertWith hrun
      exact .inl ⟨hheld, id⟩
  | update doc key validate =>
      obtain ⟨r, hrun, rfl⟩ := TableAction.run_map_eq_iff.mp h
      rw [Table.run_updateWith hs] at hrun
      split at hrun
      · next hkey =>
          cases hrun
          exact .inl ⟨hheld, by simp [Moment.Evicts, hkey]⟩
      · split at hrun
        · cases hrun
          obtain ⟨hne, hheld⟩ := TableState.find_held_forgetting hfree hheld
          exact .inl ⟨hheld, by simp [Moment.Evicts, hne]⟩
        · next own hown =>
            have hextract := KeySchema.toOption_extractKey_of_keyToWrite hown
            split at hrun
            · next matched c hcall =>
                obtain ⟨db, hreplace⟩ := BusyNetwork.execute_change
                  (fun db => db.replaceOne s.table.name key.filter doc) hcall
                have hkept : ∀ {t : TableState (τ × MemoryBackend)} {answer : Except Error Answer},
                    ((s.forgetting key).calling c).held.find k = some d →
                      s.held.find k = some d ∧
                        ¬ Moment.Evicts ⟨s, .update doc key validate, answer, t⟩ k := by
                  intro t answer hfind
                  obtain ⟨hne, hfind⟩ := TableState.find_held_forgetting hfree hfind
                  exact ⟨hfind, by simp [Moment.Evicts, hne]⟩
                rcases Database.collection_of_replaceOne hreplace with
                  ⟨rfl, -, -⟩ | ⟨rfl, position, hposition, hreplaced⟩
                · cases hrun
                  exact .inl (hkept hheld)
                · cases own with
                  | none =>
                      cases hrun
                      exact .inl (hkept hheld)
                  | some own =>
                      cases hrun
                      obtain ⟨hsame, rfl⟩ | ⟨-, hheld⟩ :=
                        TableState.find_held_holding_same hfree hheld
                      · exact .inr ⟨rfl, rfl, Collection.mem_of_replace hposition hreplaced, own,
                          eq_ok_of_toOption hextract, hsame⟩
                      · exact .inl (hkept hheld)
            · cases hrun
              obtain ⟨hne, hheld⟩ := TableState.find_held_forgetting hfree hheld
              exact .inl ⟨hheld, by simp [Moment.Evicts, hne]⟩
  | delete key =>
      obtain ⟨r, hrun, rfl⟩ := TableAction.run_map_eq_iff.mp h
      rw [Table.run_delete hs] at hrun
      split at hrun
      · next hkey =>
          cases hrun
          exact .inl ⟨hheld, by simp [Moment.Evicts, hkey]⟩
      · cases hrun
        obtain ⟨hne, hheld⟩ := TableState.find_held_forgetting hfree hheld
        exact .inl ⟨hheld, by simp [Moment.Evicts, hne]⟩
  | existsDocument key =>
      obtain ⟨r, hrun, -⟩ := TableAction.run_map_eq_iff.mp h
      rw [Table.run_existsDocument] at hrun
      split at hrun
      · cases hrun
        exact .inl ⟨hheld, id⟩
      · split at hrun <;> cases hrun <;> exact .inl ⟨hheld, id⟩
  | select key mode =>
      obtain ⟨r, hrun, rfl⟩ := TableAction.run_map_eq_iff.mp h
      rw [Table.run_selectWith hs] at hrun
      split at hrun
      · cases hrun
        exact .inl ⟨hheld, by cases mode <;> simp [Moment.Evicts, Except.map]⟩
      · split at hrun
        · next hmode =>
            subst hmode
            split at hrun
            · cases hrun
              rw [TableState.held_asking] at hheld
              exact .inl ⟨hheld, id⟩
            · exact held_of_fetch hfree TableState.held_asking.symm hrun hheld
        · exact held_of_fetch hfree rfl hrun hheld
  | selectKeys filter =>
      obtain ⟨r, hrun, -⟩ := TableAction.run_map_eq_iff.mp h
      rw [Table.run_selectKeys] at hrun
      split at hrun <;> cases hrun <;> exact .inl ⟨hheld, id⟩
  | «exists» =>
      obtain ⟨r, hrun, -⟩ := TableAction.run_map_eq_iff.mp h
      rw [Table.run_exists] at hrun
      split at hrun <;> cases hrun <;> exact .inl ⟨hheld, id⟩
  | create =>
      obtain ⟨r, hrun, -⟩ := TableAction.run_map_eq_iff.mp h
      rw [Table.run_create] at hrun
      cases hrun
      exact .inl ⟨hheld, id⟩
  | drop =>
      obtain ⟨r, hrun, rfl⟩ := TableAction.run_map_eq_iff.mp h
      rw [Table.run_drop hs] at hrun
      split at hrun
      · cases hrun
        simp at hheld
      · cases hrun
        exact .inl ⟨hheld, by simp [Moment.Evicts, Except.map]⟩
  | clearCache =>
      obtain ⟨r, hrun, rfl⟩ := TableAction.run_map_eq_iff.mp h
      rw [Table.run_clearCache hs] at hrun
      cases hrun
      simp at hheld
  | setCacheStrategy strategy =>
      obtain ⟨r, hrun, rfl⟩ := TableAction.run_map_eq_iff.mp h
      rw [Table.run_setCacheStrategy hs] at hrun
      split at hrun
      · next hstrategy =>
          cases hrun
          exact .inl ⟨hheld, fun hchanged => hchanged hstrategy.symm⟩
      · cases hrun
        simp [TableState.held, Table.withCache] at hheld

end Request

namespace Table

variable {τ : Type} {n : BusyNetwork τ} {s s₁ s₂ s₃ : TableState (τ × MemoryBackend)}
  {key : PrimaryKey} {mode : CacheMode} {found found' : Option Document}

/-- What is asked for is answered as the database is then.  Past the cache, nothing else stays held
for the key. -/
theorem fetch_answered
    (h : (fetch n.manager key key.filter mode).run s = (.ok found, s₁)) :
    (s₁.collection.documents.find? fun doc => key.filter.holds doc) = found ∧
      (mode = .bypass → s₁.held.find key = found ∨ s₁.held.find key = none) := by
  rw [run_fetch] at h
  split at h
  · next doc c hcall =>
      have hanswer := BusyNetwork.execute_ask (fun db => db.findOne s.table.name key.filter) hcall
      cases h
      refine ⟨hanswer, fun _ => ?_⟩
      cases hheld : ((s.calling c).holding key doc).held.find key with
      | none =>
          exact .inr rfl
      | some d =>
          obtain ⟨-, rfl⟩ | ⟨hne, -⟩ := TableState.find_held_holding hheld
          · exact .inl rfl
          · simp at hne
  · next c hcall =>
      have hanswer := BusyNetwork.execute_ask (fun db => db.findOne s.table.name key.filter) hcall
      cases h
      cases mode with
      | use =>
          exact ⟨hanswer, by simp⟩
      | bypass =>
          refine ⟨hanswer, fun _ => .inr ?_⟩
          simp [KeyMap.find_erase]
  · simp at h

/-- After a look-up past the cache, one through the cache has the same answer, unless the collection
is changed in between. -/
theorem selectWith_use_of_bypass
    (hs : s.Volatile)
    (hbypass : (selectWith n.manager key .bypass).run s = (.ok found, s₁))
    (htable : s₂.table = s₁.table)
    (huse : (selectWith n.manager key .use).run s₂ = (.ok found', s₃))
    (hcollection : s₃.collection = s₁.collection) :
    found' = found := by
  have hdisk : (Request.select key .bypass).OffDisk := trivial
  have hs₁ : s₁.Volatile :=
    Request.isVolatile_of_perform hs hdisk (TableAction.run_map_eq_iff.mpr ⟨_, hbypass, rfl⟩)
  have hs₂ : s₂.Volatile := by
    rwa [TableState.Volatile, htable]
  have hheld₂ : s₂.held = s₁.held := by
    rw [TableState.held, htable, TableState.held]
  rw [run_selectWith hs] at hbypass
  split at hbypass
  · simp at hbypass
  · obtain ⟨hfound, hheld⟩ := fetch_answered hbypass
    rw [run_selectWith hs₂] at huse
    split at huse
    · simp at huse
    · simp only [if_true] at huse
      split at huse
      · next doc hdoc =>
          cases huse
          rw [hheld₂] at hdoc
          obtain hheld | hheld := hheld rfl
          · exact hdoc.symm.trans hheld
          · rw [hdoc] at hheld
            simp at hheld
      · obtain ⟨hfound', -⟩ := fetch_answered huse
        rw [← hfound', ← hfound, hcollection]

end Table

/-! ## Histories -/

/-- A table is used over a busy network: its requests one after the other, with what became of them,
and the state that is left.  In between, all may change but the table. -/
inductive History {τ : Type} (n : BusyNetwork τ) (s : TableState (τ × MemoryBackend)) :
    List (Moment τ) → TableState (τ × MemoryBackend) → Prop
  | start : History n s [] s
  | elsewhere {moments : List (Moment τ)} {s₁ s₂ : TableState (τ × MemoryBackend)} :
      History n s moments s₁ → s₂.table = s₁.table → History n s moments s₂
  | request {moments : List (Moment τ)} {s₁ s₂ : TableState (τ × MemoryBackend)}
      {request : Request} {result : Except Error Answer} :
      History n s moments s₁ → request.OffDisk →
      (request.perform n.manager).run s₁ = (result, s₂) →
      History n s (moments ++ [⟨s₁, request, result, s₂⟩]) s₂

namespace History

variable {τ : Type} {n : BusyNetwork τ} {s₀ s : TableState (τ × MemoryBackend)}
  {moments : List (Moment τ)}

/-- Whatever is held for a key without floating-point numbers was shown at some moment, and was not
forgotten since. -/
theorem held
    (h : History n s₀ moments s) (hvolatile : s₀.Volatile) (hempty : s₀.held = .empty) :
    s.Volatile ∧ ∀ key doc, key.FloatFree → s.held.find key = some doc →
      ∃ earlier x later, moments = earlier ++ x :: later ∧ x.Shows key doc ∧
        ∀ y ∈ later, ¬ y.Evicts key := by
  induction h with
  | start =>
      refine ⟨hvolatile, fun key doc _ hfind => ?_⟩
      simp [hempty] at hfind
  | elsewhere _ htable ih =>
      rw [TableState.Volatile, TableState.held, htable]
      exact ih
  | request _ hdisk hrun ih =>
      obtain ⟨hs, hshown⟩ := ih
      refine ⟨Request.isVolatile_of_perform hs hdisk hrun, fun key doc hfree hfind => ?_⟩
      obtain ⟨hbefore, hkept⟩ | hshows := Request.held_of_perform hs hfree hrun hfind
      · obtain ⟨earlier, x, later, rfl, hshows, hlater⟩ := hshown key doc hfree hbefore
        refine ⟨earlier, x, later ++ [_], List.append_assoc _ _ _, hshows, fun y hy => ?_⟩
        rcases List.mem_append.mp hy with hy | hy
        · exact hlater y hy
        · rw [List.mem_singleton.mp hy]
          exact hkept
      · exact ⟨_, _, [], rfl, hshows, by simp⟩

/-- **Staleness is bounded by the last eviction.**  A document that the cache answers with was shown
for the key at some moment, as the answer of the database or by an update, and no later moment
evicts the key, unless there are floating-point numbers in it.  A look-up past the cache is followed
by one with the same answer, as long as the collection stays the same. -/
theorem staleness
    (h : History n s₀ moments s) (hvolatile : s₀.Volatile) (hempty : s₀.held = .empty)
    (key : PrimaryKey) :
    (key.FloatFree → ∀ doc s₁, (s.table.cache.get s.files key).1 = .ok (some doc) →
      (Table.selectWith n.manager key .use).run s = (.ok (some doc), s₁) →
      ∃ earlier x later, moments = earlier ++ x :: later ∧ x.Shows key doc ∧
        ∀ y ∈ later, ¬ y.Evicts key) ∧
    (∀ found s₁ s₂ found' s₃,
      (Table.selectWith n.manager key .bypass).run s = (.ok found, s₁) →
      s₂.table = s₁.table →
      (Table.selectWith n.manager key .use).run s₂ = (.ok found', s₃) →
      s₃.collection = s₁.collection → found' = found) := by
  obtain ⟨hs, hshown⟩ := h.held hvolatile hempty
  refine ⟨fun hfree doc s₁ hget _ => ?_, ?_⟩
  · rw [Cache.get_fst hs] at hget
    exact hshown key doc hfree (Except.ok.inj hget)
  · intro found s₁ s₂ found' s₃ hbypass htable huse hcollection
    exact Table.selectWith_use_of_bypass hs hbypass htable huse hcollection

/-- A table of layers on a database that has one of them. -/
def stored (enabled : Bool) (s : TableState (List (Option BackendError) × MemoryBackend)) :
    TableState (List (Option BackendError) × MemoryBackend) :=
  { s with
    connection.world := ([], { s.connection.world.2 with
      database := [("layers", ⟨[Sample.layer "a" enabled], [["id"]]⟩)] }) }

/-- What is left when the layer was looked up. -/
def lookedUp : TableState (List (Option BackendError) × MemoryBackend) :=
  (((Request.select (Sample.singleKey "a") .use).perform Sample.network.busy.manager).run
    (stored true (Sample.layers []))).2

/-- A layer is looked up and then disabled by others.  The cache answers with the layer as it was
looked up, until a look-up past it. -/
theorem staleness_layer :
    ∃ moments,
      History Sample.network.busy (stored true (Sample.layers [])) moments
        (stored false lookedUp) ∧
      (stored true (Sample.layers [])).Volatile ∧
      (stored true (Sample.layers [])).held = .empty ∧
      (∃ s₁, (Table.selectWith Sample.network.busy.manager (Sample.singleKey "a") .use).run
        (stored false lookedUp) = (.ok (some (Sample.layer "a" true)), s₁)) ∧
      (∃ earlier x later, moments = earlier ++ x :: later ∧
        x.Shows (Sample.singleKey "a") (Sample.layer "a" true) ∧
        ∀ y ∈ later, ¬ y.Evicts (Sample.singleKey "a")) ∧
      ∃ s₁ s₂ found,
        (Table.selectWith Sample.network.busy.manager (Sample.singleKey "a") .bypass).run
          (stored false lookedUp) = (.ok (some (Sample.layer "a" false)), s₁) ∧
        (Table.selectWith Sample.network.busy.manager (Sample.singleKey "a") .use).run s₁ =
          (.ok found, s₂) ∧
        found = some (Sample.layer "a" false) := by
  have hvolatile : (stored true (Sample.layers [])).Volatile := Sample.isVolatile_layers []
  have hempty : (stored true (Sample.layers [])).held = .empty := Sample.held_layers []
  have hlooked :
      ((Request.select (Sample.singleKey "a") .use).perform Sample.network.busy.manager).run
        (stored true (Sample.layers [])) =
          (.ok (.found (some (Sample.layer "a" true))), lookedUp) := rfl
  have hdisk : (Request.select (Sample.singleKey "a") .use).OffDisk := trivial
  have hhistory : History Sample.network.busy (stored true (Sample.layers [])) _
      (stored false lookedUp) := (History.start.request hdisk hlooked).elsewhere rfl
  obtain ⟨hserved, hrenewed⟩ := hhistory.staleness hvolatile hempty (Sample.singleKey "a")
  exact ⟨_, hhistory, hvolatile, hempty, ⟨_, rfl⟩, hserved trivial _ _ rfl rfl, _, _, _, rfl, rfl,
    hrenewed _ _ _ _ _ rfl rfl rfl rfl⟩

end History
end DocumentTables
