import Mathlib
import DocumentTables.Proofs.TableEffects
import DocumentTables.Sample

/-!
# Runs of requests

A run of a table is a sequence of requests with what became of each of them.  Between two requests
everything but the table and its collection may change: the network, the parameters that are
remembered, the files and all other collections.

**Results.**

* `TableAction.run_map_eq_iff`: what a request comes to is what its operation comes to.
* `Request.leaves_of_error`: a request that fails.
* `Run.performAll`: requests one after the other extend a run.
-/

namespace DocumentTables

/-- A request to a table. -/
inductive Request where
  | insert (doc : Document) (validate : Bool)
  | update (doc : Document) (oldKey : PrimaryKey) (validate : Bool)
  | delete (key : PrimaryKey)
  | existsDocument (key : PrimaryKey)
  | select (key : PrimaryKey) (mode : CacheMode)
  | selectKeys (filter : Filter)
  | exists
  | create
  | drop
  | clearCache
  | setCacheStrategy (strategy : CacheStrategy)

/-- The answer to a request. -/
inductive Answer where
  | done
  | found (doc : Option Document)
  | holds (b : Bool)
  | keys (keys : List PrimaryKey)

/-- What became of a request. -/
abbrev Event := Request × Except Error Answer

namespace Request

variable {σ : Type}

/-- The operation that is asked for. -/
def perform (m : ConnectionManager σ) : Request → TableAction σ Answer
  | .insert doc validate => (fun _ => .done) <$> Table.insertWith m doc validate
  | .update doc oldKey validate => (fun _ => .done) <$> Table.updateWith m doc oldKey validate
  | .delete key => .found <$> Table.delete m key
  | .existsDocument key => .holds <$> Table.existsDocument m key
  | .select key mode => .found <$> Table.selectWith m key mode
  | .selectKeys filter => .keys <$> Table.selectKeys m filter
  | .exists => .holds <$> Table.exists m
  | .create => (fun _ => .done) <$> Table.create m
  | .drop => (fun _ => .done) <$> Table.drop m
  | .clearCache => (fun _ => .done) <$> Table.clearCache
  | .setCacheStrategy strategy => (fun _ => .done) <$> Table.setCacheStrategy strategy

/-- Some requests one after the other, with what becomes of them. -/
def performAll (m : ConnectionManager σ) :
    List Request → TableState σ → List Event × TableState σ
  | [], s => ([], s)
  | request :: requests, s =>
      let (result, s) := (request.perform m).run s
      let (trace, s) := performAll m requests s
      ((request, result) :: trace, s)

end Request

namespace TableAction

variable {σ α β : Type}

theorem run_map
    (f : α → β) (x : TableAction σ α) (s : TableState σ) :
    (f <$> x).run s = ((x.run s).1.map f, (x.run s).2) := by
  change (x >>= fun a => pure (f a)).run s = _
  rw [run_bind]
  rcases x.run s with ⟨e | a, s₁⟩ <;> rfl

theorem run_map_eq_iff
    {f : α → β} {x : TableAction σ α} {s s' : TableState σ} {result : Except Error β} :
    (f <$> x).run s = (result, s') ↔ ∃ r, x.run s = (r, s') ∧ r.map f = result := by
  rw [run_map, Prod.mk.injEq]
  constructor
  · rintro ⟨hresult, rfl⟩
    exact ⟨(x.run s).1, rfl, hresult⟩
  · rintro ⟨r, hr, rfl⟩
    rw [hr]
    exact ⟨rfl, rfl⟩

theorem exists_run_of_map
    {f : α → β} {x : TableAction σ α} {s s' : TableState σ} {b : β}
    (h : (f <$> x).run s = (.ok b, s')) :
    ∃ a, x.run s = (.ok a, s') := by
  obtain ⟨r, hr, hmap⟩ := run_map_eq_iff.mp h
  cases r with
  | error e =>
      simp [Except.map] at hmap
  | ok a =>
      exact ⟨a, hr⟩

theorem run_of_map_error
    {f : α → β} {x : TableAction σ α} {s s' : TableState σ} {e : Error}
    (h : (f <$> x).run s = (.error e, s')) :
    x.run s = (.error e, s') := by
  obtain ⟨r, hr, hmap⟩ := run_map_eq_iff.mp h
  cases r with
  | error e' =>
      cases hmap
      exact hr
  | ok a =>
      simp [Except.map] at hmap

end TableAction

/-- A run of a table over a network: requests, each allowed in the state that it meets, with what
became of them, and the state that is left.  In between, all may change but the table and its
collection. -/
inductive Run {τ : Type} (n : Network τ)
    (allowed : TableState (τ × MemoryBackend) → Request → Prop)
    (s : TableState (τ × MemoryBackend)) : List Event → TableState (τ × MemoryBackend) → Prop
  | start : Run n allowed s [] s
  | elsewhere {trace : List Event} {s₁ s₂ : TableState (τ × MemoryBackend)} :
      Run n allowed s trace s₁ → s₂.table = s₁.table → s₂.collection = s₁.collection →
      Run n allowed s trace s₂
  | request {trace : List Event} {s₁ s₂ : TableState (τ × MemoryBackend)} {request : Request}
      {result : Except Error Answer} :
      Run n allowed s trace s₁ → allowed s₁ request →
      (request.perform n.manager).run s₁ = (result, s₂) →
      Run n allowed s (trace ++ [(request, result)]) s₂

/-- A request that is allowed extends a run. -/
theorem Run.perform
    {τ : Type} {n : Network τ} {allowed : TableState (τ × MemoryBackend) → Request → Prop}
    {s s₁ : TableState (τ × MemoryBackend)} {trace : List Event} (h : Run n allowed s trace s₁)
    (request : Request) (hallowed : allowed s₁ request) :
    Run n allowed s (trace ++ [(request, ((request.perform n.manager).run s₁).1)])
      ((request.perform n.manager).run s₁).2 := by
  exact h.request hallowed rfl

/-- Requests one after the other extend a run, if they are allowed in all states. -/
theorem Run.performAll
    {τ : Type} {n : Network τ} {allowed : TableState (τ × MemoryBackend) → Request → Prop}
    {s s₁ : TableState (τ × MemoryBackend)} {trace : List Event} (h : Run n allowed s trace s₁)
    {requests : List Request} (hallowed : ∀ request ∈ requests, ∀ s, allowed s request) :
    Run n allowed s (trace ++ (Request.performAll n.manager requests s₁).1)
      (Request.performAll n.manager requests s₁).2 := by
  induction requests generalizing trace s₁ with
  | nil =>
      rw [Request.performAll, List.append_nil]
      exact h
  | cons request requests ih =>
      have hnext := h.perform request (hallowed request List.mem_cons_self s₁)
      have hrest := ih hnext fun r hr => hallowed r (List.mem_cons_of_mem _ hr)
      rw [List.append_assoc] at hrest
      exact hrest

/-- A request that fails leaves the collection as it is, and the cache with no more than it held. -/
theorem Request.leaves_of_error
    {τ : Type} {n : Network τ} {s s' : TableState (τ × MemoryBackend)} (hs : s.Volatile)
    {request : Request} {e : Error} (h : (request.perform n.manager).run s = (.error e, s')) :
    ∃ held, s.Leaves s' s.collection held ∧ held.Within s.held := by
  have hself := KeyMap.Within.refl s.held
  cases request with
  | insert doc validate =>
      exact ⟨s.held, Table.insertWith_error (TableAction.run_of_map_error h), hself⟩
  | update doc key validate =>
      rcases Table.updateWith_error hs (TableAction.run_of_map_error h) with hleaves | hleaves
      · exact ⟨s.held, hleaves, hself⟩
      · exact ⟨s.held.erase key, hleaves, hself.erase_left⟩
  | delete key =>
      rcases Table.delete_error hs (TableAction.run_of_map_error h) with hleaves | hleaves
      · exact ⟨s.held, hleaves, hself⟩
      · exact ⟨s.held.erase key, hleaves, hself.erase_left⟩
  | existsDocument key =>
      exact ⟨s.held, Table.existsDocument_error (TableAction.run_of_map_error h), hself⟩
  | select key mode =>
      exact ⟨s.held, Table.selectWith_error hs (TableAction.run_of_map_error h), hself⟩
  | selectKeys filter =>
      exact ⟨s.held, Table.selectKeys_leaves (TableAction.run_of_map_error h), hself⟩
  | «exists» =>
      exact ⟨s.held, Table.exists_leaves (TableAction.run_of_map_error h), hself⟩
  | create =>
      exact ⟨s.held, Table.create_error (TableAction.run_of_map_error h), hself⟩
  | drop =>
      exact ⟨s.held, Table.drop_error hs (TableAction.run_of_map_error h), hself⟩
  | clearCache =>
      have hrun := TableAction.run_of_map_error h
      rw [Table.run_clearCache hs] at hrun
      simp at hrun
  | setCacheStrategy strategy =>
      have hrun := (Table.setCacheStrategy_ok hs (TableAction.run_of_map_error h)).1
      simp at hrun

/-- A request that succeeds leaves the same table, whose strategy is the one asked for, if one is.
-/
theorem Request.strategy_of_ok
    {τ : Type} {n : Network τ} {s s' : TableState (τ × MemoryBackend)} (hs : s.Volatile)
    {request : Request} {answer : Answer}
    (h : (request.perform n.manager).run s = (.ok answer, s')) :
    s'.table.cache.strategy = s.table.cache.strategy ∨
      ∃ strategy, request = .setCacheStrategy strategy ∧ s'.table.cache.strategy = strategy := by
  cases request with
  | setCacheStrategy strategy =>
      obtain ⟨_, hrun⟩ := TableAction.exists_run_of_map h
      exact .inr ⟨strategy, rfl, (Table.setCacheStrategy_ok hs hrun).2.2.2.1⟩
  | insert doc validate =>
      obtain ⟨_, hrun⟩ := TableAction.exists_run_of_map h
      exact .inl (Table.insertWith_ok hrun).2.2.strategy
  | update doc key validate =>
      obtain ⟨_, hrun⟩ := TableAction.exists_run_of_map h
      obtain ⟨_, _, _, ⟨_, hleaves⟩ | ⟨_, _, _, hleaves⟩⟩ := Table.updateWith_ok hs hrun
      · exact .inl hleaves.strategy
      · exact .inl hleaves.strategy
  | delete key =>
      obtain ⟨_, hrun⟩ := TableAction.exists_run_of_map h
      obtain ⟨_, ⟨_, _, hleaves⟩ | ⟨_, _, _, hleaves⟩⟩ := Table.delete_ok hs hrun
      · exact .inl hleaves.strategy
      · exact .inl hleaves.strategy
  | existsDocument key =>
      obtain ⟨_, hrun⟩ := TableAction.exists_run_of_map h
      exact .inl (Table.existsDocument_ok hrun).2.2.strategy
  | select key mode =>
      obtain ⟨_, hrun⟩ := TableAction.exists_run_of_map h
      obtain ⟨-, ⟨-, -, -, hleaves⟩ | ⟨-, hleaves⟩⟩ := Table.selectWith_ok hs hrun
      · exact .inl hleaves.strategy
      · exact .inl hleaves.strategy
  | selectKeys filter =>
      obtain ⟨_, hrun⟩ := TableAction.exists_run_of_map h
      exact .inl (Table.selectKeys_leaves hrun).strategy
  | «exists» =>
      obtain ⟨_, hrun⟩ := TableAction.exists_run_of_map h
      exact .inl (Table.exists_leaves hrun).strategy
  | create =>
      obtain ⟨_, hrun⟩ := TableAction.exists_run_of_map h
      exact .inl (Table.create_ok hrun).strategy
  | drop =>
      obtain ⟨_, hrun⟩ := TableAction.exists_run_of_map h
      exact .inl (Table.drop_ok hs hrun).strategy
  | clearCache =>
      obtain ⟨_, hrun⟩ := TableAction.exists_run_of_map h
      rw [Table.run_clearCache hs] at hrun
      cases hrun
      exact .inl Table.clearCache_leaves.strategy

namespace Sample

/-- A network for those who try once. -/
def network : Network (List (Option BackendError)) :=
  .scripted ⟨1, Duration.ofSeconds 1⟩ parameters

/-- A table of layers with a cache in memory, on an empty database behind that network. -/
def layers (refusals : List (Option BackendError)) :
    TableState (List (Option BackendError) × MemoryBackend) where
  table := (Table.new "layers" (.single "id") "cache" 0).withCache .memory
  connection := .initial (refusals, .empty)
  files := .empty

theorem suits_singleKey
    (id : String) :
    (KeySchema.single "id").Suits (singleKey id) := by
  exact ⟨rfl, trivial⟩

theorem floatFree_layer
    (id : String) (enabled : Bool) :
    (KeySchema.single "id").FloatFree (layer id enabled) := by
  have hown : (KeySchema.single "id").extractKey (layer id enabled) = .ok (singleKey id) := by
    cbv
  intro own h
  rw [hown, Except.ok.injEq] at h
  subst h
  exact (suits_singleKey id).floatFree

theorem isVolatile_layers
    (refusals : List (Option BackendError)) :
    (layers refusals).Volatile := by
  simp [layers, TableState.Volatile, Cache.Volatile, Table.withCache]

theorem held_layers
    (refusals : List (Option BackendError)) :
    (layers refusals).held = .empty := by
  simp [layers, TableState.held, Table.withCache]

end Sample
end DocumentTables
