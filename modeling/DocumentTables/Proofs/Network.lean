import DocumentTables.Backend.Faults
import DocumentTables.Backend.Memory
import DocumentTables.Connection.Manager

/-!
# A database behind a network

The database in memory is reached through a network of any kind: attempts to connect may be
refused before the database hears of them, and the source of the parameters may fail.  A call then
changes the database as its operation says, once, or not at all.

**Results.**

* `Network.execute_applies`: what a call answers and what it does to the database.
* `Network.backend_findOne` and its siblings: what the calls of the backend ask and change.
* `Network.execute_of_connects`: a call whose first attempt is let through answers what the
  operation answers.
* `Network.backend_ofFaults`: the network whose faults are injected is the backend with these faults.
-/

namespace DocumentTables

/-- A network with the policy of those who use it: what the source of the parameters answers, and
which attempts to connect are refused, and why. -/
structure Network (τ : Type) where
  policy : RetryPolicy
  resolve : τ → Except Error ConnectionParameters × τ
  refuse : ConnectionParameters → τ → Option BackendError × τ

/-- The first attempt of a call gets parameters and a connection. -/
def ConnectionManager.Connects {σ : Type} (m : ConnectionManager σ) (s : ConnectionState σ) :
    Prop :=
  ∃ params s₁ w, m.currentParameters s = (.ok params, s₁) ∧
    m.backend.connect params s₁.world = (.ok (), w)

/-- The database behind the network. -/
def ConnectionState.database {τ : Type} (s : ConnectionState (τ × MemoryBackend)) : Database :=
  s.world.2.database

namespace Network

variable {τ α ε : Type}

/-- Open a connection, if the network lets the attempt through. -/
def connect (n : Network τ) (params : ConnectionParameters) :
    BackendAction (τ × MemoryBackend) Unit :=
  fun (t, m) =>
    match n.refuse params t with
    | (some e, t) => (.error e, (t, m))
    | (none, t) => (MemoryBackend.connect params).onSecond (t, m)

/-- The manager that works with the database over the network. -/
def manager (n : Network τ) : ConnectionManager (τ × MemoryBackend) where
  policy := n.policy
  resolve := fun (t, m) =>
    let (params, t) := n.resolve t
    (params, (t, m))
  backend := { MemoryBackend.backend.onSecond with connect := n.connect }

/-- What an operation that changes a database may come to: it is done, or the database is left as it
is. -/
inductive Applies (step : Database → Except BackendError (α × Database)) (db : Database) :
    Except ε α → Database → Prop
  | done {a : α} {db' : Database} : step db = .ok (a, db') → Applies step db (.ok a) db'
  | failed {e : ε} : Applies step db (.error e) db

variable {n : Network τ} {step : Database → Except BackendError (α × Database)}
  {s s' : ConnectionState (τ × MemoryBackend)} {a : α} {db' : Database}

@[simp] theorem applies_ok_iff {db : Database} :
    Applies step db (.ok a : Except ε α) db' ↔ step db = .ok (a, db') := by
  constructor
  · rintro ⟨h⟩
    exact h
  · exact .done

@[simp] theorem applies_error_iff {db : Database} {e : ε} :
    Applies step db (.error e) db' ↔ db' = db := by
  constructor
  · rintro ⟨⟩
    rfl
  · rintro rfl
    exact .failed

theorem resolveParameters_database
    {result : Except Error ConnectionParameters}
    (h : n.manager.resolveParameters s = (result, s')) :
    s'.database = s.database := by
  rw [ConnectionManager.resolveParameters] at h
  split at h
  all_goals
    next hresolve =>
      cases h
      simp only [manager, Prod.mk.injEq] at hresolve
      rw [ConnectionState.database, ConnectionState.database, ← hresolve.2]

theorem currentParameters_database
    {result : Except Error ConnectionParameters}
    (h : n.manager.currentParameters s = (result, s')) :
    s'.database = s.database := by
  rw [ConnectionManager.currentParameters] at h
  split at h
  · cases h
    rfl
  · exact resolveParameters_database h

theorem connect_database
    {params : ConnectionParameters} {w w' : τ × MemoryBackend} {result : Except BackendError Unit}
    (h : n.manager.backend.connect params w = (result, w')) :
    w'.2.database = w.2.database := by
  simp only [manager, connect, BackendAction.onSecond, MemoryBackend.connect] at h
  split at h
  · cases h
    rfl
  · split at h <;> cases h <;> rfl

/-- An attempt changes the database as the operation says, or not at all. -/
theorem attempt_applies
    {params : ConnectionParameters} {w w' : τ × MemoryBackend} {result : Except BackendError α}
    (h : n.manager.attempt (MemoryBackend.change step).onSecond params w = (result, w')) :
    Applies step w.2.database result w'.2.database := by
  rw [ConnectionManager.attempt, BackendAction.andThen] at h
  split at h
  · next hconnect =>
      have hdb := connect_database hconnect
      simp only [BackendAction.onSecond, MemoryBackend.change] at h
      split at h
      · next hstep =>
          cases h
          rw [applies_ok_iff, ← hdb, hstep]
      · cases h
        rw [applies_error_iff, hdb]
  · next hconnect =>
      cases h
      rw [applies_error_iff, connect_database hconnect]

/-- The failed attempts of a call leave the database as it is, so the last one alone counts. -/
theorem attemptsFrom_applies
    {later number : Nat} {params : ConnectionParameters} {result : Except Error α}
    (h : n.manager.attemptsFrom (MemoryBackend.change step).onSecond later number params s =
      (result, s')) :
    Applies step s.database result s'.database := by
  induction later generalizing number params s with
  | zero =>
      rw [ConnectionManager.attemptsFrom] at h
      split at h
      · next hattempt =>
          cases h
          exact applies_ok_iff.mpr (applies_ok_iff.mp (attempt_applies hattempt))
      · next hattempt =>
          have hdb := applies_error_iff.mp (attempt_applies hattempt)
          split at h <;> cases h <;> exact applies_error_iff.mpr hdb
  | succ later ih =>
      rw [ConnectionManager.attemptsFrom] at h
      split at h
      · next hattempt =>
          cases h
          exact applies_ok_iff.mpr (applies_ok_iff.mp (attempt_applies hattempt))
      · next w hattempt =>
          have hdb := applies_error_iff.mp (attempt_applies hattempt)
          simp only at h
          split at h
          · cases h
            exact applies_error_iff.mpr hdb
          · split at h
            · next hresolve =>
                cases h
                rw [applies_error_iff, resolveParameters_database hresolve]
                exact hdb
            · next hresolve =>
                -- the failed attempt and the source left the database as it was
                have happlies := ih h
                rw [resolveParameters_database hresolve] at happlies
                change Applies step w.2.database _ _ at happlies
                rwa [hdb] at happlies

/-- A call changes the database as its operation says, or fails and leaves the database as it is. -/
theorem execute_applies
    {result : Except Error α}
    (h : n.manager.execute (MemoryBackend.change step).onSecond s = (result, s')) :
    Applies step s.database result s'.database := by
  rw [ConnectionManager.execute] at h
  split at h
  · next hparams =>
      cases h
      rw [applies_error_iff, currentParameters_database hparams]
  · next hparams =>
      rw [← currentParameters_database hparams]
      exact attemptsFrom_applies h

/-- A call that asks the database a question leaves it as it is. -/
theorem execute_ask
    {question : Database → α} {result : Except Error α}
    (h : n.manager.execute (MemoryBackend.ask question).onSecond s = (result, s')) :
    s'.database = s.database ∧ ∀ a, result = .ok a → question s.database = a := by
  have happlies : Applies (fun db => .ok (question db, db)) s.database result s'.database :=
    execute_applies h
  cases result with
  | ok a =>
      simp only [applies_ok_iff, Except.ok.injEq, Prod.mk.injEq] at happlies
      refine ⟨happlies.2.symm, fun b hb => ?_⟩
      cases hb
      exact happlies.1
  | error e =>
      exact ⟨applies_error_iff.mp happlies, fun b hb => by cases hb⟩

/-- A call whose first attempt is let through answers what the operation answers. -/
theorem execute_of_connects
    (step : Database → Except BackendError (α × Database))
    (hconnects : n.manager.Connects s) (hstep : step s.database = .ok (a, db')) :
    ∃ s', n.manager.execute (MemoryBackend.change step).onSecond s = (.ok a, s') := by
  obtain ⟨params, s₁, w, hparams, hconnect⟩ := hconnects
  have hdb := (connect_database hconnect).trans (currentParameters_database hparams)
  have hattempt : n.manager.attempt (MemoryBackend.change step).onSecond params s₁.world =
      (.ok a, (w.1, { w.2 with database := db' })) := by
    simp only [ConnectionManager.attempt, BackendAction.andThen, hconnect, BackendAction.onSecond,
      MemoryBackend.change, hdb, hstep]
  refine ⟨{ s₁ with world := (w.1, { w.2 with database := db' }) }, ?_⟩
  rw [ConnectionManager.execute, hparams]
  simp only
  cases n.manager.policy.maxAttempts - 1 <;> simp only [ConnectionManager.attemptsFrom, hattempt]

theorem execute_ask_of_connects
    (hconnects : n.manager.Connects s) (question : Database → α) :
    ∃ s', n.manager.execute (MemoryBackend.ask question).onSecond s =
      (.ok (question s.database), s') := by
  exact execute_of_connects (fun db => .ok (question db, db)) hconnects rfl

/-! ## The calls -/

variable (n : Network τ) (name : String) (filter : Filter) (doc : Document)

theorem backend_collectionNames :
    n.manager.backend.collectionNames = (MemoryBackend.ask Database.collectionNames).onSecond := by
  rfl

theorem backend_findOne :
    n.manager.backend.findOne name filter =
      (MemoryBackend.ask fun db => db.findOne name filter).onSecond := by
  rfl

theorem backend_findProjected
    (paths : List String) :
    n.manager.backend.findProjected name filter paths =
      (MemoryBackend.ask fun db =>
        (db.find name filter).map fun doc => Document.project doc paths).onSecond := by
  rfl

theorem backend_count :
    n.manager.backend.count name filter =
      (MemoryBackend.ask fun db => (db.find name filter).length).onSecond := by
  rfl

theorem backend_insertOne :
    n.manager.backend.insertOne name doc =
      (MemoryBackend.change fun db => (db.insertOne name doc).map fun db => ((), db)).onSecond := by
  rfl

theorem backend_replaceOne :
    n.manager.backend.replaceOne name filter doc =
      (MemoryBackend.change fun db => db.replaceOne name filter doc).onSecond := by
  rfl

theorem backend_findOneAndDelete :
    n.manager.backend.findOneAndDelete name filter =
      (MemoryBackend.change fun db => .ok (db.findOneAndDelete name filter)).onSecond := by
  rfl

theorem backend_dropCollection :
    n.manager.backend.dropCollection name =
      (MemoryBackend.change fun db => .ok ((), db.dropCollection name)).onSecond := by
  rfl

/-- To make a collection with an index is one change of the database. -/
theorem backend_createCollection
    (paths : List String) :
    (n.manager.backend.createCollection name).andThen
        (fun () => n.manager.backend.createUniqueIndex name paths) =
      (MemoryBackend.change fun db =>
        .ok ((), (db.createCollection name).createUniqueIndex name paths)).onSecond := by
  rfl

/-- A network that lets attempts through or refuses them as a list says, and lets through all later
ones. -/
def scripted (policy : RetryPolicy) (params : ConnectionParameters) :
    Network (List (Option BackendError)) :=
  ⟨policy, fun t => (.ok params, t), fun _ t => (t.head?.join, t.tail)⟩

/-- The network whose faults are injected. -/
def ofFaults (policy : RetryPolicy)
    (resolve : Faults → Except Error ConnectionParameters × Faults) : Network Faults :=
  ⟨policy, resolve, fun _ f => (if f.failing then some f.error else none, f.afterAttempt)⟩

theorem backend_ofFaults
    (policy : RetryPolicy) (resolve : Faults → Except Error ConnectionParameters × Faults) :
    (ofFaults policy resolve).manager.backend = MemoryBackend.backend.withFaults := by
  have : (ofFaults policy resolve).connect = Faults.connect MemoryBackend.backend := by
    funext params w
    simp only [connect, ofFaults, Faults.connect]
    cases w.1.failing <;> rfl
  rw [manager, this, Backend.withFaults]

end Network
end DocumentTables
