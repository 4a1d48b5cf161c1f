import DocumentTables.Proofs.RetryLoop
import DocumentTables.Proofs.TableEffects

/-!
# Eviction before a write

An update or a removal forgets its key before it asks the backend.  So nothing is held for the key
while attempts are made, and what is held in the end does not depend on how many of them fail, or on
how.

**Results.**

* `Table.Walk.attempting`, `Table.logged_attempting`: the attempts that a call makes are those that
  are described here.
* `Table.Attempting.held`: what is held during the attempts of a call.
* `TableAction.attempts_bind`: the attempts of an operation, step after step.
* `Table.attempts_delete`, `Table.attempts_updateWith`: where a removal and an update make theirs.
* `Table.writes_evict_first`: an update and a removal, whatever the manager and its backend do.
-/

namespace DocumentTables

namespace KeySchema

variable {schema : KeySchema} {doc : Document} {validate : Bool}

/-- A document is refused if it is to be validated and has no key, or an invalid one. -/
def Refuses (schema : KeySchema) (doc : Document) (e : ValidationError) : Prop :=
  schema.extractKey doc = .error e ∨
    ∃ own, schema.extractKey doc = .ok own ∧ own.ensureValid = .error e

theorem keyToWrite_of_refuses {e : ValidationError}
    (h : schema.Refuses doc e) :
    Table.keyToWrite schema doc true = .error e := by
  rw [Table.keyToWrite]
  rcases h with hextract | ⟨own, hextract, hvalid⟩
  · simp [hextract]
  · simp [hextract, hvalid, Except.map]

/-- A document that is not refused is written under the key that it has, if there is one. -/
theorem keyToWrite_of_not_refuses
    (h : validate = true → ∀ e, ¬ schema.Refuses doc e) :
    Table.keyToWrite schema doc validate = .ok (schema.extractKey doc).toOption := by
  cases hkey : Table.keyToWrite schema doc validate with
  | ok own =>
      rw [toOption_extractKey_of_keyToWrite hkey]
  | error e =>
      -- only a document that is validated is refused
      rw [Table.keyToWrite] at hkey
      cases validate with
      | false =>
          cases hextract : schema.extractKey doc <;> simp [hextract] at hkey
      | true =>
          cases hextract : schema.extractKey doc with
          | error e' =>
              exact absurd (.inl hextract) (h rfl e')
          | ok own =>
              cases hvalid : own.ensureValid with
              | error e' =>
                  exact absurd (.inr ⟨own, hextract, hvalid⟩) (h rfl e')
              | ok _ =>
                  simp [hextract, hvalid, Except.map] at hkey

end KeySchema

namespace TableState

variable {σ : Type} {s : TableState σ} {key : PrimaryKey}

@[simp] theorem held_calling
    (connection : ConnectionState σ) :
    (s.calling connection).held = s.held := by
  rfl

@[simp] theorem held_forgetting :
    (s.forgetting key).held = s.held.erase key := by
  exact Cache.held_remove

@[simp] theorem strategy_forgetting :
    (s.forgetting key).table.cache.strategy = s.table.cache.strategy := by
  exact Cache.strategy_remove

/-- A cache in memory holds what it is given. -/
theorem held_holding
    (h : s.table.cache.strategy = .memory) (doc : Document) :
    (s.holding key doc).held = s.held.store key doc := by
  have hvolatile : s.table.cache.Volatile := by simp [Cache.Volatile, h]
  have hheld : (s.table.cache.put s.files key doc).2.1.held =
      if s.table.cache.strategy = .memory then s.table.cache.held.store key doc
      else s.table.cache.held := Cache.held_put hvolatile
  rwa [if_pos h] at hheld

end TableState

namespace Table

open ConnectionManager

variable {σ α : Type} {m : ConnectionManager σ} {operation : BackendAction σ α}
  {s s₁ : TableState σ} {key : PrimaryKey}

/-- The states of a table in which a call that starts in a state makes its attempts, each with its
number and its parameters. -/
inductive Attempting (m : ConnectionManager σ) (operation : BackendAction σ α) (s : TableState σ) :
    Nat → ConnectionParameters → TableState σ → Prop
  | first {params : ConnectionParameters} {w : σ} :
      m.StartsWith s.connection params w →
      Attempting m operation s 1 params (s.calling ⟨w, some params, s.connection.waits⟩)
  | next {number : Nat} {params given : ConnectionParameters} {s₁ : TableState σ} {w : σ} :
      Attempting m operation s number params s₁ →
      ¬ m.Ends number (m.attemptWith operation params s₁.connection.world) →
      m.resolve (m.attemptWith operation params s₁.connection.world).world = (.ok given, w) →
      Attempting m operation s (number + 1) given
        (s₁.calling ⟨w, some given, s₁.connection.waits ++ [m.policy.delayAfter number]⟩)

/-- The cache stays as it is during all attempts of a call. -/
theorem Attempting.held
    {number : Nat} {params : ConnectionParameters}
    (h : Attempting m operation s number params s₁) :
    s₁.held = s.held := by
  induction h with
  | first _ =>
      exact TableState.held_calling _
  | next _ _ _ ih =>
      rw [TableState.held_calling, ih]

/-- The loop makes its attempts in these states. -/
theorem Walk.attempting
    {number : Nat} {params : ConnectionParameters} {w : σ} {used : List ConnectionParameters}
    {last : Attempt σ α}
    (h : m.Walk operation number params w used last) :
    ∀ s₁, Attempting m operation s number params s₁ → s₁.connection.world = w →
      ∀ i p, used[i]? = some p → ∃ s₂, Attempting m operation s (number + i) p s₂ := by
  induction h with
  | last _ =>
      intro s₁ hs₁ _ i p hp
      cases i with
      | zero =>
          cases hp
          exact ⟨s₁, hs₁⟩
      | succ i =>
          simp at hp
  | @next number params given w w' used last hends hresolve hwalk ih =>
      rintro s₁ hs₁ rfl i p hp
      cases i with
      | zero =>
          cases hp
          exact ⟨s₁, hs₁⟩
      | succ i =>
          obtain ⟨s₂, hs₂⟩ := ih _ (hs₁.next hends hresolve) rfl i p hp
          exact ⟨s₂, by rwa [Nat.add_right_comm] at hs₂⟩

/-- Every connection that a call opens is opened in one of these states. -/
theorem logged_attempting
    (hbudget : 1 ≤ m.policy.maxAttempts) {i : Nat} {p : ConnectionParameters}
    (h : (m.logged.execute operation.onSecond (s.connection.withLog [])).2.world.1[i]? = some p) :
    ∃ s₂, Attempting m operation s (i + 1) p s₂ := by
  -- either the call is a loop, or it comes to nothing
  have hstart : (∃ params w, m.StartsWith s.connection params w) ∨
      ∃ e w, s.connection.remembered = none ∧ m.resolve s.connection.world = (.error e, w) := by
    cases hremembered : s.connection.remembered with
    | some params =>
        exact .inl ⟨params, _, .inl ⟨hremembered, rfl⟩⟩
    | none =>
        rcases hresolve : m.resolve s.connection.world with ⟨e | params, w⟩
        · exact .inr ⟨e, w, rfl, rfl⟩
        · exact .inl ⟨params, w, .inr ⟨hremembered, hresolve⟩⟩
  rcases hstart with ⟨params, w, hstart⟩ | ⟨e, w, hremembered, hresolve⟩
  · have hnumber : 1 + (m.policy.maxAttempts - 1) = m.policy.maxAttempts := by omega
    obtain ⟨used, last, hwalk, hwithin⟩ :=
      exists_walk m operation (m.policy.maxAttempts - 1) 1 params w hnumber
    obtain ⟨n, hlength, -, hends, -⟩ := hwalk.course
    obtain ⟨result, after, wait, hverdict⟩ := exists_verdict hends (by omega)
    have hlogged : m.logged.StartsWith (s.connection.withLog []) params ([], w) := by
      rcases hstart with ⟨hremembered, rfl⟩ | ⟨hremembered, hresolve⟩
      · exact .inl ⟨hremembered, rfl⟩
      · exact .inr ⟨hremembered, by simp [ConnectionState.withLog, hresolve]⟩
    have hcall := (hwalk.logged []).attemptsFrom n _ s.connection.waits hlength
      (hverdict.logged _) hnumber
    have hexecute : m.logged.execute operation.onSecond (s.connection.withLog []) = _ :=
      (execute_of_startsWith hlogged).trans hcall
    rw [hexecute, List.nil_append] at h
    obtain ⟨s₂, hs₂⟩ := Walk.attempting hwalk _ (.first hstart) rfl i p h
    exact ⟨s₂, by rwa [Nat.add_comm] at hs₂⟩
  · have hcall : m.logged.execute operation.onSecond (s.connection.withLog []) =
        (.error e, { s.connection with world := w }.withLog []) :=
      execute_of_unresolved (w := ([], w)) hremembered
        (by simp [ConnectionState.withLog, hresolve])
    rw [hcall] at h
    simp [ConnectionState.withLog] at h

end Table

namespace TableAction

open Table

variable {σ α β : Type} {m : ConnectionManager σ} {s s₂ : TableState σ} {key : PrimaryKey}
  {number : Nat} {params : ConnectionParameters}

/-- The states of a table in which an operation makes its attempts, each with its number within its
call and its parameters.  What an operation does after a call is done in the state that the call
leaves. -/
def Attempts :
    TableAction σ α → TableState σ → Nat → ConnectionParameters → TableState σ → Prop
  | done _, _, _, _, _ => False
  | step change next, s, number, params, s₂ =>
      (next (change s).1).Attempts (change s).2 number params s₂
  | call m operation next, s, number, params, s₂ =>
      Attempting m operation s number params s₂ ∨
        (next (m.execute operation s.connection).1).Attempts
          (s.calling (m.execute operation s.connection).2) number params s₂

theorem attempts_andThen
    (x : TableAction σ α) (next : Except Error α → TableAction σ β) (s : TableState σ) :
    (x.andThen next).Attempts s number params s₂ ↔
      x.Attempts s number params s₂ ∨
        (next (x.run s).1).Attempts (x.run s).2 number params s₂ := by
  induction x generalizing s with
  | done result =>
      exact (iff_of_eq (false_or _)).symm
  | step change rest ih =>
      exact ih _ _
  | call m operation rest ih =>
      exact (or_congr_right (ih _ _)).trans or_assoc.symm

theorem attempts_bind
    (x : TableAction σ α) (f : α → TableAction σ β) (s : TableState σ) :
    (x >>= f).Attempts s number params s₂ ↔
      x.Attempts s number params s₂ ∨
        ∃ a s₁, x.run s = (.ok a, s₁) ∧ (f a).Attempts s₁ number params s₂ := by
  have hbind : (x >>= f).Attempts s number params s₂ ↔ x.Attempts s number params s₂ ∨
      (onSuccess f (x.run s).1).Attempts (x.run s).2 number params s₂ :=
    attempts_andThen x _ s
  rw [hbind]
  refine or_congr_right ?_
  rcases x.run s with ⟨e | a, s₁⟩
  · exact ⟨False.elim, by rintro ⟨_, _, ⟨⟩, _⟩⟩
  · exact ⟨fun h => ⟨a, s₁, rfl, h⟩, by rintro ⟨_, _, ⟨⟩, h⟩; exact h⟩

/-- Only what follows a look at the table makes attempts. -/
theorem attempts_table_bind
    (f : Table → TableAction σ β) :
    (table >>= f).Attempts s number params s₂ ↔ (f s.table).Attempts s number params s₂ := by
  rfl

theorem attempts_ofValidation_bind
    (result : Except ValidationError α) (f : α → TableAction σ β) :
    (ofValidation result >>= f).Attempts s number params s₂ ↔
      ∃ a, result = .ok a ∧ (f a).Attempts s number params s₂ := by
  cases result with
  | error e =>
      exact ⟨False.elim, by rintro ⟨_, ⟨⟩, _⟩⟩
  | ok a =>
      exact ⟨fun h => ⟨a, rfl, h⟩, by rintro ⟨_, ⟨⟩, h⟩; exact h⟩

/-- What follows after a key was forgotten makes its attempts without the key. -/
theorem attempts_forget_bind
    (h : s.Volatile) (f : Unit → TableAction σ β) :
    (orFail (forget key) >>= f).Attempts s number params s₂ ↔
      (f ()).Attempts (s.forgetting key) number params s₂ := by
  have hforget : (orFail (forget key)).run s = (.ok (), s.forgetting key) := by
    rw [run_orFail_forget, Cache.remove_fst h]
  have hquiet : ¬ (orFail (forget key)).Attempts s number params s₂ := by
    rw [orFail, attempts_bind, run_forget_eq, Cache.remove_fst h]
    rintro (hforgets | ⟨_, _, ⟨⟩, hanswers⟩)
    · exact hforgets
    · exact hanswers
  rw [attempts_bind, hforget]
  constructor
  · rintro (hforgets | ⟨_, _, ⟨⟩, hf⟩)
    · exact absurd hforgets hquiet
    · exact hf
  · exact fun hf => .inr ⟨_, _, rfl, hf⟩

theorem attempts_execute
    (operation : BackendAction σ α) :
    (execute m operation).Attempts s number params s₂ ↔
      Attempting m operation s number params s₂ := by
  exact iff_of_eq (or_false _)

/-- A call is all that makes attempts if nothing does that follows it. -/
theorem attempts_execute_bind
    {operation : BackendAction σ α} {f : α → TableAction σ β}
    (hf : ∀ a s₁, ¬ (f a).Attempts s₁ number params s₂) :
    (execute m operation >>= f).Attempts s number params s₂ ↔
      Attempting m operation s number params s₂ := by
  rw [attempts_bind, attempts_execute, or_iff_left]
  rintro ⟨a, s₁, -, h⟩
  exact hf a s₁ h

end TableAction

namespace Table

open ConnectionManager TableAction

variable {σ : Type} {m : ConnectionManager σ} {s s₂ : TableState σ} {key : PrimaryKey}
  {number : Nat} {params : ConnectionParameters}

theorem addressableFilter_eq_ok_iff
    {filter : Filter} :
    addressableFilter key = .ok filter ↔ (∃ safe, key.validate = .ok safe) ∧ key.filter = filter := by
  rw [addressableFilter]
  cases key.validate <;> simp [Except.map]

/-- A removal makes its attempts after the key was forgotten. -/
theorem attempts_delete
    (h : s.Volatile) :
    (delete m key).Attempts s number params s₂ ↔
      (∃ safe, key.validate = .ok safe) ∧
        Attempting m (m.backend.findOneAndDelete s.table.name key.filter) (s.forgetting key)
          number params s₂ := by
  have hname : (s.forgetting key).table.name = s.table.name := rfl
  simp only [delete, attempts_ofValidation_bind, attempts_forget_bind h, attempts_table_bind,
    attempts_execute, addressableFilter_eq_ok_iff, hname, and_assoc, exists_and_left,
    exists_eq_left']

/-- An update makes its attempts after the old key was forgotten and the document was accepted. -/
theorem attempts_updateWith
    (h : s.Volatile) (doc : Document) (validate : Bool) :
    (updateWith m doc key validate).Attempts s number params s₂ ↔
      (∃ safe, key.validate = .ok safe) ∧
        (∃ own, keyToWrite s.table.schema doc validate = .ok own) ∧
        Attempting m (m.backend.replaceOne s.table.name key.filter doc) (s.forgetting key)
          number params s₂ := by
  have hname : (s.forgetting key).table.name = s.table.name := rfl
  have hschema : (s.forgetting key).table.schema = s.table.schema := rfl
  simp only [updateWith, attempts_ofValidation_bind, attempts_forget_bind h, attempts_table_bind,
    addressableFilter_eq_ok_iff, hname, hschema, and_assoc, exists_and_left, exists_eq_left']
  refine and_congr_right fun _ => ?_
  rw [← exists_and_right]
  refine exists_congr fun own => and_congr_right fun _ => attempts_execute_bind fun matched s₁ => ?_
  -- what is held in the end is held without a call
  cases matched <;> cases own <;> exact not_false

/-- **Eviction before a write.**  With a cache in memory, whatever it holds, and whatever the
manager and its backend do:

* a key that can identify no document is refused, nothing is attempted, and nothing happens;
* otherwise nothing is held for the key in any state in which an update or a removal makes an
  attempt: what was held for it is forgotten first, and nothing else has happened until then;
* the attempts of a removal are those of its one call, and so are those of an update, unless its
  document is to be validated and is refused: then nothing is attempted;
* a removal, an update that fails, one that finds no document and one with a document without a key
  leave held what was held, except for the key;
* an update that replaces a document leaves that, and the new document under its own key. -/
theorem writes_evict_first
    (m : ConnectionManager σ) (s : TableState σ) (doc : Document) (key : PrimaryKey)
    (validate : Bool) (hmemory : s.table.cache.strategy = .memory) :
    (∀ e, key.validate = .error e →
      (updateWith m doc key validate).run s = (.error (.validation e), s) ∧
      (delete m key).run s = (.error (.validation e), s) ∧
      ∀ number params s₂,
        ¬ (updateWith m doc key validate).Attempts s number params s₂ ∧
        ¬ (delete m key).Attempts s number params s₂) ∧
    ∀ safe, key.validate = .ok safe →
      let replace := m.backend.replaceOne s.table.name key.filter doc
      let remove := m.backend.findOneAndDelete s.table.name key.filter
      (∀ number params s₂,
        (updateWith m doc key validate).Attempts s number params s₂ ∨
          (delete m key).Attempts s number params s₂ →
        s₂.held.find key = none ∧ s₂.held = s.held.erase key) ∧
      ∃ s₁ : TableState σ, s₁.connection = s.connection ∧ s₁.held = s.held.erase key ∧
        (∀ number params s₂,
          (delete m key).Attempts s number params s₂ ↔
            Attempting m remove s₁ number params s₂) ∧
        (delete m key).run s = (execute m remove).run s₁ ∧
        ((delete m key).run s).2.held = s.held.erase key ∧
        (∀ e, validate = true → s.table.schema.Refuses doc e →
          (updateWith m doc key validate).run s = (.error (.validation e), s₁) ∧
          ∀ number params s₂, ¬ (updateWith m doc key validate).Attempts s number params s₂) ∧
        ((validate = true → ∀ e, ¬ s.table.schema.Refuses doc e) →
          (∀ number params s₂,
            (updateWith m doc key validate).Attempts s number params s₂ ↔
              Attempting m replace s₁ number params s₂) ∧
          ((updateWith m doc key validate).run s).2.connection =
            ((execute m replace).run s₁).2.connection ∧
          (∀ e, ((execute m replace).run s₁).1 = .error e →
            ((updateWith m doc key validate).run s).1 = .error e ∧
            ((updateWith m doc key validate).run s).2.held = s.held.erase key) ∧
          (((execute m replace).run s₁).1 = .ok false →
            ((updateWith m doc key validate).run s).1 = .ok () ∧
            ((updateWith m doc key validate).run s).2.held = s.held.erase key) ∧
          (((execute m replace).run s₁).1 = .ok true →
            ((updateWith m doc key validate).run s).1 = .ok () ∧
            (∀ e, s.table.schema.extractKey doc = .error e →
              ((updateWith m doc key validate).run s).2.held = s.held.erase key) ∧
            ∀ own, s.table.schema.extractKey doc = .ok own →
              ((updateWith m doc key validate).run s).2.held =
                (s.held.erase key).store own doc)) := by
  have hvolatile : s.Volatile := by simp [TableState.Volatile, Cache.Volatile, hmemory]
  constructor
  · intro e hkey
    rw [run_updateWith hvolatile, run_delete hvolatile, hkey]
    refine ⟨rfl, rfl, fun number params s₂ => ?_⟩
    rw [attempts_updateWith hvolatile, attempts_delete hvolatile, hkey]
    exact ⟨by rintro ⟨⟨_, ⟨⟩⟩, _⟩, by rintro ⟨⟨_, ⟨⟩⟩, _⟩⟩
  · intro safe hkey replace remove
    refine ⟨fun number params s₂ hattempts => ?_, s.forgetting key, rfl,
      TableState.held_forgetting, fun number params s₂ => ?_, ?_, ?_, ?_, ?_⟩
    · have hheld : s₂.held = s.held.erase key := by
        rw [attempts_updateWith hvolatile, attempts_delete hvolatile] at hattempts
        rcases hattempts with ⟨-, -, h⟩ | ⟨-, h⟩
        · rw [h.held, TableState.held_forgetting]
        · rw [h.held, TableState.held_forgetting]
      exact ⟨by simp [hheld, KeyMap.find_erase], hheld⟩
    · rw [attempts_delete hvolatile, and_iff_right ⟨safe, hkey⟩]
    · rw [run_delete hvolatile, hkey]
    · rw [run_delete hvolatile, hkey]
      exact TableState.held_forgetting
    · rintro e rfl hrefuses
      have hown := KeySchema.keyToWrite_of_refuses hrefuses
      rw [run_updateWith hvolatile, hkey, hown]
      refine ⟨rfl, fun number params s₂ => ?_⟩
      rw [attempts_updateWith hvolatile, hown]
      rintro ⟨-, ⟨_, ⟨⟩⟩, _⟩
    · intro hwrites
      have hown := KeySchema.keyToWrite_of_not_refuses hwrites
      refine ⟨fun number params s₂ => ?_, ?_⟩
      · rw [attempts_updateWith hvolatile, and_iff_right ⟨safe, hkey⟩, and_iff_right ⟨_, hown⟩]
      have hconnection : (s.forgetting key).connection = s.connection := rfl
      rw [run_updateWith hvolatile, hkey, hown, run_execute, hconnection]
      rcases m.execute replace s.connection with ⟨e | matched, c⟩
      · refine ⟨rfl, ?_, by rintro ⟨⟩, by rintro ⟨⟩⟩
        rintro _ ⟨⟩
        exact ⟨rfl, TableState.held_forgetting⟩
      · cases hown : s.table.schema.extractKey doc with
        | error e =>
            cases matched with
            | false =>
                exact ⟨rfl, by rintro _ ⟨⟩, fun _ => ⟨rfl, TableState.held_forgetting⟩,
                  by rintro ⟨⟩⟩
            | true =>
                refine ⟨rfl, by rintro _ ⟨⟩, by rintro ⟨⟩, fun _ => ⟨rfl, ?_, by rintro _ ⟨⟩⟩⟩
                exact fun _ _ => TableState.held_forgetting
        | ok own =>
            cases matched with
            | false =>
                exact ⟨rfl, by rintro _ ⟨⟩, fun _ => ⟨rfl, TableState.held_forgetting⟩,
                  by rintro ⟨⟩⟩
            | true =>
                refine ⟨rfl, by rintro _ ⟨⟩, by rintro ⟨⟩, fun _ => ⟨rfl, by rintro _ ⟨⟩, ?_⟩⟩
                rintro _ ⟨⟩
                have hforgotten : ((s.forgetting key).calling c).table.cache.strategy = .memory :=
                  TableState.strategy_forgetting.trans hmemory
                exact (TableState.held_holding hforgotten doc).trans
                  (by rw [TableState.held_calling, TableState.held_forgetting])

/-- A table whose cache holds a layer, behind a network on which every attempt fails. -/
def unreachable : TableState (Faults × MemoryBackend) where
  table :=
    { (Table.new "layers" (.single "id") "cache" 1) with
      cache := .memory (MemoryCache.empty.put (Sample.singleKey "a") (Sample.layer "a" true)) }
  connection := .initial ({ Faults.none with always := true }, .empty)
  files := .empty

/-- An update and a removal make their first attempts with nothing held for the layer, and it is no
longer held after they have failed. -/
theorem writes_evict_first_unreachable :
    unreachable.table.cache.strategy = .memory ∧
      unreachable.held.find (Sample.singleKey "a") = some (Sample.layer "a" true) ∧
      (∃ s₂, (updateWith threeAttempts (Sample.layer "a" false) (Sample.singleKey "a") true).Attempts
        unreachable 1 Sample.parameters s₂ ∧ s₂.held.find (Sample.singleKey "a") = none) ∧
      (∃ s₂, (delete threeAttempts (Sample.singleKey "a")).Attempts
        unreachable 1 Sample.parameters s₂ ∧ s₂.held.find (Sample.singleKey "a") = none) ∧
      ((updateWith threeAttempts (Sample.layer "a" false) (Sample.singleKey "a") true).run
        unreachable).2.held.find (Sample.singleKey "a") = none ∧
      ((delete threeAttempts (Sample.singleKey "a")).run
        unreachable).2.held.find (Sample.singleKey "a") = none := by
  have hmemory : unreachable.table.cache.strategy = .memory := rfl
  have hheld : unreachable.held.find (Sample.singleKey "a") = some (Sample.layer "a" true) := rfl
  have hforgotten :
      (unreachable.held.erase (Sample.singleKey "a")).find (Sample.singleKey "a") = none := by
    simp [KeyMap.find_erase]
  obtain ⟨hevicted, s₁, hconnection, -, hremoves, -, hdelete, -, hupdate⟩ :=
    (writes_evict_first threeAttempts unreachable (Sample.layer "a" false) (Sample.singleKey "a")
      true hmemory).2 true rfl
  have hwrites : ∀ e, ¬ unreachable.table.schema.Refuses (Sample.layer "a" false) e := by
    rintro e (h | ⟨own, hown, hvalid⟩)
    · cases h
    · cases hown
      cases hvalid
  obtain ⟨hreplaces, -, hfails, -⟩ := hupdate fun _ => hwrites
  have hstart : threeAttempts.StartsWith s₁.connection Sample.parameters s₁.connection.world := by
    rw [hconnection]
    exact .inr ⟨rfl, rfl⟩
  have hspent :
      ((execute threeAttempts (threeAttempts.backend.replaceOne "layers"
        (Sample.singleKey "a").filter (Sample.layer "a" false))).run s₁).1 =
        .error (.retriesExhausted 3 Faults.none.error) := by
    rw [run_execute, hconnection]
    rfl
  refine ⟨hmemory, hheld, ?_, ?_, ?_, ?_⟩
  · have hfirst := (hreplaces 1 Sample.parameters _).mpr (.first hstart)
    exact ⟨_, hfirst, (hevicted _ _ _ (.inl hfirst)).1⟩
  · have hfirst := (hremoves 1 Sample.parameters _).mpr (.first hstart)
    exact ⟨_, hfirst, (hevicted _ _ _ (.inr hfirst)).1⟩
  · rw [(hfails _ hspent).2, hforgotten]
  · rw [hdelete, hforgotten]

end Table
end DocumentTables
