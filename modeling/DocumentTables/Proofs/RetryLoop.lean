import DocumentTables.Backend.Faults
import DocumentTables.Backend.Memory
import DocumentTables.Connection.Manager
import DocumentTables.Sample

/-!
# The course of the retry loop

A call of the connection manager is a sequence of attempts.  The first one uses the parameters that
are remembered, or else those that the source gives; each later one uses those that the source gives
after the attempt before it.  The course of a call is the whole sequence, whatever the attempts come
to; the loop walks along it to the first attempt that ends the call.

To count the connections that a manager opens, `logged` puts a list beside its world to which each
attempt adds its parameters.

**Results.**

* `ConnectionManager.execute_outcome`: the attempts, the waits, the parameters and the answer of a
  call.
-/

namespace DocumentTables
namespace ConnectionManager

variable {σ α : Type}

/-- One attempt: the parameters it connects with, its outcome, and the world after it. -/
structure Attempt (σ α : Type) where
  parameters : ConnectionParameters
  outcome : Except BackendError α
  world : σ

/-- The attempt with the given parameters in a world. -/
def attemptWith (m : ConnectionManager σ) (operation : BackendAction σ α)
    (params : ConnectionParameters) (w : σ) : Attempt σ α :=
  ⟨params, (m.attempt operation params w).1, (m.attempt operation params w).2⟩

/-- The attempt after the given one, with the parameters that the source gives then. -/
def following (m : ConnectionManager σ) (operation : BackendAction σ α) (a : Attempt σ α) :
    Option (Attempt σ α) :=
  match m.resolve a.world with
  | (.ok params, w) => some (m.attemptWith operation params w)
  | (.error _, _) => none

/-- The attempts of a call that starts with the given parameters in a world, as long as the source
gives parameters after each of them. -/
def course (m : ConnectionManager σ) (operation : BackendAction σ α)
    (params : ConnectionParameters) (w : σ) : Nat → Option (Attempt σ α)
  | 0 => some (m.attemptWith operation params w)
  | n + 1 => (course m operation params w n).bind (m.following operation)

/-- The attempt with the given number ends the call: it succeeds, or resources are exhausted, or it
uses up the budget, or the source fails after it. -/
def Ends (m : ConnectionManager σ) (number : Nat) (a : Attempt σ α) : Prop :=
  (∃ v, a.outcome = .ok v) ∨
    (∃ e, a.outcome = .error e ∧ e.isResourceExhaustion = true) ∨
    number = m.policy.maxAttempts ∨
    ∃ e w, m.resolve a.world = (.error e, w)

/-- What a call answers after its last attempt, the world it leaves, and the wait that follows that
attempt, if there is one. -/
inductive Verdict (m : ConnectionManager σ) (number : Nat) (a : Attempt σ α) :
    Except Error α → σ → List Duration → Prop
  /-- The value of the operation. -/
  | success {v : α} :
      a.outcome = .ok v → Verdict m number a (.ok v) a.world []
  /-- Exhausted resources are reported as they are. -/
  | exhausted {e : BackendError} :
      a.outcome = .error e → e.isResourceExhaustion = true →
      Verdict m number a (.error (.backend e)) a.world []
  /-- The budget is used up. -/
  | spent {e : BackendError} :
      a.outcome = .error e → e.isResourceExhaustion = false →
      number = m.policy.maxAttempts →
      Verdict m number a (.error (.retriesExhausted number e)) a.world []
  /-- The source fails after the wait. -/
  | unresolved {e : BackendError} {cause : Error} {w : σ} :
      a.outcome = .error e → e.isResourceExhaustion = false →
      number < m.policy.maxAttempts → m.resolve a.world = (.error cause, w) →
      Verdict m number a (.error cause) w [m.policy.delayAfter number]

/-- The parameters of the first attempt of a call, and the world in which it is made. -/
def StartsWith (m : ConnectionManager σ) (s : ConnectionState σ)
    (params : ConnectionParameters) (w : σ) : Prop :=
  (s.remembered = some params ∧ w = s.world) ∨
    (s.remembered = none ∧ m.resolve s.world = (.ok params, w))

/-- The manager beside whose world the parameters of all attempts are listed. -/
def logged (m : ConnectionManager σ) : ConnectionManager (List ConnectionParameters × σ) :=
  let connect := fun params (log, w) =>
    (m.backend.connect params).onSecond (log ++ [params], w)
  { m.onSecond with backend := { m.backend.onSecond with connect } }

end ConnectionManager

namespace ConnectionState

variable {σ : Type}

/-- The state with a list beside its world. -/
def withLog (s : ConnectionState σ) (log : List ConnectionParameters) :
    ConnectionState (List ConnectionParameters × σ) :=
  ⟨(log, s.world), s.remembered, s.waits⟩

end ConnectionState

namespace ConnectionManager

variable {σ α : Type}

@[simp] theorem logged_policy
    (m : ConnectionManager σ) :
    m.logged.policy = m.policy := by
  rfl

@[simp] theorem logged_resolve
    (m : ConnectionManager σ) (log : List ConnectionParameters) (w : σ) :
    m.logged.resolve (log, w) = ((m.resolve w).1, (log, (m.resolve w).2)) := by
  rfl

@[simp] theorem logged_attempt
    (m : ConnectionManager σ) (operation : BackendAction σ α) (params : ConnectionParameters)
    (log : List ConnectionParameters) (w : σ) :
    m.logged.attempt operation.onSecond params (log, w) =
      ((m.attempt operation params w).1, (log ++ [params], (m.attempt operation params w).2)) := by
  simp only [attempt, logged, BackendAction.andThen, BackendAction.onSecond]
  rcases h : m.backend.connect params w with ⟨_ | _, w'⟩ <;> simp [h]

/-- The attempts that the loop makes from the one with a given number on: those before the last one
do not end the call, and the last one does. -/
inductive Walk (m : ConnectionManager σ) (operation : BackendAction σ α) :
    Nat → ConnectionParameters → σ → List ConnectionParameters → Attempt σ α → Prop
  | last {number : Nat} {params : ConnectionParameters} {w : σ} :
      m.Ends number (m.attemptWith operation params w) →
      Walk m operation number params w [params] (m.attemptWith operation params w)
  | next {number : Nat} {params next : ConnectionParameters} {w w' : σ}
      {used : List ConnectionParameters} {last : Attempt σ α} :
      ¬ m.Ends number (m.attemptWith operation params w) →
      m.resolve (m.attemptWith operation params w).world = (.ok next, w') →
      Walk m operation (number + 1) next w' used last →
      Walk m operation number params w (params :: used) last

/-- The loop comes to an end within its budget. -/
theorem exists_walk
    (m : ConnectionManager σ) (operation : BackendAction σ α) (later : Nat) :
    ∀ (number : Nat) (params : ConnectionParameters) (w : σ),
      number + later = m.policy.maxAttempts →
      ∃ used last, m.Walk operation number params w used last ∧
        number + used.length ≤ m.policy.maxAttempts + 1 := by
  induction later with
  | zero =>
      -- without attempts left it is the budget that ends the call
      intro number params w hnumber
      have hends : m.Ends number (m.attemptWith operation params w) :=
        .inr (.inr (.inl hnumber))
      exact ⟨_, _, .last hends, by simp; omega⟩
  | succ later ih =>
      intro number params w hnumber
      by_cases hends : m.Ends number (m.attemptWith operation params w)
      · exact ⟨_, _, .last hends, by simp; omega⟩
      · cases hresolve : m.resolve (m.attemptWith operation params w).world with
        | mk answer w' =>
            cases answer with
            | error e =>
                exact absurd (.inr (.inr (.inr ⟨e, w', hresolve⟩))) hends
            | ok next =>
                obtain ⟨used, last, hwalk, hlength⟩ := ih (number + 1) next w' (by omega)
                refine ⟨_, _, .next hends hresolve hwalk, ?_⟩
                simp only [List.length_cons]
                omega

/-- After its first attempt a course is one that starts with the parameters given then. -/
theorem course_shift
    {m : ConnectionManager σ} {operation : BackendAction σ α} {params next : ConnectionParameters}
    {w w' : σ}
    (hresolve : m.resolve (m.attemptWith operation params w).world = (.ok next, w')) (n : Nat) :
    m.course operation params w (n + 1) = m.course operation next w' n := by
  induction n with
  | zero =>
      simp [course, following, hresolve]
  | succ n ih =>
      rw [course, ih]
      rfl

/-- The attempts of a walk are the first ones of the course. -/
theorem Walk.course
    {m : ConnectionManager σ} {operation : BackendAction σ α} {number : Nat}
    {params : ConnectionParameters} {w : σ} {used : List ConnectionParameters}
    {last : Attempt σ α} (h : m.Walk operation number params w used last) :
    ∃ n, used.length = n + 1 ∧
      m.course operation params w n = some last ∧ m.Ends (number + n) last ∧
      (∀ i, i ≤ n → used[i]? = (m.course operation params w i).map (·.parameters)) ∧
      ∀ i a, i < n → m.course operation params w i = some a → ¬ m.Ends (number + i) a := by
  induction h with
  | last hends =>
      refine ⟨0, rfl, rfl, hends, ?_, ?_⟩
      · intro i hi
        obtain rfl : i = 0 := by omega
        rfl
      · intro i a hi
        omega
  | @next number params next w w' used last hends hresolve hwalk ih =>
      obtain ⟨n, hlength, hlast, hend, hused, hbefore⟩ := ih
      -- the rest of the walk is the course from its second attempt on
      have hshift := course_shift hresolve
      refine ⟨n + 1, by simp [hlength], by rw [hshift, hlast], ?_, ?_, ?_⟩
      · rwa [Nat.add_right_comm] at hend
      · intro i hi
        cases i with
        | zero =>
            rfl
        | succ i =>
            rw [hshift, ← hused i (by omega)]
            rfl
      · intro i a hi ha
        cases i with
        | zero =>
            obtain rfl : m.attemptWith operation params w = a := Option.some.inj ha
            exact hends
        | succ i =>
            rw [hshift] at ha
            have := hbefore i a (by omega) ha
            rwa [Nat.add_right_comm] at this

/-- The waits after the first attempts of a call, as many as are given, from the one with the given
number on. -/
def waitsFrom (m : ConnectionManager σ) (number count : Nat) : List Duration :=
  (List.range count).map fun i => m.policy.delayAfter (number + i)

theorem waitsFrom_succ
    (m : ConnectionManager σ) (number count : Nat) :
    m.waitsFrom number (count + 1) =
      m.policy.delayAfter number :: m.waitsFrom (number + 1) count := by
  simp only [waitsFrom, List.range_succ_eq_map, List.map_cons, List.map_map, Nat.add_zero]
  congr 2
  funext i
  simp only [Function.comp_apply]
  congr 1
  omega

/-- An attempt that ends a call has a verdict. -/
theorem exists_verdict
    {m : ConnectionManager σ} {number : Nat} {a : Attempt σ α}
    (hends : m.Ends number a) (hnumber : number ≤ m.policy.maxAttempts) :
    ∃ result after wait, m.Verdict number a result after wait := by
  cases houtcome : a.outcome with
  | ok v =>
      exact ⟨_, _, _, .success houtcome⟩
  | error e =>
      cases hexhausted : e.isResourceExhaustion with
      | true =>
          exact ⟨_, _, _, .exhausted houtcome hexhausted⟩
      | false =>
          by_cases hspent : number = m.policy.maxAttempts
          · exact ⟨_, _, _, .spent houtcome hexhausted hspent⟩
          · rcases hends with ⟨v, hv⟩ | ⟨e', he, hex⟩ | hspent' | ⟨cause, w, hresolve⟩
            · simp [houtcome] at hv
            · rw [houtcome] at he
              cases he
              simp [hexhausted] at hex
            · exact absurd hspent' hspent
            · exact ⟨_, _, _, .unresolved houtcome hexhausted (by omega) hresolve⟩

/-- The loop stops at the attempt that has a verdict. -/
theorem attemptsFrom_last
    {m : ConnectionManager σ} {operation : BackendAction σ α} {later number : Nat}
    {params : ConnectionParameters} {s : ConnectionState σ} {result : Except Error α} {after : σ}
    {wait : List Duration}
    (hverdict : m.Verdict number (m.attemptWith operation params s.world) result after wait)
    (hnumber : number + later = m.policy.maxAttempts) :
    m.attemptsFrom operation later number params s =
      (result, ⟨after, s.remembered, s.waits ++ wait⟩) := by
  generalize ha : m.attemptWith operation params s.world = a at hverdict
  have hattempt : m.attempt operation params s.world = (a.outcome, a.world) := by
    rw [← ha]
    rfl
  unfold attemptsFrom
  rw [hattempt]
  cases hverdict with
  | success houtcome =>
      simp [houtcome]
  | exhausted houtcome hexhausted =>
      simp [houtcome, hexhausted]
  | spent houtcome hexhausted hspent =>
      obtain rfl : later = 0 := by omega
      simp [houtcome, hexhausted]
  | unresolved houtcome hexhausted hbudget hresolve =>
      obtain ⟨later, rfl⟩ : ∃ k, later = k + 1 := ⟨later - 1, by omega⟩
      simp [houtcome, hexhausted, resolveParameters, ConnectionState.wait, hresolve]

/-- The loop goes on after an attempt that does not end the call. -/
theorem attemptsFrom_next
    {m : ConnectionManager σ} {operation : BackendAction σ α} {later number : Nat}
    {params next : ConnectionParameters} {s : ConnectionState σ} {w : σ}
    (hends : ¬ m.Ends number (m.attemptWith operation params s.world))
    (hresolve : m.resolve (m.attemptWith operation params s.world).world = (.ok next, w)) :
    m.attemptsFrom operation (later + 1) number params s =
      m.attemptsFrom operation later (number + 1) next
        ⟨w, some next, s.waits ++ [m.policy.delayAfter number]⟩ := by
  generalize ha : m.attemptWith operation params s.world = a at hends hresolve
  have hattempt : m.attempt operation params s.world = (a.outcome, a.world) := by
    rw [← ha]
    rfl
  obtain ⟨e, houtcome, hexhausted⟩ :
      ∃ e, a.outcome = .error e ∧ e.isResourceExhaustion = false := by
    cases houtcome : a.outcome with
    | ok v =>
        exact absurd (.inl ⟨v, houtcome⟩) hends
    | error e =>
        cases hexhausted : e.isResourceExhaustion with
        | true =>
            exact absurd (.inr (.inl ⟨e, houtcome, hexhausted⟩)) hends
        | false =>
            exact ⟨e, rfl, hexhausted⟩
  rw [attemptsFrom, hattempt]
  simp [houtcome, hexhausted, resolveParameters, ConnectionState.wait, hresolve]

/-- The loop walks: it waits after each attempt but the last, and answers with the last one's
verdict. -/
theorem Walk.attemptsFrom
    {m : ConnectionManager σ} {operation : BackendAction σ α} {number : Nat}
    {params : ConnectionParameters} {w : σ} {used : List ConnectionParameters}
    {last : Attempt σ α} {result : Except Error α} {after : σ} {wait : List Duration}
    (h : m.Walk operation number params w used last) :
    ∀ (n later : Nat) (waits : List Duration), used.length = n + 1 →
      m.Verdict (number + n) last result after wait →
      number + later = m.policy.maxAttempts →
      m.attemptsFrom operation later number params ⟨w, some params, waits⟩ =
        (result, ⟨after, some last.parameters, waits ++ m.waitsFrom number n ++ wait⟩) := by
  induction h with
  | last hends =>
      intro n later waits hlength hverdict hnumber
      obtain rfl : n = 0 := by simpa using hlength.symm
      rw [attemptsFrom_last hverdict hnumber]
      simp [waitsFrom, attemptWith]
  | @next number params next w w' used last hends hresolve hwalk ih =>
      intro n later waits hlength hverdict hnumber
      obtain ⟨n, rfl⟩ : ∃ k, n = k + 1 := by
        cases hwalk <;> exact ⟨n - 1, by simp at hlength; omega⟩
      have hspent : number ≠ m.policy.maxAttempts := fun h => hends (.inr (.inr (.inl h)))
      obtain ⟨later, rfl⟩ : ∃ k, later = k + 1 := ⟨later - 1, by omega⟩
      rw [attemptsFrom_next hends hresolve]
      rw [ih n later _ (by simpa using hlength) (by rwa [Nat.add_right_comm] ) (by omega)]
      simp [waitsFrom_succ]

/-! ## Counting the connections -/

theorem logged_attemptWith
    (m : ConnectionManager σ) (operation : BackendAction σ α) (params : ConnectionParameters)
    (log : List ConnectionParameters) (w : σ) :
    m.logged.attemptWith operation.onSecond params (log, w) =
      ⟨params, (m.attemptWith operation params w).outcome,
        (log ++ [params], (m.attemptWith operation params w).world)⟩ := by
  simp [attemptWith]

theorem logged_ends_iff
    (m : ConnectionManager σ) (number : Nat) (a : Attempt σ α) (log : List ConnectionParameters) :
    m.logged.Ends number ⟨a.parameters, a.outcome, (log, a.world)⟩ ↔ m.Ends number a := by
  have hresolve :
      (∃ e w, m.logged.resolve (log, a.world) = (.error e, w)) ↔
        ∃ e w, m.resolve a.world = (.error e, w) := by
    rw [logged_resolve]
    rcases m.resolve a.world with ⟨_ | _, w⟩ <;> simp
  simp only [Ends, logged_policy, hresolve]

theorem Verdict.logged
    {m : ConnectionManager σ} {number : Nat} {a : Attempt σ α} {result : Except Error α}
    {after : σ} {wait : List Duration} (h : m.Verdict number a result after wait)
    (log : List ConnectionParameters) :
    m.logged.Verdict number ⟨a.parameters, a.outcome, (log, a.world)⟩ result (log, after) wait := by
  cases h with
  | success houtcome =>
      exact .success houtcome
  | exhausted houtcome hexhausted =>
      exact .exhausted houtcome hexhausted
  | spent houtcome hexhausted hspent =>
      exact .spent houtcome hexhausted hspent
  | unresolved houtcome hexhausted hbudget hresolve =>
      exact .unresolved houtcome hexhausted hbudget (by simp [hresolve])

/-- The manager with a log walks as before, and lists the parameters it uses. -/
theorem Walk.logged
    {m : ConnectionManager σ} {operation : BackendAction σ α} {number : Nat}
    {params : ConnectionParameters} {w : σ} {used : List ConnectionParameters}
    {last : Attempt σ α} (h : m.Walk operation number params w used last) :
    ∀ log : List ConnectionParameters,
      m.logged.Walk operation.onSecond number params (log, w) used
        ⟨last.parameters, last.outcome, (log ++ used, last.world)⟩ := by
  induction h with
  | @last number params w hends =>
      intro log
      have h := logged_attemptWith m operation params log w
      have hends' := (logged_ends_iff m number _ (log ++ [params])).mpr hends
      exact h ▸ .last (h ▸ hends')
  | @next number params next w w' used last hends hresolve hwalk ih =>
      intro log
      have h := logged_attemptWith m operation params log w
      have hends' := mt (logged_ends_iff m number _ (log ++ [params])).mp hends
      have htail := ih (log ++ [params])
      rw [List.append_assoc, List.singleton_append] at htail
      refine .next (h ▸ hends') ?_ htail
      rw [h, logged_resolve, hresolve]

/-! ## A call -/

/-- A call fails without an attempt if no parameters are remembered and the source gives none. -/
theorem execute_of_unresolved
    {m : ConnectionManager σ} {operation : BackendAction σ α} {s : ConnectionState σ}
    {e : Error} {w : σ} (hremembered : s.remembered = none)
    (hresolve : m.resolve s.world = (.error e, w)) :
    m.execute operation s = (.error e, { s with world := w }) := by
  simp [execute, currentParameters, resolveParameters, hremembered, hresolve]

/-- A call whose parameters are known is the loop from its first attempt on. -/
theorem execute_of_startsWith
    {m : ConnectionManager σ} {operation : BackendAction σ α} {s : ConnectionState σ}
    {params : ConnectionParameters} {w : σ} (h : m.StartsWith s params w) :
    m.execute operation s =
      m.attemptsFrom operation (m.policy.maxAttempts - 1) 1 params ⟨w, some params, s.waits⟩ := by
  obtain ⟨world, remembered, waits⟩ := s
  rcases h with ⟨hremembered, hw⟩ | ⟨hremembered, hresolve⟩
  · simp only at hremembered hw
    subst hremembered hw
    rfl
  · simp only at hremembered hresolve
    simp [execute, currentParameters, resolveParameters, hremembered, hresolve]

/-- **The outcome of a call.**  If no parameters are remembered and the source gives none, its error
is the answer, and nothing is attempted.  Otherwise the call makes the attempts of its course up to
the first one that ends it, with the parameters that the course gives them, waits after each attempt
before that one, and answers with that one's verdict. -/
theorem execute_outcome
    (m : ConnectionManager σ) (operation : BackendAction σ α) (s : ConnectionState σ)
    (log : List ConnectionParameters) (hbudget : 1 ≤ m.policy.maxAttempts) :
    (∀ e w, s.remembered = none → m.resolve s.world = (.error e, w) →
      m.execute operation s = (.error e, { s with world := w }) ∧
      m.logged.execute operation.onSecond (s.withLog log) =
        (.error e, { s with world := w }.withLog log)) ∧
    ∀ params w, m.StartsWith s params w →
      ∃ n last result after wait used,
        n + 1 ≤ m.policy.maxAttempts ∧
        m.course operation params w n = some last ∧ m.Ends (n + 1) last ∧
        (∀ i a, i < n → m.course operation params w i = some a → ¬ m.Ends (i + 1) a) ∧
        m.Verdict (n + 1) last result after wait ∧
        used.length = n + 1 ∧
        (∀ i, i ≤ n → used[i]? = (m.course operation params w i).map (·.parameters)) ∧
        m.execute operation s =
          (result, ⟨after, some last.parameters, s.waits ++ m.waitsFrom 1 n ++ wait⟩) ∧
        m.logged.execute operation.onSecond (s.withLog log) =
          (result, ⟨(log ++ used, after), some last.parameters,
            s.waits ++ m.waitsFrom 1 n ++ wait⟩) := by
  constructor
  · intro e w hremembered hresolve
    refine ⟨execute_of_unresolved hremembered hresolve, ?_⟩
    exact execute_of_unresolved (w := (log, w)) hremembered
      (by simp [ConnectionState.withLog, hresolve])
  · intro params w hstart
    have hnumber : 1 + (m.policy.maxAttempts - 1) = m.policy.maxAttempts := by omega
    obtain ⟨used, last, hwalk, hwithin⟩ :=
      exists_walk m operation (m.policy.maxAttempts - 1) 1 params w hnumber
    obtain ⟨n, hlength, hlast, hends, hused, hbefore⟩ := hwalk.course
    obtain ⟨result, after, wait, hverdict⟩ := exists_verdict hends (by omega)
    have hstart' : m.logged.StartsWith (s.withLog log) params (log, w) := by
      rcases hstart with ⟨hremembered, rfl⟩ | ⟨hremembered, hresolve⟩
      · exact .inl ⟨hremembered, rfl⟩
      · exact .inr ⟨hremembered, by simp [ConnectionState.withLog, hresolve]⟩
    refine ⟨n, last, result, after, wait, used, by omega, hlast, ?_, ?_, ?_, hlength, hused, ?_, ?_⟩
    · rwa [Nat.add_comm] at hends
    · intro i a hi ha
      have := hbefore i a hi ha
      rwa [Nat.add_comm] at this
    · rwa [Nat.add_comm] at hverdict
    · rw [execute_of_startsWith hstart]
      exact hwalk.attemptsFrom n _ s.waits hlength hverdict hnumber
    · rw [execute_of_startsWith hstart']
      exact (hwalk.logged log).attemptsFrom n _ s.waits hlength (hverdict.logged _) hnumber

/-- A manager with three attempts and a second of initial delay, in front of an unreliable
network. -/
def threeAttempts : ConnectionManager (Faults × MemoryBackend) where
  policy := ⟨3, Duration.ofSeconds 1⟩
  resolve := fun w => (.ok Sample.parameters, w)
  backend := MemoryBackend.backend.withFaults

/-- Two attempts fail, and the third one answers after waits of one second and of two. -/
theorem execute_outcome_third_attempt :
    1 ≤ threeAttempts.policy.maxAttempts ∧
    ∃ n result after used,
      n + 1 ≤ threeAttempts.policy.maxAttempts ∧ used.length = n + 1 ∧
      threeAttempts.logged.execute threeAttempts.backend.collectionNames.onSecond
          ((ConnectionState.initial ({ Faults.none with pending := 2 }, .empty)).withLog []) =
        (result, after) ∧
      n = 2 ∧ after.world.1 = used ∧ result = .ok [] ∧
      after.waits = [Duration.ofSeconds 1, Duration.ofSeconds 2] := by
  refine ⟨by decide, ?_⟩
  obtain ⟨n, last, result, after, wait, used, hn, -, -, -, -, hlength, -, -, hlogged⟩ :=
    (execute_outcome threeAttempts threeAttempts.backend.collectionNames
      (ConnectionState.initial ({ Faults.none with pending := 2 }, .empty)) [] (by decide)).2
      Sample.parameters _ (.inr ⟨rfl, rfl⟩)
  have hrun :
      threeAttempts.logged.execute threeAttempts.backend.collectionNames.onSecond
          ((ConnectionState.initial ({ Faults.none with pending := 2 }, .empty)).withLog []) =
        (.ok [], ⟨(List.replicate 3 Sample.parameters, ({ Faults.none with attempts := 3 },
          { MemoryBackend.empty with opened := 1 })), some Sample.parameters,
          [Duration.ofSeconds 1, Duration.ofSeconds 2]⟩) := by
    rfl
  rw [hrun] at hlogged
  obtain ⟨rfl, hafter⟩ := Prod.mk.inj hlogged
  simp only [ConnectionState.mk.injEq, Prod.mk.injEq] at hafter
  obtain ⟨⟨hused, -⟩, -, -⟩ := hafter
  have hthree : used.length = 3 := by
    rw [← List.nil_append used, ← hused]
    rfl
  exact ⟨n, _, _, used, hn, hlength, hrun, by omega, hused, rfl, rfl⟩

end ConnectionManager
end DocumentTables
