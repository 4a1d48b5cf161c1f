import DocumentTables.Proofs.RetryLoop

/-!
# Parameters after a failure

A manager asks its source for parameters again after a failed attempt, since credentials may have
been changed meanwhile.  It does so inside a call, before the next attempt.  After the last attempt
of a call that fails it does not ask, and keeps the parameters with which that attempt failed; so
the next call begins with these.

To tell what a manager did, `recorded` puts a list of events beside its world.

**Results.**

* `ConnectionManager.execute_recorded`: the record changes nothing.
* `ConnectionManager.execute_ready`: what a call makes of the record.
* `ConnectionManager.Calls.ready`: a sequence of calls picks up new parameters after every failure
  exactly if none but the last one fails.
* `ConnectionManager.keeps_rejected_parameters`: a password is changed between two calls.
-/

namespace DocumentTables

/-- What a manager does that others can see. -/
inductive ManagerEvent where
  /-- The source gave parameters. -/
  | resolved (params : ConnectionParameters)
  /-- An attempt was begun with parameters. -/
  | attempted (params : ConnectionParameters)
  /-- The attempt failed. -/
  | failed (cause : BackendError)

/-- The parameters were given after each failure. -/
def Renewed (events : List ManagerEvent) (params : ConnectionParameters) : Prop :=
  ∀ before between cause, events = before ++ .failed cause :: between → .resolved params ∈ between

/-- Every attempt after a failure is made with parameters that were given after that failure. -/
def PicksUp (events : List ManagerEvent) : Prop :=
  ∀ before between after cause params,
    events = before ++ .failed cause :: (between ++ .attempted params :: after) →
    .resolved params ∈ between

section Events

variable {events more before after : List ManagerEvent} {event old : ManagerEvent}
  {params : ConnectionParameters} {cause : BackendError}

/-- An event of a list that was continued by one is the new one or stood there before. -/
theorem snoc_eq_append_cons :
    events ++ [event] = before ++ old :: after ↔
      (after = [] ∧ events = before ∧ event = old) ∨
        ∃ rest, after = rest ++ [event] ∧ events = before ++ old :: rest := by
  constructor
  · intro h
    rcases List.eq_nil_or_concat after with rfl | ⟨rest, last, rfl⟩
    · obtain ⟨hevents, hevent⟩ := List.append_inj' h rfl
      exact .inl ⟨rfl, hevents, List.singleton_inj.mp hevent⟩
    · rw [List.concat_eq_append, ← List.cons_append, ← List.append_assoc] at h
      obtain ⟨hevents, hevent⟩ := List.append_inj' h rfl
      rw [List.concat_eq_append, List.singleton_inj.mp hevent]
      exact .inr ⟨rest, rfl, hevents⟩
  · rintro (⟨rfl, rfl, rfl⟩ | ⟨rest, rfl, rfl⟩)
    · rfl
    · simp

/-- After an event that is no failure, parameters are new if they were before. -/
theorem Renewed.snoc
    (h : Renewed events params) (hevent : ∀ cause, event ≠ .failed cause) :
    Renewed (events ++ [event]) params := by
  intro before between cause hsplit
  rcases snoc_eq_append_cons.mp hsplit with ⟨-, -, hlast⟩ | ⟨rest, rfl, hevents⟩
  · exact absurd hlast (hevent cause)
  · exact List.mem_append_left _ (h before rest cause hevents)

/-- Parameters that were just given are new. -/
theorem renewed_resolved :
    Renewed (events ++ [.resolved params]) params := by
  intro before between cause hsplit
  rcases snoc_eq_append_cons.mp hsplit with ⟨-, -, hlast⟩ | ⟨rest, rfl, -⟩
  · cases hlast
  · exact List.mem_append_right _ (List.mem_singleton_self _)

theorem picksUp_nil :
    PicksUp [] := by
  intro before between after cause params h
  simp at h

theorem PicksUp.of_isPrefix
    (h : PicksUp more) (hevents : events <+: more) :
    PicksUp events := by
  obtain ⟨rest, rfl⟩ := hevents
  rintro before between after cause params rfl
  exact h before between (after ++ rest) cause params (by simp)

/-- An event that is no attempt needs no parameters. -/
theorem picksUp_snoc_iff
    (hevent : ∀ params, event ≠ .attempted params) :
    PicksUp (events ++ [event]) ↔ PicksUp events := by
  refine ⟨fun h => h.of_isPrefix (List.prefix_append _ _), fun h => ?_⟩
  intro before between after cause params hsplit
  rw [← List.cons_append, ← List.append_assoc] at hsplit
  rcases snoc_eq_append_cons.mp hsplit with ⟨-, -, hlast⟩ | ⟨rest, -, hevents⟩
  · exact absurd hlast (hevent params)
  · rw [List.append_assoc, List.cons_append] at hevents
    exact h before between rest cause params hevents

/-- An attempt must be made with new parameters. -/
theorem picksUp_attempted_iff :
    PicksUp (events ++ [.attempted params]) ↔ PicksUp events ∧ Renewed events params := by
  constructor
  · intro h
    constructor
    · exact h.of_isPrefix (List.prefix_append _ _)
    · rintro before between cause rfl
      exact h before between [] cause params (by simp)
  · rintro ⟨hpicks, hrenewed⟩ before between after cause given hsplit
    rw [← List.cons_append, ← List.append_assoc] at hsplit
    rcases snoc_eq_append_cons.mp hsplit with ⟨-, hevents, hlast⟩ | ⟨rest, -, hevents⟩
    · cases hlast
      exact hrenewed before between cause hevents
    · rw [List.append_assoc, List.cons_append] at hevents
      exact hpicks before between rest cause given hevents

/-- No parameters are new right after a failure. -/
theorem not_renewed_failed :
    ¬ Renewed (events ++ [.failed cause]) params := by
  intro h
  simpa using h events [] cause rfl

end Events

namespace BackendAction

variable {σ α : Type}

/-- The action beside a list of events, to which it adds its failure. -/
def recorded (action : BackendAction σ α) : BackendAction (List ManagerEvent × σ) α :=
  fun (events, w) =>
    match action w with
    | (.ok a, w) => (.ok a, (events, w))
    | (.error e, w) => (.error e, (events ++ [.failed e], w))

end BackendAction

namespace ConnectionState

variable {σ : Type}

/-- The state with a list of events beside its world. -/
def withEvents (s : ConnectionState σ) (events : List ManagerEvent) :
    ConnectionState (List ManagerEvent × σ) :=
  ⟨(events, s.world), s.remembered, s.waits⟩

end ConnectionState

namespace ConnectionManager

variable {σ α : Type}

/-- The manager beside whose world its events are listed. -/
def recorded (m : ConnectionManager σ) : ConnectionManager (List ManagerEvent × σ) where
  policy := m.policy
  resolve := fun (events, w) =>
    match m.resolve w with
    | (.ok params, w) => (.ok params, (events ++ [.resolved params], w))
    | (.error e, w) => (.error e, (events, w))
  backend :=
    { m.backend.onSecond with
      connect := fun params (events, w) =>
        (m.backend.connect params).recorded (events ++ [.attempted params], w) }

/-- The source gives parameters whenever it is asked. -/
def AlwaysResolves (m : ConnectionManager σ) : Prop :=
  ∀ w, ∃ params w', m.resolve w = (.ok params, w')

/-- Calls of a manager one after the other, each with what it came to.  In between, the world may
change; the events and what the manager remembers do not. -/
inductive Calls (m : ConnectionManager σ) (s : ConnectionState (List ManagerEvent × σ)) :
    List (Except Error Unit) → ConnectionState (List ManagerEvent × σ) → Prop
  | start : Calls m s [] s
  | elsewhere {results : List (Except Error Unit)} {s₁ : ConnectionState (List ManagerEvent × σ)}
      (w : σ) :
      Calls m s results s₁ → Calls m s results { s₁ with world := (s₁.world.1, w) }
  | call {α : Type} {results : List (Except Error Unit)}
      {s₁ s₂ : ConnectionState (List ManagerEvent × σ)} {result : Except Error α}
      (operation : BackendAction σ α) :
      Calls m s results s₁ → m.recorded.execute operation.recorded s₁ = (result, s₂) →
      Calls m s (results ++ [result.map fun _ => ()]) s₂

variable {m : ConnectionManager σ} {operation : BackendAction σ α}
  {s s' : ConnectionState (List ManagerEvent × σ)} {params : ConnectionParameters}
  {result : Except Error α}

/-- An attempt is recorded with its parameters, and so is its failure. -/
theorem recorded_attempt
    (m : ConnectionManager σ) (operation : BackendAction σ α) (params : ConnectionParameters)
    (events : List ManagerEvent) (w : σ) :
    m.recorded.attempt operation.recorded params (events, w) =
      match m.attempt operation params w with
      | (.ok a, w') => (.ok a, (events ++ [.attempted params], w'))
      | (.error e, w') => (.error e, (events ++ [.attempted params] ++ [.failed e], w')) := by
  simp only [attempt, recorded, BackendAction.andThen, BackendAction.recorded]
  rcases m.backend.connect params w with ⟨_ | _, w₁⟩
  · rfl
  · rfl

/-- What the source gives is recorded. -/
theorem recorded_resolveParameters
    (m : ConnectionManager σ) (events : List ManagerEvent) (w : σ)
    (remembered : Option ConnectionParameters) (waits : List Duration) :
    m.recorded.resolveParameters ⟨(events, w), remembered, waits⟩ =
      match m.resolve w with
      | (.ok params, w') => (.ok params, ⟨(events ++ [.resolved params], w'), some params, waits⟩)
      | (.error e, w') => (.error e, ⟨(events, w'), remembered, waits⟩) := by
  simp only [resolveParameters, recorded]
  rcases m.resolve w with ⟨_ | _, w'⟩ <;> rfl

/-- The loop comes to the same with a record. -/
theorem attemptsFrom_recorded
    (m : ConnectionManager σ) (operation : BackendAction σ α) (later number : Nat)
    (params : ConnectionParameters) (s : ConnectionState σ) (events : List ManagerEvent) :
    ∃ more, m.recorded.attemptsFrom operation.recorded later number params (s.withEvents events) =
      ((m.attemptsFrom operation later number params s).1,
        (m.attemptsFrom operation later number params s).2.withEvents more) := by
  induction later generalizing number params s events with
  | zero =>
      rw [attemptsFrom, attemptsFrom]
      simp only [ConnectionState.withEvents, recorded_attempt]
      rcases m.attempt operation params s.world with ⟨e | a, w⟩
      · simp only
        split <;> exact ⟨_, rfl⟩
      · exact ⟨_, rfl⟩
  | succ rest ih =>
      rw [attemptsFrom, attemptsFrom]
      simp only [ConnectionState.withEvents, recorded_attempt]
      rcases m.attempt operation params s.world with ⟨e | a, w⟩
      · simp only
        split
        · exact ⟨_, rfl⟩
        · simp only [ConnectionState.wait, recorded_resolveParameters]
          simp only [resolveParameters]
          rcases m.resolve w with ⟨e' | next, w'⟩
          · exact ⟨_, rfl⟩
          · exact ih (number + 1) next ⟨w', some next, _⟩ _
      · exact ⟨_, rfl⟩

/-- A call comes to the same with a record. -/
theorem execute_recorded
    (m : ConnectionManager σ) (operation : BackendAction σ α) (s : ConnectionState σ)
    (events : List ManagerEvent) :
    ∃ more, m.recorded.execute operation.recorded (s.withEvents events) =
      ((m.execute operation s).1, (m.execute operation s).2.withEvents more) := by
  obtain ⟨w, remembered, waits⟩ := s
  cases remembered with
  | some params =>
      exact attemptsFrom_recorded m operation _ 1 params ⟨w, some params, waits⟩ events
  | none =>
      simp only [execute, currentParameters, ConnectionState.withEvents, recorded_resolveParameters]
      simp only [resolveParameters]
      rcases m.resolve w with ⟨e | params, w'⟩
      · exact ⟨_, rfl⟩
      · exact attemptsFrom_recorded m operation _ 1 params ⟨w', some params, waits⟩ _

/-! ## The record of a call -/

/-- So far new parameters were picked up, and those that are remembered are new. -/
structure Ready (s : ConnectionState (List ManagerEvent × σ)) : Prop where
  picksUp : PicksUp s.world.1
  renewed : ∀ params, s.remembered = some params → Renewed s.world.1 params

/-- The loop ends with its next attempt, or that one fails, new parameters are given, and it goes on
with these. -/
theorem attemptsFrom_recorded_cases
    {later number : Nat} {events : List ManagerEvent} {w : σ}
    {remembered : Option ConnectionParameters} {waits : List Duration}
    (hresolves : m.AlwaysResolves)
    (h : m.recorded.attemptsFrom operation.recorded later number params
      ⟨(events, w), remembered, waits⟩ = (result, s')) :
    (∃ a w', result = .ok a ∧ s' = ⟨(events ++ [.attempted params], w'), remembered, waits⟩) ∨
    (∃ e cause w', result = .error e ∧
      s' = ⟨(events ++ [.attempted params] ++ [.failed cause], w'), remembered, waits⟩) ∨
    ∃ rest cause next w' waits', later = rest + 1 ∧
      m.recorded.attemptsFrom operation.recorded rest (number + 1) next
        ⟨(events ++ [.attempted params] ++ [.failed cause] ++ [.resolved next], w'), some next,
          waits'⟩ = (result, s') := by
  rw [attemptsFrom, recorded_attempt] at h
  rcases hattempt : m.attempt operation params w with ⟨e | a, w₁⟩
  · simp only [hattempt] at h
    by_cases hexhausted : e.isResourceExhaustion = true
    · rw [if_pos hexhausted] at h
      cases h
      exact .inr (.inl ⟨_, e, w₁, rfl, rfl⟩)
    · rw [if_neg hexhausted] at h
      cases later with
      | zero =>
          cases h
          exact .inr (.inl ⟨_, e, w₁, rfl, rfl⟩)
      | succ rest =>
          obtain ⟨next, w₂, hresolve⟩ := hresolves w₁
          rw [ConnectionState.wait, recorded_resolveParameters] at h
          simp only [hresolve] at h
          exact .inr (.inr ⟨rest, e, next, w₂, _, rfl, h⟩)
  · simp only [hattempt] at h
    cases h
    exact .inl ⟨a, w₁, rfl, rfl⟩

/-- The loop picks up new parameters exactly if its first attempt is made with new ones.  It leaves
new ones behind if it succeeds, too. -/
theorem attemptsFrom_ready
    {later number : Nat} {events : List ManagerEvent} {w : σ} {waits : List Duration}
    (hresolves : m.AlwaysResolves)
    (h : m.recorded.attemptsFrom operation.recorded later number params
      ⟨(events, w), some params, waits⟩ = (result, s')) :
    (PicksUp s'.world.1 ↔ PicksUp events ∧ Renewed events params) ∧
      (Ready s' ↔ (PicksUp events ∧ Renewed events params) ∧ ∃ a, result = .ok a) := by
  induction later using Nat.strongRecOn generalizing number params events w waits with
  | ind later ih =>
      rcases attemptsFrom_recorded_cases hresolves h with
        ⟨a, w', rfl, rfl⟩ | ⟨e, cause, w', rfl, rfl⟩ |
          ⟨rest, cause, next, w', waits', rfl, hrest⟩
      · refine ⟨picksUp_attempted_iff, ?_⟩
        constructor
        · intro hready
          exact ⟨picksUp_attempted_iff.mp hready.picksUp, a, rfl⟩
        · rintro ⟨hnew, -⟩
          refine ⟨picksUp_attempted_iff.mpr hnew, ?_⟩
          rintro given ⟨⟩
          exact hnew.2.snoc (by simp)
      · refine ⟨(picksUp_snoc_iff (by simp)).trans picksUp_attempted_iff, ?_⟩
        constructor
        · intro hready
          exact absurd (hready.renewed params rfl) not_renewed_failed
        · rintro ⟨-, a, ⟨⟩⟩
      · -- the parameters of the next attempt were given just now
        have hnext :
            PicksUp (events ++ [.attempted params] ++ [.failed cause] ++ [.resolved next]) ∧
                Renewed (events ++ [.attempted params] ++ [.failed cause] ++ [.resolved next])
                  next ↔
              PicksUp events ∧ Renewed events params := by
          rw [and_iff_left renewed_resolved, picksUp_snoc_iff (by simp), picksUp_snoc_iff (by simp),
            picksUp_attempted_iff]
        rw [← hnext]
        exact ih rest (by omega) hrest

/-- A call picks up new parameters exactly if those that are remembered are new, if there are any.
It leaves new ones behind if it succeeds, too. -/
theorem execute_ready
    (hresolves : m.AlwaysResolves)
    (h : m.recorded.execute operation.recorded s = (result, s')) :
    (PicksUp s'.world.1 ↔ Ready s) ∧ (Ready s' ↔ Ready s ∧ ∃ a, result = .ok a) := by
  obtain ⟨⟨events, w⟩, remembered, waits⟩ := s
  cases remembered with
  | some params =>
      have hready : Ready (⟨(events, w), some params, waits⟩ : ConnectionState _) ↔
          PicksUp events ∧ Renewed events params := by
        constructor
        · exact fun h => ⟨h.picksUp, h.renewed params rfl⟩
        · rintro ⟨hpicks, hrenewed⟩
          refine ⟨hpicks, ?_⟩
          rintro given ⟨⟩
          exact hrenewed
      rw [hready]
      exact attemptsFrom_ready hresolves h
  | none =>
      obtain ⟨params, w', hresolve⟩ := hresolves w
      have hready : Ready (⟨(events, w), none, waits⟩ : ConnectionState _) ↔
          PicksUp (events ++ [.resolved params]) ∧
            Renewed (events ++ [.resolved params]) params := by
        rw [and_iff_left renewed_resolved, picksUp_snoc_iff (by simp)]
        exact ⟨Ready.picksUp, fun h => ⟨h, by simp⟩⟩
      rw [hready]
      simp only [execute, currentParameters, recorded_resolveParameters, hresolve] at h
      exact attemptsFrom_ready hresolves h

/-! ## Calls one after the other -/

/-- Calls one after the other leave new parameters behind exactly if all of them succeed, and pick
up new parameters after each failure exactly if all of them but the last one do. -/
theorem Calls.ready
    {w : σ} {results : List (Except Error Unit)}
    (hresolves : m.AlwaysResolves) (h : m.Calls (.initial ([], w)) results s) :
    (Ready s ↔ ∀ result ∈ results, result = .ok ()) ∧
      (PicksUp s.world.1 ↔ ∀ result ∈ results.dropLast, result = .ok ()) := by
  induction h with
  | start =>
      have hready : Ready (.initial (([], w) : List ManagerEvent × σ)) :=
        ⟨picksUp_nil, by simp [ConnectionState.initial]⟩
      have hnone : ∀ result ∈ ([] : List (Except Error Unit)), result = .ok () :=
        List.forall_mem_nil _
      exact ⟨⟨fun _ => hnone, fun _ => hready⟩, ⟨fun _ => hnone, fun _ => picksUp_nil⟩⟩
  | elsewhere _ _ ih =>
      refine ⟨?_, ih.2⟩
      rw [← ih.1]
      exact ⟨fun h => ⟨h.picksUp, h.renewed⟩, fun h => ⟨h.picksUp, h.renewed⟩⟩
  | @call _ results _ _ result _ _ hcall ih =>
      obtain ⟨hpicks, hready⟩ := execute_ready hresolves hcall
      rw [List.dropLast_concat, hpicks, hready, ih.1, List.forall_mem_append,
        List.forall_mem_singleton]
      refine ⟨and_congr_right fun _ => ?_, Iff.rfl⟩
      cases result <;> simp [Except.map]

/-! ## Changed credentials -/

/-- A manager whose source gives an old password once, and then the new one. -/
def rotating (maxAttempts : Nat) : ConnectionManager (Nat × MemoryBackend) where
  policy := ⟨maxAttempts, Duration.ofSeconds 1⟩
  resolve := fun (asked, w) =>
    let password := if asked = 0 then "old" else "new"
    (.ok { Sample.parameters with password }, (asked + 1, w))
  backend := MemoryBackend.backend.onSecond

/-- A backend that requires the new password. -/
def rotated : MemoryBackend :=
  { MemoryBackend.empty with credentials := some ("tabula", "new") }

theorem rotating_resolves (maxAttempts : Nat) :
    (rotating maxAttempts).AlwaysResolves := by
  intro w
  exact ⟨_, _, rfl⟩

/-- With two attempts, a call picks up the new password after the old one was rejected. -/
theorem Calls.ready_second_attempt :
    (rotating 2).AlwaysResolves ∧
      ∃ s, (rotating 2).Calls (.initial ([], (0, rotated))) [.ok ()] s ∧
        Ready s ∧ PicksUp s.world.1 := by
  have hresolves := rotating_resolves 2
  have hcalls : (rotating 2).Calls (.initial ([], (0, rotated))) [.ok ()] _ :=
    .call (rotating 2).backend.collectionNames .start rfl
  obtain ⟨hready, hpicks⟩ := Calls.ready hresolves hcalls
  exact ⟨hresolves, _, hcalls, hready.mpr (by simp), hpicks.mpr (by simp)⟩

/-- With one attempt for each call, the second call is made with the old password again, although
the source would give the new one. -/
theorem keeps_rejected_parameters :
    ¬ ∀ (σ : Type) (m : ConnectionManager σ) (w : σ) (results : List (Except Error Unit))
        (s : ConnectionState (List ManagerEvent × σ)),
      1 ≤ m.policy.maxAttempts → m.AlwaysResolves → m.Calls (.initial ([], w)) results s →
        PicksUp s.world.1 := by
  intro h
  have hfirst : (rotating 1).Calls (.initial ([], (0, rotated))) _ _ :=
    .call (rotating 1).backend.collectionNames .start rfl
  have hsecond : (rotating 1).Calls (.initial ([], (0, rotated))) _ _ :=
    .call (rotating 1).backend.collectionNames hfirst rfl
  have hpicks := h _ _ _ _ _ (by decide) (rotating_resolves 1) hsecond
  -- nothing happens between the failure and the next attempt
  have hgiven := hpicks [_, _] [] [_] _ _ rfl
  exact List.not_mem_nil hgiven

end ConnectionManager
end DocumentTables
