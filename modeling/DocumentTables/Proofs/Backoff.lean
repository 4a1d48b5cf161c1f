import Mathlib.Algebra.BigOperators.Intervals
import DocumentTables.Proofs.RetryLoop

/-!
# How long a failing call waits

The waits of a call grow linearly, and each of them, as well as each sum of them, stops at the longest
duration.  In spite of that the sum in the end is that of the exact waits, or the longest duration if
that is shorter: what was cut off a wait or a sum is more than the longest duration has room for.

**Results.**

* `RetryPolicy.nanoseconds_sumDurations_firstDelays`: the first waits of a policy in all.
* `ConnectionManager.attemptsFrom_exhausted`: the waits of a loop that uses up its attempts.
* `ConnectionManager.totalBackoff_waited`: the total of a policy, and that a call waits that long if it
  uses up its attempts.
-/

namespace DocumentTables

namespace Duration

@[simp] theorem nanoseconds_add
    (a b : Duration) :
    (a.add b).nanoseconds = min (a.nanoseconds + b.nanoseconds) max.nanoseconds := by
  rfl

@[simp] theorem nanoseconds_times
    (d : Duration) (n : Nat) :
    (d.times n).nanoseconds = min (d.nanoseconds * n) max.nanoseconds := by
  rfl

end Duration

namespace RetryPolicy

variable {policy : RetryPolicy}

theorem sumDurations_concat
    (ds : List Duration) (d : Duration) :
    sumDurations (ds ++ [d]) = (sumDurations ds).add d := by
  rw [sumDurations, List.foldl_append]
  rfl

/-- The waits after the first attempts, as many as are given. -/
def firstDelays (policy : RetryPolicy) (count : Nat) : List Duration :=
  (List.range count).map fun n => policy.delayAfter (n + 1)

theorem delays_eq
    (policy : RetryPolicy) :
    policy.delays = policy.firstDelays (policy.maxAttempts - 1) := by
  rfl

theorem firstDelays_succ
    (policy : RetryPolicy) (count : Nat) :
    policy.firstDelays (count + 1) =
      policy.firstDelays count ++ [policy.delayAfter (count + 1)] := by
  simp [firstDelays, List.range_succ]

theorem take_delays
    {count : Nat} (h : count < policy.maxAttempts) :
    policy.delays.take count = policy.firstDelays count := by
  rw [delays, ← List.map_take, List.take_range, Nat.min_eq_left (by omega), firstDelays]

/-- The first waits in all: as often the initial delay as their numbers sum up to, or the longest
duration. -/
theorem nanoseconds_sumDurations_firstDelays
    (policy : RetryPolicy) (count : Nat) :
    (sumDurations (policy.firstDelays count)).nanoseconds =
      min (policy.initialDelay.nanoseconds * ((count + 1) * count / 2))
        Duration.max.nanoseconds := by
  induction count with
  | zero =>
      rfl
  | succ count ih =>
      have htriangle := Nat.triangle_succ (count + 1)
      rw [Nat.add_sub_cancel, Nat.add_sub_cancel] at htriangle
      have hmore : policy.initialDelay.nanoseconds * ((count + 1 + 1) * (count + 1) / 2) =
          policy.initialDelay.nanoseconds * ((count + 1) * count / 2) +
            policy.initialDelay.nanoseconds * (count + 1) := by
        rw [htriangle, Nat.mul_add]
      rw [firstDelays_succ, sumDurations_concat, Duration.nanoseconds_add, ih, delayAfter,
        Duration.nanoseconds_times, hmore]
      omega

/-- The waits of a policy in all. -/
theorem nanoseconds_totalBackoff
    (policy : RetryPolicy) :
    policy.totalBackoff.nanoseconds =
      min (policy.initialDelay.nanoseconds * (policy.maxAttempts * (policy.maxAttempts - 1) / 2))
        Duration.max.nanoseconds := by
  rw [totalBackoff, delays_eq, nanoseconds_sumDurations_firstDelays]
  cases policy.maxAttempts with
  | zero =>
      rfl
  | succ n =>
      rfl

end RetryPolicy

namespace ConnectionManager

variable {σ α : Type} {m : ConnectionManager σ} {operation : BackendAction σ α} {attempts : Nat}
  {cause : BackendError} {s s' : ConnectionState σ}

/-- The source never answers with the given error. -/
def NeverAnswers (m : ConnectionManager σ) (e : Error) : Prop :=
  ∀ w w', m.resolve w ≠ (.error e, w')

/-- A loop that uses up its attempts has waited after each of them but the last. -/
theorem attemptsFrom_exhausted
    (hsource : m.NeverAnswers (.retriesExhausted attempts cause)) {later number : Nat}
    {params : ConnectionParameters}
    (h : m.attemptsFrom operation later number params s =
      (.error (.retriesExhausted attempts cause), s')) :
    attempts = number + later ∧ s'.waits = s.waits ++ m.waitsFrom number later := by
  induction later generalizing number params s with
  | zero =>
      rw [attemptsFrom] at h
      split at h
      · cases h
      · split at h
        · cases h
        · cases h
          exact ⟨rfl, by simp [waitsFrom]⟩
  | succ later ih =>
      rw [attemptsFrom] at h
      split at h
      · cases h
      · split at h
        · cases h
        · simp only [resolveParameters, ConnectionState.wait] at h
          split at h
          · next hresolve =>
              split at hresolve
              · cases hresolve
              · next hfailed =>
                  cases hresolve
                  cases h
                  exact absurd hfailed (hsource _ _)
          · next hresolve =>
              split at hresolve
              · cases hresolve
                obtain ⟨hattempts, hwaits⟩ := ih h
                refine ⟨by omega, ?_⟩
                rw [hwaits, waitsFrom_succ]
                simp
              · cases hresolve

/-- A call that uses up its attempts has waited as its policy says. -/
theorem execute_exhausted
    (hsource : m.NeverAnswers (.retriesExhausted attempts cause))
    (hbudget : 1 ≤ m.policy.maxAttempts)
    (h : m.execute operation s = (.error (.retriesExhausted attempts cause), s')) :
    attempts = m.policy.maxAttempts ∧ s'.waits = s.waits ++ m.policy.delays := by
  have hdelays : m.waitsFrom 1 (m.policy.maxAttempts - 1) = m.policy.delays := by
    simp only [waitsFrom, RetryPolicy.delays, Nat.add_comm]
  rw [execute] at h
  split at h
  · next e world hcurrent =>
      cases h
      rw [currentParameters, resolveParameters] at hcurrent
      split at hcurrent
      · cases hcurrent
      · split at hcurrent
        · cases hcurrent
        · next hfailed =>
            cases hcurrent
            exact absurd hfailed (hsource _ _)
  · next params started hcurrent =>
      obtain ⟨hattempts, hwaits⟩ := attemptsFrom_exhausted hsource h
      have hstarted : started.waits = s.waits := by
        rw [currentParameters, resolveParameters] at hcurrent
        split at hcurrent
        · cases hcurrent
          rfl
        · split at hcurrent <;> cases hcurrent
          rfl
      rw [hwaits, hstarted, hdelays]
      exact ⟨by omega, rfl⟩

/-- The total of a valid policy is the initial delay as often as the numbers of all attempts but the
last sum up to, or the longest duration if that is shorter, and the same holds of the first waits; and
a call that uses up its attempts under the policy has waited for the total.  A source that answers
with the very error of such a call is left out, since its error ends a call at any attempt. -/
theorem totalBackoff_waited
    (policy : RetryPolicy) (hvalid : policy.validate = .ok ()) :
    policy.totalBackoff.nanoseconds =
        min (policy.initialDelay.nanoseconds * (policy.maxAttempts * (policy.maxAttempts - 1) / 2))
          Duration.max.nanoseconds ∧
      (∀ count < policy.maxAttempts,
        (RetryPolicy.sumDurations (policy.delays.take count)).nanoseconds =
          min (policy.initialDelay.nanoseconds * ((count + 1) * count / 2))
            Duration.max.nanoseconds) ∧
      ∀ (σ α : Type) (m : ConnectionManager σ) (operation : BackendAction σ α)
        (s s' : ConnectionState σ) (attempts : Nat) (cause : BackendError),
        m.policy = policy → m.NeverAnswers (.retriesExhausted attempts cause) →
        m.execute operation s = (.error (.retriesExhausted attempts cause), s') →
          attempts = policy.maxAttempts ∧ ∃ slept, s'.waits = s.waits ++ slept ∧
            RetryPolicy.sumDurations slept = policy.totalBackoff := by
  refine ⟨policy.nanoseconds_totalBackoff, fun count hcount => ?_, ?_⟩
  · rw [RetryPolicy.take_delays hcount]
    exact policy.nanoseconds_sumDurations_firstDelays count
  · rintro σ α m operation s s' attempts cause rfl hsource h
    obtain ⟨hattempts, hwaits⟩ :=
      execute_exhausted hsource (RetryPolicy.validate_eq_ok_iff.mp hvalid).1 h
    exact ⟨hattempts, m.policy.delays, hwaits, rfl⟩

/-- Three attempts fail, with waits of one second and of two. -/
theorem totalBackoff_waited_three_attempts :
    threeAttempts.policy.validate = .ok () ∧
      threeAttempts.policy.totalBackoff = Duration.ofSeconds 3 ∧
      ∃ s' slept,
        threeAttempts.execute threeAttempts.backend.collectionNames
            (.initial ({ Faults.none with pending := 3 }, .empty)) =
          (.error (.retriesExhausted 3 Faults.none.error), s') ∧
        s'.waits = slept ∧
        RetryPolicy.sumDurations slept = threeAttempts.policy.totalBackoff := by
  have hvalid : threeAttempts.policy.validate = .ok () := by
    rfl
  obtain ⟨htotal, -, hcalls⟩ := totalBackoff_waited threeAttempts.policy hvalid
  obtain ⟨s', hcall⟩ : ∃ s', threeAttempts.execute threeAttempts.backend.collectionNames
      (.initial ({ Faults.none with pending := 3 }, .empty)) =
        (.error (.retriesExhausted 3 Faults.none.error), s') := ⟨_, rfl⟩
  have hsource : threeAttempts.NeverAnswers (.retriesExhausted 3 Faults.none.error) := by
    intro w w' h
    cases h
  obtain ⟨-, slept, hwaits, hsum⟩ := hcalls _ _ _ _ _ _ _ _ rfl hsource hcall
  exact ⟨hvalid, congrArg Duration.mk htotal, s', slept, hcall, hwaits, hsum⟩

/-- Two waits of the longest duration stop at it. -/
example : (RetryPolicy.mk 3 Duration.max).totalBackoff = Duration.max := by
  rfl

end ConnectionManager
end DocumentTables
