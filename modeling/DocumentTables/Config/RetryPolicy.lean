import DocumentTables.Config.Environment
import DocumentTables.Duration

/-!
# Retry policies

A failed attempt is followed by a wait that grows linearly: after the attempt with number `n` the
initial delay `n` times.  The number of attempts is bounded.
-/

namespace DocumentTables

/-- How often an operation is attempted, and how long the first wait is. -/
structure RetryPolicy where
  maxAttempts : Nat
  initialDelay : Duration
deriving DecidableEq, Repr

namespace RetryPolicy

/-- Fifteen attempts and ten seconds, about twenty minutes in all: time to bring back a backend. -/
def default : RetryPolicy := ⟨15, Duration.ofSeconds 10⟩

instance : Inhabited RetryPolicy := ⟨default⟩

/-- The wait after the failed attempt with the given number, counted from one. -/
def delayAfter (policy : RetryPolicy) (attempt : Nat) : Duration :=
  policy.initialDelay.times attempt

/-- The sum of durations, taken from left to right. -/
def sumDurations (ds : List Duration) : Duration :=
  ds.foldl Duration.add Duration.zero

/-- The waits after all attempts but the last, in order. -/
def delays (policy : RetryPolicy) : List Duration :=
  (List.range (policy.maxAttempts - 1)).map fun n => policy.delayAfter (n + 1)

/-- The longest time that an operation waits in all. -/
def totalBackoff (policy : RetryPolicy) : Duration :=
  sumDurations policy.delays

/-- There is at least one attempt, and the first wait is a second or longer. -/
def validate (policy : RetryPolicy) : Except ConfigError Unit :=
  if policy.maxAttempts < 1 then
    .error (.invalidValue "max_attempts" (toString policy.maxAttempts)
      "max_attempts must be at least 1")
  else if policy.initialDelay.nanoseconds < Duration.perSecond then
    .error (.invalidValue "initial_delay" policy.initialDelay.describe
      "initial_delay must be at least 1 second")
  else .ok ()

/-- A valid policy. -/
def checked (policy : RetryPolicy) : Except ConfigError RetryPolicy :=
  policy.validate.map fun _ => policy

/-- A policy is valid if it has an attempt and the first wait is a second. -/
theorem validate_eq_ok_iff
    {policy : RetryPolicy} :
    policy.validate = .ok () ↔
      1 ≤ policy.maxAttempts ∧ Duration.perSecond ≤ policy.initialDelay.nanoseconds := by
  rw [validate]
  split
  · next hnone =>
      simp only [reduceCtorEq, false_iff]
      omega
  · next hsome =>
      split
      · next hshort =>
          simp only [reduceCtorEq, false_iff]
          omega
      · next hlong =>
          simp only [true_iff]
          omega

theorem checked_eq_ok_iff
    {policy other : RetryPolicy} :
    policy.checked = .ok other ↔ policy.validate = .ok () ∧ other = policy := by
  rw [checked]
  cases policy.validate with
  | ok valid =>
      simp [Except.map, eq_comm]
  | error e =>
      simp [Except.map]

/-- The variable with the number of attempts. -/
def attemptsVariable : String := "TABULA_DB_RETRY_ATTEMPTS"

/-- The variable with the seconds of the initial delay. -/
def delayVariable : String := "TABULA_DB_RETRY_DELAY_SECS"

/-- The default policy with the changes that variables make. -/
def ofEnvironment (env : Environment) : Except ConfigError RetryPolicy := do
  let attempts ← env.numeralOr attemptsVariable Numeral.max32 default.maxAttempts
  let seconds ← env.numeralOr delayVariable Numeral.max64 default.initialDelay.seconds
  checked ⟨attempts, Duration.ofSeconds seconds⟩

/-- The policy as diagnostics show it. -/
def describe (policy : RetryPolicy) : String :=
  Text.record "RetryConfig"
    [("max_attempts", toString policy.maxAttempts),
      ("initial_delay", policy.initialDelay.describe)]

end RetryPolicy
end DocumentTables
