import DocumentTables.Backend.Basic
import DocumentTables.Config.RetryPolicy

/-!
# The connection manager

The manager runs an operation on a fresh connection under a retry policy.  After a failed attempt it
waits, asks the source for the parameters again and tries once more, until the attempts are used up.
Exhausted resources are never waited for.

The parameters are remembered between operations.  Waiting is recorded, not done.
-/

namespace DocumentTables

/-- What a manager works with: the policy, the source of the parameters, and the backend. -/
structure ConnectionManager (σ : Type) where
  policy : RetryPolicy
  resolve : σ → Except Error ConnectionParameters × σ
  backend : Backend σ

/-- What changes while a manager works: the outside world, the parameters remembered, and the waits so
far. -/
structure ConnectionState (σ : Type) where
  world : σ
  remembered : Option ConnectionParameters
  waits : List Duration

namespace ConnectionState

variable {σ : Type}

/-- A manager that has not worked yet. -/
def initial (world : σ) : ConnectionState σ := ⟨world, none, []⟩

/-- One more wait. -/
def wait (s : ConnectionState σ) (d : Duration) : ConnectionState σ :=
  { s with waits := s.waits ++ [d] }

end ConnectionState

namespace ConnectionManager

variable {σ α : Type}

/-- Ask the source for the parameters, and remember them. -/
def resolveParameters (m : ConnectionManager σ) (s : ConnectionState σ) :
    Except Error ConnectionParameters × ConnectionState σ :=
  match m.resolve s.world with
  | (.ok params, world) => (.ok params, { s with world, remembered := some params })
  | (.error e, world) => (.error e, { s with world })

/-- The parameters remembered, or those that the source gives now. -/
def currentParameters (m : ConnectionManager σ) (s : ConnectionState σ) :
    Except Error ConnectionParameters × ConnectionState σ :=
  match s.remembered with
  | some params => (.ok params, s)
  | none => m.resolveParameters s

/-- One attempt: open a connection and run the operation on it. -/
def attempt (m : ConnectionManager σ) (operation : BackendAction σ α)
    (params : ConnectionParameters) : BackendAction σ α :=
  (m.backend.connect params).andThen fun () => operation

/-- The attempts from the one with the given number on.  The first argument counts those after it. -/
def attemptsFrom (m : ConnectionManager σ) (operation : BackendAction σ α) :
    Nat → Nat → ConnectionParameters → ConnectionState σ → Except Error α × ConnectionState σ
  | later, number, params, s =>
      match m.attempt operation params s.world with
      | (.ok a, world) => (.ok a, { s with world })
      | (.error e, world) =>
          let s := { s with world }
          if e.isResourceExhaustion then (.error (.backend e), s)
          else
            match later with
            | 0 => (.error (.retriesExhausted number e), s)
            | later + 1 =>
                match m.resolveParameters (s.wait (m.policy.delayAfter number)) with
                | (.error e, s) => (.error e, s)
                | (.ok params, s) => attemptsFrom m operation later (number + 1) params s

/-- Run an operation under the policy. -/
def execute (m : ConnectionManager σ) (operation : BackendAction σ α) (s : ConnectionState σ) :
    Except Error α × ConnectionState σ :=
  match m.currentParameters s with
  | (.error e, s) => (.error e, s)
  | (.ok params, s) => m.attemptsFrom operation (m.policy.maxAttempts - 1) 1 params s

/-- The same manager in a world that has another part. -/
def onSecond {τ : Type} (m : ConnectionManager σ) : ConnectionManager (τ × σ) where
  policy := m.policy
  resolve := fun (t, s) =>
    let (params, s) := m.resolve s
    (params, (t, s))
  backend := m.backend.onSecond

/-- The manager as diagnostics show it. -/
def describe (m : ConnectionManager σ) : String :=
  Text.partialRecord "ConnectionManager" [("retry", m.policy.describe)]

end ConnectionManager
end DocumentTables
