import DocumentTables.Backend.Basic

/-!
# Injected faults

A backend behind an unreliable network: some attempts to connect fail before the backend hears of
them.
-/

namespace DocumentTables

/-- The error of failing attempts, how many of the next ones fail, whether all do, and how many
attempts there were. -/
structure Faults where
  error : BackendError
  pending : Nat
  always : Bool
  attempts : Nat
deriving Repr

namespace Faults

/-- No attempt fails; if one did, the connection would be refused. -/
def none : Faults := ⟨.connection "flaky" 27017 "connection refused", 0, false, 0⟩

instance : Inhabited Faults := ⟨none⟩

/-- The next attempt fails. -/
def failing (f : Faults) : Bool :=
  f.always || f.pending != 0

/-- The faults left after an attempt.  While all attempts fail, none is taken off the next ones. -/
def afterAttempt (f : Faults) : Faults :=
  { f with
    attempts := f.attempts + 1
    pending := if f.always then f.pending else f.pending - 1 }

/-- Attempt to connect. -/
def connect {σ : Type} (b : Backend σ) (params : ConnectionParameters) :
    BackendAction (Faults × σ) Unit :=
  fun (f, s) =>
    if f.failing then (.error f.error, (f.afterAttempt, s))
    else (b.connect params).onSecond (f.afterAttempt, s)

end Faults

/-- A backend whose connections may fail to open. -/
def Backend.withFaults {σ : Type} (b : Backend σ) : Backend (Faults × σ) :=
  { b.onSecond with connect := Faults.connect b }

end DocumentTables
