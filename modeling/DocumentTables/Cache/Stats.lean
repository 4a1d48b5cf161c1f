import DocumentTables.Number.Binary64

/-!
# Cache statistics

A store counts the answers it gave, the questions it could not answer and the entries it removed one
by one.  Counters have 64 bits.
-/

namespace DocumentTables

/-- What a store has counted since it was opened. -/
structure CacheCounters where
  hits : Nat
  misses : Nat
  evictions : Nat
deriving DecidableEq, Repr, Inhabited

namespace CacheCounters

/-- A store that was just opened. -/
def zero : CacheCounters := ⟨0, 0, 0⟩

/-- One more answer given. -/
def hit (c : CacheCounters) : CacheCounters := { c with hits := c.hits + 1 }

/-- One more question without an answer. -/
def miss (c : CacheCounters) : CacheCounters := { c with misses := c.misses + 1 }

/-- One more entry removed. -/
def evict (c : CacheCounters) : CacheCounters := { c with evictions := c.evictions + 1 }

end CacheCounters

/-- The counters of a store and the number of its entries. -/
structure CacheStats where
  hits : Nat
  misses : Nat
  entries : Nat
  evictions : Nat
deriving DecidableEq, Repr, Inhabited

namespace CacheStats

/-- Nothing counted, nothing stored. -/
def zero : CacheStats := ⟨0, 0, 0, 0⟩

/-- The counters with a number of entries. -/
def ofCounters (c : CacheCounters) (entries : Nat) : CacheStats :=
  ⟨c.hits, c.misses, entries, c.evictions⟩

/-- The part of the questions that was answered, zero if there were none. -/
def hitRate (s : CacheStats) : Binary64 :=
  let total := (s.hits + s.misses) % Nat.pow 2 64
  let rate := do (← Binary64.ofNat? s.hits).divMagnitude? (← Binary64.ofNat? total)
  if total = 0 then Binary64.zero false else rate.getD (Binary64.zero false)

end CacheStats
end DocumentTables
