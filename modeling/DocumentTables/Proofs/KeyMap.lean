import DocumentTables.Cache.Store
import DocumentTables.Proofs.Equality

/-!
# Maps from keys to documents

A key map is what a store means: at most one document for each key, where keys that are alike are
one.  The operations of a store in memory are those of its key map.

**Results.**

* `KeyMap.Within.store_left`, `KeyMap.Within.store_right`, `KeyMap.Within.erase`: how one map stays
  within another.
* `MemoryCache.contents_put`, `MemoryCache.contents_remove`, `MemoryCache.contents_clear`,
  `MemoryCache.contents_get`: what a store in memory holds after each operation.
* `Cache.held_put`, `Cache.held_remove`, `Cache.held_clear`, `Cache.held_get`: the same for a store
  that is no store on disk.
-/

namespace DocumentTables

/-- At most one document for each key. -/
@[ext] structure KeyMap where
  find : PrimaryKey → Option Document
  /-- Keys that are alike are one. -/
  find_congr : ∀ {k l : PrimaryKey}, k.alike l = true → find k = find l

namespace KeyMap

/-- No document for any key. -/
def empty : KeyMap := ⟨fun _ => none, fun _ => rfl⟩

/-- The map with a document for a key. -/
def store (map : KeyMap) (key : PrimaryKey) (doc : Document) : KeyMap where
  find := fun k => if key.alike k then some doc else map.find k
  find_congr := by
    intro k l h
    rw [PrimaryKey.alike_comm key k, PrimaryKey.alike_comm key l, PrimaryKey.alike_congr h,
      map.find_congr h]

/-- The map without a document for a key. -/
def erase (map : KeyMap) (key : PrimaryKey) : KeyMap where
  find := fun k => if key.alike k then none else map.find k
  find_congr := by
    intro k l h
    rw [PrimaryKey.alike_comm key k, PrimaryKey.alike_comm key l, PrimaryKey.alike_congr h,
      map.find_congr h]

/-- Only finitely many keys have a document. -/
def Finite (map : KeyMap) : Prop :=
  ∃ keys : List PrimaryKey, ∀ k, map.find k ≠ none → ∃ l ∈ keys, l.same k = true

@[simp] theorem find_empty
    (k : PrimaryKey) :
    empty.find k = none := by
  rfl

theorem find_store
    (map : KeyMap) (key k : PrimaryKey) (doc : Document) :
    (map.store key doc).find k = if key.alike k then some doc else map.find k := by
  rfl

theorem find_erase
    (map : KeyMap) (key k : PrimaryKey) :
    (map.erase key).find k = if key.alike k then none else map.find k := by
  rfl

@[simp] theorem find_store_self
    (map : KeyMap) (key : PrimaryKey) (doc : Document) :
    (map.store key doc).find key = some doc := by
  simp [find_store]

/-- To erase a key that has no document changes nothing. -/
theorem erase_of_find_eq_none
    {map : KeyMap} {key : PrimaryKey} (h : map.find key = none) :
    map.erase key = map := by
  ext k : 2
  rw [find_erase]
  split
  · next hk =>
      rw [← map.find_congr hk, h]
  · rfl

/-- What is left after an erasure was there before. -/
theorem find_of_find_erase
    {map : KeyMap} {key k : PrimaryKey} {doc : Document}
    (h : (map.erase key).find k = some doc) :
    key.alike k = false ∧ map.find k = some doc := by
  rw [find_erase] at h
  split at h
  · simp at h
  · next hk =>
      exact ⟨by simpa using hk, h⟩

/-- Every document of the first map is the one of the second. -/
def Within (a b : KeyMap) : Prop :=
  ∀ k doc, a.find k = some doc → b.find k = some doc

namespace Within

variable {a b : KeyMap} {key : PrimaryKey} {doc : Document}

theorem refl
    (a : KeyMap) :
    a.Within a := by
  exact fun _ _ h => h

theorem of_empty :
    empty.Within b := by
  intro k doc h
  simp at h

theorem eq_empty
    (h : a.Within empty) :
    a = empty := by
  ext k doc
  constructor
  · exact fun hk => h k doc hk
  · intro hk
    simp at hk

theorem erase_left
    (h : a.Within b) :
    (a.erase key).Within b := by
  intro k doc hk
  exact h k doc (find_of_find_erase hk).2

theorem erase
    (h : a.Within b) :
    (a.erase key).Within (b.erase key) := by
  intro k doc hk
  obtain ⟨hne, hk⟩ := find_of_find_erase hk
  simpa [find_erase, hne] using h k doc hk

/-- A document is added for a key that had none. -/
theorem store_right
    (h : a.Within b) (hfresh : b.find key = none) (doc : Document) :
    a.Within (b.store key doc) := by
  intro k d hk
  have hd := h k d hk
  rw [find_store]
  split
  · next hsame =>
      rw [← b.find_congr hsame, hfresh] at hd
      simp at hd
  · exact hd

/-- A document may be added to the first map if the second has it. -/
theorem store_left
    (h : a.Within b) (hdoc : b.find key = some doc) :
    (a.store key doc).Within b := by
  intro k d hk
  rw [find_store] at hk
  split at hk
  · next hsame =>
      rw [← b.find_congr hsame, hdoc, hk]
  · exact h k d hk

end Within
end KeyMap

namespace MemoryCache

/-- What a store in memory holds. -/
def contents (c : MemoryCache) : KeyMap where
  find := c.find?
  find_congr := by
    intro k l h
    have hkeys : ∀ entry : PrimaryKey × Document, entry.1.alike k = entry.1.alike l := by
      intro entry
      rw [PrimaryKey.alike_comm entry.1 k, PrimaryKey.alike_comm entry.1 l,
        PrimaryKey.alike_congr h]
    simp [find?, hkeys]

theorem find?_cons
    (k : PrimaryKey) (d : Document) (entries : List (PrimaryKey × Document))
    (counters : CacheCounters) (key : PrimaryKey) :
    find? ⟨(k, d) :: entries, counters⟩ key =
      if k.alike key then some d else find? ⟨entries, counters⟩ key := by
  by_cases h : k.alike key = true
  · simp [find?, h]
  · simp [find?, h]

theorem contents_put
    (c : MemoryCache) (key : PrimaryKey) (doc : Document) :
    (c.put key doc).contents = c.contents.store key doc := by
  obtain ⟨entries, counters⟩ := c
  ext k : 2
  change find? ⟨replace entries key doc, counters⟩ k =
    if key.alike k then some doc else find? ⟨entries, counters⟩ k
  induction entries with
  | nil =>
      simp [replace, find?]
  | cons entry entries ih =>
      obtain ⟨l, d⟩ := entry
      by_cases hl : l.alike key = true
      · simp only [replace, hl, if_true, find?_cons, PrimaryKey.alike_congr hl]
        split <;> rfl
      · simp only [replace, hl, Bool.false_eq_true, if_false, find?_cons, ih]
        by_cases hk : l.alike k = true
        · have : key.alike k = false := by
            rw [← Bool.not_eq_true]
            exact fun h => hl (PrimaryKey.alike_trans hk (PrimaryKey.alike_symm h))
          simp [hk, this]
        · simp [hk]

theorem contents_remove
    (c : MemoryCache) (key : PrimaryKey) :
    (c.remove key).contents = c.contents.erase key := by
  obtain ⟨entries, counters⟩ := c
  have hfilter :
      ∀ (entries : List (PrimaryKey × Document)) (k : PrimaryKey),
        find? ⟨entries.filter fun entry => !entry.1.alike key, counters.evict⟩ k =
          if key.alike k then none else find? ⟨entries, counters⟩ k := by
    intro entries k
    induction entries with
    | nil =>
        simp [find?]
    | cons entry entries ih =>
        obtain ⟨l, d⟩ := entry
        by_cases hl : l.alike key = true
        · simp only [List.filter_cons, hl, Bool.not_true, Bool.false_eq_true, if_false, ih,
            find?_cons, PrimaryKey.alike_congr hl]
          split <;> rfl
        · simp only [List.filter_cons, hl, Bool.not_false, if_true, find?_cons, ih]
          by_cases hk : l.alike k = true
          · have : key.alike k = false := by
              rw [← Bool.not_eq_true]
              exact fun h => hl (PrimaryKey.alike_trans hk (PrimaryKey.alike_symm h))
            simp [hk, this]
          · simp [hk]
  ext k : 2
  change find? (remove ⟨entries, counters⟩ key) k =
    if key.alike k then none else find? ⟨entries, counters⟩ k
  cases hfind : find? ⟨entries, counters⟩ key with
  | none =>
      simp only [remove, hfind]
      split
      · next h =>
          rw [← hfind]
          exact (contents ⟨entries, counters⟩).find_congr (PrimaryKey.alike_symm h)
      · rfl
  | some doc =>
      simp only [remove, hfind]
      exact hfilter entries k

@[simp] theorem contents_clear
    (c : MemoryCache) :
    c.clear.contents = .empty := by
  rfl

theorem get_fst
    (c : MemoryCache) (key : PrimaryKey) :
    (c.get key).1 = c.contents.find key := by
  simp only [get, contents]
  cases c.find? key <;> rfl

@[simp] theorem contents_get
    (c : MemoryCache) (key : PrimaryKey) :
    (c.get key).2.contents = c.contents := by
  simp only [get]
  cases c.find? key <;> rfl

end MemoryCache

namespace Cache

/-- A store that looks at no files. -/
def Volatile (c : Cache) : Prop :=
  c.strategy ≠ .disk

/-- What a store holds that is not on disk. -/
def held : Cache → KeyMap
  | .memory store => store.contents
  | _ => .empty

variable {c : Cache} {files : FileTree} {key : PrimaryKey}

/-- A volatile store finds what it holds. -/
theorem get_fst
    (h : c.Volatile) :
    (c.get files key).1 = .ok (c.held.find key) := by
  cases c with
  | none =>
      rfl
  | memory store =>
      simp [get, held, MemoryCache.get_fst]
  | disk store =>
      exact absurd rfl h

@[simp] theorem strategy_get :
    (c.get files key).2.strategy = c.strategy := by
  cases c <;> simp [get, strategy]

@[simp] theorem held_get :
    (c.get files key).2.held = c.held := by
  cases c with
  | none =>
      rfl
  | memory store =>
      simp [get, held]
  | disk store =>
      simp [get, held]

@[simp] theorem strategy_put
    {doc : Document} :
    (c.put files key doc).2.1.strategy = c.strategy := by
  cases c <;> simp [put, strategy]

/-- Only a store in memory holds what is put into it. -/
theorem held_put
    {doc : Document} (h : c.Volatile) :
    (c.put files key doc).2.1.held =
      if c.strategy = .memory then c.held.store key doc else c.held := by
  cases c with
  | none =>
      rfl
  | memory store =>
      simp [put, held, strategy, MemoryCache.contents_put]
  | disk store =>
      exact absurd rfl h

@[simp] theorem strategy_remove :
    (c.remove files key).2.1.strategy = c.strategy := by
  cases c <;> simp [remove, strategy]

theorem remove_fst
    (h : c.Volatile) :
    (c.remove files key).1 = .ok () := by
  cases c with
  | none =>
      rfl
  | memory store =>
      rfl
  | disk store =>
      exact absurd rfl h

theorem held_remove :
    (c.remove files key).2.1.held = c.held.erase key := by
  cases c with
  | none =>
      simp [remove, held, KeyMap.erase_of_find_eq_none]
  | memory store =>
      simp [remove, held, MemoryCache.contents_remove]
  | disk store =>
      simp [remove, held, KeyMap.erase_of_find_eq_none]

@[simp] theorem strategy_clear :
    (c.clear files).2.1.strategy = c.strategy := by
  cases c <;> simp [clear, strategy]

theorem clear_fst
    (h : c.Volatile) :
    (c.clear files).1 = .ok () := by
  cases c with
  | none =>
      rfl
  | memory store =>
      rfl
  | disk store =>
      exact absurd rfl h

@[simp] theorem held_clear :
    (c.clear files).2.1.held = .empty := by
  cases c <;> simp [clear, held]

@[simp] theorem held_ofStrategy
    (strategy : CacheStrategy) (root table : String) (process : Nat) :
    (ofStrategy strategy root table process).held = .empty := by
  cases strategy <;> rfl

@[simp] theorem strategy_ofStrategy
    (strategy : CacheStrategy) (root table : String) (process : Nat) :
    (ofStrategy strategy root table process).strategy = strategy := by
  cases strategy <;> rfl

/-- Without a store in memory nothing is held. -/
theorem held_of_ne_memory
    (h : c.strategy ≠ .memory) :
    c.held = .empty := by
  cases c with
  | none =>
      rfl
  | memory store =>
      exact absurd rfl h
  | disk store =>
      rfl

end Cache
end DocumentTables
