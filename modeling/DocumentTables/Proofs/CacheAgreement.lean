import Mathlib
import DocumentTables.Proofs.CollectionContents
import DocumentTables.Proofs.Interleaving
import DocumentTables.Sample

/-!
# The cache after interleaved requests

Requests that overtake each other may leave a document in the cache that is no longer stored: one
finds a document, another replaces it and puts the new one into the cache, and then the first one
puts what it found.  This is how caches without transactions behave.  Short of it, the order of
steps does not matter: once all requests have finished, the cache agrees with the collection.

A document is put in time if no other request, having forgotten the key, is about to take its
document away, and if the last one to find or write the key's document is not ahead: it is the
client itself, or one that has still to put that document.  A document that was put late does no
harm once the cache has forgotten its key, or another was put in time.

**Results.**

* `System.Consistent.step`: what one step preserves, whoever takes it.
* `System.Run.solo`: requests that do not overlap settle all keys.
* `System.Completes.agrees`: the cache after all requests.
* `System.disagrees_after_race`: requests that overtake each other, and a schema with a point in a
  name.
-/

namespace DocumentTables

namespace Client

/-- The next step takes away the document of a key, and no step after it puts one for the key. -/
def Takes (schema : KeySchema) (k : PrimaryKey) : Client → Prop
  | .replacing doc oldKey =>
      oldKey.same k = true ∧ ∃ own, schema.validKey? doc = some own ∧ own.same k = false
  | .removing key => key.same k = true
  | _ => False

/-- The keys of the client have the schema's shape and ask for no floating-point numbers. -/
def Shaped (schema : KeySchema) : Client → Prop
  | .selecting key => schema.Suits key
  | .finding key => schema.Suits key
  | .updating doc oldKey => schema.FloatFree doc ∧ schema.Suits oldKey
  | .replacing doc oldKey => schema.FloatFree doc ∧ schema.Suits oldKey
  | .putting key _ _ => schema.Suits key
  | .deleting key => schema.Suits key
  | .removing key => schema.Suits key
  | .finished => True

variable {schema : KeySchema} {client : Client} {key k : PrimaryKey}

theorem Starts.shaped
    (h : client.Starts schema) :
    client.Shaped schema := by
  cases client with
  | selecting key =>
      exact h
  | updating doc key =>
      exact h
  | deleting key =>
      exact h
  | _ =>
      exact h.elim

theorem Starts.not_takes
    (h : client.Starts schema) :
    ¬ client.Takes schema k := by
  cases client with
  | replacing doc key =>
      exact h.elim
  | removing key =>
      exact h.elim
  | _ =>
      exact id

theorem Starts.ne_putting
    (h : client.Starts schema) (doc : Document) (count : Nat) :
    client ≠ .putting key doc count := by
  rintro rfl
  exact h

theorem Takes.congr
    (hsame : key.same k = true) (h : client.Takes schema k) :
    client.Takes schema key := by
  have hsymm := PrimaryKey.same_symm hsame
  cases client with
  | replacing doc oldKey =>
      obtain ⟨hold, own, hown, hne⟩ := h
      refine ⟨PrimaryKey.same_trans hold hsymm, own, hown, ?_⟩
      rw [PrimaryKey.same_comm, PrimaryKey.same_congr hsame, PrimaryKey.same_comm]
      exact hne
  | removing l =>
      exact PrimaryKey.same_trans h hsymm
  | _ =>
      exact h.elim

end Client

namespace System

variable {ι : Type}

/-- A document may be put for the key: no other request is about to take the key's document away,
and the document that was found or written last has still to be put. -/
def Timely (schema : KeySchema) (s : System ι) (key : PrimaryKey) : Prop :=
  (∀ j, ¬ (s.clients j).Takes schema key) ∧
    ∃ j l doc, l.same key = true ∧ s.clients j = .putting l doc (s.counts key)

/-- The keys that are settled after a step: those that the cache forgets, those for which a
document is put in time, and of the others those that were settled. -/
def settle (schema : KeySchema) (s : System ι) (i : ι) (settled : PrimaryKey → Prop)
    (k : PrimaryKey) : Prop :=
  match s.clients i with
  | .updating _ key => key.same k = true ∨ settled k
  | .deleting key => key.same k = true ∨ settled k
  | .putting key _ _ =>
      (key.same k = true → s.Timely schema key) ∧ (key.same k = false → settled k)
  | _ => settled k

/-- What every step preserves: documents of settled keys in the cache are stored, or those that
are have still to be put. -/
structure Consistent (schema : KeySchema) (settled : PrimaryKey → Prop) (s : System ι) : Prop where
  keyed : s.collection.Keyed schema
  shaped : ∀ i, (s.clients i).Shaped schema
  counts_congr : ∀ {k l : PrimaryKey}, k.same l = true → s.counts k = s.counts l
  count_le : ∀ {i key doc count}, s.clients i = .putting key doc count → count ≤ s.counts key
  current : ∀ {i key doc}, s.clients i = .putting key doc (s.counts key) →
    (s.collection.contents schema).find key = some doc
  held : ∀ {k doc}, settled k → s.cache.contents.find k = some doc →
    (s.collection.contents schema).find k = some doc ∨
      ∃ j l d, l.same k = true ∧ s.clients j = .putting l d (s.counts k)
  taken : ∀ {i k}, settled k → (s.clients i).Takes schema k → s.cache.contents.find k = none

variable {schema : KeySchema} {settled after : PrimaryKey → Prop} {s s' : System ι} {i : ι}
  {client : Client} {key own : PrimaryKey} {doc : Document}

/-- A key whose client puts nothing and forgets nothing stays as it was. -/
theorem settle_of_calls
    (h : (s.clients i).Calls) :
    s.settle schema i settled = settled := by
  funext k
  cases hclient : s.clients i with
  | finding key =>
      simp [settle, hclient]
  | replacing doc key =>
      simp [settle, hclient]
  | removing key =>
      simp [settle, hclient]
  | _ =>
      rw [hclient] at h
      exact h.elim

theorem counts_written_of_touched
    {c : Collection} {touched : PrimaryKey → Bool} {k : PrimaryKey} (h : touched k = true) :
    (s.written c touched).counts k = s.counts k + 1 := by
  simp [written, h]

theorem counts_written_of_not_touched
    {c : Collection} {touched : PrimaryKey → Bool} {k : PrimaryKey} (h : touched k = false) :
    (s.written c touched).counts k = s.counts k := by
  simp [written, h]

theorem counts_le_written
    (c : Collection) (touched : PrimaryKey → Bool) (k : PrimaryKey) :
    s.counts k ≤ (s.written c touched).counts k := by
  simp only [written]
  split <;> omega

namespace Consistent

theorem of_starts
    (hkeyed : s.collection.Keyed schema)
    (hcache : s.cache.contents.Within (s.collection.contents schema))
    (hstart : ∀ i, (s.clients i).Starts schema) (hcounts : ∀ k, s.counts k = 0) :
    s.Consistent schema settled where
  keyed := hkeyed
  shaped i := (hstart i).shaped
  counts_congr _ := by rw [hcounts, hcounts]
  count_le h := absurd h ((hstart _).ne_putting _ _)
  current h := absurd h ((hstart _).ne_putting _ _)
  held _ h := .inl (hcache _ _ h)
  taken _ h := absurd h (hstart _).not_takes

variable [DecidableEq ι]

theorem shaped_become
    (h : ∀ j, (s.clients j).Shaped schema) (client : Client) (hshaped : client.Shaped schema)
    (j : ι) :
    ((s.become i client).clients j).Shaped schema := by
  by_cases hij : j = i
  · subst hij
    rw [clients_become_self]
    exact hshaped
  · rw [clients_become_of_ne hij]
    exact h j

theorem putting_of_become
    (hafter : ∀ key doc count, client ≠ .putting key doc count) {j : ι} {count : Nat}
    (hj : (s.become i client).clients j = .putting key doc count) :
    s.clients j = .putting key doc count := by
  rcases clients_become_or (P := (· = .putting key doc count)) hj with ⟨-, hj⟩ | ⟨-, hj⟩
  · exact absurd hj (hafter key doc count)
  · exact hj

/-- A document that another client has still to put. -/
theorem putting_become
    {k : PrimaryKey} {count : Nat} (hne : ∀ key doc count, s.clients i ≠ .putting key doc count)
    (h : ∃ j l d, l.same k = true ∧ s.clients j = .putting l d count) :
    ∃ j l d, l.same k = true ∧ (s.become i client).clients j = .putting l d count := by
  obtain ⟨j, l, d, hl, hj⟩ := h
  have hij : j ≠ i := by
    rintro rfl
    exact hne _ _ _ hj
  exact ⟨j, l, d, hl, (clients_become_of_ne hij).trans hj⟩

/-- A step after which the cache holds no more, by a client with nothing to put before or after. -/
theorem of_quiet
    (h : s.Consistent schema settled) {cache : MemoryCache}
    (hcache : cache.contents.Within s.cache.contents)
    (hbefore : ∀ key doc count, s.clients i ≠ .putting key doc count)
    (hafter : ∀ key doc count, client ≠ .putting key doc count)
    (hshaped : client.Shaped schema)
    (htakes : ∀ k, client.Takes schema k → cache.contents.find k = none)
    (hsettled : ∀ k, after k → settled k ∨ cache.contents.find k = none) :
    ({ s with cache }.become i client).Consistent schema after := by
  refine ⟨h.keyed, shaped_become h.shaped client hshaped, h.counts_congr,
    fun hj => h.count_le (putting_of_become hafter hj),
    fun hj => h.current (putting_of_become hafter hj), ?_, ?_⟩
  · intro k d hk hheld
    change cache.contents.find k = some d at hheld
    rcases hsettled k hk with hk | hnone
    · rcases h.held hk (hcache k d hheld) with hstored | hput
      · exact .inl hstored
      · exact .inr (putting_become hbefore hput)
    · simp [hnone] at hheld
  · intro j k hk hj
    change cache.contents.find k = none
    rcases clients_become_or (P := (·.Takes schema k)) hj with ⟨-, hj⟩ | ⟨-, hj⟩
    · exact htakes k hj
    · rcases hsettled k hk with hk | hnone
      · have hnone := h.taken hk hj
        cases hheld : cache.contents.find k with
        | none =>
            rfl
        | some d =>
            simp [hcache k d hheld] at hnone
      · exact hnone

/-- A document that was found has still to be put. -/
theorem of_found
    (h : s.Consistent schema settled)
    (hbefore : ∀ key doc count, s.clients i ≠ .putting key doc count)
    (hsuits : schema.Suits key)
    (hfind : (s.collection.contents schema).find key = some doc) :
    (s.become i (.putting key doc (s.counts key))).Consistent schema settled := by
  refine ⟨h.keyed, shaped_become h.shaped _ hsuits, h.counts_congr, ?_, ?_, ?_, ?_⟩
  · intro j l d count hj
    rcases clients_become_or (P := (· = .putting l d count)) hj with ⟨-, hj⟩ | ⟨-, hj⟩
    · cases hj
      exact Nat.le_refl _
    · exact h.count_le hj
  · intro j l d hj
    rcases clients_become_or (P := (· = .putting l d (s.counts l))) hj with ⟨-, hj⟩ | ⟨-, hj⟩
    · cases hj
      exact hfind
    · exact h.current hj
  · intro k d hk hheld
    rcases h.held hk hheld with hstored | hput
    · exact .inl hstored
    · exact .inr (putting_become hbefore hput)
  · intro j k hk hj
    rcases clients_become_or (P := (·.Takes schema k)) hj with ⟨-, hj⟩ | ⟨-, hj⟩
    · exact hj.elim
    · exact h.taken hk hj

/-- A document is put into the cache. -/
theorem of_put
    (h : s.Consistent schema settled) {count : Nat} (hclient : s.clients i = .putting key doc count)
    (htimely : ∀ k, after k → key.same k = true → s.Timely schema key)
    (hother : ∀ k, after k → key.same k = false → settled k) :
    ({ s with cache := s.cache.put key doc }.become i .finished).Consistent schema after := by
  have hsuits : schema.Suits key := by
    have := h.shaped i
    rwa [hclient] at this
  have hfind : ∀ k, (s.cache.put key doc).contents.find k =
      if key.same k then some doc else s.cache.contents.find k := by
    intro k
    rw [MemoryCache.contents_put, KeyMap.find_store, hsuits.floatFree.alike_eq_same]
  refine ⟨h.keyed, shaped_become h.shaped _ trivial, h.counts_congr,
    fun hj => h.count_le (putting_of_become (by simp) hj),
    fun hj => h.current (putting_of_become (by simp) hj), ?_, ?_⟩
  · intro k d hk hheld
    change (s.cache.put key doc).contents.find k = some d at hheld
    rw [hfind] at hheld
    split at hheld
    · next hsame =>
        cases hheld
        obtain ⟨-, j, l, e, hl, hj⟩ := htimely k hk hsame
        by_cases hij : j = i
        · -- the client itself puts the document that was found or written last
          subst hij
          rw [hclient] at hj
          cases hj
          refine .inl ?_
          rw [← KeyMap.find_congr _ (hsuits.floatFree.alike_of_same hsame)]
          exact h.current hclient
        · refine .inr ⟨j, l, e, PrimaryKey.same_trans hl hsame, ?_⟩
          rw [clients_become_of_ne hij]
          exact hj.trans (by rw [h.counts_congr hsame]; rfl)
    · next hne =>
        rcases h.held (hother k hk (by simpa using hne)) hheld with hstored | ⟨j, l, e, hl, hj⟩
        · exact .inl hstored
        · have hij : j ≠ i := by
            rintro rfl
            rw [hclient] at hj
            cases hj
            exact hne hl
          exact .inr ⟨j, l, e, hl, (clients_become_of_ne hij).trans hj⟩
  · intro j k hk hj
    rcases clients_become_or (P := (·.Takes schema k)) hj with ⟨-, hj⟩ | ⟨-, hj⟩
    · exact hj.elim
    · change (s.cache.put key doc).contents.find k = none
      rw [hfind]
      split
      · next hsame =>
          exact absurd (hj.congr hsame) ((htimely k hk hsame).1 j)
      · next hne =>
          exact h.taken (hother k hk (by simpa using hne)) hj

/-- The collection was written by a client that had nothing to put, and if the cache holds the
document of a touched key, it is to put the new one. -/
theorem of_written
    (h : s.Consistent schema settled) {c : Collection} {touched : PrimaryKey → Bool}
    (hbefore : ∀ key doc count, s.clients i ≠ .putting key doc count)
    (hkeyed : c.Keyed schema)
    (hcongr : ∀ k l, k.same l = true → touched k = touched l)
    (hrest : ∀ k, touched k = false →
      (c.contents schema).find k = (s.collection.contents schema).find k)
    (hshaped : client.Shaped schema)
    (htakes : ∀ k, ¬ client.Takes schema k)
    (hputs : ∀ l d count, client = .putting l d count →
      count = (s.written c touched).counts l ∧ (c.contents schema).find l = some d)
    (hheld : ∀ k d, settled k → touched k = true → s.cache.contents.find k = some d →
      ∃ l e, l.same k = true ∧ client = .putting l e ((s.written c touched).counts k)) :
    ((s.written c touched).become i client).Consistent schema settled := by
  have hshapes := shaped_become (s := s.written c touched) (i := i) h.shaped client hshaped
  refine ⟨hkeyed, hshapes, ?_, ?_, ?_, ?_, ?_⟩
  · intro k l hsame
    change (s.written c touched).counts k = (s.written c touched).counts l
    simp only [written, hcongr k l hsame, h.counts_congr hsame]
  · intro j l d count hj
    rcases clients_become_or (P := (· = .putting l d count)) hj with ⟨-, hj⟩ | ⟨-, hj⟩
    · exact Nat.le_of_eq (hputs l d count hj).1
    · exact Nat.le_trans (h.count_le hj) (counts_le_written c touched l)
  · intro j l d hj
    change ((s.written c touched).become i client).clients j =
      .putting l d ((s.written c touched).counts l) at hj
    rcases clients_become_or (P := (· = .putting l d ((s.written c touched).counts l))) hj with
      ⟨-, hj⟩ | ⟨-, hj⟩
    · exact (hputs _ _ _ hj).2
    · change s.clients j = .putting l d ((s.written c touched).counts l) at hj
      cases htouched : touched l with
      | true =>
          -- what was found or written before has a lesser count
          have := h.count_le hj
          rw [counts_written_of_touched htouched] at this
          omega
      | false =>
          rw [counts_written_of_not_touched htouched] at hj
          exact (hrest l htouched).trans (h.current hj)
  · intro k d hk hfind
    change s.cache.contents.find k = some d at hfind
    change (c.contents schema).find k = some d ∨ ∃ j l e, l.same k = true ∧
      ((s.written c touched).become i client).clients j =
        .putting l e ((s.written c touched).counts k)
    cases htouched : touched k with
    | true =>
        obtain ⟨l, e, hl, hclient⟩ := hheld k d hk htouched hfind
        exact .inr ⟨i, l, e, hl, clients_become_self.trans hclient⟩
    | false =>
        rw [hrest k htouched, counts_written_of_not_touched htouched]
        rcases h.held hk hfind with hstored | hput
        · exact .inl hstored
        · exact .inr (putting_become (s := s.written c touched) hbefore hput)
  · intro j k hk hj
    rcases clients_become_or (P := (·.Takes schema k)) hj with ⟨-, hj⟩ | ⟨-, hj⟩
    · exact absurd hj (htakes k)
    · exact h.taken hk hj

/-- A document was replaced, and the cache has forgotten it if no document is to be put for its
key. -/
theorem of_replaced
    (h : s.Consistent schema settled) (hdots : schema.DotFree)
    (hclient : s.clients i = .replacing doc key) (hown : schema.validKey? doc = some own)
    {position : Nat} (hposition : s.collection.position? key.filter = some position)
    {c : Collection} (hreplace : s.collection.replace position doc = .ok c) :
    ((s.written c fun k => key.same k || own.same k).become i
      (.putting own doc ((s.written c fun k => key.same k || own.same k).counts own))).Consistent
      schema settled := by
  have hidentifies := KeySchema.validKey?_eq_some_iff.mp hown
  obtain ⟨hdocfree, hsuits⟩ : schema.FloatFree doc ∧ schema.Suits key := by
    have := h.shaped i
    rwa [hclient] at this
  have hfree := hdocfree own hidentifies.1
  obtain ⟨hkeyed, -, -, hcontents⟩ :=
    h.keyed.replace hdots hsuits hidentifies hfree hposition hreplace
  refine h.of_written (by simp [hclient]) hkeyed ?_ ?_
    ⟨KeySchema.shapes_of_extractKey hidentifies.1, hfree⟩ (fun _ => id) ?_ ?_
  · intro k l hsame
    rw [PrimaryKey.same_comm key k, PrimaryKey.same_comm key l, PrimaryKey.same_comm own k,
      PrimaryKey.same_comm own l, PrimaryKey.same_congr hsame, PrimaryKey.same_congr hsame]
  · intro k htouched
    rw [Bool.or_eq_false_iff] at htouched
    rw [hcontents, KeyMap.find_store, KeyMap.find_erase, hfree.alike_eq_same,
      hsuits.floatFree.alike_eq_same, htouched.1, htouched.2]
    rfl
  · rintro l d count ⟨⟩
    exact ⟨rfl, by rw [hcontents, KeyMap.find_store_self]⟩
  · intro k d hk htouched hheld
    cases hsame : own.same k with
    | true =>
        refine ⟨own, doc, hsame, ?_⟩
        simp only [written, PrimaryKey.same_refl, Bool.or_true, if_true, htouched,
          h.counts_congr hsame]
    | false =>
        -- the document of this key is taken away, so the cache has forgotten the key
        rw [hsame, Bool.or_false] at htouched
        have htakes : (s.clients i).Takes schema k := by
          rw [hclient]
          exact ⟨htouched, own, hown, hsame⟩
        simp [h.taken hk htakes] at hheld

/-- A document was removed that the cache has forgotten. -/
theorem of_removed
    (h : s.Consistent schema settled) (hdots : schema.DotFree)
    (hclient : s.clients i = .removing key) {position : Nat}
    (hposition : s.collection.position? key.filter = some position) :
    ((s.written ⟨s.collection.documents.eraseIdx position, s.collection.uniqueIndexes⟩
      key.same).become i .finished).Consistent schema settled := by
  have hsuits : schema.Suits key := by
    have := h.shaped i
    rwa [hclient] at this
  obtain ⟨hkeyed, -, hcontents⟩ := h.keyed.eraseIdx hdots hsuits hposition
  refine h.of_written (by simp [hclient]) hkeyed ?_ ?_ trivial (fun _ => id) (by simp) ?_
  · intro k l hsame
    rw [PrimaryKey.same_comm key k, PrimaryKey.same_comm key l, PrimaryKey.same_congr hsame]
  · intro k htouched
    rw [hcontents, KeyMap.find_erase, hsuits.floatFree.alike_eq_same, htouched]
    rfl
  · intro k d hk htouched hheld
    have htakes : (s.clients i).Takes schema k := by
      rw [hclient]
      exact htouched
    simp [h.taken hk htakes] at hheld

/-- The cache has forgotten a key. -/
theorem of_forgotten
    (h : s.Consistent schema settled)
    (hbefore : ∀ key doc count, s.clients i ≠ .putting key doc count)
    (hafter : ∀ key doc count, client ≠ .putting key doc count)
    (hfree : key.FloatFree) (hshaped : client.Shaped schema)
    (htakes : ∀ k, client.Takes schema k → key.same k = true)
    (hsettled : ∀ k, after k → key.same k = true ∨ settled k) :
    ({ s with cache := s.cache.remove key }.become i client).Consistent schema after := by
  have hforgotten : ∀ k, key.same k = true → (s.cache.remove key).contents.find k = none := by
    intro k hk
    rw [MemoryCache.contents_remove, KeyMap.find_erase, if_pos (hfree.alike_of_same hk)]
  refine h.of_quiet ?_ hbefore hafter hshaped (fun k hk => hforgotten k (htakes k hk)) ?_
  · rw [MemoryCache.contents_remove]
    exact (KeyMap.Within.refl _).erase_left
  · intro k hk
    rcases hsettled k hk with hsame | hk
    · exact .inr (hforgotten k hsame)
    · exact .inl hk

/-- A client has finished with a step that wrote nothing. -/
theorem of_finished
    (h : s.Consistent schema settled)
    (hbefore : ∀ key doc count, s.clients i ≠ .putting key doc count) :
    (s.become i .finished).Consistent schema settled := by
  exact h.of_quiet (KeyMap.Within.refl _) hbefore (by simp) trivial (fun _ => False.elim)
    fun _ hk => .inl hk

/-- One step of a client preserves consistency. -/
theorem advance
    (h : s.Consistent schema settled) (hdots : schema.DotFree) (i : ι) :
    (s.advance schema i).Consistent schema (s.settle schema i settled) := by
  have hshaped := h.shaped i
  cases hclient : s.clients i with
  | selecting key =>
      have hsettle : s.settle schema i settled = settled := by
        funext k
        simp [settle, hclient]
      rw [hsettle]
      cases hheld : s.cache.contents.find key with
      | some doc =>
          rw [advance_hit hclient hheld]
          exact h.of_quiet (by rw [MemoryCache.contents_get]; exact .refl _) (by simp [hclient])
            (by simp) trivial (fun _ => False.elim) fun _ hk => .inl hk
      | none =>
          rw [hclient] at hshaped
          rw [advance_miss hclient hheld]
          exact h.of_quiet (by rw [MemoryCache.contents_get]; exact .refl _) (by simp [hclient])
            (by simp) hshaped (fun _ => False.elim) fun _ hk => .inl hk
  | finding key =>
      rw [hclient] at hshaped
      rw [settle_of_calls (by rw [hclient]; trivial)]
      have hfilter := h.keyed.find?_filter hdots hshaped.shapes
      cases hfind : s.collection.documents.find? (fun doc => key.filter.holds doc) with
      | some doc =>
          rw [advance_found hclient hfind]
          exact h.of_found (by simp [hclient]) hshaped (hfilter.symm.trans hfind)
      | none =>
          rw [advance_absent hclient hfind]
          exact h.of_finished (by simp [hclient])
  | updating doc key =>
      rw [hclient] at hshaped
      rw [advance_updating hclient]
      refine h.of_forgotten (by simp [hclient]) (by simp) hshaped.2.floatFree hshaped
        (fun _ hk => hk.1) fun k hk => ?_
      simpa [settle, hclient] using hk
  | replacing doc key =>
      rw [settle_of_calls (by rw [hclient]; trivial)]
      rcases advance_replacing schema hclient with
        hquiet | ⟨own, position, c, hown, hposition, hreplace, hmade⟩
      · rw [hquiet]
        exact h.of_finished (by simp [hclient])
      · rw [hmade]
        exact h.of_replaced hdots hclient hown hposition hreplace
  | putting key doc count =>
      rw [advance_putting hclient]
      refine h.of_put hclient (fun k hk => ?_) (fun k hk => ?_)
      · simp only [settle, hclient] at hk
        exact hk.1
      · simp only [settle, hclient] at hk
        exact hk.2
  | deleting key =>
      rw [hclient] at hshaped
      rw [advance_deleting hclient]
      refine h.of_forgotten (by simp [hclient]) (by simp) hshaped.floatFree hshaped (fun _ => id)
        fun k hk => ?_
      simpa [settle, hclient] using hk
  | removing key =>
      rw [settle_of_calls (by rw [hclient]; trivial)]
      cases hposition : s.collection.position? key.filter with
      | some position =>
          rw [advance_removed hclient hposition]
          exact h.of_removed hdots hclient hposition
      | none =>
          rw [advance_nothing hclient hposition]
          exact h.of_finished (by simp [hclient])
  | finished =>
      have hsettle : s.settle schema i settled = settled := by
        funext k
        simp [settle, hclient]
      have hstill : s.advance schema i = s := by
        simp [System.advance, hclient]
      rw [hsettle, hstill]
      exact h

/-- A step, also one whose call of the backend fails, preserves consistency. -/
theorem step
    (h : s.Consistent schema settled) (hdots : schema.DotFree) (hstep : Step schema i s s') :
    s'.Consistent schema (s.settle schema i settled) := by
  cases hstep with
  | advance =>
      exact h.advance hdots i
  | fail hcalls =>
      rw [settle_of_calls hcalls]
      refine h.of_finished fun key doc count hclient => ?_
      rw [hclient] at hcalls
      exact hcalls

end Consistent

/-- The steps of clients in any order, with the keys that are settled after the last. -/
inductive Run (schema : KeySchema) [DecidableEq ι] (s : System ι) :
    (PrimaryKey → Prop) → System ι → Prop
  | start : Run schema s (fun _ => True) s
  | step {settled : PrimaryKey → Prop} {s₁ s₂ : System ι} {i : ι} :
      Run schema s settled s₁ → Step schema i s₁ s₂ → Run schema s (s₁.settle schema i settled) s₂

/-- What every run preserves. -/
theorem Run.consistent
    [DecidableEq ι] (h : Run schema s settled s') (hdots : schema.DotFree)
    (hs : s.Consistent schema fun _ => True) :
    s'.Consistent schema settled := by
  induction h with
  | start =>
      exact hs
  | step _ hstep ih =>
      exact ih.step hdots hstep

/-! ## Requests that do not overlap -/

/-- No client is in the middle of its request. -/
def Quiet (schema : KeySchema) (s : System ι) : Prop :=
  ∀ j, (s.clients j).Starts schema ∨ s.clients j = .finished

/-- No other client is in the middle of its request, and what this one is to put is the document
that was found or written last. -/
structure Alone (schema : KeySchema) (i : ι) (s : System ι) : Prop where
  others : ∀ j, j ≠ i → (s.clients j).Starts schema ∨ s.clients j = .finished
  fresh : ∀ key doc count, s.clients i = .putting key doc count → count = s.counts key

theorem Quiet.alone
    (h : s.Quiet schema) (i : ι) :
    s.Alone schema i where
  others j _ := h j
  fresh key doc count hputting := by
    rcases h i with hstarts | hfinished
    · exact absurd hputting (hstarts.ne_putting doc count)
    · simp [hfinished] at hputting

namespace Alone

variable [DecidableEq ι]

theorem step
    (h : s.Alone schema i) (hstep : Step schema i s s') :
    s'.Alone schema i := by
  cases hstep with
  | advance =>
      obtain ⟨s₁, client, hnext, hclients, hfresh⟩ := exists_become schema s i
      rw [hnext]
      refine ⟨fun j hij => ?_, fun key doc count hputting => ?_⟩
      · rw [clients_become_of_ne hij, hclients]
        exact h.others j hij
      · rw [clients_become_self] at hputting
        exact hfresh key doc count hputting
  | fail =>
      refine ⟨fun j hij => ?_, by simp⟩
      rw [clients_become_of_ne hij]
      exact h.others j hij

/-- A client that no other stands beside settles all keys. -/
theorem settle
    (h : s.Alone schema i) (hsettled : ∀ k, settled k) (k : PrimaryKey) :
    s.settle schema i settled k := by
  cases hclient : s.clients i with
  | putting key doc count =>
      have htimely : s.Timely schema key := by
        refine ⟨fun j htakes => ?_, i, key, doc, PrimaryKey.same_refl key, ?_⟩
        · by_cases hij : j = i
          · rw [hij, hclient] at htakes
            exact htakes
          · rcases h.others j hij with hstarts | hfinished
            · exact hstarts.not_takes htakes
            · rw [hfinished] at htakes
              exact htakes
        · rw [hclient, h.fresh key doc count hclient]
      simp only [System.settle, hclient]
      exact ⟨fun _ => htimely, fun _ => hsettled k⟩
  | _ =>
      simp [System.settle, hclient, hsettled k]

theorem quiet
    (h : s.Alone schema i) (hfinished : s.clients i = .finished) :
    s.Quiet schema := by
  intro j
  by_cases hij : j = i
  · rw [hij]
    exact .inr hfinished
  · exact h.others j hij

end Alone

variable [DecidableEq ι]

/-- A request that is not interleaved with others settles all keys. -/
theorem Run.solo
    {s₁ s₂ : System ι} (h : Run schema s settled s₁) (hsettled : ∀ k, settled k)
    (hquiet : s₁.Quiet schema) (hsolo : Solo schema i s₁ s₂) :
    ∃ after, Run schema s after s₂ ∧ (∀ k, after k) ∧ s₂.Quiet schema := by
  have halone := hquiet.alone i
  clear hquiet
  induction hsolo generalizing settled with
  | done hfinished =>
      exact ⟨settled, h, hsettled, halone.quiet hfinished⟩
  | step hstep _ ih =>
      exact ih (.step h hstep) (halone.settle hsettled) (halone.step hstep)

/-- Clients begin with a cache that agrees with the collection, and all finish. -/
structure Completes (schema : KeySchema) (s : System ι) (settled : PrimaryKey → Prop)
    (s' : System ι) : Prop where
  keyed : s.collection.Keyed schema
  held : s.cache.contents.Within (s.collection.contents schema)
  starts : ∀ i, (s.clients i).Starts schema
  counts : ∀ k, s.counts k = 0
  run : Run schema s settled s'
  finished : ∀ i, s'.clients i = .finished

/-- The system after clients have taken their turns. -/
def turns (schema : KeySchema) (s : System ι) : List ι → System ι
  | [] => s
  | i :: order => (s.advance schema i).turns schema order

/-- The keys that are settled after clients have taken their turns. -/
def settledAfter (schema : KeySchema) (s : System ι) (settled : PrimaryKey → Prop) :
    List ι → PrimaryKey → Prop
  | [] => settled
  | i :: order => (s.advance schema i).settledAfter schema (s.settle schema i settled) order

theorem Run.turns
    (h : Run schema s settled s') (order : List ι) :
    Run schema s (s'.settledAfter schema settled order) (s'.turns schema order) := by
  induction order generalizing settled s' with
  | nil =>
      exact h
  | cons i order ih =>
      exact ih (.step h .advance)

/-- Once all requests have finished, the cache holds for a settled key what the backend has. -/
theorem Completes.agrees
    (h : Completes schema s settled s') (hdots : schema.DotFree) (hshape : schema.Shapes key)
    (hsettled : settled key) (hheld : s'.cache.find? key = some doc) :
    s'.collection.documents.find? (fun doc => key.filter.holds doc) = some doc := by
  have hs' := h.run.consistent hdots (.of_starts h.keyed h.held h.starts h.counts)
  rw [hs'.keyed.find?_filter hdots hshape]
  rcases hs'.held hsettled hheld with hstored | ⟨j, l, d, -, hj⟩
  · exact hstored
  · rw [h.finished j] at hj
    cases hj

section Clients

def recordKey : PrimaryKey := .single "id" (.string "a")

def oldRecord : Document := [("id", .string "a"), ("title", .string "old")]

def newRecord : Document := [("id", .string "a"), ("title", .string "new")]

/-- One client looks a document up, and the other replaces it. -/
def readAndUpdate : System Bool where
  cache := .empty
  collection := ⟨[oldRecord], [["id"]]⟩
  counts := fun _ => 0
  clients := fun reads => if reads then .selecting recordKey else .updating newRecord recordKey

theorem readAndUpdate_completes
    (order : List Bool)
    (hfinished : ∀ i, (readAndUpdate.turns (.single "id") order).clients i = .finished) :
    Completes (.single "id") readAndUpdate
      (readAndUpdate.settledAfter (.single "id") (fun _ => True) order)
      (readAndUpdate.turns (.single "id") order) where
  keyed :=
    have hidentifies : (KeySchema.single "id").Identifies oldRecord recordKey :=
      ⟨by cbv, by cbv⟩
    .single hidentifies
  held := .of_empty
  starts i := by
    have hfree : (KeySchema.single "id").FloatFree newRecord := by
      rintro _ ⟨⟩
      trivial
    cases i with
    | true =>
        exact ⟨rfl, trivial⟩
    | false =>
        exact ⟨hfree, rfl, trivial⟩
  counts _ := rfl
  run := .turns .start order
  finished := hfinished

/-- The document that was found is put before the new one. -/
def inTime : System Bool :=
  readAndUpdate.turns (.single "id") [true, false, true, true, false, false]

/-- The look-up puts the old document into the cache, and the update the new one over it. -/
theorem Completes.agrees_read_and_update :
    (KeySchema.single "id").DotFree ∧ (KeySchema.single "id").Shapes recordKey ∧
      (∃ settled, Completes (.single "id") readAndUpdate settled inTime ∧ settled recordKey) ∧
      inTime.cache.find? recordKey = some newRecord ∧
      inTime.collection.documents.find? (fun doc => recordKey.filter.holds doc) =
        some newRecord := by
  have hdots : (KeySchema.single "id").DotFree := by decide
  have hcompletes := readAndUpdate_completes [true, false, true, true, false, false]
    fun i => by cases i <;> cbv
  have hsettled : readAndUpdate.settledAfter (.single "id") (fun _ => True)
      [true, false, true, true, false, false] recordKey := by
    refine ⟨fun _ => ⟨fun j => ?_, false, recordKey, newRecord, by cbv, by cbv⟩, fun hne => ?_⟩
    · cases j <;> exact id
    · have hsame := PrimaryKey.same_refl recordKey
      exact absurd (hsame.symm.trans hne) (by simp)
  have hheld : inTime.cache.find? recordKey = some newRecord := by
    cbv
  exact ⟨hdots, rfl, ⟨_, hcompletes, hsettled⟩, hheld,
    hcompletes.agrees hdots rfl hsettled hheld⟩

/-- The document that was found is put after the new one. -/
def late : System Bool :=
  readAndUpdate.turns (.single "id") [true, true, false, false, false, true]

/-- A document with a point in the name of its identity, and with another value at that path. -/
def dottedRecord (value : String) : Document :=
  [("a", .object [("b", .string "y")]), ("a.b", .string value)]

def dottedKey (value : String) : PrimaryKey := .single "a.b" (.string value)

/-- The only client changes the key of a document. -/
def rename : System Unit where
  cache := .empty
  collection := ⟨[dottedRecord "y"], [["a.b"]]⟩
  counts := fun _ => 0
  clients := fun _ => .updating (dottedRecord "x") (dottedKey "y")

def renamed : System Unit :=
  rename.turns (.single "a.b") [(), (), ()]

theorem rename_completes :
    Completes (.single "a.b") rename
      (rename.settledAfter (.single "a.b") (fun _ => True) [(), (), ()]) renamed where
  keyed :=
    have hidentifies : (KeySchema.single "a.b").Identifies (dottedRecord "y") (dottedKey "y") :=
      ⟨by cbv, by cbv⟩
    .single hidentifies
  held := .of_empty
  starts _ := by
    have hfree : (KeySchema.single "a.b").FloatFree (dottedRecord "x") := by
      rintro _ ⟨⟩
      trivial
    exact ⟨hfree, rfl, trivial⟩
  counts _ := rfl
  run := .turns .start _
  finished i := by cbv

/-- A document that is put late stays in the cache.  If the name of the identity has a point, one
may stay that the filter of its key does not find, though it was put in time. -/
theorem disagrees_after_race :
    ((∃ settled, Completes (.single "id") readAndUpdate settled late) ∧
        late.cache.find? recordKey = some oldRecord ∧
        late.collection.documents.find? (fun doc => recordKey.filter.holds doc) =
          some newRecord) ∧
      (∃ settled, Completes (.single "a.b") rename settled renamed ∧ settled (dottedKey "x")) ∧
      renamed.cache.find? (dottedKey "x") = some (dottedRecord "x") ∧
      renamed.collection.documents.find? (fun doc => (dottedKey "x").filter.holds doc) = none := by
  refine ⟨⟨⟨_, readAndUpdate_completes _ fun i => ?_⟩, by cbv, by cbv⟩, ⟨_, rename_completes, ?_⟩,
    by cbv, by cbv⟩
  · cases i <;> cbv
  · refine ⟨fun _ => ⟨fun _ => id, (), dottedKey "x", dottedRecord "x", by cbv, by cbv⟩,
      fun hne => ?_⟩
    have hsame := PrimaryKey.same_refl (dottedKey "x")
    exact absurd (hsame.symm.trans hne) (by simp)

end Clients

end System
end DocumentTables
