import Mathlib.Data.List.Find
import DocumentTables.Proofs.KeyIdentity
import DocumentTables.Proofs.KeyMap

/-!
# Collections as maps from keys

A collection with a unique index on the identity of a schema, whose documents all have valid keys,
is a map from keys to documents, and its writes are those of the map.  That takes keys without
floating-point numbers: for others the map tells apart what the collection does not.

**Results.**

* `Collection.Keyed.find?_filter`: the first document that the filter of a key accepts is the one
  that the map has for the key.
* `Collection.Keyed.insert`, `Collection.Keyed.replace`, `Collection.Keyed.eraseIdx`: what the
  writes do to the map.
-/

namespace DocumentTables

/-- The document has the given key. -/
def KeySchema.hasKey (schema : KeySchema) (key : PrimaryKey) (doc : Document) : Bool :=
  match schema.extractKey doc with
  | .ok own => own.same key
  | .error _ => false

namespace KeySchema

variable {schema : KeySchema} {doc : Document} {own key other : PrimaryKey}

theorem hasKey_of_extractKey
    (h : schema.extractKey doc = .ok own) (key : PrimaryKey) :
    schema.hasKey key doc = own.same key := by
  simp [hasKey, h]

theorem hasKey_congr
    (h : key.same other = true) :
    schema.hasKey key doc = schema.hasKey other doc := by
  simp only [hasKey]
  cases schema.extractKey doc with
  | error e =>
      rfl
  | ok own =>
      simp only [PrimaryKey.same_comm own, PrimaryKey.same_congr h]

/-- The filter of a key accepts the documents that have the key. -/
theorem holds_eq_hasKey
    (hdots : schema.DotFree) (hdoc : schema.Identifies doc own) (hshape : schema.Shapes key) :
    key.filter.holds doc = schema.hasKey key doc := by
  rw [Bool.eq_iff_iff, holds_iff hdots hdoc hshape, hasKey_of_extractKey hdoc.1,
    PrimaryKey.same_comm]

end KeySchema

namespace Collection

/-- The document that a collection has for each key. -/
def contents (c : Collection) (schema : KeySchema) : KeyMap where
  find := fun key => c.documents.find? (schema.hasKey key)
  find_congr := by
    intro k l h
    have : schema.hasKey k = schema.hasKey l :=
      funext fun doc => schema.hasKey_congr (PrimaryKey.same_of_alike h)
    rw [this]

/-- The collection has a unique index on the identity, all its documents have valid keys, and no two
of them the same. -/
structure Keyed (c : Collection) (schema : KeySchema) : Prop where
  indexed : schema.indexFields ∈ c.uniqueIndexes
  valid : ∀ doc ∈ c.documents, ∃ own, schema.Identifies doc own
  distinct :
    c.documents.Pairwise fun a b =>
      ∀ key, schema.hasKey key a = true → schema.hasKey key b = false

variable {schema : KeySchema} {c c' : Collection} {doc : Document} {own key : PrimaryKey}

theorem documents_of_insert
    (h : c.insert doc = .ok c') :
    c'.documents = c.documents ++ [doc] := by
  rw [insert] at h
  split at h
  · simp at h
  · cases h
    rfl

/-- Only the keys of documents have one. -/
theorem contents_finite
    (c : Collection) (schema : KeySchema) :
    (c.contents schema).Finite := by
  refine ⟨c.documents.filterMap fun doc => (schema.extractKey doc).toOption, fun k hk => ?_⟩
  obtain ⟨doc, hfind⟩ := Option.ne_none_iff_exists'.mp hk
  have hkey := List.find?_some hfind
  rw [KeySchema.hasKey] at hkey
  split at hkey
  · next own hown =>
      refine ⟨own, List.mem_filterMap.mpr ⟨doc, List.mem_of_find?_eq_some hfind, ?_⟩, hkey⟩
      rw [hown]
      rfl
  · simp at hkey

/-- A document that agrees with none of the others on the identity has a key of its own. -/
theorem hasKey_of_clash?_eq_none
    (hdots : schema.DotFree) {indexes : List (List String)} {others : List Document}
    (hindex : schema.indexFields ∈ indexes) (hdoc : schema.extractKey doc = .ok own)
    (hclash : clash? indexes others doc = none) :
    ∀ other ∈ others, schema.hasKey own other = false := by
  intro other hother
  have hagree : agree schema.indexFields other doc = false := by
    have := List.find?_eq_none.mp hclash _ hindex
    simp only [List.any_eq_true, not_exists, not_and, Bool.not_eq_true] at this
    exact this other hother
  cases hkey : schema.extractKey other with
  | error e =>
      simp [KeySchema.hasKey, hkey]
  | ok k =>
      rw [schema.hasKey_of_extractKey hkey, ← Bool.not_eq_true,
        ← KeySchema.agree_iff hdots hkey hdoc, hagree]
      simp

/-- A document with a key that no other has agrees with none of them on the identity. -/
theorem clash?_eq_none_of_hasKey
    (hdots : schema.DotFree) {indexes : List (List String)} {others : List Document}
    (hindexes : ∀ index ∈ indexes, index = schema.indexFields)
    (hdoc : schema.extractKey doc = .ok own)
    (hvalid : ∀ other ∈ others, ∃ k, schema.Identifies other k)
    (hothers : ∀ other ∈ others, schema.hasKey own other = false) :
    clash? indexes others doc = none := by
  refine List.find?_eq_none.mpr fun index hindex => ?_
  rw [hindexes index hindex, Bool.not_eq_true, List.any_eq_false]
  intro other hother
  obtain ⟨k, hk, -⟩ := hvalid other hother
  have := hothers other hother
  rw [schema.hasKey_of_extractKey hk] at this
  rw [KeySchema.agree_iff hdots hk hdoc, this]
  simp

/-- A document at which a search ends stands between those before it, which were passed over, and
those after it. -/
theorem exists_split
    {p : Document → Bool} {docs : List Document} {position : Nat}
    (h : docs.findIdx? p = some position) :
    ∃ before old after,
      docs = before ++ old :: after ∧ before.length = position ∧ p old = true := by
  obtain ⟨hlt, hold, -⟩ := List.findIdx?_eq_some_iff_getElem.mp h
  refine ⟨docs.take position, docs[position], docs.drop (position + 1), ?_, ?_, hold⟩
  · rw [List.getElem_cons_drop, List.take_append_drop]
  · rw [List.length_take]
    omega

/-- A new document in front of which no other has its key. -/
theorem contents_middle
    {before after : List Document} {indexes : List (List String)}
    (hdoc : schema.extractKey doc = .ok own) (hfree : own.FloatFree)
    (hbefore : ∀ other ∈ before, schema.hasKey own other = false) :
    (Collection.mk (before ++ doc :: after) indexes).contents schema =
      ((Collection.mk (before ++ after) indexes).contents schema).store own doc := by
  ext k : 2
  rw [KeyMap.find_store, hfree.alike_eq_same]
  change (before ++ doc :: after).find? (schema.hasKey k) =
    if own.same k then some doc else (before ++ after).find? (schema.hasKey k)
  rw [List.find?_append, List.find?_append, List.find?_cons, schema.hasKey_of_extractKey hdoc]
  by_cases hk : own.same k = true
  · have : before.find? (schema.hasKey k) = none := by
      refine List.find?_eq_none.mpr fun other hother => ?_
      rw [← schema.hasKey_congr hk, hbefore other hother]
      simp
    simp [hk, this]
  · simp [hk]

namespace Keyed

variable {before after : List Document} {old : Document} {indexes : List (List String)}

/-- A single document with a valid key. -/
theorem single
    (hdoc : schema.Identifies doc own) :
    (Collection.mk [doc] [schema.indexFields]).Keyed schema := by
  refine ⟨List.mem_singleton_self _, ?_, List.pairwise_singleton _ _⟩
  intro other hother
  rw [List.mem_singleton] at hother
  subst hother
  exact ⟨own, hdoc⟩

/-- What the filter of a key finds is what the map has for the key. -/
theorem find?_filter
    (h : c.Keyed schema) (hdots : schema.DotFree) (hshape : schema.Shapes key) :
    c.documents.find? (fun doc => key.filter.holds doc) = (c.contents schema).find key := by
  refine List.find?_congr fun doc hdoc => ?_
  obtain ⟨own, hown⟩ := h.valid doc hdoc
  exact KeySchema.holds_eq_hasKey hdots hown hshape

/-- Without one of its documents, a collection is keyed as before. -/
theorem without
    (h : (Collection.mk (before ++ old :: after) indexes).Keyed schema) :
    (Collection.mk (before ++ after) indexes).Keyed schema := by
  have hsub : (before ++ after).Sublist (before ++ old :: after) :=
    (List.sublist_cons_self old after).append_left before
  exact
    ⟨h.indexed, fun doc hdoc => h.valid doc (hsub.subset hdoc), h.distinct.sublist hsub⟩

/-- A new document with a key of its own may stand anywhere. -/
theorem middle
    (h : (Collection.mk (before ++ after) indexes).Keyed schema)
    (hdoc : schema.Identifies doc own)
    (hfresh : ∀ other ∈ before ++ after, schema.hasKey own other = false) :
    (Collection.mk (before ++ doc :: after) indexes).Keyed schema := by
  refine ⟨h.indexed, ?_, ?_⟩
  · intro other hother
    rw [List.mem_append, List.mem_cons, or_left_comm, ← List.mem_append] at hother
    rcases hother with rfl | hother
    · exact ⟨own, hdoc⟩
    · exact h.valid other hother
  · refine (List.pairwise_middle ?_).mpr (List.pairwise_cons.mpr ⟨?_, h.distinct⟩)
    · intro a b hab key hb
      rw [← Bool.not_eq_true]
      intro ha
      rw [hab key ha] at hb
      simp at hb
    · intro other hother key hkey
      rw [schema.hasKey_of_extractKey hdoc.1] at hkey
      rw [← schema.hasKey_congr hkey]
      exact hfresh other hother

/-- No other document has the key that one of them has. -/
theorem hasKey_eq_false
    (h : (Collection.mk (before ++ old :: after) indexes).Keyed schema)
    (hold : schema.hasKey key old = true) :
    ∀ other ∈ before ++ after, schema.hasKey key other = false := by
  obtain ⟨-, hafter, hbefore⟩ := List.pairwise_append.mp h.distinct
  intro other hother
  rcases List.mem_append.mp hother with hother | hother
  · rw [← Bool.not_eq_true]
    intro hkey
    have := hbefore other hother old List.mem_cons_self key hkey
    simp [hold] at this
  · exact (List.pairwise_cons.mp hafter).1 other hother key hold

/-- Without the document of a key, the map is without the key. -/
theorem contents_without
    (h : (Collection.mk (before ++ old :: after) indexes).Keyed schema)
    (hold : schema.hasKey key old = true) (hfree : key.FloatFree) :
    (Collection.mk (before ++ after) indexes).contents schema =
      ((Collection.mk (before ++ old :: after) indexes).contents schema).erase key := by
  obtain ⟨own, hown, -⟩ := h.valid old (by simp)
  have hothers := h.hasKey_eq_false hold
  rw [schema.hasKey_of_extractKey hown] at hold
  ext k : 2
  rw [KeyMap.find_erase, hfree.alike_eq_same]
  change (before ++ after).find? (schema.hasKey k) =
    if key.same k then none else (before ++ old :: after).find? (schema.hasKey k)
  by_cases hk : key.same k = true
  · rw [if_pos hk]
    refine List.find?_eq_none.mpr fun other hother => ?_
    rw [← schema.hasKey_congr hk, hothers other hother]
    simp
  · have : schema.hasKey k old = false := by
      rw [schema.hasKey_of_extractKey hown, PrimaryKey.same_congr hold]
      simpa using hk
    simp [hk, List.find?_append, this]

/-- The document of a key. -/
theorem find_of_hasKey
    (h : (Collection.mk (before ++ old :: after) indexes).Keyed schema)
    (hold : schema.hasKey key old = true) :
    ((Collection.mk (before ++ old :: after) indexes).contents schema).find key = some old := by
  have : before.find? (schema.hasKey key) = none := by
    refine List.find?_eq_none.mpr fun other hother => ?_
    rw [h.hasKey_eq_false hold other (List.mem_append_left _ hother)]
    simp
  change (before ++ old :: after).find? (schema.hasKey key) = some old
  simp [List.find?_append, this, hold]

/-- Every document is the one of its key. -/
theorem find_of_mem
    (h : c.Keyed schema) (hdoc : doc ∈ c.documents) (hown : schema.extractKey doc = .ok own) :
    (c.contents schema).find own = some doc := by
  obtain ⟨docs, indexes⟩ := c
  obtain ⟨before, after, rfl⟩ := List.append_of_mem hdoc
  refine h.find_of_hasKey ?_
  rw [schema.hasKey_of_extractKey hown]
  exact PrimaryKey.same_refl own

/-- The position that the filter of a key leads to is that of the document that the map has for the
key. -/
theorem split_of_position?
    (h : c.Keyed schema) (hdots : schema.DotFree) (hshape : schema.Shapes key) {position : Nat}
    (hposition : c.position? key.filter = some position) :
    ∃ before old after, c.documents = before ++ old :: after ∧ before.length = position ∧
      schema.hasKey key old = true := by
  obtain ⟨before, old, after, hdocs, hlength, hold⟩ := exists_split hposition
  obtain ⟨own, hown⟩ := h.valid old (by simp [hdocs])
  refine ⟨before, old, after, hdocs, hlength, ?_⟩
  rw [← KeySchema.holds_eq_hasKey hdots hown hshape]
  exact hold

/-- The filter of a key leads nowhere exactly if the map has nothing for the key. -/
theorem position?_eq_none_iff
    (h : c.Keyed schema) (hdots : schema.DotFree) (hshape : schema.Shapes key) :
    c.position? key.filter = none ↔ (c.contents schema).find key = none := by
  rw [← h.find?_filter hdots hshape, List.find?_eq_none, position?, List.findIdx?_eq_none_iff]
  simp

/-- An insertion adds a document whose key had none. -/
theorem insert
    (h : c.Keyed schema) (hdots : schema.DotFree) (hdoc : schema.Identifies doc own)
    (hfree : own.FloatFree) (hinsert : c.insert doc = .ok c') :
    c'.Keyed schema ∧ (c.contents schema).find own = none ∧
      c'.contents schema = (c.contents schema).store own doc := by
  obtain ⟨docs, indexes⟩ := c
  rw [Collection.insert] at hinsert
  split at hinsert
  · simp at hinsert
  · next hclash =>
      cases hinsert
      have hfresh := hasKey_of_clash?_eq_none hdots h.indexed hdoc.1 hclash
      have hkeyed : (Collection.mk (docs ++ doc :: []) indexes).Keyed schema :=
        middle (by simpa using h) hdoc (by simpa using hfresh)
      have hcontents :
          (Collection.mk (docs ++ doc :: []) indexes).contents schema =
            ((Collection.mk (docs ++ []) indexes).contents schema).store own doc :=
        contents_middle hdoc.1 hfree hfresh
      refine ⟨hkeyed, ?_, by simpa using hcontents⟩
      refine List.find?_eq_none.mpr fun other hother => ?_
      rw [hfresh other hother]
      simp

/-- A document whose key has none can be inserted, if there is no other index. -/
theorem exists_insert
    (h : c.Keyed schema) (hdots : schema.DotFree) (hdoc : schema.Identifies doc own)
    (hindexes : ∀ index ∈ c.uniqueIndexes, index = schema.indexFields)
    (hfresh : (c.contents schema).find own = none) :
    ∃ c', c.insert doc = .ok c' := by
  have hclash : clash? c.uniqueIndexes c.documents doc = none := by
    refine clash?_eq_none_of_hasKey hdots hindexes hdoc.1 h.valid fun other hother => ?_
    simpa using List.find?_eq_none.mp hfresh other hother
  exact ⟨_, by rw [Collection.insert, hclash]⟩

/-- A replacement puts a document in the place of the one with a key.  The key of the new document
is the same or had none. -/
theorem replace
    (h : c.Keyed schema) (hdots : schema.DotFree) (hsuits : schema.Suits key)
    (hdoc : schema.Identifies doc own) (hfree : own.FloatFree) {position : Nat}
    (hposition : c.position? key.filter = some position)
    (hreplace : c.replace position doc = .ok c') :
    c'.Keyed schema ∧ (c.contents schema).find key ≠ none ∧
      ((c.contents schema).erase key).find own = none ∧
      c'.contents schema = ((c.contents schema).erase key).store own doc := by
  obtain ⟨before, old, after, hdocs, rfl, hold⟩ := h.split_of_position? hdots hsuits.shapes hposition
  obtain ⟨docs, indexes⟩ := c
  subst hdocs
  rw [Collection.replace] at hreplace
  split at hreplace
  · simp at hreplace
  · next hclash =>
      cases hreplace
      have herase : (before ++ old :: after).eraseIdx before.length = before ++ after := by
        simp [List.eraseIdx_append]
      have hset : (before ++ old :: after).set before.length doc = before ++ doc :: after := by
        simp
      simp only [herase] at hclash
      simp only [hset]
      have hfresh := hasKey_of_clash?_eq_none hdots h.indexed hdoc.1 hclash
      rw [← h.contents_without hold hsuits.floatFree, h.find_of_hasKey hold]
      refine ⟨h.without.middle hdoc hfresh, by simp, ?_, ?_⟩
      · refine List.find?_eq_none.mpr fun other hother => ?_
        rw [hfresh other hother]
        simp
      · exact contents_middle hdoc.1 hfree fun other hother =>
          hfresh other (List.mem_append_left _ hother)

/-- The document with a key can be replaced by one whose key is the same or has none, if there is no
other index. -/
theorem exists_replace
    (h : c.Keyed schema) (hdots : schema.DotFree) (hsuits : schema.Suits key)
    (hdoc : schema.Identifies doc own)
    (hindexes : ∀ index ∈ c.uniqueIndexes, index = schema.indexFields) {position : Nat}
    (hposition : c.position? key.filter = some position)
    (hfresh : ((c.contents schema).erase key).find own = none) :
    ∃ c', c.replace position doc = .ok c' := by
  obtain ⟨before, old, after, hdocs, rfl, hold⟩ := h.split_of_position? hdots hsuits.shapes hposition
  obtain ⟨docs, indexes⟩ := c
  subst hdocs
  rw [← h.contents_without hold hsuits.floatFree] at hfresh
  have hclash : clash? indexes ((before ++ old :: after).eraseIdx before.length) doc = none := by
    rw [show (before ++ old :: after).eraseIdx before.length = before ++ after by
      simp [List.eraseIdx_append]]
    refine clash?_eq_none_of_hasKey hdots hindexes hdoc.1 h.without.valid fun other hother => ?_
    simpa using List.find?_eq_none.mp hfresh other hother
  exact ⟨_, by rw [Collection.replace, hclash]⟩

/-- A removal takes the document with a key. -/
theorem eraseIdx
    (h : c.Keyed schema) (hdots : schema.DotFree) (hsuits : schema.Suits key) {position : Nat}
    (hposition : c.position? key.filter = some position) :
    (Collection.mk (c.documents.eraseIdx position) c.uniqueIndexes).Keyed schema ∧
      c.documents[position]? = (c.contents schema).find key ∧
      (Collection.mk (c.documents.eraseIdx position) c.uniqueIndexes).contents schema =
        (c.contents schema).erase key := by
  obtain ⟨before, old, after, hdocs, rfl, hold⟩ := h.split_of_position? hdots hsuits.shapes hposition
  obtain ⟨docs, indexes⟩ := c
  subst hdocs
  have herase : (before ++ old :: after).eraseIdx before.length = before ++ after := by
    simp [List.eraseIdx_append]
  simp only [herase]
  refine ⟨h.without, ?_, h.contents_without hold hsuits.floatFree⟩
  rw [h.find_of_hasKey hold]
  simp

end Keyed
end Collection
end DocumentTables
