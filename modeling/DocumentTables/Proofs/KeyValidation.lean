import Mathlib
import DocumentTables.Proofs.FieldMaps
import DocumentTables.Proofs.TableRequests

/-!
# What validation finds

Two things are wrong in a key: an array, and a string that is no safe identity.  Validation visits the
values of a key in the order of their names and reports the first wrong one, so of two it is the
names that decide which is reported: the one at the lesser names.  An array behind an unsafe string
is never seen, and the key is treated as one that is merely unsafe.

**Results.**

* `PrimaryKey.exists_finds`: the walk over a value reports the first defect.
* `PrimaryKey.firstUnsafe_cases`: the same for a key.
* `Request.run_of_validate_error`: requests for a key that is refused.
* `PrimaryKey.validate_classifies`: what validation answers for each key, and what the requests of a
  table make of it.
-/

namespace DocumentTables

/-! ## Defects of a value -/

/-- What is wrong with a value that a key asks for. -/
inductive Defect where
  | array
  | unsafeText (s : String)

namespace Value

/-- What is wrong with a value itself. -/
def defect? : Value → Option Defect
  | .array _ => some .array
  | .string s => if Text.isSafeId s then none else some (.unsafeText s)
  | _ => none

/-- What is wrong with the value at the end of nested names. -/
def defectAt? (v : Value) (names : List String) : Option Defect :=
  (Document.descend v names).bind defect?

/-- The defect at the least names, if there is any. -/
inductive Finds (v : Value) : Option (List String × Defect) → Prop
  | nothing : (∀ names, v.defectAt? names = none) → Finds v none
  | first {names : List String} {d : Defect} :
      v.defectAt? names = some d → (∀ other, other < names → v.defectAt? other = none) →
      Finds v (some (names, d))

variable {v w : Value} {name : String} {names : List String} {fields : Fields} {d : Defect}
  {found found' : Option (List String × Defect)}

@[simp] theorem defectAt?_nil :
    v.defectAt? [] = v.defect? := by
  simp [defectAt?]

theorem defectAt?_cons :
    v.defectAt? (name :: names) =
      (NameMap.get? v.fields name).bind fun inner => inner.defectAt? names := by
  rw [defectAt?, descend_cons, Option.bind_assoc]
  rfl

/-- A value that is no object has no defect but its own. -/
theorem defectAt?_cons_of_scalar
    (h : v.fields = []) :
    v.defectAt? (name :: names) = none := by
  rw [defectAt?_cons, h, NameMap.get?_nil, Option.bind_none]

theorem defectAt?_object_self :
    (Value.object ((name, v) :: fields)).defectAt? (name :: names) = v.defectAt? names := by
  rw [defectAt?_cons, fields_object, NameMap.get?_cons, if_pos rfl, Option.bind_some]

theorem defectAt?_object_of_ne
    {other : String} (h : other ≠ name) :
    (Value.object ((name, v) :: fields)).defectAt? (other :: names) =
      (Value.object fields).defectAt? (other :: names) := by
  rw [defectAt?_cons, fields_object, NameMap.get?_cons, if_neg h, defectAt?_cons, fields_object]

/-- The names of later fields are greater. -/
theorem defectAt?_object_of_not_lt
    (hsorted : NameMap.Sorted ((name, v) :: fields)) {other : String} (h : ¬ name < other) :
    (Value.object fields).defectAt? (other :: names) = none := by
  rw [defectAt?_cons, fields_object]
  cases hget : NameMap.get? fields other with
  | none =>
      rfl
  | some inner =>
      have hmem : other ∈ fields.map (·.1) :=
        List.mem_map_of_mem (NameMap.mem_of_get?_eq_some hget)
      exact absurd ((List.pairwise_cons.mp hsorted).1 other hmem) h

theorem Finds.congr
    (h : v.Finds found) (heq : ∀ names, w.defectAt? names = v.defectAt? names) :
    w.Finds found := by
  cases h with
  | nothing hnone =>
      exact .nothing fun names => (heq names).trans (hnone names)
  | first hfound hleast =>
      exact .first ((heq _).trans hfound) fun other hother =>
        (heq other).trans (hleast other hother)

/-- There is only one first defect. -/
theorem Finds.unique
    (h : v.Finds found) (h' : v.Finds found') :
    found = found' := by
  cases h with
  | nothing hnone =>
      cases h' with
      | nothing _ =>
          rfl
      | first hfound' _ =>
          simp [hnone] at hfound'
  | @first names d hfound hleast =>
      cases h' with
      | nothing hnone =>
          simp [hnone] at hfound
      | @first names' d' hfound' hleast' =>
          obtain hlt | rfl | hlt := lt_trichotomy names names'
          · simp [hleast' names hlt] at hfound
          · rw [hfound, Option.some.injEq] at hfound'
            rw [hfound']
          · simp [hleast names' hlt] at hfound'

/-- The first defect of the first field is that of the object. -/
theorem Finds.head
    (hsorted : NameMap.Sorted ((name, v) :: fields)) (h : v.Finds (some (names, d))) :
    (Value.object ((name, v) :: fields)).Finds (some (name :: names, d)) := by
  cases h with
  | first hfound hleast =>
      refine .first (defectAt?_object_self.trans hfound) ?_
      intro other hother
      cases other with
      | nil =>
          simp [defect?]
      | cons n ns =>
          rcases List.cons_lt_cons_iff.mp hother with hlt | ⟨rfl, hlt⟩
          · rw [defectAt?_object_of_ne (ne_of_lt hlt)]
            exact defectAt?_object_of_not_lt hsorted hlt.asymm
          · rw [defectAt?_object_self]
            exact hleast ns hlt

/-- If nothing is wrong in the first field, the others decide. -/
theorem Finds.tail
    (hsorted : NameMap.Sorted ((name, v) :: fields)) (hv : v.Finds none)
    (h : (Value.object fields).Finds found) :
    (Value.object ((name, v) :: fields)).Finds found := by
  refine h.congr ?_
  intro other
  cases other with
  | nil =>
      simp [defect?]
  | cons n ns =>
      by_cases hn : n = name
      · subst hn
        cases hv with
        | nothing hnone =>
            rw [defectAt?_object_self, hnone ns,
              defectAt?_object_of_not_lt hsorted (lt_irrefl n)]
      · exact defectAt?_object_of_ne hn

end Value

namespace PrimaryKey

open Value

/-! ## The walk -/

/-- What is reported about the first defect below a path. -/
def report (path : String) :
    Option (List String × Defect) → Except ValidationError (Option (String × String))
  | none => .ok none
  | some (names, .array) => .error (.unsupportedKeyValue (names.foldl Path.dotted path) "array")
  | some (names, .unsafeText s) => .ok (some (names.foldl Path.dotted path, s))

mutual

/-- The walk over a value reports its first defect. -/
theorem exists_finds : ∀ (v : Value) (path : String), v.Sorted →
    ∃ found, v.Finds found ∧ unsafeLeaf path v = report path found
  | .null, _, _ => ⟨none, .nothing fun names => by cases names <;> rfl, rfl⟩
  | .bool _, _, _ => ⟨none, .nothing fun names => by cases names <;> rfl, rfl⟩
  | .number _, _, _ => ⟨none, .nothing fun names => by cases names <;> rfl, rfl⟩
  | .string s, path, _ => by
      by_cases hsafe : Text.isSafeId s = true
      · refine ⟨none, .nothing ?_, by simp [unsafeLeaf, hsafe, report]⟩
        intro names
        cases names with
        | nil =>
            simp [defect?, hsafe]
        | cons name names =>
            exact defectAt?_cons_of_scalar rfl
      · refine ⟨some ([], .unsafeText s), .first (by simp [defect?, hsafe]) ?_,
          by simp [unsafeLeaf, hsafe, report]⟩
        exact fun other hother => absurd hother (List.not_lt_nil other)
  | .array items, path, _ =>
      ⟨some ([], .array), .first (by simp [defect?]) fun other hother =>
        absurd hother (List.not_lt_nil other), rfl⟩
  | .object fields, path, hsorted => by
      rw [unsafeLeaf]
      exact exists_finds_object fields path hsorted.1 hsorted.2

/-- The walk over the fields of an object reports the first defect of the object. -/
theorem exists_finds_object : ∀ (fields : List (String × Value)) (path : String),
    NameMap.Sorted fields → SortedFields fields →
    ∃ found, (Value.object fields).Finds found ∧ unsafeLeafAmong path fields = report path found
  | [], _, _, _ => ⟨none, .nothing fun names => by cases names <;> rfl, rfl⟩
  | (name, v) :: fields, path, hnames, hfields => by
      obtain ⟨found, hfound, hleaf⟩ := exists_finds v (Path.dotted path name) hfields.1
      cases found with
      | none =>
          obtain ⟨later, hlater, hrest⟩ :=
            exists_finds_object fields path (List.pairwise_cons.mp hnames).2 hfields.2
          refine ⟨later, hfound.tail hnames hlater, ?_⟩
          rw [unsafeLeafAmong, hleaf]
          exact hrest
      | some first =>
          obtain ⟨names, d⟩ := first
          refine ⟨some (name :: names, d), hfound.head hnames, ?_⟩
          rw [unsafeLeafAmong, hleaf]
          cases d <;> rfl

end

variable {key : PrimaryKey} {e : ValidationError} {found : Option (List String × Defect)}

/-- A key without sub-fields is refused, and about any other key the first defect is reported. -/
theorem firstUnsafe_cases
    (hsorted : key.value.Sorted) :
    key.WithoutParts ∧ key.firstUnsafe = .error (.emptyCompositeKey key.field) ∨
    ¬ key.WithoutParts ∧
      ∃ found, key.value.Finds found ∧ key.firstUnsafe = report key.field found := by
  cases key with
  | single field value =>
      exact .inr ⟨by simp [WithoutParts], exists_finds value field hsorted⟩
  | composite field parts =>
      cases parts with
      | nil =>
          exact .inl ⟨rfl, rfl⟩
      | cons part parts =>
          exact .inr ⟨by simp [WithoutParts],
            exists_finds_object (part :: parts) field hsorted.1 hsorted.2⟩

/-- What validation answers about a key in which something was found. -/
def answer (key : PrimaryKey) : Option (List String × Defect) → Except ValidationError Bool
  | none => .ok true
  | some (names, .array) =>
      .error (.unsupportedKeyValue (names.foldl Path.dotted key.field) "array")
  | some (_, .unsafeText _) => .ok false

/-- Validation answers by the first defect of a key. -/
theorem validate_cases
    (hsorted : key.value.Sorted) :
    key.WithoutParts ∧ key.validate = .error (.emptyCompositeKey key.field) ∨
    ¬ key.WithoutParts ∧ ∃ found, key.value.Finds found ∧ key.validate = key.answer found := by
  rw [validate]
  obtain ⟨hparts, hfirst⟩ | ⟨hparts, found, hfound, hfirst⟩ := firstUnsafe_cases hsorted
  · exact .inl ⟨hparts, by rw [hfirst]; rfl⟩
  · refine .inr ⟨hparts, found, hfound, ?_⟩
    rw [hfirst]
    rcases found with _ | ⟨names, _ | s⟩ <;> rfl

/-! ## Keys by what they hold -/

/-- There is an array at the end of some nested names. -/
def HoldsArray (key : PrimaryKey) : Prop :=
  ∃ names, key.value.defectAt? names = some .array

/-- There is a string that is no safe identity at the end of some nested names. -/
def HoldsUnsafe (key : PrimaryKey) : Prop :=
  ∃ names s, key.value.defectAt? names = some (.unsafeText s)

/-- There is a string that is no safe identity, and no array before it. -/
def UnsafeFirst (key : PrimaryKey) : Prop :=
  ∃ names s, key.value.defectAt? names = some (.unsafeText s) ∧
    ∀ other, key.value.defectAt? other = some .array → names < other

/-- The refusal of a key that can identify no document names its field, or the path of the array that
is the first thing wrong in it. -/
inductive Refuses (key : PrimaryKey) : ValidationError → Prop
  | withoutParts : key.WithoutParts → Refuses key (.emptyCompositeKey key.field)
  | array {names : List String} : key.value.Finds (some (names, .array)) →
      Refuses key (.unsupportedKeyValue (names.foldl Path.dotted key.field) "array")

theorem WithoutParts.finds
    (h : key.WithoutParts) :
    key.value.Finds none := by
  rw [h]
  exact .nothing fun names => by cases names <;> rfl

/-- Nothing is wrong in a key exactly if nothing is found. -/
theorem clean_iff
    (h : key.value.Finds found) :
    ¬ key.HoldsArray ∧ ¬ key.HoldsUnsafe ↔ found = none := by
  constructor
  · rintro ⟨harray, hstring⟩
    cases h with
    | nothing _ =>
        rfl
    | @first names d hfound _ =>
        cases d with
        | array =>
            exact absurd ⟨names, hfound⟩ harray
        | unsafeText s =>
            exact absurd ⟨names, s, hfound⟩ hstring
  · rintro rfl
    cases h with
    | nothing hnone =>
        simp [HoldsArray, HoldsUnsafe, hnone]

/-- An unsafe string comes before all arrays exactly if it is what is found. -/
theorem unsafeFirst_iff
    (h : key.value.Finds found) :
    key.UnsafeFirst ↔ ∃ names s, found = some (names, .unsafeText s) := by
  constructor
  · rintro ⟨names, s, hstring, hbefore⟩
    cases h with
    | nothing hnone =>
        simp [hnone] at hstring
    | @first least d hfound hleast =>
        cases d with
        | unsafeText t =>
            exact ⟨least, t, rfl⟩
        | array =>
            -- the array stands behind the string, so it is not the first defect
            simp [hleast names (hbefore least hfound)] at hstring
  · rintro ⟨names, s, rfl⟩
    cases h with
    | first hfound hleast =>
        refine ⟨names, s, hfound, ?_⟩
        intro other hother
        obtain hlt | rfl | hlt := lt_trichotomy names other
        · exact hlt
        · simp [hfound] at hother
        · simp [hleast other hlt] at hother

/-- An array is found exactly if there is one and no unsafe string comes before it. -/
theorem arrayFirst_iff
    (h : key.value.Finds found) :
    key.HoldsArray ∧ ¬ key.UnsafeFirst ↔ ∃ names, found = some (names, .array) := by
  rw [unsafeFirst_iff h]
  constructor
  · rintro ⟨⟨names, harray⟩, hstring⟩
    cases h with
    | nothing hnone =>
        simp [hnone] at harray
    | @first least d _ _ =>
        cases d with
        | array =>
            exact ⟨least, rfl⟩
        | unsafeText s =>
            exact absurd ⟨least, s, rfl⟩ hstring
  · rintro ⟨names, rfl⟩
    cases h with
    | first hfound _ =>
        exact ⟨⟨names, hfound⟩, by simp⟩

theorem refuses_iff
    (h : key.value.Finds found) :
    key.Refuses e ↔ key.WithoutParts ∧ e = .emptyCompositeKey key.field ∨
      ∃ names, found = some (names, .array) ∧
        e = .unsupportedKeyValue (names.foldl Path.dotted key.field) "array" := by
  constructor
  · intro hrefuses
    cases hrefuses with
    | withoutParts hparts =>
        exact .inl ⟨hparts, rfl⟩
    | @array names hfound =>
        exact .inr ⟨names, h.unique hfound, rfl⟩
  · rintro (⟨hparts, rfl⟩ | ⟨names, rfl, rfl⟩)
    · exact .withoutParts hparts
    · exact .array h

/-! ## Requests -/

end PrimaryKey

namespace Request

/-- The requests that reach for the document of a key. -/
inductive Addresses (key : PrimaryKey) : Request → Prop
  | select (mode : CacheMode) : Addresses key (.select key mode)
  | existsDocument : Addresses key (.existsDocument key)
  | update (doc : Document) (validate : Bool) : Addresses key (.update doc key validate)
  | delete : Addresses key (.delete key)

variable {σ : Type} {key : PrimaryKey} {request : Request} {e : ValidationError}

/-- A request for a key that validation refuses does nothing: neither the backend is asked nor the
cache. -/
theorem run_of_validate_error
    (h : request.Addresses key) (hvalid : key.validate = .error e) (m : ConnectionManager σ)
    (s : TableState σ) :
    (request.perform m).run s = (.error (.validation e), s) := by
  cases h with
  | select mode =>
      rw [perform, TableAction.run_map, Table.run_selectWith_eq, hvalid]
      rfl
  | existsDocument =>
      rw [perform, TableAction.run_map, Table.run_existsDocument, hvalid]
      rfl
  | update doc validate =>
      rw [perform, TableAction.run_map, Table.run_updateWith_eq, hvalid]
      rfl
  | delete =>
      rw [perform, TableAction.run_map, Table.run_delete_eq, hvalid]
      rfl

/-- A key that passes is looked for in the backend. -/
theorem run_existsDocument_of_validate_ok
    {safe : Bool} (hvalid : key.validate = .ok safe) (m : ConnectionManager σ)
    (s : TableState σ) :
    ((Request.existsDocument key).perform m).run s =
      ((m.execute (m.backend.count s.table.name key.filter) s.connection).1.map
          fun count => .holds (decide (0 < count)),
        s.calling (m.execute (m.backend.count s.table.name key.filter) s.connection).2) := by
  rw [perform, TableAction.run_map, Table.run_existsDocument, hvalid]
  rcases m.execute (m.backend.count s.table.name key.filter) s.connection with ⟨_ | _, c⟩ <;> rfl

end Request

namespace PrimaryKey

variable {key : PrimaryKey}

/-- **Validation of a key.**  It is refused if it is a composite key without sub-fields, or holds an
array with no unsafe string before the first one; it is unsafe if an unsafe string comes before all
arrays; and it is safe if nothing is wrong with it.  Requests for a refused key do nothing, and one
for an unsafe key reaches the backend, whatever arrays the key holds. -/
theorem validate_classifies
    {σ : Type} (hsorted : key.value.Sorted) :
    (∀ e, key.validate = .error e ↔ key.Refuses e) ∧
    ((∃ e, key.validate = .error e) ↔ key.WithoutParts ∨ key.HoldsArray ∧ ¬ key.UnsafeFirst) ∧
    (key.validate = .ok false ↔ key.UnsafeFirst) ∧
    (key.validate = .ok true ↔ ¬ key.WithoutParts ∧ ¬ key.HoldsArray ∧ ¬ key.HoldsUnsafe) ∧
    (∀ request : Request, request.Addresses key → ∀ e, key.Refuses e →
      ∀ (m : ConnectionManager σ) (s : TableState σ),
        (request.perform m).run s = (.error (.validation e), s)) ∧
    (key.UnsafeFirst → ∀ (m : ConnectionManager σ) (s : TableState σ),
      ((Request.existsDocument key).perform m).run s =
        ((m.execute (m.backend.count s.table.name key.filter) s.connection).1.map
            fun count => .holds (decide (0 < count)),
          s.calling (m.execute (m.backend.count s.table.name key.filter) s.connection).2)) := by
  have hanswers :
      (∀ e, key.validate = .error e ↔ key.Refuses e) ∧
      ((∃ e, key.validate = .error e) ↔ key.WithoutParts ∨ key.HoldsArray ∧ ¬ key.UnsafeFirst) ∧
      (key.validate = .ok false ↔ key.UnsafeFirst) ∧
      (key.validate = .ok true ↔ ¬ key.WithoutParts ∧ ¬ key.HoldsArray ∧ ¬ key.HoldsUnsafe) := by
    obtain ⟨hparts, hvalid⟩ | ⟨hparts, found, hfound, hvalid⟩ := validate_cases hsorted
    · have hfound := hparts.finds
      rw [arrayFirst_iff hfound, unsafeFirst_iff hfound, clean_iff hfound, hvalid]
      simp [refuses_iff hfound, hparts, eq_comm]
    · rw [arrayFirst_iff hfound, unsafeFirst_iff hfound, clean_iff hfound, hvalid]
      simp only [refuses_iff hfound]
      rcases found with _ | ⟨names, _ | s⟩
      · simp [answer, hparts]
      · simp [answer, hparts, eq_comm]
      · simp [answer, hparts]
  obtain ⟨hrefuses, hrefused, hstring, hsafe⟩ := hanswers
  refine ⟨hrefuses, hrefused, hstring, hsafe, ?_, ?_⟩
  · exact fun request haddresses e he m s =>
      Request.run_of_validate_error haddresses ((hrefuses e).mpr he) m s
  · exact fun h m s => Request.run_existsDocument_of_validate_ok (hstring.mpr h) m s

/-- A key with an array in its first sub-field and a string with a blank in its second. -/
def arrayFirstKey : PrimaryKey :=
  .composite "id"
    [("a", .object [("list", .array [.string "x"])]), ("z", .string "b c")]

/-- A key with a string with a blank in its first sub-field and an array in its second. -/
def unsafeFirstKey : PrimaryKey :=
  .composite "id" [("a", .string "b c"), ("z", .array [.string "x"])]

/-- A manager that makes one attempt. -/
def oneAttempt : ConnectionManager MemoryBackend :=
  ⟨⟨1, Duration.ofSeconds 1⟩, fun w => (.ok Sample.parameters, w), MemoryBackend.backend⟩

/-- A table without a cache that holds one row, written without validation. -/
def unsafeRow : TableState MemoryBackend where
  table := .new "rows" (.composite "id" ["a", "z"]) "cache" 0
  connection := .initial
    { MemoryBackend.empty with
      database := [("rows", ⟨[[("id", unsafeFirstKey.value)]], [["id.a", "id.z"]]⟩)] }
  files := .empty

/-- The array comes first: the key is refused under the path of the array, and no row is looked
for. -/
theorem validate_classifies_arrayFirst :
    arrayFirstKey.value.Sorted ∧
    arrayFirstKey.Refuses (.unsupportedKeyValue "id.a.list" "array") ∧
    ((Request.delete arrayFirstKey).perform oneAttempt).run unsafeRow =
      (.error (.validation (.unsupportedKeyValue "id.a.list" "array")), unsafeRow) := by
  have hnames : ["a", "z"].Pairwise fun a b => a < b := by
    decide +kernel
  have hsorted : arrayFirstKey.value.Sorted :=
    ⟨hnames, ⟨⟨List.pairwise_singleton _ _, ⟨trivial, trivial⟩, trivial⟩, trivial, trivial⟩⟩
  obtain ⟨hrefuses, -, -, -, hrequests, -⟩ := validate_classifies (σ := MemoryBackend) hsorted
  have harray : arrayFirstKey.Refuses (.unsupportedKeyValue "id.a.list" "array") :=
    (hrefuses _).mp rfl
  exact ⟨hsorted, harray, hrequests _ .delete _ harray oneAttempt unsafeRow⟩

/-- The string comes first: the key passes as one that is merely unsafe although it holds an array,
and over one connection its row is found. -/
theorem validate_array_behind_unsafe :
    unsafeFirstKey.HoldsArray ∧ unsafeFirstKey.validate = .ok false ∧
    (((Request.existsDocument unsafeFirstKey).perform oneAttempt).run unsafeRow).1 =
      .ok (.holds true) ∧
    (((Request.existsDocument unsafeFirstKey).perform oneAttempt).run
      unsafeRow).2.connection.world.opened = 1 :=
  ⟨⟨["z"], rfl⟩, rfl, rfl, rfl⟩

end PrimaryKey
end DocumentTables
