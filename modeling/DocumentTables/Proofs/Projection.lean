import Mathlib.Data.List.Induction
import Mathlib.Data.List.Perm.Basic
import DocumentTables.Proofs.FieldMaps

/-!
# Projections of documents

A projection copies what some paths lead to out of a document, one path after the other.  Paths may
overlap: a later one may lead into a value that is there already, or to an object of which a part is
there.  As all values come from one document, they fit together, and the result is the same in any
order.

Setting a value at the end of nested names is described on values, where the names may be none at
all, and then carried over to documents and paths.

**Results.**

* `Value.setAt_comm`: values that one object has at two places are set in any order.
* `Value.descend_setAt_cases`: what names lead to after a value was set.
* `Document.partOf_project`: a projection is a part of its document.
* `Document.project_restricts`: a projection has what its paths lead to, and nothing else.
-/

namespace DocumentTables

open Document (descend)

namespace Value

variable {v u w value part whole : Value} {name : String} {names other : List String}

/-! ## Setting a value -/

/-- The value in a field, or an empty object where there is none. -/
def field (v : Value) (name : String) : Value :=
  (NameMap.get? v.fields name).getD (.object [])

/-- A value with another one set at the end of nested names.  Whatever is no object on the way is
replaced by one. -/
def setAt (v : Value) : List String → Value → Value
  | [], value => value
  | name :: names, value =>
      .object (NameMap.insert v.fields name (setAt (v.field name) names value))

theorem field_setAt_self
    (v : Value) (name : String) (names : List String) (value : Value) :
    (v.setAt (name :: names) value).field name = (v.field name).setAt names value := by
  simp [setAt, field]

theorem field_setAt_of_ne
    (v : Value) {name other : String} (names : List String) (value : Value) (h : other ≠ name) :
    (v.setAt (name :: names) value).field other = v.field other := by
  simp [setAt, field, NameMap.get?_insert_of_ne _ _ h]

/-- The value that was set is what its names lead to. -/
theorem descend_setAt_self
    (v : Value) (names : List String) (value : Value) :
    descend (v.setAt names value) names = some value := by
  induction names generalizing v with
  | nil =>
      exact descend_nil value
  | cons name names ih =>
      rw [descend_cons, setAt, fields_object, NameMap.get?_insert_self]
      exact ih (v.field name)

/-- To set the value that is there changes nothing. -/
theorem setAt_eq_self
    (hv : v.Sorted) (h : descend v names = some value) :
    v.setAt names value = v := by
  induction names generalizing v with
  | nil =>
      rw [descend_nil, Option.some.injEq] at h
      exact h.symm
  | cons name names ih =>
      rw [descend_cons, Option.bind_eq_some_iff] at h
      obtain ⟨inner, hinner, hvalue⟩ := h
      have hfield : v.field name = inner := by
        simp [field, hinner]
      have hobject := object_fields hinner
      rw [setAt, hfield, ih (sorted_of_get? hv hinner) hvalue]
      rw [← hobject] at hv
      rw [NameMap.insert_eq_self hv.1 hinner, hobject]

/-- Two values below one field are set one after the other in that field. -/
theorem setAt_setAt_cons
    (v : Value) (name : String) (names other : List String) (value last : Value) :
    (v.setAt (name :: names) value).setAt (name :: other) last =
      .object (NameMap.insert v.fields name
        (((v.field name).setAt names value).setAt other last)) := by
  rw [setAt, field_setAt_self, setAt, fields_object, NameMap.insert_insert_self]

/-- Values below different fields are set in any order. -/
theorem setAt_comm_of_ne
    (v : Value) {a b : String} (names other : List String) (x y : Value) (h : a ≠ b) :
    (v.setAt (a :: names) x).setAt (b :: other) y =
      (v.setAt (b :: other) y).setAt (a :: names) x := by
  rw [setAt, field_setAt_of_ne v names x h.symm, setAt.eq_2 (v.setAt _ _),
    field_setAt_of_ne v other y h]
  simp only [setAt, fields_object]
  rw [NameMap.insert_comm _ _ _ h]

/-- Values that one object has at two places are set in any order. -/
theorem setAt_comm
    (hwhole : whole.Sorted) (hv : descend whole names = some v)
    (hw : descend whole other = some w) (part : Value) :
    (part.setAt names v).setAt other w = (part.setAt other w).setAt names v := by
  induction names generalizing whole part other with
  | nil =>
      rw [descend_nil, Option.some.injEq] at hv
      subst hv
      exact setAt_eq_self hwhole hw
  | cons a names ih =>
      cases other with
      | nil =>
          rw [descend_nil, Option.some.injEq] at hw
          subst hw
          exact (setAt_eq_self hwhole hv).symm
      | cons b other =>
          by_cases hab : a = b
          · subst hab
            rw [descend_cons, Option.bind_eq_some_iff] at hv hw
            obtain ⟨inner, hinner, hv⟩ := hv
            obtain ⟨inner', hinner', hw⟩ := hw
            cases hinner.symm.trans hinner'
            rw [setAt_setAt_cons, setAt_setAt_cons, ih (sorted_of_get? hwhole hinner) hv hw]
          · exact setAt_comm_of_ne part names other v w hab

/-- What names lead to after a value was set: to what was there, to an object on the way to the
value, or into the value. -/
theorem descend_setAt_cases
    (h : descend (v.setAt names value) other = some u) :
    descend v other = some u ∨ (other <+: names ∧ u.fields?.isSome = true) ∨
      ∃ rest, other = names ++ rest ∧ descend value rest = some u := by
  induction names generalizing v other with
  | nil =>
      exact .inr (.inr ⟨other, rfl, h⟩)
  | cons name names ih =>
      cases other with
      | nil =>
          rw [setAt, descend_nil, Option.some.injEq] at h
          subst h
          exact .inr (.inl ⟨List.nil_prefix, rfl⟩)
      | cons first other =>
          by_cases hfirst : first = name
          · subst hfirst
            rw [descend_cons, setAt, fields_object, NameMap.get?_insert_self] at h
            obtain hthere | ⟨hbegins, hu⟩ | ⟨rest, rfl, hu⟩ := ih h
            · cases hinner : NameMap.get? v.fields first with
              | some inner =>
                  rw [field, hinner] at hthere
                  left
                  rwa [descend_cons, hinner]
              | none =>
                  -- the empty object that was made for the field
                  rw [field, hinner] at hthere
                  cases other with
                  | nil =>
                      cases hthere
                      exact .inr (.inl ⟨by simp, rfl⟩)
                  | cons =>
                      simp [descend_cons] at hthere
            · exact .inr (.inl ⟨by simpa using hbegins, hu⟩)
            · exact .inr (.inr ⟨rest, rfl, hu⟩)
          · left
            rw [descend_cons, setAt, fields_object, NameMap.get?_insert_of_ne _ _ hfirst] at h
            rwa [descend_cons]

/-! ## Setting a value without replacing one -/

/-- A value with another one set at the end of nested names, refused where a value on the way is no
object. -/
def setAt? : Value → List String → Value → Option Value
  | _, [], value => some value
  | .object fields, name :: names, value =>
      (setAt? ((Value.object fields).field name) names value).map fun inner =>
        .object (NameMap.insert fields name inner)
  | _, _ :: _, _ => none

/-- A value that stands where an object is needed is not replaced. -/
example : setAt? (.object [("a", .bool true)]) ["a", "b"] .null = none := by
  rfl

/-- All that names lead to in a part of a value they lead to in the whole, and what is an object in
the whole is one in the part. -/
def PartOf (part whole : Value) : Prop :=
  ∀ names u, descend part names = some u →
    ∃ v, descend whole names = some v ∧ (v.fields?.isSome = true → u.fields?.isSome = true)

theorem partOf_empty
    (whole : Value) :
    PartOf (.object []) whole := by
  intro names u h
  cases names with
  | nil =>
      cases h
      exact ⟨whole, descend_nil whole, fun _ => rfl⟩
  | cons name names =>
      simp [descend_cons] at h

namespace PartOf

theorem field
    (h : PartOf part whole) {inner : Value} (hinner : NameMap.get? whole.fields name = some inner) :
    PartOf (part.field name) inner := by
  rw [Value.field]
  cases hfield : NameMap.get? part.fields name with
  | none =>
      exact partOf_empty inner
  | some kept =>
      intro names u hu
      have hbelow := h (name :: names) u (by rwa [descend_cons, hfield])
      rwa [descend_cons, hinner] at hbelow

/-- A part with one more value of the whole is a part. -/
theorem setAt
    (h : PartOf part whole) (hv : descend whole names = some v) :
    PartOf (part.setAt names v) whole := by
  intro other u hu
  obtain hthere | ⟨⟨rest, rfl⟩, hobject⟩ | ⟨rest, rfl, hu⟩ := descend_setAt_cases hu
  · exact h other u hthere
  · rw [descend_append, Option.bind_eq_some_iff] at hv
    obtain ⟨inner, hinner, -⟩ := hv
    exact ⟨inner, hinner, fun _ => hobject⟩
  · exact ⟨u, by rwa [descend_append, hv], id⟩

/-- No value on the way to one of the whole has to be replaced in a part. -/
theorem setAt?
    (h : PartOf part whole) (hv : descend whole names = some v) :
    part.setAt? names v = some (part.setAt names v) := by
  induction names generalizing part whole with
  | nil =>
      cases part <;> rfl
  | cons name names ih =>
      rw [descend_cons, Option.bind_eq_some_iff] at hv
      obtain ⟨inner, hinner, hv⟩ := hv
      obtain ⟨_, hwhole, hobject⟩ := h [] part (descend_nil part)
      rw [descend_nil, Option.some.injEq] at hwhole
      subst hwhole
      rw [← object_fields hinner] at hobject
      cases part with
      | object fields =>
          rw [Value.setAt?, ih (h.field hinner) hv]
          rfl
      | _ =>
          simp [fields?] at hobject

end PartOf
end Value

namespace Document

variable {doc : Document} {path : String} {paths : List String}

/-- The object in a field, as the setting of a value finds it. -/
theorem fields_field
    (doc : Document) (name : String) :
    ((Value.object doc).field name).fields = ((NameMap.get? doc name).bind Value.fields?).getD [] := by
  rw [Value.field, Value.fields_object, Value.fields]
  cases NameMap.get? doc name <;> rfl

theorem object_insertAt
    (doc : Document) {names : List String} (h : names ≠ []) (value : Value) :
    .object (insertAt doc names value) = (Value.object doc).setAt names value := by
  induction names generalizing doc with
  | nil =>
      exact absurd rfl h
  | cons name names ih =>
      cases names with
      | nil =>
          rfl
      | cons next names =>
          have hinner : (Value.object doc).setAt (name :: next :: names) value =
              .object (NameMap.insert doc name
                (Value.setAt (.object ((Value.object doc).field name).fields) (next :: names)
                  value)) := rfl
          rw [hinner, ← ih _ (List.cons_ne_nil next names), fields_field]
          rfl

/-- A step of a projection: a value of the document is set, if its path leads to one. -/
def keep (doc : Document) (part : Value) (path : String) : Value :=
  match doc.lookup path with
  | some value => part.setAt (Path.segments path) value
  | none => part

theorem project_append
    (doc : Document) (paths : List String) (path : String) :
    doc.project (paths ++ [path]) =
      match doc.lookup path with
      | some value => insertAt (doc.project paths) (Path.segments path) value
      | none => doc.project paths := by
  rw [project, List.foldl_append]
  rfl

theorem object_project_append
    (doc : Document) (paths : List String) (path : String) :
    .object (doc.project (paths ++ [path])) = doc.keep (.object (doc.project paths)) path := by
  rw [project_append, keep]
  cases doc.lookup path with
  | none =>
      rfl
  | some value =>
      exact object_insertAt _ (Path.segments_ne_nil path) value

theorem object_project
    (doc : Document) (paths : List String) :
    .object (doc.project paths) = paths.foldl doc.keep (.object []) := by
  induction paths using List.reverseRecOn with
  | nil =>
      rfl
  | append_singleton paths path ih =>
      rw [object_project_append, ih, List.foldl_append, List.foldl_cons, List.foldl_nil]

/-- A step of a projection that replaces no value. -/
def keep? (doc : Document) (part : Value) (path : String) : Option Value :=
  match doc.lookup path with
  | some value => part.setAt? (Path.segments path) value
  | none => some part

/-- A projection that is given up where a value would have to be replaced by an object. -/
def project? (doc : Document) (paths : List String) : Option Value :=
  paths.foldlM doc.keep? (.object [])

/-- A projection is a part of the document. -/
theorem partOf_project
    (doc : Document) (paths : List String) :
    Value.PartOf (.object (doc.project paths)) (.object doc) := by
  induction paths using List.reverseRecOn with
  | nil =>
      exact Value.partOf_empty (.object doc)
  | append_singleton paths path ih =>
      rw [object_project_append, keep]
      cases hvalue : doc.lookup path with
      | none =>
          exact ih
      | some value =>
          exact ih.setAt hvalue

theorem project?_eq
    (doc : Document) (paths : List String) :
    doc.project? paths = some (.object (doc.project paths)) := by
  induction paths using List.reverseRecOn with
  | nil =>
      rfl
  | append_singleton paths path ih =>
      rw [project?] at ih ⊢
      rw [List.foldlM_append, ih, object_project_append, keep]
      simp only [List.foldlM_cons, List.foldlM_nil, Option.bind_eq_bind, Option.bind_some, keep?]
      cases hvalue : doc.lookup path with
      | none =>
          rfl
      | some value =>
          simp only [(partOf_project doc paths).setAt? hvalue]
          rfl

theorem isSome_lookup_of_project
    (h : ((doc.project paths).lookup path).isSome = true) :
    (doc.lookup path).isSome = true := by
  obtain ⟨u, hu⟩ := Option.isSome_iff_exists.mp h
  obtain ⟨v, hv, -⟩ := partOf_project doc paths (Path.segments path) u hu
  exact Option.isSome_iff_exists.mpr ⟨v, hv⟩

/-- Nested names that lead to something in a projection begin one of the paths or begin with it. -/
theorem exists_path_of_descend_project
    {names : List String} (hnames : names ≠ []) {u : Value}
    (h : descend (.object (doc.project paths)) names = some u) :
    ∃ path ∈ paths, (doc.lookup path).isSome = true ∧
      (names <+: Path.segments path ∨ Path.segments path <+: names) := by
  induction paths using List.reverseRecOn generalizing u with
  | nil =>
      obtain ⟨name, names, rfl⟩ := List.exists_cons_of_ne_nil hnames
      simp [project, Value.descend_cons] at h
  | append_singleton paths path ih =>
      have hearlier : ∀ {u}, descend (.object (doc.project paths)) names = some u →
          ∃ path' ∈ paths ++ [path], (doc.lookup path').isSome = true ∧
            (names <+: Path.segments path' ∨ Path.segments path' <+: names) := by
        intro u hu
        obtain ⟨path', hpath', hreaches⟩ := ih hu
        exact ⟨path', List.mem_append_left [path] hpath', hreaches⟩
      rw [object_project_append, keep] at h
      cases hvalue : doc.lookup path with
      | none =>
          rw [hvalue] at h
          exact hearlier h
      | some value =>
          rw [hvalue] at h
          have hpath : (doc.lookup path).isSome = true := by
            rw [hvalue]
            rfl
          have hmem : path ∈ paths ++ [path] := List.mem_append_right paths List.mem_cons_self
          obtain hthere | ⟨hbegins, -⟩ | ⟨rest, rfl, -⟩ := Value.descend_setAt_cases h
          · exact hearlier hthere
          · exact ⟨path, hmem, hpath, .inl hbegins⟩
          · exact ⟨path, hmem, hpath, .inr (List.prefix_append _ rest)⟩

theorem keep_comm
    (hdoc : doc.Sorted) (part : Value) (path other : String) :
    doc.keep (doc.keep part path) other = doc.keep (doc.keep part other) path := by
  cases hv : doc.lookup path with
  | none =>
      simp only [keep, hv]
  | some v =>
      cases hw : doc.lookup other with
      | none =>
          simp only [keep, hv, hw]
      | some w =>
          simp only [keep, hv, hw]
          exact Value.setAt_comm hdoc hv hw part

theorem project_perm
    (hdoc : doc.Sorted) {others : List String} (h : paths.Perm others) :
    doc.project paths = doc.project others := by
  have hfold : paths.foldl doc.keep (.object []) = others.foldl doc.keep (.object []) :=
    h.foldl_eq' (fun path _ other _ part => keep_comm hdoc part path other) (.object [])
  rw [← object_project, ← object_project] at hfold
  exact Value.object.inj hfold

theorem lookup_project
    (hdoc : doc.Sorted) (h : path ∈ paths) :
    (doc.project paths).lookup path = doc.lookup path := by
  cases hvalue : doc.lookup path with
  | none =>
      rw [← Option.not_isSome_iff_eq_none]
      intro hsome
      simpa [hvalue] using isSome_lookup_of_project hsome
  | some value =>
      -- the path may as well have been the last one
      have hlast : paths.Perm (paths.erase path ++ [path]) :=
        (List.perm_cons_erase h).trans (List.perm_append_singleton path _).symm
      rw [project_perm hdoc hlast, lookup, object_project_append, keep, hvalue]
      exact Value.descend_setAt_self _ (Path.segments path) value

/-- A projection depends on nothing but what its paths lead to. -/
theorem project_congr
    {other : Document} (h : ∀ path ∈ paths, doc.lookup path = other.lookup path) :
    doc.project paths = other.project paths := by
  induction paths using List.reverseRecOn with
  | nil =>
      rfl
  | append_singleton paths path ih =>
      rw [project_append, project_append, h path (by simp),
        ih fun path hpath => h path (by simp [hpath])]

/-- A projection to some paths leads to the same values on these paths as its document.  Any path
that leads somewhere in it does so in the document, and begins one of the given paths that lead
somewhere, or begins with it.  The order of the paths does not matter, a second projection to them
changes nothing, and no value is ever replaced by an object on the way to another one. -/
theorem project_restricts
    (hdoc : doc.Sorted) (paths : List String) :
    (∀ path ∈ paths, (doc.project paths).lookup path = doc.lookup path) ∧
    (∀ path, ((doc.project paths).lookup path).isSome = true →
      (doc.lookup path).isSome = true ∧
      ∃ asked ∈ paths, (doc.lookup asked).isSome = true ∧
        (Path.segments path <+: Path.segments asked ∨
          Path.segments asked <+: Path.segments path)) ∧
    (∀ others, paths.Perm others → doc.project others = doc.project paths) ∧
    (doc.project paths).project paths = doc.project paths ∧
    doc.project? paths = some (.object (doc.project paths)) := by
  refine ⟨fun path h => lookup_project hdoc h, fun path h => ⟨isSome_lookup_of_project h, ?_⟩,
    fun others h => (project_perm hdoc h).symm, ?_, project?_eq doc paths⟩
  · obtain ⟨u, hu⟩ := Option.isSome_iff_exists.mp h
    exact exists_path_of_descend_project (Path.segments_ne_nil path) hu
  · exact project_congr fun path h => lookup_project hdoc h

/-- A document with an identity object that has more fields than are asked for. -/
def citiesRow : Document :=
  [("body", .string "x"),
    ("id", .object [("datatype", .string "LAYER"), ("extra", .number (.whole 1)),
      ("id", .string "cities")])]

/-- Paths of which one begins two others, one stands twice and two lead nowhere. -/
def overlappingPaths : List String :=
  ["id.id", "body.x", "id", "id.datatype", "", "id.id"]

theorem sorted_citiesRow :
    citiesRow.Sorted := by
  have hnames : ["body", "id"].Pairwise fun a b => a < b := by
    decide +kernel
  have hinner : ["datatype", "extra", "id"].Pairwise fun a b => a < b := by
    decide +kernel
  exact ⟨hnames, trivial, ⟨hinner, trivial, trivial, trivial, trivial⟩, trivial⟩

/-- The whole identity object is kept, whether it comes before its own fields or after them. -/
theorem project_restricts_cities :
    citiesRow.Sorted ∧ "id.id" ∈ overlappingPaths ∧
      (citiesRow.project overlappingPaths).lookup "id.id" = some (.string "cities") ∧
      ((citiesRow.project overlappingPaths).lookup "id.extra").isSome = true ∧
      (∃ asked ∈ overlappingPaths, (citiesRow.lookup asked).isSome = true ∧
        (Path.segments "id.extra" <+: Path.segments asked ∨
          Path.segments asked <+: Path.segments "id.extra")) ∧
      overlappingPaths.Perm overlappingPaths.reverse ∧
      citiesRow.project overlappingPaths.reverse = citiesRow.project overlappingPaths ∧
      (citiesRow.project overlappingPaths).project overlappingPaths =
        citiesRow.project overlappingPaths ∧
      citiesRow.project? overlappingPaths = some (.object (citiesRow.project overlappingPaths)) := by
  obtain ⟨hlookup, hleads, horder, hagain, hkept⟩ :=
    project_restricts sorted_citiesRow overlappingPaths
  have hmem : "id.id" ∈ overlappingPaths := by
    decide
  have hextra : ((citiesRow.project overlappingPaths).lookup "id.extra").isSome = true := by
    rfl
  have hperm : overlappingPaths.Perm overlappingPaths.reverse :=
    (List.reverse_perm overlappingPaths).symm
  exact ⟨sorted_citiesRow, hmem, hlookup "id.id" hmem, hextra, (hleads "id.extra" hextra).2, hperm,
    horder _ hperm, hagain, hkept⟩

end Document
end DocumentTables
