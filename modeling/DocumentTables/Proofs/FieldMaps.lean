import DocumentTables.Proofs.Equality

/-!
# Fields by name

Two objects with increasing names are equal if they have the same names and equal values for each of
them.  Names one after the other lead through nested objects, of which those that a path is made of
are an instance.

**Results.**

* `NameMap.names_eq`: increasing names are determined by their members.
* `Value.sameFields_iff`: equality of objects with the same names.
* `Value.descend_append`, `Value.sorted_of_descend`: what nested names lead to.
* `Document.lookup_dotted_eq_bind`: the path of a sub-field leads into the value of its field.
-/

namespace DocumentTables
namespace NameMap

variable {α : Type} {m n : NameMap α} {name : String} {value : α}

theorem mem_of_get?_eq_some
    (h : get? m name = some value) :
    (name, value) ∈ m := by
  induction m with
  | nil =>
      simp at h
  | cons pair rest ih =>
      obtain ⟨k, v⟩ := pair
      rw [get?_cons] at h
      split at h
      · next hk =>
          cases h
          simp [hk]
      · exact List.mem_cons_of_mem _ (ih h)

theorem get?_eq_some_of_mem
    (hm : m.Sorted) (h : (name, value) ∈ m) :
    get? m name = some value := by
  induction m with
  | nil =>
      simp at h
  | cons pair rest ih =>
      obtain ⟨k, v⟩ := pair
      obtain ⟨hk, hrest⟩ := List.pairwise_cons.mp hm
      rw [get?_cons]
      rcases List.mem_cons.mp h with heq | hmem
      · cases heq
        simp
      · have hlt : k < name := hk name (List.mem_map_of_mem hmem)
        rw [if_neg (String.ne_of_lt hlt).symm]
        exact ih hrest hmem

/-- A name stands for something exactly if it is one of the names. -/
theorem get?_isSome_iff :
    (get? m name).isSome = true ↔ name ∈ m.map (·.1) := by
  induction m with
  | nil =>
      simp
  | cons pair rest ih =>
      obtain ⟨k, v⟩ := pair
      rw [get?_cons]
      split
      · next hk =>
          simp [hk]
      · next hk =>
          simp [ih, hk]

/-- A name that stands for a value already keeps it. -/
theorem insert_eq_self
    (hm : m.Sorted) (h : get? m name = some value) :
    insert m name value = m := by
  induction m with
  | nil =>
      simp at h
  | cons pair rest ih =>
      obtain ⟨k, v⟩ := pair
      obtain ⟨hk, hrest⟩ := List.pairwise_cons.mp hm
      rw [get?_cons] at h
      split at h
      · next hname =>
          cases h
          rw [hname, insert_cons_self]
      · have hlt : k < name := hk name (List.mem_map_of_mem (mem_of_get?_eq_some h))
        rw [insert_cons_of_gt v rest value hlt, ih hrest h]

/-- Increasing names are determined by their members. -/
theorem names_eq
    (hm : m.Sorted) (hn : n.Sorted)
    (h : ∀ name, name ∈ m.map (·.1) ↔ name ∈ n.map (·.1)) :
    m.map (·.1) = n.map (·.1) := by
  have hnodup : ∀ {m : NameMap α}, m.Sorted → (m.map (·.1)).Nodup :=
    fun hm => List.Pairwise.imp String.ne_of_lt hm
  have hperm : (m.map (·.1)).Perm (n.map (·.1)) :=
    (List.perm_ext_iff_of_nodup (hnodup hm) (hnodup hn)).mpr h
  refine hperm.eq_of_pairwise ?_ hm hn
  intro a b _ _ hab hba
  exact absurd (String.lt_trans hab hba) (String.lt_irrefl a)

end NameMap

namespace Value

/-- Objects with the same increasing names are equal if the values for each name are. -/
theorem sameFields_iff
    {m n : Fields} (hm : NameMap.Sorted m) (h : m.map (·.1) = n.map (·.1)) :
    sameFields m n = true ↔
      ∀ name v w, NameMap.get? m name = some v → NameMap.get? n name = some w →
        v.same w = true := by
  induction m generalizing n with
  | nil =>
      simp only [List.map_nil, List.nil_eq, List.map_eq_nil_iff] at h
      simp [h, sameFields]
  | cons pair rest ih =>
      obtain ⟨k, v⟩ := pair
      cases n with
      | nil =>
          simp at h
      | cons pair' rest' =>
          obtain ⟨l, w⟩ := pair'
          simp only [List.map_cons, List.cons.injEq] at h
          obtain ⟨rfl, hrest⟩ := h
          obtain ⟨hk, hsorted⟩ := List.pairwise_cons.mp hm
          simp only [sameFields, beq_self_eq_true, Bool.true_and, Bool.and_eq_true,
            ih hsorted hrest]
          constructor
          · rintro ⟨hvw, hothers⟩ name v' w' hv' hw'
            rw [NameMap.get?_cons] at hv' hw'
            split at hv'
            · next hname =>
                rw [if_pos hname] at hw'
                cases hv'
                cases hw'
                exact hvw
            · next hname =>
                rw [if_neg hname] at hw'
                exact hothers name v' w' hv' hw'
          · intro hall
            refine ⟨hall k v w (by simp [NameMap.get?_cons]) (by simp [NameMap.get?_cons]), ?_⟩
            intro name v' w' hv' hw'
            have hne : name ≠ k := by
              rintro rfl
              have hmem : name ∈ rest.map (·.1) :=
                List.mem_map_of_mem (NameMap.mem_of_get?_eq_some hv')
              exact String.lt_irrefl name (hk name hmem)
            exact hall name v' w' (by simp [NameMap.get?_cons, hne, hv'])
              (by simp [NameMap.get?_cons, hne, hw'])

/-! ## Nested names -/

open Document (descend)

variable {v u value : Value} {name : String} {names : List String}

/-- The fields of an object.  Any other value has none. -/
def fields (v : Value) : Fields :=
  v.fields?.getD []

@[simp] theorem fields_object
    (fields : Fields) :
    (Value.object fields).fields = fields := by
  rfl

theorem object_fields
    (h : NameMap.get? v.fields name = some value) :
    .object v.fields = v := by
  cases v with
  | object fields =>
      rfl
  | _ =>
      simp [fields, fields?] at h

theorem sorted_of_get?
    (hv : v.Sorted) (h : NameMap.get? v.fields name = some value) :
    value.Sorted := by
  rw [← object_fields h] at hv
  exact sorted_of_mem_fields hv.2 _ (NameMap.mem_of_get?_eq_some h)

@[simp] theorem descend_nil
    (v : Value) :
    descend v [] = some v := by
  cases v <;> rfl

theorem descend_cons
    (v : Value) (name : String) (names : List String) :
    descend v (name :: names) =
      (NameMap.get? v.fields name).bind fun inner => descend inner names := by
  cases v with
  | object fields =>
      rw [descend, fields_object]
      cases NameMap.get? fields name <;> rfl
  | _ =>
      rfl

theorem descend_append
    (v : Value) (names rest : List String) :
    descend v (names ++ rest) =
      (descend v names).bind fun inner => descend inner rest := by
  induction names generalizing v with
  | nil =>
      simp
  | cons name names ih =>
      simp only [List.cons_append, descend_cons, ih, Option.bind_assoc]

theorem sorted_of_descend
    (hv : v.Sorted) (h : descend v names = some u) :
    u.Sorted := by
  induction names generalizing v with
  | nil =>
      rw [descend_nil, Option.some.injEq] at h
      exact h ▸ hv
  | cons name names ih =>
      rw [descend_cons, Option.bind_eq_some_iff] at h
      obtain ⟨inner, hinner, hu⟩ := h
      exact ih (sorted_of_get? hv hinner) hu

end Value

namespace Document

/-- The path of a sub-field leads into the value of the field. -/
theorem lookup_dotted_eq_bind
    (doc : Document) (field : String) {sub : String} (hsub : Path.DotFree sub) :
    doc.lookup (Path.dotted field sub) =
      (doc.lookup field).bind fun found => NameMap.get? found.fields sub := by
  rw [lookup, Path.segments_dotted_eq_append, Path.segments_of_dotFree hsub,
    Value.descend_append, ← lookup]
  simp [Value.descend_cons]

end Document
end DocumentTables
