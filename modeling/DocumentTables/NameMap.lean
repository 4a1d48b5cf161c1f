/-!
# Maps from names

A map from names is a list of pairs whose names are strictly increasing, in the order of code points.
The fields of a JSON object and the collections of a database are such maps.

**Results.**

* `get?_insert_self`, `get?_insert_of_ne`: what a look-up finds after an insertion.
* `sorted_insert`: insertion keeps the names strictly increasing.
* `insert_insert_self`, `insert_comm`: insertions of the same name, and of different ones.
-/

namespace DocumentTables

/-- Pairs of a name and what it stands for. -/
abbrev NameMap (α : Type) := List (String × α)

namespace NameMap

variable {α : Type}

/-- The names are strictly increasing. -/
def Sorted (m : NameMap α) : Prop :=
  (m.map (·.1)).Pairwise (· < ·)

/-- What a name stands for. -/
def get? (m : NameMap α) (name : String) : Option α :=
  List.lookup name m

/-- Let a name stand for a value, at its place among increasing names. -/
def insert : NameMap α → String → α → NameMap α
  | [], name, value => [(name, value)]
  | (k, v) :: rest, name, value =>
      match compare name k with
      | .lt => (name, value) :: (k, v) :: rest
      | .eq => (name, value) :: rest
      | .gt => (k, v) :: insert rest name value

/-- Forget a name. -/
def erase (m : NameMap α) (name : String) : NameMap α :=
  m.filter fun pair => pair.1 ≠ name

/-- The map of the given pairs, of which the last one of each name counts. -/
def ofList (pairs : List (String × α)) : NameMap α :=
  pairs.foldl (fun m pair => insert m pair.1 pair.2) []

@[simp] theorem get?_nil
    (name : String) :
    get? ([] : NameMap α) name = none := by
  rfl

theorem get?_cons
    (k : String) (v : α) (rest : NameMap α) (name : String) :
    get? ((k, v) :: rest) name = if name = k then some v else get? rest name := by
  by_cases h : name = k
  · simp [get?, h]
  · simp [get?, List.lookup_cons, h, beq_eq_false_iff_ne.mpr h]

@[simp] theorem get?_insert_self
    (m : NameMap α) (name : String) (value : α) :
    get? (insert m name value) name = some value := by
  induction m with
  | nil =>
      simp [insert, get?_cons]
  | cons pair rest ih =>
      obtain ⟨k, v⟩ := pair
      simp only [insert]
      split
      · simp [get?_cons]
      · simp [get?_cons]
      · next h =>
          have hne : name ≠ k := by
            rintro rfl
            simp at h
          simp [get?_cons, hne, ih]

theorem get?_insert_of_ne
    (m : NameMap α) {name other : String} (value : α) (h : other ≠ name) :
    get? (insert m name value) other = get? m other := by
  induction m with
  | nil =>
      simp [insert, get?_cons, h]
  | cons pair rest ih =>
      obtain ⟨k, v⟩ := pair
      simp only [insert]
      split
      · simp [get?_cons, h]
      · next heq =>
          have hk : name = k := Std.LawfulEqOrd.eq_of_compare heq
          subst hk
          simp [get?_cons, h]
      · simp [get?_cons, ih]

theorem mem_names_insert
    {m : NameMap α} {name other : String} {value : α}
    (h : other ∈ (insert m name value).map (·.1)) :
    other = name ∨ other ∈ m.map (·.1) := by
  induction m with
  | nil =>
      simpa [insert] using h
  | cons pair rest ih =>
      obtain ⟨k, v⟩ := pair
      simp only [insert] at h
      split at h
      · simpa using h
      · next heq =>
          have hk : name = k := Std.LawfulEqOrd.eq_of_compare heq
          subst hk
          simp only [List.map_cons, List.mem_cons] at h ⊢
          rcases h with h | h
          · exact .inl h
          · exact .inr (.inr h)
      · simp only [List.map_cons, List.mem_cons] at h ⊢
        rcases h with h | h
        · exact .inr (.inl h)
        · rcases ih h with h | h
          · exact .inl h
          · exact .inr (.inr h)

theorem lt_of_compare_eq_lt
    {a b : String} (h : compare a b = .lt) :
    a < b := by
  have : compareOfLessAndEq a b = .lt := h
  unfold compareOfLessAndEq at this
  split at this
  · assumption
  · split at this <;> simp at this

theorem sorted_insert
    {m : NameMap α} (name : String) (value : α) (h : m.Sorted) :
    Sorted (insert m name value) := by
  induction m with
  | nil =>
      simp [insert, Sorted]
  | cons pair rest ih =>
      obtain ⟨k, v⟩ := pair
      have hrest : Sorted rest := (List.pairwise_cons.mp h).2
      have hk := (List.pairwise_cons.mp h).1
      simp only [insert]
      split
      · next hlt =>
          have hlt := lt_of_compare_eq_lt hlt
          refine List.pairwise_cons.mpr ⟨?_, h⟩
          intro other hother
          rcases List.mem_cons.mp hother with rfl | hother
          · exact hlt
          · exact String.lt_trans hlt (hk other hother)
      · next heq =>
          have heq : name = k := Std.LawfulEqOrd.eq_of_compare heq
          subst heq
          exact List.pairwise_cons.mpr ⟨hk, hrest⟩
      · next hgt =>
          have hgt : k < name := lt_of_compare_eq_lt (Std.OrientedCmp.lt_of_gt hgt)
          refine List.pairwise_cons.mpr ⟨?_, ih hrest⟩
          intro other hother
          rcases mem_names_insert hother with rfl | hother
          · exact hgt
          · exact hk other hother

theorem compare_eq_lt_of_lt
    {a b : String} (h : a < b) :
    compare a b = .lt := by
  change compareOfLessAndEq a b = .lt
  rw [compareOfLessAndEq, if_pos h]

theorem lt_cases
    (a b : String) :
    a < b ∨ a = b ∨ b < a := by
  cases h : compare a b with
  | lt =>
      exact .inl (lt_of_compare_eq_lt h)
  | eq =>
      exact .inr (.inl (Std.LawfulEqOrd.eq_of_compare h))
  | gt =>
      exact .inr (.inr (lt_of_compare_eq_lt (Std.OrientedCmp.lt_of_gt h)))

theorem insert_cons_of_lt
    {k name : String} (v : α) (rest : NameMap α) (value : α) (h : name < k) :
    insert ((k, v) :: rest) name value = (name, value) :: (k, v) :: rest := by
  rw [insert, compare_eq_lt_of_lt h]

theorem insert_cons_self
    (name : String) (v : α) (rest : NameMap α) (value : α) :
    insert ((name, v) :: rest) name value = (name, value) :: rest := by
  have heq : compare name name = .eq := Std.ReflCmp.compare_self
  rw [insert, heq]

theorem insert_cons_of_gt
    {k name : String} (v : α) (rest : NameMap α) (value : α) (h : k < name) :
    insert ((k, v) :: rest) name value = (k, v) :: insert rest name value := by
  rw [insert, Std.OrientedCmp.gt_of_lt (compare_eq_lt_of_lt h)]

/-- Of two values for one name the last one counts. -/
theorem insert_insert_self
    (m : NameMap α) (name : String) (value last : α) :
    insert (insert m name value) name last = insert m name last := by
  induction m with
  | nil =>
      exact insert_cons_self name value [] last
  | cons pair rest ih =>
      obtain ⟨k, v⟩ := pair
      obtain h | rfl | h := lt_cases name k
      · rw [insert_cons_of_lt v rest value h, insert_cons_of_lt v rest last h, insert_cons_self]
      · rw [insert_cons_self, insert_cons_self, insert_cons_self]
      · rw [insert_cons_of_gt v rest value h, insert_cons_of_gt v rest last h,
          insert_cons_of_gt v _ last h, ih]

theorem insert_comm_of_lt
    (m : NameMap α) {a b : String} (v w : α) (hab : a < b) :
    insert (insert m a v) b w = insert (insert m b w) a v := by
  induction m with
  | nil =>
      simp only [insert]
      exact (insert_cons_of_gt v [] w hab).trans (insert_cons_of_lt w [] v hab).symm
  | cons pair rest ih =>
      obtain ⟨k, x⟩ := pair
      obtain hb | rfl | hb := lt_cases b k
      · rw [insert_cons_of_lt x rest v (String.lt_trans hab hb), insert_cons_of_gt v _ w hab,
          insert_cons_of_lt x rest w hb, insert_cons_of_lt w _ v hab]
      · rw [insert_cons_of_lt x rest v hab, insert_cons_of_gt v _ w hab, insert_cons_self,
          insert_cons_of_lt w rest v hab]
      · obtain ha | rfl | ha := lt_cases a k
        · rw [insert_cons_of_lt x rest v ha, insert_cons_of_gt v _ w hab,
            insert_cons_of_gt x rest w hb, insert_cons_of_lt x _ v ha]
        · rw [insert_cons_self, insert_cons_of_gt v rest w hab, insert_cons_of_gt x rest w hab,
            insert_cons_self]
        · rw [insert_cons_of_gt x rest v ha, insert_cons_of_gt x _ w hb,
            insert_cons_of_gt x rest w hb, insert_cons_of_gt x _ v ha, ih]

/-- Values for different names are put in in any order. -/
theorem insert_comm
    (m : NameMap α) {a b : String} (v w : α) (h : a ≠ b) :
    insert (insert m a v) b w = insert (insert m b w) a v := by
  obtain hab | hab | hba := lt_cases a b
  · exact insert_comm_of_lt m v w hab
  · exact absurd hab h
  · exact (insert_comm_of_lt m w v hba).symm

end NameMap
end DocumentTables
