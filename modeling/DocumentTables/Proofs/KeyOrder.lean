import Mathlib
import DocumentTables.Key.Order

/-!
# The order of keys is total

Keys are compared by two things: the list of their leaves, each with its path and its text, and the
canonical text.  Both are compared in order of the alphabet, and comparisons of that kind are total
orders.  So the order of keys is a total preorder in which keys with the same leaves and the same
canonical text stand together, and a sorted list of keys does not depend on the order that the keys
were given in.

**Results.**

* `PrimaryKey.compareText`, `PrimaryKey.compareRank`: the comparisons as total orders.
* `PrimaryKey.cmp_eq_compareRank`: keys are compared by their ranks.
* `PrimaryKey.cmp_eq_eq_iff`: the keys that the order does not tell apart.
* `PrimaryKey.map_rank_sort`: sorting forgets the order of a list.
* `PrimaryKey.cmp_lawful`: the laws of the order.
-/

namespace DocumentTables
namespace PrimaryKey

/-! ## Leaves and ranks -/

/-- A leaf as the order sees it: its path, and its text if it has one. -/
def spot (leaf : Leaf) : String × Option String :=
  (leaf.1, leafText leaf.2)

/-- What a key is compared by. -/
structure Rank where
  spots : List (String × Option String)
  text : String

/-- The rank of a key: its leaves as the order sees them, and its canonical text. -/
def rank (key : PrimaryKey) : Rank :=
  ⟨key.leaves.map spot, key.canonicalText⟩

/-- Paths come first, then texts. -/
def compareSpot (a b : String × Option String) : Ordering :=
  (compare a.1 b.1).then (compareText a.2 b.2)

/-- Leaves come first, then canonical texts. -/
def compareRank (a b : Rank) : Ordering :=
  (List.compareLex compareSpot a.spots b.spots).then (compare a.text b.text)

theorem compareLeaves_eq
    (as bs : List Leaf) :
    compareLeaves as bs = List.compareLex compareSpot (as.map spot) (bs.map spot) := by
  induction as generalizing bs with
  | nil =>
      cases bs <;> rfl
  | cons a as ih =>
      obtain ⟨p, v⟩ := a
      cases bs with
      | nil =>
          rfl
      | cons b bs =>
          obtain ⟨q, w⟩ := b
          rw [List.map_cons, List.map_cons, List.compareLex_cons_cons, ← ih, compareLeaves,
            compareSpot]
          simp only [spot]
          cases compare p q <;> cases compareText (leafText v) (leafText w) <;> rfl

/-- Keys are compared by their ranks. -/
theorem cmp_eq_compareRank
    (a b : PrimaryKey) :
    cmp a b = compareRank a.rank b.rank := by
  rw [cmp, compareLeaves_eq, compareRank]
  simp only [rank]
  cases List.compareLex compareSpot (a.leaves.map spot) (b.leaves.map spot) <;> rfl

/-! ## The comparisons are total orders -/

/-- A comparison of two parts, one after the other, is transitive if those of the parts are. -/
theorem isLE_then_trans
    {α β : Type} {cmp₁ : α → α → Ordering} {cmp₂ : β → β → Ordering} [Std.TransCmp cmp₁]
    [Std.TransCmp cmp₂] {a b c : α} {x y z : β}
    (hab : ((cmp₁ a b).then (cmp₂ x y)).isLE = true)
    (hbc : ((cmp₁ b c).then (cmp₂ y z)).isLE = true) :
    ((cmp₁ a c).then (cmp₂ x z)).isLE = true := by
  simp only [Ordering.isLE_then_iff_and] at *
  obtain ⟨hab₁, hab₂⟩ := hab
  obtain ⟨hbc₁, hbc₂⟩ := hbc
  refine ⟨Std.TransCmp.isLE_trans hab₁ hbc₁, ?_⟩
  rcases hab₂ with hlt | hab₂
  · exact .inl (Std.TransCmp.lt_of_lt_of_isLE hlt hbc₁)
  · rcases hbc₂ with hlt | hbc₂
    · exact .inl (Std.TransCmp.lt_of_isLE_of_lt hab₁ hlt)
    · exact .inr (Std.TransCmp.isLE_trans hab₂ hbc₂)

instance : Std.TransCmp compareText where
  eq_swap {x y} := by
    cases x <;> cases y
    · rfl
    · rfl
    · rfl
    · exact Std.OrientedOrd.eq_swap
  isLE_trans {x y z} hxy hyz := by
    cases z with
    | none =>
        -- a missing text comes after everything
        cases x <;> rfl
    | some z =>
        cases y with
        | none =>
            cases hyz
        | some y =>
            cases x with
            | none =>
                cases hxy
            | some x =>
                simp only [compareText] at *
                exact Std.TransOrd.isLE_trans hxy hyz

instance : Std.LawfulEqCmp compareText where
  compare_self {x} := by
    cases x
    · rfl
    · exact Std.ReflCmp.compare_self
  eq_of_compare {x y} h := by
    cases x <;> cases y
    · rfl
    · cases h
    · cases h
    · exact congrArg some (Std.LawfulEqOrd.eq_of_compare h)

instance : Std.TransCmp compareSpot where
  eq_swap {a b} := by
    rw [compareSpot, compareSpot, Ordering.swap_then, ← @Std.OrientedCmp.eq_swap _ compare,
      ← @Std.OrientedCmp.eq_swap _ compareText]
  isLE_trans hab hbc := isLE_then_trans hab hbc

instance : Std.LawfulEqCmp compareSpot where
  compare_self := by
    simp [compareSpot]
  eq_of_compare {a b} h := by
    rw [compareSpot, Ordering.then_eq_eq] at h
    exact Prod.ext (Std.LawfulEqCmp.eq_of_compare h.1) (Std.LawfulEqCmp.eq_of_compare h.2)

instance : Std.TransCmp compareRank where
  eq_swap {a b} := by
    rw [compareRank, compareRank, Ordering.swap_then,
      ← @Std.OrientedCmp.eq_swap _ (List.compareLex compareSpot),
      ← @Std.OrientedCmp.eq_swap _ compare]
  isLE_trans hab hbc := isLE_then_trans hab hbc

instance : Std.LawfulEqCmp compareRank where
  compare_self := by
    simp [compareRank]
  eq_of_compare {a b} h := by
    rw [compareRank, Ordering.then_eq_eq] at h
    obtain ⟨spots, text⟩ := a
    obtain ⟨spots', text'⟩ := b
    congr 1
    · exact Std.LawfulEqCmp.eq_of_compare h.1
    · exact Std.LawfulEqCmp.eq_of_compare h.2

instance : Std.TransCmp cmp where
  eq_swap {a b} := by
    rw [cmp_eq_compareRank, cmp_eq_compareRank]
    exact Std.OrientedCmp.eq_swap
  isLE_trans {a b c} hab hbc := by
    rw [cmp_eq_compareRank] at *
    exact Std.TransCmp.isLE_trans hab hbc

/-- The order does not tell keys of one rank apart. -/
theorem cmp_eq_eq_iff
    {a b : PrimaryKey} :
    cmp a b = .eq ↔ a.leaves.map spot = b.leaves.map spot ∧ a.canonicalText = b.canonicalText := by
  rw [cmp_eq_compareRank, Std.LawfulEqCmp.compare_eq_iff_eq]
  exact Rank.mk.injEq _ _ _ _ ▸ Iff.rfl

/-! ## Sorting -/

theorem perm_sort
    (keys : List PrimaryKey) :
    (sort keys).Perm keys := by
  exact List.mergeSort_perm keys _

theorem pairwise_sort
    (keys : List PrimaryKey) :
    (sort keys).Pairwise fun a b => (cmp a b).isLE = true := by
  refine List.pairwise_mergeSort ?_ ?_ keys
  · exact fun a b c hab hbc => Std.TransCmp.isLE_trans hab hbc
  · intro a b
    rw [Bool.or_eq_true, @Std.OrientedCmp.eq_swap _ cmp _ b, Ordering.isLE_swap]
    cases cmp a b <;> simp

theorem pairwise_rank_sort
    (keys : List PrimaryKey) :
    ((sort keys).map rank).Pairwise fun a b => (compareRank a b).isLE = true := by
  rw [List.pairwise_map]
  exact (pairwise_sort keys).imp fun h => by rwa [cmp_eq_compareRank] at h

/-- Lists of the same keys are sorted into lists of the same ranks. -/
theorem map_rank_sort
    {keys keys' : List PrimaryKey} (h : keys.Perm keys') :
    (sort keys).map rank = (sort keys').map rank := by
  have hperm : (sort keys).Perm (sort keys') :=
    (perm_sort keys).trans (h.trans (perm_sort keys').symm)
  refine (hperm.map rank).eq_of_pairwise ?_ (pairwise_rank_sort keys) (pairwise_rank_sort keys')
  intro a b _ _ hab hba
  exact Std.LawfulEqCmp.eq_of_compare (Std.OrientedCmp.isLE_antisymm hab hba)

/-- **The order of keys.**  It is antisymmetric and transitive, and keys that it does not tell apart
have one canonical text.  A sorted list has the keys that were given, in this order, and its canonical
texts do not depend on the order in which they were given. -/
theorem cmp_lawful :
    (∀ a b, cmp a b = (cmp b a).swap) ∧
    (∀ a b c, (cmp a b).isLE = true → (cmp b c).isLE = true → (cmp a c).isLE = true) ∧
    (∀ a b c, cmp a b = .eq → cmp b c = .eq → cmp a c = .eq) ∧
    (∀ a b, cmp a b = .eq → a.canonicalText = b.canonicalText) ∧
    (∀ keys, (sort keys).Perm keys ∧
      (sort keys).Pairwise fun a b => (cmp a b).isLE = true) ∧
    ∀ keys keys' : List PrimaryKey, keys.Perm keys' →
      (sort keys).map canonicalText = (sort keys').map canonicalText := by
  refine ⟨fun a b => Std.OrientedCmp.eq_swap, fun a b c => Std.TransCmp.isLE_trans,
    fun a b c => Std.TransCmp.eq_trans, fun a b h => (cmp_eq_eq_iff.mp h).2,
    fun keys => ⟨perm_sort keys, pairwise_sort keys⟩, ?_⟩
  intro keys keys' h
  have htexts : ∀ keys : List PrimaryKey,
      keys.map canonicalText = (keys.map rank).map Rank.text := by
    intro keys
    rw [List.map_map]
    rfl
  rw [htexts, htexts, map_rank_sort h]

end PrimaryKey
end DocumentTables
