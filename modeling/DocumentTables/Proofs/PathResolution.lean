import DocumentTables.Files.Tree
import DocumentTables.Proofs.PathNames

/-!
# Where paths lead

A path is resolved step by step, so what it comes to depends on the steps taken and on nothing else:
a path that goes on after another one continues where that leads; what a path finds it finds in
every larger tree; and where a directory is missing, a path that went through it finds nothing.

**Results.**

* `FileTree.resolveFrom_append`: a path that goes on.
* `FileTree.resolveFrom_of_extends`, `FileTree.resolveFrom_congr`: larger trees and equal ones.
* `FileTree.resolveFrom_without`: a tree without one of its directories.
* `FileTree.resolveFrom_nofollow`: the last link of a path.
-/

namespace DocumentTables
namespace FileTree

variable {t t' : FileTree} {follow : Bool} {links : Nat} {here loc home : Location}
  {names more : List String} {name : String} {node : Node}

/-! ## Steps -/

/-- What one name of a path comes to. -/
inductive Step where
  /-- It leads to a directory. -/
  | enter (next : Location)
  | tooLong
  | missing
  | file (content : ByteArray)
  | link (target : String)

/-- What a name comes to in a directory. -/
def step (t : FileTree) (here : Location) (name : String) : Step :=
  if name = "." then .enter here
  else if name = ".." then .enter here.dropLast
  else if maxNameBytes < name.utf8ByteSize then .tooLong
  else
    match t.find? (here ++ [name]) with
    | none => .missing
    | some .directory => .enter (here ++ [name])
    | some (.file content) => .file content
    | some (.link target) => .link target

/-- Where a link leads on, while the given number of links may be followed. -/
def jumpFrom (t : FileTree) (follow : Bool) :
    Nat → Location → List String → Except FileError Place
  | 0 => fun _ _ => .error .tooManyLinks
  | links + 1 => t.resolveFrom follow links

theorem resolveFrom_eq_walk
    (t : FileTree) (follow : Bool) (links : Nat) :
    t.resolveFrom follow links = t.walk follow (t.jumpFrom follow links) := by
  cases links <;> rfl

@[simp] theorem resolveFrom_nil
    (t : FileTree) (follow : Bool) (links : Nat) (here : Location) :
    t.resolveFrom follow links here [] = .ok ⟨here, some .directory⟩ := by
  rw [resolveFrom_eq_walk, walk]

theorem resolveFrom_cons
    (t : FileTree) (follow : Bool) (links : Nat) (here : Location) (name : String)
    (names : List String) :
    t.resolveFrom follow links here (name :: names) =
      match t.step here name with
      | .enter next => t.resolveFrom follow links next names
      | .tooLong => .error .nameTooLong
      | .missing => if names.isEmpty then .ok ⟨here ++ [name], none⟩ else .error .notFound
      | .file content =>
          if names.isEmpty then .ok ⟨here ++ [name], some (.file content)⟩
          else .error .notDirectory
      | .link target =>
          if names.isEmpty ∧ ¬ follow then .ok ⟨here ++ [name], some (.link target)⟩
          else
            t.jumpFrom follow links (if FilePath.isAbsolute target then [] else here)
              (FilePath.lookupNames target ++ names) := by
  rw [resolveFrom_eq_walk, walk, step]
  split
  · rfl
  · split
    · rfl
    · split
      · rfl
      · simp only
        cases t.find? (here ++ [name]) with
        | none => rfl
        | some node => cases node <;> rfl

/-- Induction along a path: its names get fewer, until a link leads on to others, and then fewer
links are left. -/
theorem resolve_induction
    {motive : Nat → Location → List String → Prop}
    (nil : ∀ links here, motive links here [])
    (cons : ∀ links here name names, (∀ next, motive links next names) →
      (∀ left next others, left < links → motive left next others) →
      motive links here (name :: names))
    (links : Nat) (here : Location) (names : List String) :
    motive links here names := by
  induction links using Nat.strongRecOn generalizing here names with
  | ind links ih =>
      induction names generalizing here with
      | nil =>
          exact nil links here
      | cons name names ihnames =>
          exact cons links here name names ihnames fun left next others hleft =>
            ih left hleft next others

/-! ## Paths that go on -/

/-- What a longer path comes to, after what its beginning comes to if links at its end are
followed. -/
def Continues (t : FileTree) (follow : Bool) (links : Nat) (more : List String)
    (whole : Except FileError Place) : Except FileError Place → Prop
  | .ok ⟨loc, some .directory⟩ =>
      ∃ left, left ≤ links ∧ whole = t.resolveFrom follow left loc more
  | .ok ⟨_, some (.file _)⟩ => whole = .error .notDirectory
  | .ok ⟨_, some (.link _)⟩ => False
  | .ok ⟨_, none⟩ => whole = .error .notFound
  | .error e => whole = .error e

theorem Continues.of_le
    {left : Nat} {whole result : Except FileError Place}
    (h : t.Continues follow left more whole result) (hle : left ≤ links) :
    t.Continues follow links more whole result := by
  rcases result with e | ⟨loc, _ | node⟩
  · exact h
  · exact h
  · cases node with
    | directory =>
        obtain ⟨left', hle', hwhole⟩ := h
        exact ⟨left', Nat.le_trans hle' hle, hwhole⟩
    | file content =>
        exact h
    | link target =>
        exact h

/-- A path goes on from a directory only. -/
theorem Continues.exists_directory
    {place : Place} {result : Except FileError Place}
    (h : t.Continues follow links more (.ok place) result) :
    ∃ next left, result = .ok ⟨next, some .directory⟩ ∧
      t.resolveFrom follow left next more = .ok place := by
  rcases result with e | ⟨loc, _ | node⟩
  · cases h
  · cases h
  · cases node with
    | directory =>
        obtain ⟨left, -, hwhole⟩ := h
        exact ⟨loc, left, rfl, hwhole.symm⟩
    | file content =>
        cases h
    | link target =>
        cases h

/-- A path that goes on continues where its beginning leads. -/
theorem resolveFrom_append
    (t : FileTree) (follow : Bool) (hmore : more ≠ []) (links : Nat) (here : Location)
    (names : List String) :
    t.Continues follow links more (t.resolveFrom follow links here (names ++ more))
      (t.resolveFrom true links here names) := by
  induction links, here, names using resolve_induction with
  | nil links here =>
      rw [resolveFrom_nil]
      exact ⟨links, Nat.le_refl _, rfl⟩
  | cons links here name names ihnames ihlinks =>
      have hrest : (names ++ more).isEmpty = false := by simp [hmore]
      rw [List.cons_append, resolveFrom_cons, resolveFrom_cons]
      cases t.step here name with
      | enter next =>
          exact ihnames next
      | tooLong =>
          rfl
      | missing =>
          simp only [hrest, Bool.false_eq_true, if_false]
          split <;> rfl
      | file content =>
          simp only [hrest, Bool.false_eq_true, if_false]
          split <;> rfl
      | link target =>
          simp only [hrest, Bool.false_eq_true, false_and, not_true, and_false, if_false]
          cases links with
          | zero =>
              rfl
          | succ links =>
              rw [← List.append_assoc]
              exact (ihlinks links _ _ (Nat.lt_succ_self _)).of_le (Nat.le_succ _)

/-! ## Larger trees -/

/-- Everything in a tree is in the other one, too. -/
def Extends (t t' : FileTree) : Prop :=
  ∀ loc node, t.find? loc = some node → t'.find? loc = some node

/-- The same stands at every location of two trees. -/
def Alike (t t' : FileTree) : Prop :=
  ∀ loc, t'.find? loc = t.find? loc

/-- A name that leads somewhere leads there in a larger tree. -/
theorem step_of_extends
    (h : t.Extends t') (hmissing : t.step here name ≠ .missing) :
    t'.step here name = t.step here name := by
  rw [step, step]
  split
  · rfl
  · split
    · rfl
    · split
      · rfl
      · next hpoint hpoints hlong =>
          rw [step, if_neg hpoint, if_neg hpoints, if_neg hlong] at hmissing
          cases hfind : t.find? (here ++ [name]) with
          | none =>
              rw [hfind] at hmissing
              exact absurd rfl hmissing
          | some node =>
              rw [h _ _ hfind]

/-- What a path finds it finds in a larger tree. -/
theorem resolveFrom_of_extends
    (h : t.Extends t')
    (hfound : t.resolveFrom follow links here names = .ok ⟨loc, some node⟩) :
    t'.resolveFrom follow links here names = .ok ⟨loc, some node⟩ := by
  induction links, here, names using resolve_induction with
  | nil links here =>
      rw [resolveFrom_nil] at hfound ⊢
      exact hfound
  | cons links here name names ihnames ihlinks =>
      rw [resolveFrom_cons] at hfound ⊢
      have hmissing : t.step here name ≠ .missing := by
        intro hmissing
        rw [hmissing] at hfound
        simp only at hfound
        split at hfound <;> cases hfound
      rw [step_of_extends h hmissing]
      cases hstep : t.step here name with
      | enter next =>
          rw [hstep] at hfound
          exact ihnames next hfound
      | tooLong =>
          rw [hstep] at hfound
          exact hfound
      | missing =>
          exact absurd hstep hmissing
      | file content =>
          rw [hstep] at hfound
          exact hfound
      | link target =>
          rw [hstep] at hfound
          simp only at hfound ⊢
          split
          · next hlast =>
              rw [if_pos hlast] at hfound
              exact hfound
          · next hlast =>
              rw [if_neg hlast] at hfound
              cases links with
              | zero =>
                  exact hfound
              | succ links =>
                  exact ihlinks links _ _ (Nat.lt_succ_self _) hfound

theorem resolveFrom_congr
    (h : t.Alike t') (follow : Bool) (links : Nat) (here : Location) (names : List String) :
    t'.resolveFrom follow links here names = t.resolveFrom follow links here names := by
  induction links, here, names using resolve_induction with
  | nil links here =>
      rw [resolveFrom_nil, resolveFrom_nil]
  | cons links here name names ihnames ihlinks =>
      have hstep : t'.step here name = t.step here name := by
        rw [step, step, h]
      rw [resolveFrom_cons, resolveFrom_cons, hstep]
      cases t.step here name with
      | enter next =>
          exact ihnames next
      | link target =>
          cases links with
          | zero =>
              rfl
          | succ links =>
              simp only [jumpFrom, ihlinks links _ _ (Nat.lt_succ_self _)]
      | _ =>
          rfl

/-! ## A tree without one of its directories -/

/-- The trees agree outside a location and what lies below it. -/
def AgreeOff (home : Location) (t t' : FileTree) : Prop :=
  ∀ loc, ¬ home <+: loc → t'.find? loc = t.find? loc

/-- What becomes of a name where a location is missing: it leads where it led, or it is that of the
location. -/
theorem step_without
    (hagree : AgreeOff home t t') (hmissing : t'.find? home = none) (hhere : ¬ home <+: here)
    (name : String) :
    (t'.step here name = .missing ∧ here ++ [name] = home) ∨
      t'.step here name = t.step here name ∧
        match t'.step here name with
        | .enter next => ¬ home <+: next
        | .tooLong => True
        | _ => ¬ home <+: here ++ [name] := by
  rw [step, step]
  split
  · exact .inr ⟨rfl, hhere⟩
  · split
    · exact .inr ⟨rfl, fun h => hhere (h.trans (List.dropLast_prefix here))⟩
    · split
      · exact .inr ⟨rfl, trivial⟩
      · by_cases hhome : home = here ++ [name]
        · rw [← hhome, hmissing]
          exact .inl ⟨rfl, rfl⟩
        · have hnext : ¬ home <+: here ++ [name] := by
            rw [List.prefix_concat_iff, not_or]
            exact ⟨hhome, hhere⟩
          rw [hagree _ hnext]
          refine .inr ⟨rfl, ?_⟩
          cases t.find? (here ++ [name]) with
          | none => exact hnext
          | some node => cases node <;> exact hnext

/-- What becomes of a path where a location is missing: it leads where it led, or it does not find
the location. -/
theorem resolveFrom_without
    (hagree : AgreeOff home t t') (hmissing : t'.find? home = none) (hhere : ¬ home <+: here)
    (follow : Bool) (links : Nat) (names : List String) :
    (t'.resolveFrom follow links here names = t.resolveFrom follow links here names ∧
        ∀ place, t'.resolveFrom follow links here names = .ok place →
          ¬ home <+: place.location) ∨
      t'.resolveFrom follow links here names = .error .notFound ∨
      t'.resolveFrom follow links here names = .ok ⟨home, none⟩ := by
  have hhome : home ≠ [] := by
    rintro rfl
    exact hhere (List.nil_prefix)
  induction links, here, names using resolve_induction with
  | nil links here =>
      rw [resolveFrom_nil, resolveFrom_nil]
      refine .inl ⟨rfl, ?_⟩
      rintro place ⟨⟩
      exact hhere
  | cons links here name names ihnames ihlinks =>
      rw [resolveFrom_cons, resolveFrom_cons]
      rcases step_without hagree hmissing hhere name with ⟨hstep, hnext⟩ | ⟨hstep, hnext⟩
      · rw [hstep]
        simp only
        split
        · exact .inr (.inr (by rw [hnext]))
        · exact .inr (.inl rfl)
      · rw [← hstep]
        cases hcase : t'.step here name with
        | enter next =>
            rw [hcase] at hnext
            exact ihnames next hnext
        | tooLong =>
            exact .inl ⟨rfl, by rintro _ ⟨⟩⟩
        | missing =>
            rw [hcase] at hnext
            simp only
            split
            · refine .inl ⟨trivial, ?_⟩
              rintro place ⟨⟩
              exact hnext
            · exact .inl ⟨trivial, by rintro _ ⟨⟩⟩
        | file content =>
            rw [hcase] at hnext
            simp only
            split
            · refine .inl ⟨trivial, ?_⟩
              rintro place ⟨⟩
              exact hnext
            · exact .inl ⟨trivial, by rintro _ ⟨⟩⟩
        | link target =>
            rw [hcase] at hnext
            simp only
            split
            · refine .inl ⟨rfl, ?_⟩
              rintro place ⟨⟩
              exact hnext
            · cases links with
              | zero =>
                  exact .inl ⟨rfl, by rintro _ ⟨⟩⟩
              | succ links =>
                  refine ihlinks links _ _ (Nat.lt_succ_self _) ?_
                  -- a link leads on from where it stands, or from the top
                  split
                  · simpa using hhome
                  · exact hhere

/-! ## The last link of a path -/

/-- A path whose last link is not followed leads where it leads otherwise, or to that link. -/
theorem resolveFrom_nofollow
    (t : FileTree) (links : Nat) (here : Location) (names : List String) :
    t.resolveFrom false links here names = t.resolveFrom true links here names ∨
      ∃ loc target, t.resolveFrom false links here names = .ok ⟨loc, some (.link target)⟩ := by
  induction links, here, names using resolve_induction with
  | nil links here =>
      exact .inl (by rw [resolveFrom_nil, resolveFrom_nil])
  | cons links here name names ihnames ihlinks =>
      rw [resolveFrom_cons, resolveFrom_cons]
      cases t.step here name with
      | enter next =>
          exact ihnames next
      | link target =>
          simp only [Bool.false_eq_true, not_false_iff, and_true, not_true, and_false, if_false]
          split
          · exact .inr ⟨_, _, rfl⟩
          · cases links with
            | zero =>
                exact .inl rfl
            | succ links =>
                exact ihlinks links _ _ (Nat.lt_succ_self _)
      | _ =>
          exact .inl rfl

end FileTree
end DocumentTables
