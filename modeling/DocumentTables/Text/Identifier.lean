/-!
# Identifier characters

An identity is written with ASCII letters, digits, `_`, `-` and `/`.  Any text but the empty one
becomes one by replacing each run of other characters with a single `_`; the name of a file is made in
the same way with `/` among the replaced characters.
-/

namespace DocumentTables
namespace Text

theorem isAlphanum_iff
    (c : Char) :
    c.isAlphanum = true ↔ ('A' ≤ c ∧ c ≤ 'Z') ∨ ('a' ≤ c ∧ c ≤ 'z') ∨ ('0' ≤ c ∧ c ≤ '9') := by
  change (decide ('A' ≤ c ∧ c ≤ 'Z') || (decide ('a' ≤ c) && decide (c ≤ 'z')) ||
      (decide ('0' ≤ c) && decide (c ≤ '9'))) = true ↔ _
  simp only [Bool.or_eq_true, Bool.and_eq_true, decide_eq_true_iff, or_assoc]

/-- The characters of a file name: ASCII letters and digits, `_` and `-`. -/
def isFileChar (c : Char) : Bool :=
  c.isAlphanum || c == '_' || c == '-'

/-- The characters of an identity: those of a file name, and `/`. -/
def isIdentityChar (c : Char) : Bool :=
  isFileChar c || c == '/'

/-- Replace each run of characters that `keep` refuses by one `_`.  The flag tells whether the
characters before were refused too, so that their `_` is already written. -/
def collapseFrom (keep : Char → Bool) : Bool → List Char → List Char
  | _, [] => []
  | inRun, c :: cs =>
      if keep c then c :: collapseFrom keep false cs
      else if inRun then collapseFrom keep true cs
      else '_' :: collapseFrom keep true cs

/-- Replace each maximal run of characters that `keep` refuses by one `_`. -/
def collapse (keep : Char → Bool) (cs : List Char) : List Char :=
  collapseFrom keep false cs

section Collapse

variable {keep : Char → Bool} {inRun : Bool} {c : Char} {cs run after : List Char}

@[simp] theorem collapse_nil :
    collapse keep [] = [] := by
  rw [collapse, collapseFrom]

theorem collapseFrom_cons_of_keep
    (h : keep c = true) :
    collapseFrom keep inRun (c :: cs) = c :: collapse keep cs := by
  rw [collapseFrom, if_pos h, collapse]

theorem collapse_cons_of_refused
    (h : keep c = false) :
    collapse keep (c :: cs) = '_' :: collapseFrom keep true cs := by
  rw [collapse, collapseFrom]
  simp [h]

/-- Characters that are kept stay as they are. -/
theorem collapse_append_of_keep
    (h : ∀ c ∈ cs, keep c = true) :
    collapse keep (cs ++ after) = cs ++ collapse keep after := by
  induction cs with
  | nil =>
      rfl
  | cons c cs ih =>
      rw [List.cons_append, collapse, collapseFrom_cons_of_keep (h c List.mem_cons_self),
        ih fun d hd => h d (List.mem_cons_of_mem _ hd), List.cons_append]

theorem collapse_of_keep
    (h : ∀ c ∈ cs, keep c = true) :
    collapse keep cs = cs := by
  rw [← List.append_nil cs, collapse_append_of_keep h, collapse_nil]

/-- The rest of a run leaves nothing, and the flag has no effect on what stands behind it. -/
theorem collapseFrom_append_run
    (hrun : ∀ c ∈ run, keep c = false) (hafter : ∀ c ∈ after.head?, keep c = true) :
    collapseFrom keep true (run ++ after) = collapse keep after := by
  induction run with
  | nil =>
      cases after with
      | nil =>
          rfl
      | cons c after =>
          have hc : keep c = true := hafter c rfl
          rw [List.nil_append, collapse, collapseFrom_cons_of_keep hc,
            collapseFrom_cons_of_keep hc]
  | cons c run ih =>
      have hc : keep c = false := hrun c List.mem_cons_self
      rw [List.cons_append, collapseFrom]
      simp only [hc, if_true, Bool.false_eq_true, if_false]
      exact ih fun d hd => hrun d (List.mem_cons_of_mem _ hd)

/-- A run, up to its end, leaves one `_`. -/
theorem collapse_append_run
    (hne : run ≠ []) (hrun : ∀ c ∈ run, keep c = false)
    (hafter : ∀ c ∈ after.head?, keep c = true) :
    collapse keep (run ++ after) = '_' :: collapse keep after := by
  obtain ⟨c, run, rfl⟩ := List.exists_cons_of_ne_nil hne
  rw [List.cons_append, collapse_cons_of_refused (hrun c List.mem_cons_self),
    collapseFrom_append_run (fun d hd => hrun d (List.mem_cons_of_mem _ hd)) hafter]

theorem keep_of_mem_collapseFrom
    (hmark : keep '_' = true) :
    ∀ c ∈ collapseFrom keep inRun cs, keep c = true := by
  induction cs generalizing inRun with
  | nil =>
      simp [collapseFrom]
  | cons d cs ih =>
      intro c hc
      rw [collapseFrom] at hc
      split at hc
      · next hd =>
          rcases List.mem_cons.mp hc with rfl | hc
          · exact hd
          · exact ih c hc
      · split at hc
        · exact ih c hc
        · rcases List.mem_cons.mp hc with rfl | hc
          · exact hmark
          · exact ih c hc

/-- Only characters that are kept are left, if the one that stands for the others is. -/
theorem keep_of_mem_collapse
    (hmark : keep '_' = true) :
    ∀ c ∈ collapse keep cs, keep c = true := by
  exact keep_of_mem_collapseFrom hmark

/-- Nothing becomes empty. -/
theorem collapse_eq_nil_iff :
    collapse keep cs = [] ↔ cs = [] := by
  cases cs with
  | nil =>
      simp
  | cons c cs =>
      cases hc : keep c with
      | true =>
          simp [collapse, collapseFrom_cons_of_keep hc]
      | false =>
          simp [collapse_cons_of_refused hc]

/-- The texts that do not change are those of kept characters. -/
theorem collapse_eq_self_iff
    (hmark : keep '_' = true) :
    collapse keep cs = cs ↔ ∀ c ∈ cs, keep c = true := by
  constructor
  · intro h
    rw [← h]
    exact keep_of_mem_collapse hmark
  · exact collapse_of_keep

end Collapse

/-- A text is a safe identity if it is not empty and holds identity characters only. -/
def isSafeId (s : String) : Bool :=
  !s.toList.isEmpty && s.toList.all isIdentityChar

/-- The identity nearest to a text: `"${a.b}\\c&"` becomes `"_a_b_c_"`. -/
def sanitizeId (s : String) : String :=
  String.ofList (collapse isIdentityChar s.toList)

/-- The file name nearest to a text. -/
def fileSafe (s : String) : String :=
  String.ofList (collapse isFileChar s.toList)

end Text
end DocumentTables
