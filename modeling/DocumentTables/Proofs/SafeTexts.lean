import Mathlib.Computability.Language
import Mathlib.Data.List.SplitBy
import Mathlib.Data.List.TakeWhile
import DocumentTables.Text.Identifier

/-!
# Safe texts

What it means to make a text safe is said here twice without the scan that does it.  A text can be cut
in one way into maximal pieces of kept and of refused characters, and each refused piece becomes one
`_`.  Or a pattern for one refused character or more is searched for from the left, the longest of the
matches that start first is replaced by `_`, and the search goes on behind it.  Both give what the scan
gives.  So a text that was made safe is safe unless it is empty, and the texts that stay as they are
are the safe ones and the empty one.

**Results.**

* `Text.isIdentityChar_iff`, `Text.isFileChar_iff`: the characters as ranges.
* `Text.existsUnique_cut`, `Text.Cut.collapse_eq`: there is one cut, and the scan replaces its refused
  pieces.
* `Text.firstMatch_iff`: the match that is found first is the first maximal run.
* `Text.replacedAll_iff`: the scan replaces all matches.
* `Text.texts_sanitized`: all of it for identities and for names of files.
-/

namespace DocumentTables
namespace Text

/-! ## Ranges of characters -/

/-- Whether a character stands between the ends of one of the ranges. -/
def inRanges (ranges : List (Char × Char)) (c : Char) : Bool :=
  ranges.any fun range => decide (range.1 ≤ c) && decide (c ≤ range.2)

/-- The characters of an identity. -/
def identityRanges : List (Char × Char) :=
  [('A', 'Z'), ('a', 'z'), ('0', '9'), ('_', '_'), ('/', '/'), ('-', '-')]

/-- The characters of a file name. -/
def fileRanges : List (Char × Char) :=
  [('A', 'Z'), ('a', 'z'), ('0', '9'), ('_', '_'), ('-', '-')]

theorem inRanges_cons
    (range : Char × Char) (ranges : List (Char × Char)) (c : Char) :
    inRanges (range :: ranges) c = true ↔ (range.1 ≤ c ∧ c ≤ range.2) ∨ inRanges ranges c = true := by
  rw [inRanges, List.any_cons, Bool.or_eq_true, Bool.and_eq_true, decide_eq_true_iff,
    decide_eq_true_iff, ← inRanges]

theorem between_iff
    (c d : Char) :
    (d ≤ c ∧ c ≤ d) ↔ c = d := by
  constructor
  · intro h
    exact Char.le_antisymm h.2 h.1
  · rintro rfl
    exact ⟨Char.le_refl _, Char.le_refl _⟩

theorem isFileChar_iff
    (c : Char) :
    isFileChar c = true ↔ inRanges fileRanges c = true := by
  simp only [isFileChar, Bool.or_eq_true, beq_iff_eq, isAlphanum_iff, fileRanges, inRanges_cons,
    between_iff, or_assoc]
  simp [inRanges]

theorem isIdentityChar_iff
    (c : Char) :
    isIdentityChar c = true ↔ inRanges identityRanges c = true := by
  rw [isIdentityChar, Bool.or_eq_true, isFileChar_iff]
  simp only [beq_iff_eq, fileRanges, identityRanges, inRanges_cons, between_iff, or_assoc]
  simp [inRanges, or_comm]

/-! ## Pieces of a text -/

variable {keep : Char → Bool} {text before run after : List Char} {pieces : List (List Char)}

/-- A text cut into maximal pieces: the characters of a piece are of one kind, kept or refused, and
those of two neighbours are not. -/
structure Cut (keep : Char → Bool) (text : List Char) (pieces : List (List Char)) : Prop where
  flatten : pieces.flatten = text
  ne_nil : ∀ piece ∈ pieces, piece ≠ []
  uniform : ∀ piece ∈ pieces, ∀ c ∈ piece, ∀ d ∈ piece, keep c = keep d
  maximal : pieces.IsChain fun left right => ∀ c ∈ left, ∀ d ∈ right, keep c ≠ keep d

/-- What becomes of a piece: it is kept, or there is one `_` in its place. -/
def replacePiece (keep : Char → Bool) (piece : List Char) : List Char :=
  if piece.all keep then piece else ['_']

/-- All characters of a piece are of one kind if all neighbours in it are. -/
theorem isChain_iff_uniform
    {piece : List Char} :
    (piece.IsChain fun c d => keep c == keep d) ↔ ∀ c ∈ piece, ∀ d ∈ piece, keep c = keep d := by
  constructor
  · intro h
    induction piece with
    | nil =>
        simp
    | cons c piece ih =>
        obtain ⟨hnext, htail⟩ := List.isChain_cons.mp h
        have hfirst : ∀ d ∈ c :: piece, keep c = keep d := by
          intro d hd
          rcases List.mem_cons.mp hd with rfl | hdtail
          · rfl
          · obtain ⟨e, rest, rfl⟩ := List.exists_cons_of_ne_nil (List.ne_nil_of_mem hdtail)
            have hce : keep c = keep e := by simpa using hnext e rfl
            rw [hce, ih htail e List.mem_cons_self d hdtail]
        intro d hd e he
        rw [← hfirst d hd, ← hfirst e he]
  · intro h
    have hpairs : piece.Pairwise fun c d => keep c == keep d :=
      List.pairwise_of_forall_mem_list fun c hc d hd => by simp [h c hc d hd]
    exact hpairs.isChain

/-- A text is cut exactly between the neighbours that are not of one kind. -/
theorem cut_iff :
    Cut keep text pieces ↔ text.splitBy (fun c d => keep c == keep d) = pieces := by
  rw [List.splitBy_eq_iff]
  constructor
  · rintro ⟨hflatten, hne, huniform, hmaximal⟩
    refine ⟨hflatten.symm, fun hnil => hne [] hnil rfl,
      fun piece hpiece => isChain_iff_uniform.mpr (huniform piece hpiece),
      hmaximal.imp_of_mem_imp fun left right hleft hright hdiffer => ?_⟩
    have hl := hne left hleft
    have hr := hne right hright
    exact ⟨hl, hr, by simpa using hdiffer _ (List.getLast_mem hl) _ (List.head_mem hr)⟩
  · rintro ⟨hflatten, hne, hchain, hmaximal⟩
    have huniform : ∀ piece ∈ pieces, ∀ c ∈ piece, ∀ d ∈ piece, keep c = keep d :=
      fun piece hpiece => isChain_iff_uniform.mp (hchain piece hpiece)
    refine ⟨hflatten.symm, fun piece hpiece hnil => hne (hnil ▸ hpiece), huniform,
      hmaximal.imp_of_mem_imp ?_⟩
    rintro left right hleft hright ⟨hl, hr, hdiffer⟩ c hc d hd
    rw [huniform left hleft c hc _ (List.getLast_mem hl),
      huniform right hright d hd _ (List.head_mem hr)]
    simpa using hdiffer

theorem existsUnique_cut
    (keep : Char → Bool) (text : List Char) :
    ∃! pieces, Cut keep text pieces := by
  refine ⟨text.splitBy fun c d => keep c == keep d, cut_iff.mpr rfl, fun pieces h => ?_⟩
  exact (cut_iff.mp h).symm

/-- Behind the first piece the text is cut in the same way, and begins with a character of the other
kind. -/
theorem Cut.tail
    {piece : List Char} (h : Cut keep text (piece :: pieces)) :
    ∃ after, text = piece ++ after ∧ Cut keep after pieces ∧
      ∀ c ∈ piece, ∀ d ∈ after.head?, keep c ≠ keep d := by
  obtain ⟨hflatten, hne, huniform, hmaximal⟩ := h
  obtain ⟨hnext, hchain⟩ := List.isChain_cons.mp hmaximal
  refine ⟨pieces.flatten, ?_, ⟨rfl, ?_, ?_, hchain⟩, ?_⟩
  · rw [← hflatten, List.flatten_cons]
  · exact fun other hother => hne other (List.mem_cons_of_mem _ hother)
  · exact fun other hother => huniform other (List.mem_cons_of_mem _ hother)
  · intro c hc d hd
    cases pieces with
    | nil =>
        simp at hd
    | cons next pieces =>
        obtain ⟨e, rest, rfl⟩ := List.exists_cons_of_ne_nil (hne next (by simp))
        obtain rfl : e = d := by simpa using hd
        exact hnext _ rfl c hc e List.mem_cons_self

/-- The scan leaves the kept pieces and replaces the others. -/
theorem Cut.collapse_eq
    (h : Cut keep text pieces) :
    collapse keep text = pieces.flatMap (replacePiece keep) := by
  induction pieces generalizing text with
  | nil =>
      rw [← h.flatten, List.flatten_nil, collapse_nil, List.flatMap_nil]
  | cons piece pieces ih =>
      obtain ⟨after, rfl, hafter, hother⟩ := h.tail
      have hne := h.ne_nil piece List.mem_cons_self
      obtain ⟨c, rest, rfl⟩ := List.exists_cons_of_ne_nil hne
      have huniform : ∀ d ∈ c :: rest, keep d = keep c := fun d hd =>
        h.uniform _ List.mem_cons_self d hd c List.mem_cons_self
      rw [List.flatMap_cons, ← ih hafter, replacePiece]
      -- the piece is of the kind of its first character, and what follows begins with the other one
      cases hc : keep c with
      | true =>
          rw [hc] at huniform
          rw [if_pos (List.all_eq_true.mpr huniform), collapse_append_of_keep huniform]
      | false =>
          rw [hc] at huniform
          have hended : ∀ d ∈ after.head?, keep d = true := fun d hd => by
            simpa [hc] using hother c List.mem_cons_self d hd
          rw [collapse_append_run hne huniform hended]
          simp [hc]

/-! ## Matches of a pattern -/

variable {accept : Char → Bool} {word out : List Char} {pattern : Language Char}

/-- The texts of one accepted character. -/
def oneOf (accept : Char → Bool) : Language Char :=
  {word | ∃ c, accept c = true ∧ word = [c]}

/-- The texts of one accepted character or more. -/
def oneOrMore (accept : Char → Bool) : Language Char :=
  oneOf accept * KStar.kstar (oneOf accept)

theorem singleton_mem_oneOf
    {c : Char} :
    [c] ∈ oneOf accept ↔ accept c = true := by
  constructor
  · rintro ⟨d, hd, hcd⟩
    obtain rfl : c = d := by simpa using hcd
    exact hd
  · intro hc
    exact ⟨c, hc, rfl⟩

theorem mem_kstar_oneOf :
    word ∈ KStar.kstar (oneOf accept) ↔ ∀ c ∈ word, accept c = true := by
  rw [Language.mem_kstar]
  constructor
  · rintro ⟨words, rfl, hwords⟩ c hc
    obtain ⟨w, hw, hcw⟩ := List.mem_flatten.mp hc
    obtain ⟨d, hd, rfl⟩ := hwords w hw
    obtain rfl : c = d := by simpa using hcw
    exact hd
  · intro h
    refine ⟨word.map fun c => [c], ?_, ?_⟩
    · rw [← List.flatMap_def, List.flatMap_singleton']
    · intro w hw
      obtain ⟨c, hc, rfl⟩ := List.mem_map.mp hw
      exact singleton_mem_oneOf.mpr (h c hc)

theorem mem_oneOrMore :
    word ∈ oneOrMore accept ↔ word ≠ [] ∧ ∀ c ∈ word, accept c = true := by
  rw [oneOrMore, Language.mem_mul]
  constructor
  · rintro ⟨first, ⟨c, hc, rfl⟩, rest, hrest, rfl⟩
    exact ⟨by simp, List.forall_mem_cons.mpr ⟨hc, mem_kstar_oneOf.mp hrest⟩⟩
  · rintro ⟨hne, hall⟩
    obtain ⟨c, rest, rfl⟩ := List.exists_cons_of_ne_nil hne
    obtain ⟨hc, hrest⟩ := List.forall_mem_cons.mp hall
    exact ⟨[c], singleton_mem_oneOf.mpr hc, rest, mem_kstar_oneOf.mpr hrest, rfl⟩

/-- The match of a pattern that a search finds in a text: none starts before it, and none that starts
with it is longer. -/
structure FirstMatch (pattern : Language Char) (before word after : List Char) : Prop where
  mem : word ∈ pattern
  leftmost : ∀ before' word' after', before ++ word ++ after = before' ++ word' ++ after' →
    word' ∈ pattern → before.length ≤ before'.length
  longest : ∀ word' after', word ++ after = word' ++ after' → word' ∈ pattern →
    word'.length ≤ word.length

/-- A text with all matches of a pattern replaced, each being searched for behind the one before. -/
inductive ReplacedAll (pattern : Language Char) (replacement : List Char) :
    List Char → List Char → Prop
  | rest {text : List Char} :
      (∀ before word after, text = before ++ word ++ after → word ∉ pattern) →
      ReplacedAll pattern replacement text text
  | found {before word after out : List Char} :
      FirstMatch pattern before word after → ReplacedAll pattern replacement after out →
      ReplacedAll pattern replacement (before ++ word ++ after) (before ++ replacement ++ out)

/-- The first maximal run of refused characters in a text. -/
structure FirstRun (keep : Char → Bool) (before run after : List Char) : Prop where
  kept : ∀ c ∈ before, keep c = true
  ne_nil : run ≠ []
  refused : ∀ c ∈ run, keep c = false
  ended : ∀ c ∈ after.head?, keep c = true

theorem FirstRun.collapse_eq
    (h : FirstRun keep before run after) :
    collapse keep (before ++ run ++ after) = before ++ ['_'] ++ collapse keep after := by
  rw [List.append_assoc, collapse_append_of_keep h.kept,
    collapse_append_run h.ne_nil h.refused h.ended, List.append_assoc, List.singleton_append]

/-- A text of kept characters has no run, and every other text has a first one. -/
theorem kept_or_exists_firstRun
    (keep : Char → Bool) (text : List Char) :
    (∀ c ∈ text, keep c = true) ∨
      ∃ before run after, text = before ++ run ++ after ∧ FirstRun keep before run after := by
  by_cases hkept : ∀ c ∈ text, keep c = true
  · exact .inl hkept
  · have hne : text.dropWhile keep ≠ [] := mt List.dropWhile_eq_nil_iff.mp hkept
    obtain ⟨c, rest, hrest⟩ := List.exists_cons_of_ne_nil hne
    have hc : keep c = false := by
      have hhead := List.head_dropWhile_not keep hne
      simpa only [hrest, List.head_cons] using hhead
    refine .inr ⟨text.takeWhile keep, (c :: rest).takeWhile fun d => !keep d,
      (c :: rest).dropWhile fun d => !keep d, ?_, ?_⟩
    · rw [List.append_assoc, List.takeWhile_append_dropWhile, ← hrest,
        List.takeWhile_append_dropWhile]
    · refine ⟨fun d hd => List.mem_takeWhile_imp hd, ?_, fun d hd => ?_, fun d hd => ?_⟩
      · rw [List.takeWhile_cons_of_pos (by simp [hc])]
        exact List.cons_ne_nil _ _
      · simpa using List.mem_takeWhile_imp hd
      · have hhead := List.head?_dropWhile_not (fun d => !keep d) (c :: rest)
        rw [Option.mem_def.mp hd] at hhead
        simpa using hhead

variable {before' word' after' : List Char}

/-- A word of refused characters does not start before the first run: there all characters are kept. -/
theorem FirstRun.length_le
    (h : FirstRun keep before run after)
    (htext : before ++ run ++ after = before' ++ word' ++ after')
    (hne : word' ≠ []) (hrefused : ∀ c ∈ word', keep c = false) :
    before.length ≤ before'.length := by
  obtain ⟨c, rest, rfl⟩ := List.exists_cons_of_ne_nil hne
  rw [List.append_assoc, List.append_assoc] at htext
  rcases List.append_eq_append_iff.mp htext with ⟨between, rfl, -⟩ | ⟨between, hbefore, hbetween⟩
  · simp
  · cases between with
    | nil =>
        simp [hbefore]
    | cons d between =>
        obtain rfl : c = d := (List.cons.inj hbetween).1
        have hkept : keep c = true := h.kept c (by simp [hbefore])
        simp [hrefused c List.mem_cons_self] at hkept

/-- Nor does one that starts with the first run go on behind it. -/
theorem FirstRun.length_le_run
    (h : FirstRun keep before run after) (htext : run ++ after = word' ++ after')
    (hrefused : ∀ c ∈ word', keep c = false) :
    word'.length ≤ run.length := by
  rcases List.append_eq_append_iff.mp htext with ⟨between, hword, hafter⟩ | ⟨between, rfl, -⟩
  · cases between with
    | nil =>
        simp [hword]
    | cons d between =>
        have hkept : keep d = true := h.ended d (by simp [hafter])
        simp [hrefused d (by simp [hword])] at hkept
  · simp

/-- The match that is found first is the first maximal run. -/
theorem firstMatch_iff :
    FirstMatch (oneOrMore fun c => !keep c) before run after ↔ FirstRun keep before run after := by
  have hmem : ∀ w, w ∈ (oneOrMore fun c => !keep c) ↔ w ≠ [] ∧ ∀ c ∈ w, keep c = false := by
    simp [mem_oneOrMore]
  constructor
  · rintro ⟨hrun, hleftmost, hlongest⟩
    obtain ⟨hne, hrefused⟩ := (hmem _).mp hrun
    -- a refused character before the match is a match itself, and one behind it makes it longer
    refine ⟨fun c hc => ?_, hne, hrefused, fun d hd => ?_⟩
    · by_contra hkeep
      obtain ⟨front, back, rfl⟩ := List.append_of_mem hc
      have hle := hleftmost front [c] (back ++ run ++ after) (by simp)
        ((hmem _).mpr ⟨by simp, by simpa using hkeep⟩)
      simp only [List.length_append, List.length_cons] at hle
      omega
    · by_contra hkeep
      obtain ⟨rest, rfl⟩ := List.head?_eq_some_iff.mp hd
      have hle := hlongest (run ++ [d]) rest (by simp)
        ((hmem _).mpr ⟨by simp, fun c hc => ?_⟩)
      · simp only [List.length_append, List.length_singleton] at hle
        omega
      · rcases List.mem_append.mp hc with hc | hc
        · exact hrefused c hc
        · obtain rfl : c = d := by simpa using hc
          simpa using hkeep
  · intro h
    refine ⟨(hmem _).mpr ⟨h.ne_nil, h.refused⟩, fun before' word' after' htext hword => ?_,
      fun word' after' htext hword => ?_⟩
    · exact h.length_le htext ((hmem _).mp hword).1 ((hmem _).mp hword).2
    · exact h.length_le_run htext ((hmem _).mp hword).2

/-- A text in which nothing matches has kept characters only. -/
theorem no_match_iff :
    (∀ before word after, text = before ++ word ++ after → word ∉ oneOrMore fun c => !keep c) ↔
      ∀ c ∈ text, keep c = true := by
  constructor
  · intro h c hc
    obtain ⟨front, back, rfl⟩ := List.append_of_mem hc
    have hnot := h front [c] back (by simp)
    simpa [mem_oneOrMore] using hnot
  · rintro h before word after rfl hword
    obtain ⟨hne, hrefused⟩ := mem_oneOrMore.mp hword
    obtain ⟨c, rest, rfl⟩ := List.exists_cons_of_ne_nil hne
    have hc : keep c = true := h c (by simp)
    simp [hc] at hrefused

/-- The scan finds all matches and replaces them. -/
theorem replacedAll_collapse
    (keep : Char → Bool) (text : List Char) :
    ReplacedAll (oneOrMore fun c => !keep c) ['_'] text (collapse keep text) := by
  -- on the length of the text: the search goes on behind the run
  induction hlength : text.length using Nat.strong_induction_on generalizing text with
  | _ n ih =>
      rcases kept_or_exists_firstRun keep text with hkept | ⟨before, run, after, rfl, hrun⟩
      · rw [collapse_of_keep hkept]
        exact .rest (no_match_iff.mpr hkept)
      · rw [hrun.collapse_eq]
        refine .found (firstMatch_iff.mpr hrun) (ih after.length ?_ after rfl)
        have hpos := List.length_pos_iff.mpr hrun.ne_nil
        simp only [List.length_append] at hlength
        omega

theorem replacedAll_iff :
    ReplacedAll (oneOrMore fun c => !keep c) ['_'] text out ↔ out = collapse keep text := by
  constructor
  · intro h
    induction h with
    | rest hnone =>
        exact (collapse_of_keep (no_match_iff.mp hnone)).symm
    | found hfirst _ ih =>
        rw [(firstMatch_iff.mp hfirst).collapse_eq, ih]
  · rintro rfl
    exact replacedAll_collapse keep text

/-! ## Texts made safe -/

variable {ranges : List (Char × Char)} {safe : String → Prop} {f : String → String}

/-- A text that is not empty and has characters of the ranges only. -/
def OnlyOf (ranges : List (Char × Char)) (s : String) : Prop :=
  s ≠ "" ∧ ∀ c ∈ s.toList, inRanges ranges c = true

theorem onlyOf_iff
    (s : String) :
    OnlyOf ranges s ↔ s.toList ∈ oneOrMore (inRanges ranges) := by
  rw [OnlyOf, mem_oneOrMore, Ne, Ne, String.toList_eq_nil_iff]

theorem isSafeId_iff
    (s : String) :
    isSafeId s = true ↔ OnlyOf identityRanges s := by
  simp [isSafeId, OnlyOf, isIdentityChar_iff]

/-- A function makes texts safe: it replaces each maximal run of characters outside the ranges by one
`_` and nothing else, what it makes of a text is safe unless the text is empty, and it changes no text
that is safe. -/
structure Sanitizes (ranges : List (Char × Char)) (safe : String → Prop) (f : String → String) :
    Prop where
  /-- The safe texts are those that a pattern for the whole text matches. -/
  safe_iff : ∀ s, safe s ↔ s.toList ∈ oneOrMore (inRanges ranges)
  existsUnique_cut : ∀ s : String, ∃! pieces, Cut (inRanges ranges) s.toList pieces
  /-- The pieces of characters outside the ranges are replaced, and the others kept in their order. -/
  toList_of_cut : ∀ (s : String) pieces, Cut (inRanges ranges) s.toList pieces →
    (f s).toList = pieces.flatMap (replacePiece (inRanges ranges))
  /-- In other words, all matches of a pattern for characters outside the ranges are replaced. -/
  replacedAll_iff : ∀ (s : String) out,
    ReplacedAll (oneOrMore fun c => !inRanges ranges c) ['_'] s.toList out ↔ out = (f s).toList
  safe_sanitized : ∀ s, safe (f s) ↔ s ≠ ""
  eq_self_iff : ∀ s, f s = s ↔ s = "" ∨ safe s
  idempotent : ∀ s, f (f s) = f s

/-- The scan makes texts safe, if the character that stands for the others is safe. -/
theorem Sanitizes.of_collapse
    (hmark : inRanges ranges '_' = true) (hsafe : ∀ s, safe s ↔ OnlyOf ranges s)
    (hf : ∀ s, (f s).toList = collapse (inRanges ranges) s.toList) :
    Sanitizes ranges safe f := by
  have hempty : ∀ s, f s = "" ↔ s = "" := by
    intro s
    rw [← String.toList_eq_nil_iff, hf, collapse_eq_nil_iff, String.toList_eq_nil_iff]
  have hself : ∀ s, f s = s ↔ ∀ c ∈ s.toList, inRanges ranges c = true := by
    intro s
    rw [← String.toList_inj, hf, collapse_eq_self_iff hmark]
  have hkept : ∀ s, ∀ c ∈ (f s).toList, inRanges ranges c = true := by
    intro s
    rw [hf]
    exact keep_of_mem_collapse hmark
  refine
    { safe_iff := fun s => (hsafe s).trans (onlyOf_iff s)
      existsUnique_cut := fun s => Text.existsUnique_cut _ _
      toList_of_cut := fun s pieces hcut => by rw [hf, hcut.collapse_eq]
      replacedAll_iff := fun s out => by rw [hf, Text.replacedAll_iff]
      safe_sanitized := fun s => ?_
      eq_self_iff := fun s => ?_
      idempotent := fun s => (hself _).mpr (hkept s) }
  · rw [hsafe, OnlyOf, Ne, hempty]
    exact and_iff_left (hkept s)
  · rw [hself, hsafe, OnlyOf]
    by_cases hs : s = "" <;> simp [hs]

/-- Identities are made safe by the scan that keeps `/`, and names of files by the one that does
not. -/
theorem texts_sanitized :
    Sanitizes identityRanges (fun s => isSafeId s = true) sanitizeId ∧
      Sanitizes fileRanges (OnlyOf fileRanges) fileSafe := by
  have hidentity : isIdentityChar = inRanges identityRanges := by
    funext c
    exact Bool.eq_iff_iff.mpr (isIdentityChar_iff c)
  have hfile : isFileChar = inRanges fileRanges := by
    funext c
    exact Bool.eq_iff_iff.mpr (isFileChar_iff c)
  constructor
  · refine .of_collapse (by decide) isSafeId_iff fun s => ?_
    rw [sanitizeId, String.toList_ofList, hidentity]
  · refine .of_collapse (by decide) (fun _ => Iff.rfl) fun s => ?_
    rw [fileSafe, String.toList_ofList, hfile]

example : sanitizeId "..a__b/." = "_a__b/_" ∧ fileSafe "..a__b/." = "_a__b_" := by
  decide

end Text
end DocumentTables
