import Mathlib.Data.String.Basic
import DocumentTables.Files.Path

/-!
# The names of a path

A name is plain if it is a name in itself, without slashes and no way of saying where one is.  A
path joined with a plain name goes through the same names and then that one.  The paths above a path
go through the first of its names.

**Results.**

* `FilePath.names_join`, `FilePath.names_join_empty`: the names of joined paths.
* `FilePath.Plain.lookupNames_join`, `FilePath.Plain.directoryNames_join`: the same with what the
  kinds of calls add to them.
* `FilePath.lookupNames_join_names`: a path that goes on through several names.
* `FilePath.Above.of_mem_parents`, `FilePath.parents_cases`: the paths above a path.
* `FilePath.extension?_append`: the extension of a name.
-/

namespace DocumentTables
namespace FilePath

/-! ## Splitting -/

theorem splitSlashes_ne_nil
    (cs : List Char) :
    splitSlashes cs ≠ [] := by
  induction cs with
  | nil =>
      simp [splitSlashes]
  | cons c cs ih =>
      rw [splitSlashes]
      split
      · simp
      · split <;> simp

theorem splitSlashes_slash
    (cs : List Char) :
    splitSlashes ('/' :: cs) = [] :: splitSlashes cs := by
  simp [splitSlashes]

theorem splitSlashes_cons
    {c : Char} (hc : c ≠ '/') {cs name : List Char} {names : List (List Char)}
    (h : splitSlashes cs = name :: names) :
    splitSlashes (c :: cs) = (c :: name) :: names := by
  simp [splitSlashes, hc, h]

theorem splitSlashes_of_not_mem
    {cs : List Char} (h : '/' ∉ cs) :
    splitSlashes cs = [cs] := by
  induction cs with
  | nil =>
      rfl
  | cons c cs ih =>
      rw [List.mem_cons, not_or] at h
      exact splitSlashes_cons (Ne.symm h.1) (ih h.2)

/-- A text is split at a slash into the parts before it and those after it. -/
theorem splitSlashes_append
    (before after : List Char) :
    splitSlashes (before ++ '/' :: after) = splitSlashes before ++ splitSlashes after := by
  induction before with
  | nil =>
      rw [List.nil_append, splitSlashes_slash]
      rfl
  | cons c before ih =>
      by_cases hc : c = '/'
      · subst hc
        rw [List.cons_append, splitSlashes_slash, splitSlashes_slash, ih, List.cons_append]
      · obtain ⟨name, names, hbefore⟩ := List.exists_cons_of_ne_nil (splitSlashes_ne_nil before)
        rw [hbefore, List.cons_append] at ih
        rw [List.cons_append, splitSlashes_cons hc ih, splitSlashes_cons hc hbefore,
          List.cons_append]

/-- No part of a split text has a slash. -/
theorem not_mem_of_mem_splitSlashes
    {cs part : List Char} (h : part ∈ splitSlashes cs) :
    '/' ∉ part := by
  induction cs generalizing part with
  | nil =>
      simp only [splitSlashes, List.mem_singleton] at h
      simp [h]
  | cons c cs ih =>
      by_cases hc : c = '/'
      · subst hc
        rw [splitSlashes_slash] at h
        rcases List.mem_cons.mp h with rfl | h
        · simp
        · exact ih h
      · obtain ⟨name, names, hcs⟩ := List.exists_cons_of_ne_nil (splitSlashes_ne_nil cs)
        rw [splitSlashes_cons hc hcs] at h
        rcases List.mem_cons.mp h with rfl | h
        · rw [List.mem_cons, not_or]
          exact ⟨Ne.symm hc, ih (by simp [hcs])⟩
        · exact ih (by simp [hcs, h])

/-- Parts that are put together with slashes. -/
theorem splitSlashes_intercalate
    {parts : List (List Char)} (hparts : parts ≠ []) (h : ∀ part ∈ parts, '/' ∉ part) :
    splitSlashes (['/'].intercalate parts) = parts := by
  induction parts with
  | nil =>
      exact absurd rfl hparts
  | cons part parts ih =>
      cases parts with
      | nil =>
          simpa [List.intercalate] using splitSlashes_of_not_mem (h part (by simp))
      | cons next parts =>
          have htail := ih (by simp) fun p hp => h p (List.mem_cons_of_mem _ hp)
          have hjoin : ['/'].intercalate (part :: next :: parts) =
              part ++ '/' :: ['/'].intercalate (next :: parts) := by
            simp [List.intercalate, List.intersperse]
          rw [hjoin, splitSlashes_append, htail, splitSlashes_of_not_mem (h part (by simp))]
          rfl

theorem intercalate_splitSlashes
    (cs : List Char) :
    ['/'].intercalate (splitSlashes cs) = cs := by
  induction cs with
  | nil =>
      rfl
  | cons c cs ih =>
      obtain ⟨name, names, hcs⟩ := List.exists_cons_of_ne_nil (splitSlashes_ne_nil cs)
      rw [hcs] at ih
      by_cases hc : c = '/'
      · subst hc
        rw [splitSlashes_slash, hcs]
        rw [← ih]
        simp [List.intercalate, List.intersperse]
      · rw [splitSlashes_cons hc hcs, ← ih]
        cases names <;> simp [List.intercalate, List.intersperse]

/-! ## Joining -/

/-- A name without slashes that leads to what has that name. -/
structure Plain (name : String) : Prop where
  slashFree : '/' ∉ name.toList
  nulFree : '\x00' ∉ name.toList
  ne_empty : name ≠ ""
  ne_point : name ≠ "."
  ne_points : name ≠ ".."

/-- The names among the parts of a path. -/
def namesAmong (parts : List (List Char)) : List String :=
  (parts.filter fun name => name ≠ [] ∧ name ≠ ['.']).map String.ofList

theorem names_eq
    (path : String) :
    names path = namesAmong (splitSlashes path.toList) := by
  rfl

theorem namesAmong_append
    (parts more : List (List Char)) :
    namesAmong (parts ++ more) = namesAmong parts ++ namesAmong more := by
  simp [namesAmong]

theorem namesAmong_nil :
    namesAmong [[]] = [] := by
  rfl

theorem Plain.toList_ne_nil
    {name : String} (h : Plain name) :
    name.toList ≠ [] := by
  exact fun hnil => h.ne_empty (String.toList_eq_nil_iff.mp hnil)

theorem Plain.toList_ne_point
    {name : String} (h : Plain name) :
    name.toList ≠ ['.'] := by
  intro hpoint
  refine h.ne_point (String.toList_injective ?_)
  rw [hpoint]
  rfl

theorem Plain.namesAmong
    {name : String} (h : Plain name) :
    namesAmong [name.toList] = [name] := by
  simp [FilePath.namesAmong, h.toList_ne_nil, h.toList_ne_point]

theorem Plain.head?_ne
    {name : String} (h : Plain name) :
    name.toList.head? ≠ some '/' := by
  exact fun hhead => h.slashFree (List.mem_of_mem_head? hhead)

variable {directory name : String}

theorem join_empty_left
    (hname : name.toList.head? ≠ some '/') :
    join "" name = name := by
  rw [join, if_neg hname, if_pos (.inl rfl), String.empty_append]

/-- A joined path consists of the directory, a slash if one is missing, and the name. -/
theorem exists_toList_join
    (hname : name.toList.head? ≠ some '/') (hdirectory : directory ≠ "") :
    ∃ before, (join directory name).toList = before ++ '/' :: name.toList ∧
      (directory.toList = before ∨ directory.toList = before ++ ['/']) := by
  rw [join, if_neg hname]
  split
  · next hbare =>
      rcases hbare with hempty | hslash
      · exact absurd (String.isEmpty_iff.mp hempty) hdirectory
      · obtain ⟨before, hbefore⟩ := List.getLast?_eq_some_iff.mp hslash
        refine ⟨before, ?_, .inr hbefore⟩
        rw [String.toList_append, hbefore]
        simp
  · refine ⟨directory.toList, ?_, .inl rfl⟩
    rw [String.toList_append, String.toList_append]
    simp

/-- The parts of a joined path are those of the directory, without an empty one at the end, and
those of the name. -/
theorem exists_splitSlashes_join
    (hname : name.toList.head? ≠ some '/') (hdirectory : directory ≠ "") :
    ∃ parts, splitSlashes (join directory name).toList = parts ++ splitSlashes name.toList ∧
      (splitSlashes directory.toList = parts ∨ splitSlashes directory.toList = parts ++ [[]]) := by
  obtain ⟨before, hjoin, hbefore⟩ := exists_toList_join hname hdirectory
  refine ⟨splitSlashes before, by rw [hjoin, splitSlashes_append], ?_⟩
  rcases hbefore with hbefore | hbefore
  · exact .inl (by rw [hbefore])
  · refine .inr ?_
    rw [hbefore, splitSlashes_append]
    rfl

/-- A path goes through the names of the directory and then through those of the name. -/
theorem names_join
    (hname : name.toList.head? ≠ some '/') :
    names (join directory name) = names directory ++ names name := by
  by_cases hdirectory : directory = ""
  · rw [hdirectory, join_empty_left hname]
    rfl
  · obtain ⟨parts, hjoin, hparts⟩ := exists_splitSlashes_join hname hdirectory
    rw [names_eq, names_eq, names_eq, hjoin, namesAmong_append]
    rcases hparts with hparts | hparts
    · rw [hparts]
    · rw [hparts, namesAmong_append, namesAmong_nil, List.append_nil]

theorem Plain.splitSlashes_toList
    (h : Plain name) :
    splitSlashes name.toList = [name.toList] := by
  exact splitSlashes_of_not_mem h.slashFree

/-- The last part of a path that ends in a plain name. -/
theorem Plain.exists_splitSlashes_join
    (h : Plain name) (directory : String) :
    ∃ parts, splitSlashes (join directory name).toList = parts ++ [name.toList] := by
  by_cases hdirectory : directory = ""
  · exact ⟨[], by rw [hdirectory, join_empty_left h.head?_ne, h.splitSlashes_toList]; rfl⟩
  · obtain ⟨parts, hjoin, -⟩ := FilePath.exists_splitSlashes_join h.head?_ne hdirectory
    exact ⟨parts, by rw [hjoin, h.splitSlashes_toList]⟩

theorem Plain.names_join
    (h : Plain name) :
    names (join directory name) = names directory ++ [name] := by
  rw [FilePath.names_join h.head?_ne, names_eq name, h.splitSlashes_toList, h.namesAmong]

theorem Plain.leadsToDirectory_join
    (h : Plain name) :
    leadsToDirectory (join directory name) = false := by
  obtain ⟨parts, hparts⟩ := h.exists_splitSlashes_join directory
  simp [leadsToDirectory, hparts, h.toList_ne_nil, h.toList_ne_point]

theorem Plain.lookupNames_join
    (h : Plain name) :
    lookupNames (join directory name) = names directory ++ [name] := by
  rw [lookupNames, h.leadsToDirectory_join, h.names_join]
  rfl

theorem Plain.endsInPoint_join
    (h : Plain name) :
    endsInPoint (join directory name) = false := by
  obtain ⟨parts, hparts⟩ := h.exists_splitSlashes_join directory
  simp [endsInPoint, hparts, h.toList_ne_nil, h.toList_ne_point]

theorem Plain.directoryNames_join
    (h : Plain name) :
    directoryNames (join directory name) = names directory ++ [name] := by
  rw [directoryNames, h.endsInPoint_join, h.names_join]
  rfl

/-! ## Paths of directories -/

theorem names_join_empty
    (directory : String) :
    names (join directory "") = names directory := by
  rw [names_join (by simp)]
  exact List.append_nil _

theorem leadsToDirectory_join_empty
    (hdirectory : directory ≠ "") :
    leadsToDirectory (join directory "") = true := by
  have hname : "".toList.head? ≠ some '/' := by simp
  obtain ⟨parts, hjoin, -⟩ := exists_splitSlashes_join hname hdirectory
  have hempty : splitSlashes "".toList = [[]] := rfl
  rw [leadsToDirectory, hjoin, hempty]
  simp

/-! ## Paths of several names -/

theorem splitSlashes_names
    {names : List String} (hnames : names ≠ []) (h : ∀ name ∈ names, Plain name) :
    splitSlashes ("/".intercalate names).toList = names.map String.toList := by
  rw [String.toList_intercalate]
  refine splitSlashes_intercalate (by simpa using hnames) fun part hpart => ?_
  obtain ⟨name, hname, rfl⟩ := List.mem_map.mp hpart
  exact (h name hname).slashFree

theorem head?_names_ne
    {names : List String} (hnames : names ≠ []) (h : ∀ name ∈ names, Plain name) :
    ("/".intercalate names).toList.head? ≠ some '/' := by
  intro hhead
  obtain ⟨cs, hcs⟩ := List.head?_eq_some_iff.mp hhead
  have hsplit := splitSlashes_names hnames h
  rw [hcs, splitSlashes_slash] at hsplit
  obtain ⟨first, rest, rfl⟩ := List.exists_cons_of_ne_nil hnames
  exact (h first List.mem_cons_self).toList_ne_nil (List.cons.inj hsplit).1.symm

theorem namesAmong_names
    {names : List String} (h : ∀ name ∈ names, Plain name) :
    namesAmong (names.map String.toList) = names := by
  induction names with
  | nil =>
      rfl
  | cons name names ih =>
      rw [List.map_cons, ← List.singleton_append, namesAmong_append,
        (h name List.mem_cons_self).namesAmong,
        ih fun other hother => h other (List.mem_cons_of_mem _ hother), List.singleton_append]

/-- A path that goes on through plain names leads through them. -/
theorem lookupNames_join_names
    {more : List String} (hmore : more ≠ []) (h : ∀ name ∈ more, Plain name) :
    lookupNames (join directory ("/".intercalate more)) = names directory ++ more := by
  have hhead := head?_names_ne hmore h
  have hsplit := splitSlashes_names hmore h
  obtain ⟨before, last, rfl⟩ := (List.eq_nil_or_concat' more).resolve_left hmore
  have hlast : Plain last := h last (by simp)
  obtain ⟨parts, hparts⟩ : ∃ parts,
      splitSlashes (join directory ("/".intercalate (before ++ [last]))).toList =
        parts ++ [last.toList] := by
    by_cases hdirectory : directory = ""
    · exact ⟨before.map String.toList, by
        rw [hdirectory, join_empty_left hhead, hsplit, List.map_append]; rfl⟩
    · obtain ⟨parts, hjoin, -⟩ := exists_splitSlashes_join hhead hdirectory
      exact ⟨parts ++ before.map String.toList, by rw [hjoin, hsplit]; simp⟩
  have hfile : leadsToDirectory (join directory ("/".intercalate (before ++ [last]))) = false := by
    simp [leadsToDirectory, hparts, hlast.toList_ne_nil, hlast.toList_ne_point]
  rw [lookupNames, hfile, names_join hhead, names_eq ("/".intercalate _), hsplit,
    namesAmong_names h]
  rfl

/-! ## Lengths and characters -/

theorem join_ne_empty
    (hdirectory : directory ≠ "") (hname : name.toList.head? ≠ some '/') :
    join directory name ≠ "" := by
  obtain ⟨before, hjoin, -⟩ := exists_toList_join hname hdirectory
  intro hempty
  rw [hempty] at hjoin
  simp at hjoin

theorem Plain.join_ne_empty
    (h : Plain name) (directory : String) :
    join directory name ≠ "" := by
  by_cases hdirectory : directory = ""
  · rw [hdirectory, join_empty_left h.head?_ne]
    exact h.ne_empty
  · exact FilePath.join_ne_empty hdirectory h.head?_ne

/-- A joined path has at most one byte more than its parts. -/
theorem utf8ByteSize_join
    (hname : name.toList.head? ≠ some '/') :
    directory.utf8ByteSize + name.utf8ByteSize ≤ (join directory name).utf8ByteSize ∧
      (join directory name).utf8ByteSize ≤ directory.utf8ByteSize + 1 + name.utf8ByteSize := by
  by_cases hdirectory : directory = ""
  · rw [hdirectory, join_empty_left hname]
    simp
  · obtain ⟨before, hjoin, hbefore⟩ := exists_toList_join hname hdirectory
    have hslash : '/'.utf8Size = 1 := rfl
    rw [← String.utf8Len_toList (join directory name), ← String.utf8Len_toList directory,
      ← String.utf8Len_toList name, hjoin, String.utf8Len_append, String.utf8Len_cons, hslash]
    rcases hbefore with hbefore | hbefore
    · rw [hbefore]
      omega
    · rw [hbefore, String.utf8Len_append, String.utf8Len_cons, hslash]
      change String.utf8Len before + 1 + _ ≤ _ ∧ _ ≤ String.utf8Len before + 1 + 1 + _
      omega

theorem nul_mem_join
    (hname : name.toList.head? ≠ some '/') (hnul : '\x00' ∉ name.toList) :
    '\x00' ∈ (join directory name).toList ↔ '\x00' ∈ directory.toList := by
  by_cases hdirectory : directory = ""
  · rw [hdirectory, join_empty_left hname]
    simpa using hnul
  · obtain ⟨before, hjoin, hbefore⟩ := exists_toList_join hname hdirectory
    rw [hjoin]
    rcases hbefore with hbefore | hbefore
    · simp [hbefore, hnul]
    · simp [hbefore, hnul]

/-! ## The paths above a path -/

theorem mem_nameEnds
    {parts : List (List Char)} {ends : List (List Char)} (h : ends ∈ nameEnds parts) :
    ∃ part before, ends = part :: before ∧ part ≠ [] ∧ part ≠ ['.'] ∧ ends <:+ parts := by
  induction parts with
  | nil =>
      simp [nameEnds] at h
  | cons part parts ih =>
      rw [nameEnds] at h
      split at h
      · obtain ⟨last, before, hends, hne, hpoint, hsuffix⟩ := ih h
        exact ⟨last, before, hends, hne, hpoint, hsuffix.trans (List.suffix_cons _ _)⟩
      · next hname =>
          rw [not_or] at hname
          rcases List.mem_cons.mp h with rfl | h
          · exact ⟨part, parts, rfl, hname.1, hname.2, List.suffix_refl _⟩
          · obtain ⟨last, before, hends, hne, hpoint, hsuffix⟩ := ih h
            exact ⟨last, before, hends, hne, hpoint, hsuffix.trans (List.suffix_cons _ _)⟩

/-- The path whose parts are given from the last one on. -/
def upTo (ends : List (List Char)) : String :=
  String.ofList (['/'].intercalate ends.reverse)

theorem parents_eq
    (path : String) :
    parents path = ((nameEnds (splitSlashes path.toList).reverse).drop 1).map upTo := by
  rfl

theorem splitSlashes_upTo
    {ends : List (List Char)} (hne : ends ≠ []) (h : ∀ part ∈ ends, '/' ∉ part) :
    splitSlashes (upTo ends).toList = ends.reverse := by
  rw [upTo, String.toList_ofList]
  exact splitSlashes_intercalate (by simpa using hne) fun part hpart =>
    h part (List.mem_reverse.mp hpart)

/-- What a path above another one has to do with that. -/
structure Above (above path : String) : Prop where
  ne_empty : above ≠ ""
  names : names above <+: names path
  toList : above.toList <+: path.toList

theorem intercalate_isPrefix
    {parts more : List (List Char)} (hparts : parts ≠ []) :
    ['/'].intercalate parts <+: ['/'].intercalate (parts ++ more) := by
  induction parts with
  | nil =>
      exact absurd rfl hparts
  | cons part parts ih =>
      cases parts with
      | nil =>
          cases more with
          | nil =>
              exact List.prefix_rfl
          | cons next more =>
              simp [List.intercalate, List.intersperse]
      | cons next parts =>
          obtain ⟨rest, hrest⟩ := ih (by simp)
          refine ⟨rest, ?_⟩
          simp only [List.intercalate, List.cons_append, List.intersperse_cons_cons,
            List.flatten_cons, List.append_assoc] at hrest ⊢
          rw [hrest]

/-- The paths above a path begin it. -/
theorem Above.of_mem_parents
    {above path : String} (h : above ∈ parents path) :
    Above above path := by
  rw [parents_eq] at h
  obtain ⟨ends, hends, rfl⟩ := List.mem_map.mp h
  obtain ⟨last, before, rfl, hne, -, hsuffix⟩ := mem_nameEnds (List.mem_of_mem_drop hends)
  have hslashes : ∀ part ∈ last :: before, '/' ∉ part := fun part hpart =>
    not_mem_of_mem_splitSlashes (List.mem_reverse.mp (hsuffix.subset hpart))
  have hsplit := splitSlashes_upTo (List.cons_ne_nil last before) hslashes
  obtain ⟨rest, hrest⟩ : (last :: before).reverse <+: splitSlashes path.toList := by
    rw [← List.reverse_suffix, List.reverse_reverse]
    exact hsuffix
  refine ⟨?_, ?_, ?_⟩
  · intro hempty
    rw [hempty, List.reverse_cons] at hsplit
    rcases List.append_eq_singleton_iff.mp hsplit.symm with ⟨-, hlast⟩ | ⟨-, hlast⟩
    · exact hne (List.singleton_inj.mp hlast)
    · simp at hlast
  · rw [names_eq, hsplit, names_eq, ← hrest, namesAmong_append]
    exact List.prefix_append _ _
  · rw [upTo, String.toList_ofList, ← intercalate_splitSlashes path.toList, ← hrest]
    exact intercalate_isPrefix (by simp)

/-- The longest beginning that ends in a name is followed by those of what is before that name. -/
theorem nameEnds_cases
    (parts : List (List Char)) :
    nameEnds parts = [] ∨
      ∃ part before, nameEnds parts = (part :: before) :: nameEnds before ∧ part ≠ [] ∧
        part ≠ ['.'] ∧ part :: before <:+ parts := by
  induction parts with
  | nil =>
      exact .inl rfl
  | cons part before ih =>
      rw [nameEnds]
      split
      · refine ih.imp_right ?_
        rintro ⟨last, above, hends, hne, hpoint, hsuffix⟩
        exact ⟨last, above, hends, hne, hpoint, hsuffix.trans (List.suffix_cons _ _)⟩
      · next hname =>
          rw [not_or] at hname
          exact .inr ⟨part, before, rfl, hname.1, hname.2, List.suffix_refl _⟩

/-- All names of a path are in its longest beginning that ends in one. -/
theorem namesAmong_reverse
    (parts : List (List Char)) :
    namesAmong parts.reverse = namesAmong ((nameEnds parts).headD []).reverse := by
  induction parts with
  | nil =>
      rfl
  | cons part before ih =>
      rw [nameEnds]
      split
      · next hempty =>
          have hpart : namesAmong [part] = [] := by
            rcases hempty with rfl | rfl <;> rfl
          rw [← ih, List.reverse_cons, namesAmong_append, hpart, List.append_nil]
      · rfl

/-- Either there is no path above a path, which has at most one name, or the nearest one has the same
names but for the last, and the others are those above it. -/
theorem parents_cases
    (path : String) :
    (parents path = [] ∧ (names path).length ≤ 1) ∨
      ∃ parent name, parents path = parent :: parents parent ∧
        names path = names parent ++ [name] ∧ name ≠ "." := by
  have hnames : names path =
      namesAmong ((nameEnds (splitSlashes path.toList).reverse).headD []).reverse := by
    rw [← namesAmong_reverse, List.reverse_reverse, names_eq]
  rcases nameEnds_cases (splitSlashes path.toList).reverse with
    hnone | ⟨part, before, hends, hpart, hpoint, hsuffix⟩
  · rw [hnone] at hnames
    exact .inl ⟨by rw [parents_eq, hnone]; rfl, by rw [hnames]; exact Nat.zero_le 1⟩
  · have hparents : parents path = (nameEnds before).map upTo := by
      rw [parents_eq, hends]
      rfl
    have hlast : namesAmong [part] = [String.ofList part] := by
      simp [namesAmong, hpart, hpoint]
    rw [hends, List.headD_cons, List.reverse_cons, namesAmong_append, hlast,
      namesAmong_reverse before] at hnames
    rcases nameEnds_cases before with hnone | ⟨last, above, habove, hne, hname, hsuffix'⟩
    · rw [hnone] at hnames
      refine .inl ⟨by rw [hparents, hnone]; rfl, ?_⟩
      rw [hnames]
      exact Nat.le_refl 1
    · refine .inr ⟨upTo (last :: above), String.ofList part, ?_⟩
      have hslashes : ∀ other ∈ last :: above, '/' ∉ other := by
        intro other hother
        have hmem : other ∈ (splitSlashes path.toList).reverse :=
          hsuffix.subset (List.mem_cons_of_mem _ (hsuffix'.subset hother))
        exact not_mem_of_mem_splitSlashes (List.mem_reverse.mp hmem)
      have hsplit := splitSlashes_upTo (List.cons_ne_nil last above) hslashes
      have hagain : nameEnds (last :: above) = (last :: above) :: nameEnds above := by
        rw [nameEnds, if_neg (by rw [not_or]; exact ⟨hne, hname⟩)]
      refine ⟨?_, ?_, ?_⟩
      · rw [hparents, habove, parents_eq, hsplit, List.reverse_reverse, hagain]
        rfl
      · rw [hnames, habove, names_eq (upTo _), hsplit]
        rfl
      · intro hsame
        rw [← String.toList_inj, String.toList_ofList] at hsame
        exact hpoint hsame

/-! ## Extensions -/

/-- What comes after the last point of a name is its extension. -/
theorem extension?_append
    {before ext : String} (hbefore : before ≠ "") (hext : '.' ∉ ext.toList) :
    extension? (before ++ "." ++ ext) = some ext := by
  have hskip : ∀ c ∈ ext.toList.reverse, (c != '.') = true := by
    intro c hc
    rw [bne_iff_ne]
    rintro rfl
    exact hext (List.mem_reverse.mp hc)
  have hreverse : (before ++ "." ++ ext).toList.reverse =
      ext.toList.reverse ++ '.' :: before.toList.reverse := by
    simp [String.toList_append]
  obtain ⟨c, cs, hcs⟩ : ∃ c cs, before.toList.reverse = c :: cs :=
    List.exists_cons_of_ne_nil (by simpa using hbefore)
  rw [extension?, hreverse, List.dropWhile_append_of_pos hskip, List.takeWhile_append_of_pos hskip,
    hcs]
  simp

end FilePath
end DocumentTables
