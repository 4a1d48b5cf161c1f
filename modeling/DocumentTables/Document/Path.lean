import DocumentTables.Json.Value

/-!
# Dotted paths

A path such as `id.datatype` names a value inside a document: its segments, separated by points, are
the names of nested fields.  Projection copies the values at some paths into a new document.

**Results.**

* `segments_ne_nil`: every path has a first segment.
* `segments_dotted_eq_append`: the segments of two paths joined by a point.
* `segments_of_dotFree`, `segments_dotted`: a name without a point is one segment, and two such names
  joined by a point are two.
-/

namespace DocumentTables
namespace Path

/-- Split characters at each point. -/
def splitDots : List Char → List (List Char)
  | [] => [[]]
  | c :: cs =>
      if c = '.' then [] :: splitDots cs
      else
        match splitDots cs with
        | [] => [[c]]
        | segment :: segments => (c :: segment) :: segments

/-- The segments of a path. -/
def segments (path : String) : List String :=
  (splitDots path.toList).map String.ofList

/-- The path of a field inside the object at a path. -/
def dotted (path name : String) : String :=
  path ++ "." ++ name

/-- A name is one segment of a path. -/
def DotFree (name : String) : Prop :=
  '.' ∉ name.toList

instance (name : String) : Decidable (DotFree name) := by
  unfold DotFree
  infer_instance

theorem splitDots_ne_nil
    (cs : List Char) :
    splitDots cs ≠ [] := by
  cases cs with
  | nil =>
      simp [splitDots]
  | cons c cs =>
      simp only [splitDots]
      split
      · simp
      · split <;> simp

theorem segments_ne_nil
    (path : String) :
    segments path ≠ [] := by
  simp [segments, splitDots_ne_nil]

theorem splitDots_of_notMem
    {cs : List Char} (h : '.' ∉ cs) :
    splitDots cs = [cs] := by
  induction cs with
  | nil =>
      rfl
  | cons c cs ih =>
      rw [List.mem_cons, not_or] at h
      simp [splitDots, ih h.2, Ne.symm h.1]

theorem splitDots_append
    (cs ds : List Char) :
    splitDots (cs ++ '.' :: ds) = splitDots cs ++ splitDots ds := by
  induction cs with
  | nil =>
      simp [splitDots]
  | cons c cs ih =>
      by_cases h : c = '.'
      · simp [splitDots, h, ih]
      · obtain ⟨segment, segments, hcs⟩ := List.exists_cons_of_ne_nil (splitDots_ne_nil cs)
        simp [splitDots, h, ih, hcs]

theorem segments_of_dotFree
    {name : String} (h : DotFree name) :
    segments name = [name] := by
  simp [segments, splitDots_of_notMem h]

theorem segments_dotted_eq_append
    (path name : String) :
    segments (dotted path name) = segments path ++ segments name := by
  have hchars : (dotted path name).toList = path.toList ++ '.' :: name.toList := by
    simp [dotted]
  rw [segments, hchars, splitDots_append, List.map_append, segments, segments]

theorem segments_dotted
    {path name : String} (hp : DotFree path) (hn : DotFree name) :
    segments (dotted path name) = [path, name] := by
  rw [segments_dotted_eq_append, segments_of_dotFree hp, segments_of_dotFree hn]
  rfl

end Path

namespace Document

/-- The value reached from a value by the names of nested fields. -/
def descend : Value → List String → Option Value
  | v, [] => some v
  | .object fields, name :: names =>
      match NameMap.get? fields name with
      | some v => descend v names
      | none => none
  | _, _ :: _ => none

/-- The value at a path. -/
def lookup (doc : Document) (path : String) : Option Value :=
  descend (.object doc) (Path.segments path)

/-- Set the value at the end of nested fields.  A field on the way that is missing, or no object,
becomes an object. -/
def insertAt (doc : Document) : List String → Value → Document
  | [], _ => doc
  | [name], value => NameMap.insert doc name value
  | name :: names, value =>
      let inner := ((NameMap.get? doc name).bind Value.fields?).getD []
      NameMap.insert doc name (.object (insertAt inner names value))

/-- The document with only the values at the given paths.  Paths that lead nowhere are skipped. -/
def project (doc : Document) (paths : List String) : Document :=
  paths.foldl
    (fun out path =>
      match doc.lookup path with
      | some value => insertAt out (Path.segments path) value
      | none => out)
    []

end Document
end DocumentTables
