import DocumentTables.Files.Path

/-!
# File trees

A file tree holds directories, regular files and symbolic links.  It is kept as a list of locations
with what stands there, so that what a call leaves alone can be read off.  A path is resolved name by
name, from the top directory down, and links on the way are followed.

**Results.**

* `find?_put_self`, `find?_put_of_ne`: what stands at a location after one was set.
* `find?_erase_self`, `find?_erase_of_ne`: the same after one was removed.
-/

namespace DocumentTables

/-- Names from the top directory down. -/
abbrev Location := List String

/-- What stands at a location. -/
inductive Node where
  | directory
  | file (content : ByteArray)
  | link (target : String)

/-- The locations of a tree below its top directory. -/
structure FileTree where
  nodes : List (Location × Node)

/-- Why a call on files fails. -/
inductive FileError where
  | notFound
  | busy
  | alreadyExists
  | notDirectory
  | isDirectory
  | invalidArgument
  | nameTooLong
  | notEmpty
  | tooManyLinks
  | nulInName
  | invalidText
  /-- The device fails, which the tree is not the reason of: the system's text and number. -/
  | device (text : String) (number : Nat)
deriving DecidableEq, Repr

def FileError.message : FileError → String
  | .notFound => "No such file or directory (os error 2)"
  | .busy => "Device or resource busy (os error 16)"
  | .alreadyExists => "File exists (os error 17)"
  | .notDirectory => "Not a directory (os error 20)"
  | .isDirectory => "Is a directory (os error 21)"
  | .invalidArgument => "Invalid argument (os error 22)"
  | .nameTooLong => "File name too long (os error 36)"
  | .notEmpty => "Directory not empty (os error 39)"
  | .tooManyLinks => "Too many levels of symbolic links (os error 40)"
  | .nulInName => "file name contained an unexpected NUL byte"
  | .invalidText => "stream did not contain valid UTF-8"
  | .device text number => text ++ " (os error " ++ toString number ++ ")"

namespace FileTree

/-- The tree of an empty top directory. -/
def empty : FileTree := ⟨[]⟩

/-- What stands at a location; the top is a directory. -/
def find? (t : FileTree) (loc : Location) : Option Node :=
  if loc = [] then some .directory else t.nodes.lookup loc

/-- Set what stands at a location. -/
def put (t : FileTree) (loc : Location) (node : Node) : FileTree :=
  ⟨(loc, node) :: t.nodes.filter fun entry => entry.1 ≠ loc⟩

/-- Remove one location. -/
def erase (t : FileTree) (loc : Location) : FileTree :=
  ⟨t.nodes.filter fun entry => entry.1 ≠ loc⟩

/-- A location lies below another one. -/
def isBelow (loc other : Location) : Bool :=
  other.isPrefixOf loc && loc != other

/-- Remove everything below a location. -/
def eraseBelow (t : FileTree) (loc : Location) : FileTree :=
  ⟨t.nodes.filter fun entry => !isBelow entry.1 loc⟩

/-- The names in the directory at a location. -/
def namesIn (t : FileTree) (loc : Location) : List String :=
  t.nodes.filterMap fun entry =>
    if entry.1.dropLast = loc ∧ entry.1 ≠ [] then entry.1.getLast? else none

/-- What stands below a location, in the order of the locations, so that a directory comes before all
that it holds. -/
def nodesBelow (t : FileTree) (loc : Location) : List (Location × Node) :=
  (t.nodes.filter fun entry => isBelow entry.1 loc).mergeSort fun a b => (compare a.1 b.1).isLE

/-- What stands below a location, each with its path from there. -/
def contents (t : FileTree) (loc : Location) : List (String × Node) :=
  (t.nodesBelow loc).map fun entry => ("/".intercalate (entry.1.drop loc.length), entry.2)

/-! ## Resolving paths -/

/-- Where a path leads: a location in an existing directory, and what stands there if anything does. -/
structure Place where
  location : Location
  node : Option Node

/-- A name has at most this many bytes. -/
def maxNameBytes : Nat := 255

/-- A path has at most this many bytes, and so has the target of a link. -/
def maxPathBytes : Nat := 4095

/-- At most this many links are followed on the way of one path. -/
def maxLinks : Nat := 40

/-- Walk down from a directory, of which a point is a name in itself and two points name the one above.
At a link, which is followed at the end of the path only on request, `jump` continues from a directory
with the names that are left. -/
def walk (t : FileTree) (follow : Bool) (jump : Location → List String → Except FileError Place) :
    Location → List String → Except FileError Place
  | here, [] => .ok ⟨here, some .directory⟩
  | here, name :: names =>
      if name = "." then walk t follow jump here names
      else if name = ".." then walk t follow jump here.dropLast names
      else if maxNameBytes < name.utf8ByteSize then .error .nameTooLong
      else
        let next := here ++ [name]
        match t.find? next with
        | none => if names.isEmpty then .ok ⟨next, none⟩ else .error .notFound
        | some .directory => walk t follow jump next names
        | some (.file content) =>
            if names.isEmpty then .ok ⟨next, some (.file content)⟩ else .error .notDirectory
        | some (.link target) =>
            if names.isEmpty ∧ ¬ follow then .ok ⟨next, some (.link target)⟩
            else
              jump (if FilePath.isAbsolute target then [] else here)
                (FilePath.lookupNames target ++ names)

/-- Walk down from a directory, following at most the given number of links. -/
def resolveFrom (t : FileTree) (follow : Bool) :
    Nat → Location → List String → Except FileError Place
  | 0 => walk t follow fun _ _ => .error .tooManyLinks
  | links + 1 => walk t follow (resolveFrom t follow links)

/-- Where the given names of a path lead from the top.  An empty path leads nowhere. -/
def resolve (t : FileTree) (follow : Bool) (path : String) (names : List String) :
    Except FileError Place :=
  if path.isEmpty then .error .notFound
  else if path.toList.contains '\x00' then .error .nulInName
  else if maxPathBytes < path.utf8ByteSize then .error .nameTooLong
  else resolveFrom t follow maxLinks [] names

/-- Where a path leads. -/
def locate (t : FileTree) (follow : Bool) (path : String) : Except FileError Place :=
  t.resolve follow path (FilePath.lookupNames path)

/-- Where a directory is to be made or removed. -/
def locateDirectory (t : FileTree) (path : String) : Except FileError Place :=
  t.resolve false path (FilePath.directoryNames path)

/-! ## What stands at a location after a change -/

theorem lookup_filter_ne
    {entries : List (Location × Node)} {loc other : Location} (h : other ≠ loc) :
    (entries.filter fun entry => entry.1 ≠ loc).lookup other = entries.lookup other := by
  induction entries with
  | nil =>
      rfl
  | cons entry entries ih =>
      obtain ⟨l, n⟩ := entry
      by_cases hl : l = loc
      · subst hl
        simp [List.lookup_cons, beq_eq_false_iff_ne.mpr h] at ih ⊢
        exact ih
      · by_cases ho : other = l
        · subst ho
          simp [hl]
        · simp [List.lookup_cons, hl, beq_eq_false_iff_ne.mpr ho] at ih ⊢
          exact ih

theorem lookup_filter_self
    (entries : List (Location × Node)) (loc : Location) :
    (entries.filter fun entry => entry.1 ≠ loc).lookup loc = none := by
  rw [List.lookup_eq_none_iff]
  intro entry hentry
  simp only [List.mem_filter, decide_eq_true_eq] at hentry
  exact bne_iff_ne.mpr (Ne.symm hentry.2)

theorem find?_put_self
    (t : FileTree) {loc : Location} (node : Node) (h : loc ≠ []) :
    (t.put loc node).find? loc = some node := by
  simp [find?, put, h]

theorem find?_put_of_ne
    (t : FileTree) {loc other : Location} (node : Node) (h : other ≠ loc) :
    (t.put loc node).find? other = t.find? other := by
  simp only [find?, put]
  split
  · rfl
  · rw [List.lookup_cons, beq_eq_false_iff_ne.mpr h]
    exact lookup_filter_ne h

theorem find?_erase_self
    (t : FileTree) {loc : Location} (h : loc ≠ []) :
    (t.erase loc).find? loc = none := by
  simp only [find?, erase, if_neg h]
  exact lookup_filter_self t.nodes loc

theorem find?_erase_of_ne
    (t : FileTree) {loc other : Location} (h : other ≠ loc) :
    (t.erase loc).find? other = t.find? other := by
  simp only [find?, erase]
  split
  · rfl
  · exact lookup_filter_ne h

end FileTree
end DocumentTables
