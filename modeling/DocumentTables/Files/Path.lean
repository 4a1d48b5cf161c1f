/-!
# File paths

A path is a text of names separated by slashes.
-/

namespace DocumentTables
namespace FilePath

/-- The path of a name below a directory; an absolute name stands for itself. -/
def join (directory name : String) : String :=
  if name.toList.head? = some '/' then name
  else if directory.isEmpty ∨ directory.toList.getLast? = some '/' then directory ++ name
  else directory ++ "/" ++ name

/-- Split characters at each slash. -/
def splitSlashes : List Char → List (List Char)
  | [] => [[]]
  | c :: cs =>
      if c = '/' then [] :: splitSlashes cs
      else
        match splitSlashes cs with
        | [] => [[c]]
        | name :: names => (c :: name) :: names

/-- The names of a path, without empty ones and single points, which lead nowhere else. -/
def names (path : String) : List String :=
  ((splitSlashes path.toList).filter fun name => name ≠ [] ∧ name ≠ ['.']).map String.ofList

/-- A path whose last name is empty or a single point leads to a directory only. -/
def leadsToDirectory (path : String) : Bool :=
  match (splitSlashes path.toList).getLast? with
  | some name => name == [] || name == ['.']
  | none => true

/-- A single point at the end of a path, slashes after it apart, stands for the directory before it
and is no name of its own. -/
def endsInPoint (path : String) : Bool :=
  ((splitSlashes path.toList).filter (· ≠ [])).getLast? == some ['.']

/-- The names that lead to what stands at a path.  A path that leads to a directory goes on from there
to the directory itself, which a file cannot do. -/
def lookupNames (path : String) : List String :=
  if leadsToDirectory path then names path ++ ["."] else names path

/-- The names of a directory that is to be made or removed.  Slashes at the end make no difference,
while a point there is kept, since it is no name that a directory could be given or lose. -/
def directoryNames (path : String) : List String :=
  if endsInPoint path then names path ++ ["."] else names path

/-- A path that starts with a slash starts at the top. -/
def isAbsolute (path : String) : Bool :=
  path.toList.head? == some '/'

/-- The beginnings of a path that end in a name, the longest first, with all parts in reverse. -/
def nameEnds : List (List Char) → List (List (List Char))
  | [] => []
  | part :: before =>
      if part = [] ∨ part = ['.'] then nameEnds before else (part :: before) :: nameEnds before

/-- The paths of the directories above what a path names, the nearest first. -/
def parents (path : String) : List String :=
  ((nameEnds (splitSlashes path.toList).reverse).drop 1).map fun parts =>
    String.ofList (['/'].intercalate parts.reverse)

/-- The part of a name after its last point, unless that point is the first character. -/
def extension? (name : String) : Option String :=
  let fromLast := name.toList.reverse
  match fromLast.dropWhile (· != '.') with
  | '.' :: _ :: _ => some (String.ofList (fromLast.takeWhile (· != '.')).reverse)
  | _ => none

end FilePath
end DocumentTables
