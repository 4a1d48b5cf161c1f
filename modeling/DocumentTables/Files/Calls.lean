import DocumentTables.Files.Tree

/-!
# Calls on files

Each call takes a tree and a path and fails as the system does.  A call that fails changes nothing,
except that `createDirectories` keeps the directories it has made, and `removeLinks` and
`removeDirectory` do not bring back what they have removed; these give the changed tree beside the
error.

The device below the tree can fail too, because it has no room left or cannot be written.  The calls
whose names end in `On` are made on a device with given faults, and the others on one without.  A file
that is being written when the device fails keeps what was written so far.
-/

namespace DocumentTables

/-- What a device refuses of the calls that a tree would let through. -/
structure DeviceFaults where
  /-- Making a directory at a path. -/
  making : String → Option FileError
  /-- Opening a file to be written, before that is emptied or made. -/
  opening : Option FileError
  /-- Writing into an open file, after so many bytes. -/
  writing : Option (Nat × FileError)
  /-- Giving a file another path. -/
  moving : Option FileError
  /-- Removing a file. -/
  removing : Option FileError

namespace DeviceFaults

/-- A device that refuses nothing. -/
def none : DeviceFaults :=
  ⟨fun _ => .none, .none, .none, .none, .none⟩

/-- What the device takes of a content. -/
def taken (faults : DeviceFaults) (content : ByteArray) : ByteArray :=
  match faults.writing with
  | .none => content
  | some (size, _) => content.extract 0 size

/-- Whether it takes a content to its end. -/
def takes (faults : DeviceFaults) (content : ByteArray) : Except FileError Unit :=
  match faults.writing with
  | .none => .ok ()
  | some (size, e) => if size < content.size then .error e else .ok ()

/-- A call that the tree lets through may be refused by the device. -/
def refuse {α : Type} (fault : Option FileError) (result : Except FileError α) :
    Except FileError α :=
  match result, fault with
  | .ok _, some e => .error e
  | result, _ => result

@[simp] theorem refuse_none
    {α : Type} (result : Except FileError α) :
    refuse .none result = result := by
  cases result <;> rfl

theorem refuse_eq_ok_iff
    {α : Type} {fault : Option FileError} {result : Except FileError α} {a : α} :
    refuse fault result = .ok a ↔ fault = .none ∧ result = .ok a := by
  cases result <;> cases fault <;> simp [refuse]

end DeviceFaults

namespace FileTree

/-- The bytes of a regular file; a link at the end of the path is followed. -/
def readBytes (t : FileTree) (path : String) : Except FileError ByteArray :=
  match t.locate true path with
  | .error e => .error e
  | .ok ⟨_, some (.file content)⟩ => .ok content
  | .ok ⟨_, some .directory⟩ => .error .isDirectory
  | .ok ⟨_, some (.link _)⟩ => .error .tooManyLinks
  | .ok ⟨_, none⟩ => .error .notFound

/-- The text of a regular file, which must be UTF-8. -/
def readText (t : FileTree) (path : String) : Except FileError String :=
  match t.readBytes path with
  | .error e => .error e
  | .ok content =>
      match String.fromUTF8? content with
      | some text => .ok text
      | none => .error .invalidText

/-- The path leads to a directory; a link at its end is followed. -/
def isDirectory (t : FileTree) (path : String) : Bool :=
  match t.locate true path with
  | .ok ⟨_, some .directory⟩ => true
  | _ => false

/-- Something stands where the path leads; a link at its end counts itself. -/
def isPresent (t : FileTree) (path : String) : Bool :=
  match t.locate false path with
  | .ok ⟨_, some _⟩ => true
  | _ => false

/-- Make a directory in an existing one. -/
def createDirectory (t : FileTree) (path : String) : Except FileError FileTree :=
  match t.locateDirectory path with
  | .error e => .error e
  | .ok ⟨_, some _⟩ => .error .alreadyExists
  | .ok ⟨loc, none⟩ => .ok (t.put loc .directory)

/-- Make a directory in an existing one, on a device with the given faults. -/
def createDirectoryOn (faults : DeviceFaults) (t : FileTree) (path : String) :
    Except FileError FileTree :=
  DeviceFaults.refuse (faults.making path) (t.createDirectory path)

@[simp] theorem createDirectoryOn_none
    (t : FileTree) (path : String) :
    t.createDirectoryOn .none path = t.createDirectory path := by
  exact DeviceFaults.refuse_none _

/-- Make a directory, after its parent if that is missing.  A directory that is there already will
do. -/
def createDirectoryBelow (faults : DeviceFaults) (t : FileTree) (path : String)
    (createParent : FileTree → Except FileError Unit × FileTree) :
    Except FileError Unit × FileTree :=
  match t.createDirectoryOn faults path with
  | .ok t => (.ok (), t)
  | .error .notFound =>
      match createParent t with
      | (.error e, t) => (.error e, t)
      | (.ok (), t) =>
          match t.createDirectoryOn faults path with
          | .ok t => (.ok (), t)
          | .error e => if t.isDirectory path then (.ok (), t) else (.error e, t)
  | .error e => if t.isDirectory path then (.ok (), t) else (.error e, t)

theorem createDirectoryBelow_none
    (t : FileTree) (path : String)
    (createParent : FileTree → Except FileError Unit × FileTree) :
    t.createDirectoryBelow .none path createParent =
      match t.createDirectory path with
      | .ok t => (.ok (), t)
      | .error .notFound =>
          match createParent t with
          | (.error e, t) => (.error e, t)
          | (.ok (), t) =>
              match t.createDirectory path with
              | .ok t => (.ok (), t)
              | .error e => if t.isDirectory path then (.ok (), t) else (.error e, t)
      | .error e => if t.isDirectory path then (.ok (), t) else (.error e, t) := by
  simp only [createDirectoryBelow, createDirectoryOn_none]

/-- Make the first of the given directories, each of which lies in the next one, and those of the
others that are missing. -/
def createDirectoriesFrom (faults : DeviceFaults) :
    List String → FileTree → Except FileError Unit × FileTree
  | [], t => (.ok (), t)
  | path :: above, t => t.createDirectoryBelow faults path (createDirectoriesFrom faults above)

/-- Make the directory that holds what a path names, and all missing ones above it. -/
def createParents (t : FileTree) (path : String) : Except FileError Unit × FileTree :=
  createDirectoriesFrom .none (FilePath.parents path) t

/-- Make a directory and all missing ones above it, on a device with the given faults.  For an empty
path there is nothing to make. -/
def createDirectoriesOn (faults : DeviceFaults) (t : FileTree) (path : String) :
    Except FileError Unit × FileTree :=
  if path.isEmpty then (.ok (), t)
  else createDirectoriesFrom faults (path :: FilePath.parents path) t

/-- Make a directory and all missing ones above it. -/
def createDirectories (t : FileTree) (path : String) : Except FileError Unit × FileTree :=
  t.createDirectoriesOn .none path

theorem createDirectories_eq
    (t : FileTree) (path : String) :
    t.createDirectories path =
      if path.isEmpty then (.ok (), t)
      else createDirectoriesFrom .none (path :: FilePath.parents path) t := by
  rfl

/-- Make a regular file with the given content, or replace the content of the one there is; a link at
the end of the path is followed.  The device takes all of the content. -/
def writeFile (t : FileTree) (path : String) (content : ByteArray) : Except FileError FileTree :=
  if FilePath.leadsToDirectory path then .error .isDirectory
  else
    match t.locate true path with
    | .error e => .error e
    | .ok ⟨_, some .directory⟩ => .error .isDirectory
    | .ok ⟨_, some (.link _)⟩ => .error .tooManyLinks
    | .ok ⟨loc, some (.file _)⟩ => .ok (t.put loc (.file content))
    | .ok ⟨loc, none⟩ => .ok (t.put loc (.file content))

/-- Write a file on a device with the given faults.  The file is there, with what the device has taken,
also if it does not take all of the content. -/
def writeFileOn (faults : DeviceFaults) (t : FileTree) (path : String) (content : ByteArray) :
    Except FileError Unit × FileTree :=
  match DeviceFaults.refuse faults.opening (t.writeFile path (faults.taken content)) with
  | .error e => (.error e, t)
  | .ok written => (faults.takes content, written)

theorem writeFileOn_none
    (t : FileTree) (path : String) (content : ByteArray) :
    t.writeFileOn .none path content =
      match t.writeFile path content with
      | .error e => (.error e, t)
      | .ok written => (.ok (), written) := by
  have hwritten : DeviceFaults.refuse DeviceFaults.none.opening
      (t.writeFile path (DeviceFaults.none.taken content)) = t.writeFile path content :=
    DeviceFaults.refuse_none _
  rw [writeFileOn, hwritten]
  cases t.writeFile path content <;> rfl

/-- Make a link with the given target where nothing stands. -/
def createLink (t : FileTree) (path target : String) : Except FileError FileTree :=
  if target.isEmpty ∨ FilePath.leadsToDirectory path then .error .notFound
  else if target.toList.contains '\x00' then .error .nulInName
  else if maxPathBytes < target.utf8ByteSize then .error .nameTooLong
  else
    match t.locate false path with
    | .error e => .error e
    | .ok ⟨_, some _⟩ => .error .alreadyExists
    | .ok ⟨loc, none⟩ => .ok (t.put loc (.link target))

/-- Give a file or link another path.  A file or link there is replaced, a directory is not. -/
def rename (t : FileTree) (source target : String) : Except FileError FileTree :=
  match t.locate false source, t.locate false target with
  | .error e, _ => .error e
  | _, .error e => .error e
  | .ok ⟨_, none⟩, _ => .error .notFound
  | .ok ⟨src, some node⟩, .ok ⟨dst, old⟩ =>
      match node, old with
      | .directory, _ => .error .isDirectory
      | _, some .directory => .error .isDirectory
      | node, _ => .ok ((t.erase src).put dst node)

/-- Give a file or link another path on a device with the given faults. -/
def renameOn (faults : DeviceFaults) (t : FileTree) (source target : String) :
    Except FileError FileTree :=
  DeviceFaults.refuse faults.moving (t.rename source target)

@[simp] theorem renameOn_none
    (t : FileTree) (source target : String) :
    t.renameOn .none source target = t.rename source target := by
  exact DeviceFaults.refuse_none _

/-- Remove a file or a link. -/
def removeFile (t : FileTree) (path : String) : Except FileError FileTree :=
  match t.locate false path with
  | .error e => .error e
  | .ok ⟨_, none⟩ => .error .notFound
  | .ok ⟨_, some .directory⟩ => .error .isDirectory
  | .ok ⟨loc, some _⟩ => .ok (t.erase loc)

/-- Remove a file or a link on a device with the given faults. -/
def removeFileOn (faults : DeviceFaults) (t : FileTree) (path : String) :
    Except FileError FileTree :=
  DeviceFaults.refuse faults.removing (t.removeFile path)

@[simp] theorem removeFileOn_none
    (t : FileTree) (path : String) :
    t.removeFileOn .none path = t.removeFile path := by
  exact DeviceFaults.refuse_none _

/-- The location of a directory; a link at the end of the path is followed. -/
def openDirectory (t : FileTree) (path : String) : Except FileError Location :=
  match t.locate true path with
  | .error e => .error e
  | .ok ⟨loc, some .directory⟩ => .ok loc
  | .ok ⟨_, some _⟩ => .error .notDirectory
  | .ok ⟨_, none⟩ => .error .notFound

/-- The names in a directory. -/
def list (t : FileTree) (path : String) : Except FileError (List String) :=
  (t.openDirectory path).map t.namesIn

/-- Remove the links among what stands below a directory, by their paths.  Subdirectories are opened on
the way, also by their paths.  The first failure ends the walk. -/
def removeLinksAmong (path : String) :
    List (String × Node) → FileTree → Except FileError Unit × FileTree
  | [], t => (.ok (), t)
  | (name, node) :: rest, t =>
      match node with
      | .file _ => removeLinksAmong path rest t
      | .directory =>
          match t.openDirectory (FilePath.join path name) with
          | .error e => (.error e, t)
          | .ok _ => removeLinksAmong path rest t
      | .link _ =>
          match t.removeFile (FilePath.join path name) with
          | .error e => (.error e, t)
          | .ok t => removeLinksAmong path rest t

/-- Remove all links below a directory.  If the path of the directory goes through one of them, what
comes after that one is out of reach. -/
def removeLinks (t : FileTree) (path : String) : Except FileError Unit × FileTree :=
  match t.openDirectory path with
  | .error e => (.error e, t)
  | .ok loc => removeLinksAmong path (t.contents loc) t

/-- Remove a directory in which nothing is left.  A point at the end of the path is no name that could
be removed, and a slash does not make a link a directory.  The top directory stays. -/
def removeEmptyDirectory (t : FileTree) (path : String) : Except FileError FileTree :=
  match t.locateDirectory path with
  | .error e => .error e
  | .ok ⟨_, none⟩ => .error .notFound
  | .ok ⟨loc, some .directory⟩ =>
      if FilePath.endsInPoint path then .error .invalidArgument
      else if loc = [] then
        .error (if (FilePath.directoryNames path).isEmpty then .busy else .notEmpty)
      else .ok (t.erase loc)
  | .ok ⟨_, some _⟩ => .error .notDirectory

/-- Remove a directory with everything in it.  Of a link only the link itself is removed.  What a path
with two points at its end leads to is emptied and stays, since its name is gone with the contents. -/
def removeDirectory (t : FileTree) (path : String) : Except FileError Unit × FileTree :=
  match t.locate false path with
  | .error e => (.error e, t)
  | .ok ⟨_, none⟩ => (.error .notFound, t)
  | .ok ⟨loc, some (.link _)⟩ => (.ok (), t.erase loc)
  | .ok ⟨_, some (.file _)⟩ => (.error .notDirectory, t)
  | .ok ⟨loc, some .directory⟩ =>
      let t := t.eraseBelow loc
      match t.removeEmptyDirectory path with
      | .ok t => (.ok (), t)
      | .error .notFound => (.ok (), t)
      | .error e => (.error e, t)

/-- Remove whatever stands at a path. -/
def remove (t : FileTree) (path : String) : Except FileError Unit × FileTree :=
  match t.removeFile path with
  | .ok t => (.ok (), t)
  | .error .isDirectory => t.removeDirectory path
  | .error e => (.error e, t)

end FileTree
end DocumentTables
