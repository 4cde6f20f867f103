import StepWorld.Path
import StepWorld.Text.Quoted

/-! Folders: directories and files below a root, found and changed by path. A way leads from
directory to directory, and two dots lead to the directory above, so that a way through a
missing directory leads nowhere. A change that fails leaves what was done before it. -/

namespace StepWorld

abbrev Place := List String

/-- What stands at the end of a path. A file that stands earlier on the way bars it, a name
may be longer than names can be, and of the directories outside of the root nothing else is
known. -/
inductive Entry (α : Type) where
  | file (content : α)
  | directory
  | outside
  | absent
  | barred
  | overlong

inductive FileCause where
  | missing
  | exists
  | notDirectory
  | isDirectory
  | overlong
  | nullCharacter
deriving DecidableEq, Repr

structure FileError where
  cause : FileCause
  path : Path
deriving DecidableEq, Repr

def FileCause.text : FileCause → String
  | .missing => "[Errno 2] No such file or directory"
  | .exists => "[Errno 17] File exists"
  | .notDirectory => "[Errno 20] Not a directory"
  | .isDirectory => "[Errno 21] Is a directory"
  | .overlong => "[Errno 36] File name too long"
  | .nullCharacter => "embedded null byte"

/-- The cause and the path, but for a path that cannot be asked for at all. -/
def FileError.message (e : FileError) : String :=
  match e.cause with
  | .nullCharacter => e.cause.text
  | cause => cause.text ++ ": " ++ quoted e.path.toString

def longestName : Nat := 255

def longestPath : Nat := 4095

namespace Path

def holdsNull (p : Path) : Bool := p.segments.any fun name => name.toList.contains '\x00'

def isOverlong (p : Path) : Bool := longestPath < p.toString.utf8ByteSize

end Path

namespace Entry

variable {α : Type}

def found : Entry α → Except FileCause Bool
  | .file _ | .directory | .outside => .ok true
  | .absent | .barred => .ok false
  | .overlong => .error .overlong

def content : Entry α → Except FileCause α
  | .file content => .ok content
  | .directory | .outside => .error .isDirectory
  | .absent => .error .missing
  | .barred => .error .notDirectory
  | .overlong => .error .overlong

def beyond : List String → Entry α
  | [] => .outside
  | name :: rest =>
    if name = ".." then beyond rest
    else if longestName < name.utf8ByteSize then .overlong
    else .absent

end Entry

/-- The root is a directory itself and is not listed. -/
structure Folder (α : Type) where
  directories : List Place
  files : List (Place × α)

namespace Folder

variable {α : Type}

def empty : Folder α := ⟨[], []⟩

def entryAt (folder : Folder α) (place : Place) : Entry α :=
  if place.isEmpty || folder.directories.contains place then .directory
  else
    match folder.files.lookup place with
    | some content => .file content
    | none => .absent

def follow (folder : Folder α) (place : Place) : List String → Place × Entry α
  | [] => (place, folder.entryAt place)
  | name :: rest =>
    match folder.entryAt place with
    | .directory =>
      if name = ".." then
        if place.isEmpty then (place, Entry.beyond rest)
        else follow folder place.dropLast rest
      else if longestName < name.utf8ByteSize then (place, .overlong)
      else follow folder (place ++ [name]) rest
    | .file _ => (place, .barred)
    | entry => (place, entry)

/-- Where a path leads and what stands there; absolute paths lead out of the folder. -/
def find (folder : Folder α) (path : Path) : Place × Entry α :=
  if path.isOverlong then ([], .overlong)
  else if path.holdsNull then ([], .absent)
  else if path.slashes = 0 then folder.follow [] path.segments
  else ([], Entry.beyond path.segments)

def entry (folder : Folder α) (path : Path) : Entry α := (folder.find path).2

def content (folder : Folder α) (path : Path) : Except FileCause α :=
  if path.holdsNull then .error .nullCharacter else (folder.entry path).content

def directory? (folder : Folder α) (path : Path) : Option Place :=
  match folder.find path with
  | (place, .directory) => some place
  | _ => none

def names (folder : Folder α) (directory : Place) : List String :=
  (folder.directories ++ folder.files.map Prod.fst).filterMap fun place =>
    match place.getLast? with
    | some name => if place.dropLast = directory then some name else none
    | none => none

/-- The files in and below a directory, by the names that lead to them from there. -/
def filesBelow (folder : Folder α) (directory : Place) : List (Place × α) :=
  folder.files.filterMap fun (place, content) =>
    if directory.isPrefixOf place then some (place.drop directory.length, content) else none

def addDirectory (folder : Folder α) (place : Place) : Folder α :=
  { folder with directories := place :: folder.directories }

def addFile (folder : Folder α) (place : Place) (content : α) : Folder α :=
  { folder with files := (place, content) :: folder.files.filter fun entry => entry.1 != place }

def remove (folder : Folder α) (place : Place) : Folder α where
  directories := folder.directories.filter fun other => !place.isPrefixOf other
  files := folder.files.filter fun entry => !place.isPrefixOf entry.1

def clearBelow (folder : Folder α) (place : Place) : Folder α where
  directories := folder.directories.filter fun other => other = place || !place.isPrefixOf other
  files := folder.files.filter fun entry => !place.isPrefixOf entry.1

/-- The place at which a path names something in a directory that is there. -/
def slot (folder : Folder α) (path : Path) : Except FileCause Place :=
  if path.holdsNull then .error .nullCharacter
  else if path.isOverlong then .error .overlong
  else
    match folder.find path.parent with
    | (place, .directory) =>
      match path.segments.getLast? with
      | some name =>
        if longestName < name.utf8ByteSize then .error .overlong else .ok (place ++ [name])
      | none => .error .exists
    | (_, .file _) | (_, .barred) => .error .notDirectory
    | (_, .overlong) => .error .overlong
    | _ => .error .missing

/-- Makes one directory. Two dots are there already. -/
def makeDirectory (folder : Folder α) (path : Path) : Except FileCause (Folder α) := do
  let place ← folder.slot path
  match path.segments.getLast?, folder.entryAt place with
  | some "..", _ => throw .exists
  | _, .absent => return folder.addDirectory place
  | _, _ => throw .exists

def write (folder : Folder α) (path : Path) (content : α) : Except FileCause (Folder α) := do
  let place ← folder.slot path
  match folder.entry path with
  | .directory | .outside => throw .isDirectory
  | _ => return folder.addFile place content

def isDirectory (folder : Folder α) (path : Path) : Bool :=
  match folder.entry path with
  | .directory | .outside => true
  | _ => false

end Folder

/-- A change of a folder. What was done before it failed stays. -/
abbrev FolderTask (α β : Type) := ExceptT FileError (StateM (Folder α)) β

namespace FolderTask

variable {α : Type}

def change (path : Path) (f : Folder α → Except FileCause (Folder α)) : FolderTask α Unit := do
  match f (← get) with
  | .ok folder => set folder
  | .error cause => throw ⟨cause, path⟩

def write (path : Path) (content : α) : FolderTask α Unit :=
  change path (·.write path content)

def read (path : Path) : FolderTask α α := do
  match (← get).content path with
  | .ok content => return content
  | .error cause => throw ⟨cause, path⟩

def found (path : Path) : FolderTask α Bool := do
  match ((← get).entry path).found with
  | .ok found => return found
  | .error cause => throw ⟨cause, path⟩

def ensureDirectory (path : Path) : FolderTask α Unit := do
  match (← get).makeDirectory path with
  | .ok folder => set folder
  | .error cause => if (← get).isDirectory path then pure () else throw ⟨cause, path⟩

/-- Makes the directory to which names lead, the last of them first, and those it lies in. -/
def ensureWay : List String → FolderTask α Unit
  | [] => pure ()
  | name :: above => do
    let path : Path := ⟨0, (name :: above).reverse⟩
    match (← get).makeDirectory path with
    | .error .missing => do
      ensureWay above
      ensureDirectory path
    | _ => ensureDirectory path

def ensureDirectories (path : Path) : FolderTask α Unit := ensureWay path.segments.reverse

/-- Deletes a directory with all that stands in it. If its own path leads through what stands
in it, the path leads nowhere before the directory itself is deleted. -/
def deleteTree (path : Path) : FolderTask α Unit := do
  match (← get).find path with
  | (place, .directory) => do
    modify (·.clearBelow place)
    if (← get).isDirectory path then modify (·.remove place) else throw ⟨.missing, path⟩
  | (_, .file _) => throw ⟨.notDirectory, path⟩
  | _ => pure ()

end FolderTask

/-- A folder of files, each with the directories on its way, written one after another. -/
def Folder.ofFiles {α : Type} (files : List (Path × α)) : Folder α :=
  files.foldl (fun folder (path, content) =>
    ((do
      FolderTask.ensureDirectories path.parent
      FolderTask.write path content : FolderTask α Unit).run.run folder).2) .empty

end StepWorld
