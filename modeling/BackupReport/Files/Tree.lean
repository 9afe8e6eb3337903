import BackupReport.Files.Path

/-!
# A tree of files and directories

What the program sees of a file system: files with their content, and directories, below one
root.  There are no links, everything may be read and written, and there is always room.
-/

namespace BackupReport.Files

/-- What stands at a place. -/
inductive Entry where
  | file (bytes : List UInt8)
  | directory
deriving DecidableEq

/-- A place below the root: the names on the way, the last one first. -/
abbrev Place := List String

/-- The entries of a file system and the place that relative paths start from. -/
structure FileTree where
  entries : Place → Option Entry
  start : Place

namespace FileTree

/-- A tree that holds nothing but the directories down to its starting place. -/
def empty (start : Place) : FileTree :=
  ⟨fun place => if place.isSuffixOf start then some .directory else none, start⟩

/-- What stands at a place; the root is a directory. -/
def entry? (t : FileTree) (place : Place) : Option Entry :=
  if place = [] then some .directory else t.entries place

/-- The tree with an entry put at a place. -/
def put (t : FileTree) (place : Place) (e : Entry) : FileTree :=
  { t with entries := fun q => if q = place then some e else t.entries q }

/-! ## Finding a place -/

/-- Follows names from a place.  Every place that a name is looked up in must be a directory; what
stands at the last place is left open. -/
def follow (t : FileTree) : Place → List String → Except FileError Place
  | place, [] => .ok place
  | place, name :: later =>
    match t.entry? place with
    | none => .error .notFound
    | some (.file _) => .error .notDirectory
    | some .directory =>
      if name = "." then follow t place later
      else if name = ".." then follow t place.tail later
      else if Path.nameLimit < name.utf8ByteSize then .error .nameTooLong
      else follow t (name :: place) later

/-- The place that a path names. -/
def place (t : FileTree) (p : Path) : Except FileError Place := do
  p.check
  t.follow (if p.absolute then [] else t.start) p.names

/-- Whether a path names a directory. -/
def isDirectory (t : FileTree) (p : Path) : Bool :=
  match t.place p with
  | .ok place => t.entry? place == some .directory
  | .error _ => false

/-! ## Reading and writing -/

/-- The content of the file that a path names. -/
def read (t : FileTree) (p : Path) : Except FileError (List UInt8) := do
  let place ← t.place p
  match t.entry? place with
  | none => .error .notFound
  | some .directory => .error .isDirectory
  | some (.file bytes) => if p.slashEnded then .error .notDirectory else .ok bytes

/-- The tree with a new directory; the one around it must be there. -/
def createDirectory (t : FileTree) (p : Path) : Except FileError FileTree := do
  let place ← t.place p
  match t.entry? place with
  | some _ => .error .alreadyExists
  | none => .ok (t.put place .directory)

/-- The tree with the content of a file set; there need not have been one. -/
def overwrite (t : FileTree) (p : Path) (bytes : List UInt8) : Except FileError FileTree := do
  let place ← t.place p
  if p.slashEnded then .error .isDirectory
  else match t.entry? place with
    | some .directory => .error .isDirectory
    | _ => .ok (t.put place (.file bytes))

end FileTree

end BackupReport.Files
