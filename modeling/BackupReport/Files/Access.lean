import BackupReport.Files.Tree

/-!
# Access to files

The few operations on files that the program needs, in any monad, and what it builds from them.
A tree of files offers them as a state; the machine offers them too.
-/

namespace BackupReport.Files

/-- A way to work with files: reading a file, setting the content of a file in a directory that
is there, and creating and recognising directories. -/
structure Access (m : Type → Type) where
  read : Path → m (Except FileError (List UInt8))
  overwrite : Path → List UInt8 → m (Except FileError Unit)
  createDirectory : Path → m (Except FileError Unit)
  isDirectory : Path → m Bool

namespace Access

variable {m : Type → Type} [Monad m]

/-- The outcome of creating a directory that may be there already. -/
def orPresent (files : Access m) (p : Path) (e : FileError) : m (Except FileError Unit) := do
  if ← files.isDirectory p then pure (.ok ()) else pure (.error e)

/-- Creates the directories that a path names, given by its names in reverse.  An outer directory
is created first only if it is missing; those created before a failure stay. -/
def createAll (files : Access m) (absolute : Bool) : List String → m (Except FileError Unit)
  | [] => pure (.ok ())
  | name :: outer => do
    let p : Path := ⟨absolute, (name :: outer).reverse, false⟩
    match ← files.createDirectory p with
    | .ok () => pure (.ok ())
    | .error .notFound =>
      match ← createAll files absolute outer with
      | .error e => pure (.error e)
      | .ok () =>
        match ← files.createDirectory p with
        | .ok () => pure (.ok ())
        | .error e => files.orPresent p e
    | .error e => files.orPresent p e

/-- Creates the directories on the way to what a path names. -/
def createParents (files : Access m) (p : Path) : m (Except FileError Unit) :=
  match p.parent? with
  | some parent => files.createAll parent.absolute parent.names.reverse
  | none => pure (.ok ())

/-- Sets the content of a file, after creating the directories on the way to it. -/
def write (files : Access m) (p : Path) (bytes : List UInt8) : m (Except FileError Unit) := do
  match ← files.createParents p with
  | .error e => pure (.error e)
  | .ok () => files.overwrite p bytes

end Access

/-- Access to a tree of files.  An operation that fails leaves the tree as it was. -/
def FileTree.access : Access (StateM FileTree) where
  read p := fun t => (t.read p, t)
  overwrite p bytes := fun t =>
    match t.overwrite p bytes with
    | .ok t' => (.ok (), t')
    | .error e => (.error e, t)
  createDirectory p := fun t =>
    match t.createDirectory p with
    | .ok t' => (.ok (), t')
    | .error e => (.error e, t)
  isDirectory p := fun t => (t.isDirectory p, t)

end BackupReport.Files
