/-!
# Paths

A path names a file from the root or from the working directory.  Repeated slashes count as one,
and a slash at the end asks for a directory.
-/

namespace BackupReport.Files

/-- A path: whether it starts at the root, the names on the way, and whether it ends with a
slash. -/
structure Path where
  absolute : Bool
  names : List String
  slashEnded : Bool
deriving DecidableEq

/-- Why a file cannot be read or written. -/
inductive FileError where
  | notFound
  | alreadyExists
  | notDirectory
  | isDirectory
  | nameTooLong
  | invalidName
  | other (text : String)
deriving DecidableEq

/-- The wording of a file error. -/
def FileError.message : FileError → String
  | .notFound => "No such file or directory (os error 2)"
  | .alreadyExists => "File exists (os error 17)"
  | .notDirectory => "Not a directory (os error 20)"
  | .isDirectory => "Is a directory (os error 21)"
  | .nameTooLong => "File name too long (os error 36)"
  | .invalidName => "file name contained an unexpected NUL byte"
  | .other text => text

namespace Path

/-- The parts of a text between its slashes. -/
def split : List Char → List (List Char)
  | [] => [[]]
  | c :: rest =>
    if c = '/' then [] :: split rest
    else match split rest with
      | [] => [[c]]
      | part :: later => (c :: part) :: later

/-- The path that a text writes. -/
def ofString (s : String) : Path :=
  let cs := s.toList
  { absolute := cs.head? == some '/'
    names := ((split cs).filter (· ≠ [])).map String.ofList
    slashEnded := cs.getLast? == some '/' }

/-- The text of a path. -/
def toString (p : Path) : String :=
  (if p.absolute then "/" else "") ++ String.intercalate "/" p.names ++
    (if p.slashEnded ∧ p.names ≠ [] then "/" else "")

/-- Whether a path has no names and does not start at the root. -/
def isEmpty (p : Path) : Bool := !p.absolute && p.names.isEmpty

/-- The greatest number of bytes in a name. -/
def nameLimit : Nat := 255

/-- The greatest number of bytes in a path. -/
def sizeLimit : Nat := 4095

/-- The number of bytes in a path. -/
def size (p : Path) : Nat :=
  (if p.absolute then 1 else 0) + p.names.foldr (·.utf8ByteSize + 1 + ·) 0 - 1

/-- Whether a path can be looked up at all. -/
def check (p : Path) : Except FileError Unit :=
  if p.names.any (·.toList.contains '\x00') then .error .invalidName
  else if p.isEmpty then .error .notFound
  else if sizeLimit < p.size then .error .nameTooLong
  else .ok ()

/-- The names on the way, without those that stay in place; at the start of a relative path such
a name is kept. -/
def steps (p : Path) : List String :=
  match p.names with
  | "." :: later => if p.absolute then later.filter (· ≠ ".") else "." :: later.filter (· ≠ ".")
  | names => names.filter (· ≠ ".")

/-- The path to the directory that holds what a path names. -/
def parent? (p : Path) : Option Path :=
  if p.steps.isEmpty then none else some ⟨p.absolute, p.steps.dropLast, false⟩

end Path

end BackupReport.Files
