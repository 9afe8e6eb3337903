/-!
# Command lines

A command line names a command and gives its options.  An option is a flag with the value behind
it, whatever that value looks like; an option that is repeated counts as given last, except for
the snapshots, which add up.
-/

namespace BackupReport

/-! ## Commands -/

/-- A source path and the file that holds the output of its backup run. -/
structure Capture where
  path : String
  file : String
deriving DecidableEq

/-- The options of the command that writes a backup record. -/
structure BackupOptions where
  output : String := ""
  host : Option String := none
  snapshots : List Capture := []
  seconds : UInt64 := 0
  forget : Option String := none
  check : Option String := none
  stats : Option String := none
deriving DecidableEq

/-- The options of the command that writes a restore record. -/
structure RestoreOptions where
  output : String := ""
  host : Option String := none
  seconds : UInt64 := 0
  error : Option String := none
deriving DecidableEq

/-- The options of the command that shows a record. -/
structure ShowOptions where
  file : String := ""
  restore : Bool := false
  json : Bool := false
deriving DecidableEq

/-- What a command line asks for. -/
inductive Command where
  | backup (o : BackupOptions)
  | restore (o : RestoreOptions)
  | view (o : ShowOptions)
deriving DecidableEq

/-! ## Refusals -/

/-- Why a command line is refused. -/
inductive UsageError where
  | noCommand
  | unknownCommand (name : String)
  | missingValue (flag : String)
  | durationNotWhole
  | malformedSnapshot (value : String)
  | unexpectedArgument (argument : String)
  | unknownOption (argument : String)
  | missingOutput
  | missingSnapshot
  | missingFile
deriving DecidableEq

/-- The wording of a refusal. -/
def UsageError.message : UsageError → String
  | .noCommand => "No command specified"
  | .unknownCommand name => "Unknown command: " ++ name
  | .missingValue flag => flag ++ " requires a value"
  | .durationNotWhole => "--duration must be a whole number of seconds"
  | .malformedSnapshot value => "--snapshot expects <PATH>=<FILE>, got: " ++ value
  | .unexpectedArgument argument => "Unexpected argument: " ++ argument
  | .unknownOption argument => "Unknown option: " ++ argument
  | .missingOutput => "Missing required option: --output"
  | .missingSnapshot => "At least one --snapshot <PATH>=<FILE> is required"
  | .missingFile => "Missing required argument: FILE"

/-- Whether an argument has the form of an option. -/
def looksLikeOption (argument : String) : Bool := "--".toList.isPrefixOf argument.toList

/-- The refusal of an argument that is not understood. -/
def UsageError.ofArgument (argument : String) : UsageError :=
  if looksLikeOption argument then .unknownOption argument else .unexpectedArgument argument

/-! ## Values -/

/-- The value of a row of decimal digits. -/
def decimalValue (digits : List Char) : Nat :=
  digits.foldl (fun n c => n * 10 + (c.toNat - '0'.toNat)) 0

/-- The digits of a number that may have a plus in front. -/
def withoutPlus : List Char → List Char
  | '+' :: digits => digits
  | digits => digits

/-- A whole number of seconds that fits a word. -/
def readSeconds (value : String) : Except UsageError UInt64 :=
  let digits := withoutPlus value.toList
  if digits ≠ [] ∧ digits.all Char.isDigit ∧ decimalValue digits < UInt64.size then
    .ok (UInt64.ofNat (decimalValue digits))
  else .error .durationNotWhole

/-- A path and a file, parted by the first equals sign; neither may be empty. -/
def readCapture (value : String) : Except UsageError Capture :=
  let path := value.toList.takeWhile (· ≠ '=')
  match value.toList.dropWhile (· ≠ '=') with
  | _ :: file =>
    if path ≠ [] ∧ file ≠ [] then .ok ⟨String.ofList path, String.ofList file⟩
    else .error (.malformedSnapshot value)
  | [] => .error (.malformedSnapshot value)

/-! ## Options -/

/-- How a flag sets its value in some options, if it is a flag of theirs. -/
abbrev Flags (ρ : Type) := String → Option (String → ρ → Except UsageError ρ)

/-- Reads flags with their values into some options. -/
def readOptions {ρ : Type} (flags : Flags ρ) : List String → ρ → Except UsageError ρ
  | [], o => .ok o
  | [flag], _ =>
    match flags flag with
    | some _ => .error (.missingValue flag)
    | none => .error (.ofArgument flag)
  | flag :: value :: later, o =>
    match flags flag with
    | some set => do readOptions flags later (← set value o)
    | none => .error (.ofArgument flag)

/-- The flags of the command that writes a backup record. -/
def BackupOptions.flags : Flags BackupOptions := fun flag =>
  if flag = "--output" then some fun value o => .ok { o with output := value }
  else if flag = "--host" then some fun value o => .ok { o with host := some value }
  else if flag = "--snapshot" then some fun value o => do
    let capture ← readCapture value
    .ok { o with snapshots := o.snapshots ++ [capture] }
  else if flag = "--duration" then some fun value o => do
    let seconds ← readSeconds value
    .ok { o with seconds := seconds }
  else if flag = "--forget" then some fun value o => .ok { o with forget := some value }
  else if flag = "--check" then some fun value o => .ok { o with check := some value }
  else if flag = "--stats" then some fun value o => .ok { o with stats := some value }
  else none

/-- The flags of the command that writes a restore record. -/
def RestoreOptions.flags : Flags RestoreOptions := fun flag =>
  if flag = "--output" then some fun value o => .ok { o with output := value }
  else if flag = "--host" then some fun value o => .ok { o with host := some value }
  else if flag = "--duration" then some fun value o => do
    let seconds ← readSeconds value
    .ok { o with seconds := seconds }
  else if flag = "--error" then some fun value o => .ok { o with error := some value }
  else none

/-- The options of the command that writes a backup record: an output and a snapshot must be
given. -/
def BackupOptions.ofArguments (arguments : List String) : Except UsageError BackupOptions := do
  let o ← readOptions BackupOptions.flags arguments {}
  if o.output = "" then .error .missingOutput
  else if o.snapshots.isEmpty then .error .missingSnapshot
  else .ok o

/-- The options of the command that writes a restore record: an output must be given. -/
def RestoreOptions.ofArguments (arguments : List String) : Except UsageError RestoreOptions := do
  let o ← readOptions RestoreOptions.flags arguments {}
  if o.output = "" then .error .missingOutput else .ok o

namespace ShowOptions

/-- Takes one more argument.  An empty argument does not count as the file. -/
def add (o : ShowOptions) (argument : String) : Except UsageError ShowOptions :=
  if argument = "--restore" then .ok { o with restore := true }
  else if argument = "--json" then .ok { o with json := true }
  else if looksLikeOption argument then .error (.unknownOption argument)
  else if o.file = "" then .ok { o with file := argument }
  else .error (.unexpectedArgument argument)

/-- Takes some arguments in order. -/
def addAll : List String → ShowOptions → Except UsageError ShowOptions
  | [], o => .ok o
  | argument :: later, o => do addAll later (← o.add argument)

/-- The options of the command that shows a record: a file must be given. -/
def ofArguments (arguments : List String) : Except UsageError ShowOptions := do
  let o ← addAll arguments {}
  if o.file = "" then .error .missingFile else .ok o

end ShowOptions

/-- The command that the arguments of the program ask for. -/
def Command.ofArguments : List String → Except UsageError Command
  | [] => .error .noCommand
  | name :: arguments =>
    if name = "backup" then .backup <$> BackupOptions.ofArguments arguments
    else if name = "restore" then .restore <$> RestoreOptions.ofArguments arguments
    else if name = "show" then .view <$> ShowOptions.ofArguments arguments
    else .error (.unknownCommand name)

end BackupReport
