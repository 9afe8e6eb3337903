import BackupReport.Error

/-!
# The log

A computation may note events while it runs.  The events are part of its result, in the order in
which they were noted; each has a level and a wording.
-/

namespace BackupReport

/-- How much an event matters. -/
inductive Level where
  | error
  | warn
  | info
  | debug
deriving DecidableEq

/-- Something worth noting. -/
inductive Event where
  | summaryFound (path : String) (skipped : Nat) (snapshot : String)
  | summaryMissing (path : String) (messages : Nat)
  | retentionCounted (groups : Nat) (kept removed : Int64)
  | markerMissing
  | extractionFailed (host path : String) (error : Error)
  | integrityNotConfirmed
  | recordWritten (path : String)
  | recordRead (path : String)

namespace Event

/-- How much an event matters. -/
def level : Event → Level
  | .extractionFailed .. => .error
  | .summaryMissing .. | .integrityNotConfirmed => .warn
  | .recordWritten _ => .info
  | .summaryFound .. | .retentionCounted .. | .markerMissing | .recordRead _ => .debug

/-- The wording of an event. -/
def message : Event → String
  | .summaryFound path skipped snapshot =>
    "Found summary for " ++ path ++ " after " ++ toString skipped ++
      " progress messages (snapshot " ++ snapshot ++ ")"
  | .summaryMissing path messages =>
    "No summary message in backup output for " ++ path ++ " (" ++ toString messages ++
      " messages read)"
  | .retentionCounted groups kept removed =>
    "Retention over " ++ toString groups ++ " groups: " ++ toString kept.toInt ++ " kept, " ++
      toString removed.toInt ++ " removed"
  | .markerMissing => "Check output did not contain the success marker"
  | .extractionFailed host path error =>
    "Failed to extract backup info for " ++ host ++ ":" ++ path ++ ": " ++ error.message
  | .integrityNotConfirmed => "Repository integrity check did not report success"
  | .recordWritten path => "Wrote output to " ++ path
  | .recordRead path => "Read output from " ++ path

end Event

/-! ## Results with events -/

/-- A result and the events noted on the way to it. -/
structure Logged (α : Type) where
  value : α
  events : List Event

namespace Logged

variable {α : Type}

instance : Monad Logged where
  pure a := ⟨a, []⟩
  bind x f := ⟨(f x.value).value, x.events ++ (f x.value).events⟩

/-- Notes an event. -/
def note (e : Event) : Logged Unit := ⟨(), [e]⟩

@[simp] theorem value_pure (a : α) : (pure a : Logged α).value = a := rfl

@[simp] theorem value_bind {β : Type} (x : Logged α) (f : α → Logged β) :
    (x >>= f).value = (f x.value).value := rfl

end Logged

end BackupReport
