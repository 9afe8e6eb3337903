import BackupReport.Json.Text
import BackupReport.Json.Number

/-!
# Passing over a value

A value that nobody asked for is passed over.  Only its form is checked: it may be nested to any
depth, its numbers may have any size, and its strings need not be UTF-8.  The open lists and
objects are kept on a stack, the innermost first.
-/

namespace BackupReport.Json.Skip

open Decoder

/-- A list or an object that is not closed yet. -/
inductive Frame where
  | list
  | object
deriving DecidableEq

/-- The byte that closes a frame. -/
def Frame.closing : Frame → UInt8
  | .list => 0x5D
  | .object => 0x7D

/-- The cause given where the text ends inside a frame. -/
def Frame.unfinished : Frame → Cause
  | .list => .endOfList
  | .object => .endOfObject

/-- The cause given where neither a comma nor the end follows an entry of a frame. -/
def Frame.expectedComma : Frame → Cause
  | .list => .expectedCommaInList
  | .object => .expectedCommaInObject

/-- What comes next: a value, the first entry or the end of the innermost frame, or what follows
an entry of it. -/
inductive Place where
  | value
  | opened
  | after
deriving DecidableEq

/-- What comes next, and inside which frames. -/
structure State where
  place : Place
  frames : List Frame

/-- Passes over a value, or over the first byte of a list or object. -/
def enterValue (frames : List Frame) : Decoder State := do
  match ← gap with
  | none => refuseNext .endOfValue
  | some b =>
    match Lead.of b with
    | .null =>
      eat
      word restOfNull
      pure ⟨.after, frames⟩
    | .yes =>
      eat
      word restOfTrue
      pure ⟨.after, frames⟩
    | .no =>
      eat
      word restOfFalse
      pure ⟨.after, frames⟩
    | .minus | .digit =>
      Numeral.skip
      pure ⟨.after, frames⟩
    | .quote =>
      eat
      Text.skip
      pure ⟨.after, frames⟩
    | .list =>
      eat
      pure ⟨.opened, .list :: frames⟩
    | .object =>
      eat
      pure ⟨.opened, .object :: frames⟩
    | .other => refuseNext .expectedValue

/-- Passes over the key of a member and the colon after it. -/
def memberKey : Decoder Unit := do
  match ← gap with
  | none => refuseNext .endOfObject
  | some b =>
    if b = 0x22 then
      eat
      Text.skip
      match ← gap with
      | none => refuseNext .endOfObject
      | some c => if c = 0x3A then eat else refuseNext .expectedColon
    else refuseNext .keyNotString

/-- Passes over the start of an entry: a value of a list, a key and a value of an object. -/
def enterEntry (frame : Frame) (frames : List Frame) : Decoder State := do
  match frame with
  | .list => enterValue (.list :: frames)
  | .object =>
    memberKey
    enterValue (.object :: frames)

/-- One step of the passing over. -/
def step : State → Decoder (Step State Unit)
  | ⟨.value, frames⟩ => .more <$> enterValue frames
  | ⟨_, []⟩ => pure (.done ())
  | ⟨.opened, frame :: frames⟩ => do
    match ← gap with
    | none => refuseNext frame.unfinished
    | some b =>
      if b = frame.closing then
        eat
        pure (.more ⟨.after, frames⟩)
      else .more <$> enterEntry frame frames
  | ⟨.after, frame :: frames⟩ => do
    match ← gap with
    | none => refuseNext frame.unfinished
    | some b =>
      if b = frame.closing then
        eat
        pure (.more ⟨.after, frames⟩)
      else if b = 0x2C then
        eat
        .more <$> enterEntry frame frames
      else refuseNext frame.expectedComma

end Skip

/-- Passes over a value. -/
def skipValue : Decoder Unit := Decoder.iterate Skip.step ⟨.value, []⟩

end BackupReport.Json
