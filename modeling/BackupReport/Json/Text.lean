import BackupReport.Json.Decoder
import BackupReport.Utf8

/-!
# Strings in a JSON text

A string is read up to its closing quote.  A string that is decoded must be UTF-8, and its escapes
must name characters; of one that is passed over only the form of the escapes is checked.
-/

namespace BackupReport.Json.Text

open Decoder

/-! ## Escapes -/

/-- The next byte of a string. -/
def byte : Decoder UInt8 := do
  match ← next with
  | some b => pure b
  | none => refuseHere .endOfString

/-- The value of a hexadecimal digit. -/
def hexValue? (b : UInt8) : Option Nat :=
  if 0x30 ≤ b ∧ b ≤ 0x39 then some (b.toNat - 0x30)
  else if 0x41 ≤ b ∧ b ≤ 0x46 then some (b.toNat - 0x41 + 10)
  else if 0x61 ≤ b ∧ b ≤ 0x66 then some (b.toNat - 0x61 + 10)
  else none

/-- The number that four hexadecimal digits write. -/
def unitOfHex? (a b c d : UInt8) : Option Nat := do
  pure ((((← hexValue? a) * 16 + (← hexValue? b)) * 16 + (← hexValue? c)) * 16 + (← hexValue? d))

/-- A UTF-16 unit, written with four hexadecimal digits.  All four bytes are taken before any is
judged. -/
def codeUnit : Decoder Nat := do
  let a ← byte
  let b ← byte
  let c ← byte
  let d ← byte
  match unitOfHex? a b c d with
  | some unit => pure unit
  | none => refuseHere .invalidEscape

/-- Whether a unit is the first of a surrogate pair. -/
def isHighSurrogate (unit : Nat) : Bool := 0xD800 ≤ unit && unit ≤ 0xDBFF

/-- Whether a unit is the second of a surrogate pair. -/
def isLowSurrogate (unit : Nat) : Bool := 0xDC00 ≤ unit && unit ≤ 0xDFFF

/-- The character of a surrogate pair. -/
def pairCharacter (high low : Nat) : Char :=
  Char.ofNat (0x10000 + (high - 0xD800) * 0x400 + (low - 0xDC00))

/-- The second half of a surrogate pair, with the escape that introduces it. -/
def secondHalf (high : Nat) : Decoder Char := do
  if (← byte) = 0x5C then
    if (← byte) = 0x75 then
      let low ← codeUnit
      if isLowSurrogate low then pure (pairCharacter high low) else refuseHere .loneSurrogate
    else refuseHere .unfinishedPair
  else refuseHere .unfinishedPair

/-- The character of an escape by number, which is a unit or a surrogate pair. -/
def numbered : Decoder Char := do
  let unit ← codeUnit
  if isLowSurrogate unit then refuseHere .loneSurrogate
  else if isHighSurrogate unit then secondHalf unit
  else pure (Char.ofNat unit)

/-- The byte that an escape by letter stands for. -/
def lettered? (b : UInt8) : Option UInt8 :=
  if b = 0x22 ∨ b = 0x5C ∨ b = 0x2F then some b
  else if b = 0x62 then some 0x08
  else if b = 0x66 then some 0x0C
  else if b = 0x6E then some 0x0A
  else if b = 0x72 then some 0x0D
  else if b = 0x74 then some 0x09
  else none

/-- The bytes that an escape stands for, after its backslash. -/
def escape : Decoder (List UInt8) := do
  let b ← byte
  match lettered? b with
  | some c => pure [c]
  | none => if b = 0x75 then Utf8.encodeChar <$> numbered else refuseHere .invalidEscape

/-- Passes over an escape, after its backslash. -/
def skipEscape : Decoder Unit := do
  let b ← byte
  if (lettered? b).isSome then pure ()
  else if b = 0x75 then let _ ← codeUnit
  else refuseHere .invalidEscape

/-! ## Bodies -/

/-- Reads one character or escape of a string, whose bytes so far are given in reverse. -/
def piece (sofar : List UInt8) : Decoder (Step (List UInt8) (List UInt8)) := do
  let b ← byte
  if b = 0x22 then pure (.done sofar.reverse)
  else if b = 0x5C then
    let bytes ← escape
    pure (.more (bytes.reverse ++ sofar))
  else if b < 0x20 then refuseHere .controlCharacter
  else pure (.more (b :: sofar))

/-- The bytes of a string, after its opening quote. -/
def bytes : Decoder (List UInt8) := iterate piece []

/-- A string, after its opening quote.  Whether it is UTF-8 is judged behind the closing quote, on
the bytes that it stands for.  If it is not, the place of the fault is counted back from behind that
quote by the number of these bytes from the first malformed one on.  An escape is longer than what
it stands for, so that with one among them the place lies behind the malformed byte. -/
def decode : Decoder String := do
  let found ← bytes
  match Utf8.decode? found with
  | some cs => pure (String.ofList cs)
  | none => refuseBefore .invalidCodePoint (found.length - Utf8.validSize found)

/-- Passes over one character or escape of a string. -/
def skipPiece (_ : Unit) : Decoder (Step Unit Unit) := do
  match ← peek with
  | none => refuseHere .endOfString
  | some b =>
    if b = 0x22 then
      eat
      pure (.done ())
    else if b = 0x5C then
      eat
      skipEscape
      pure (.more ())
    else if b < 0x20 then refuseHere .controlCharacter
    else
      eat
      pure (.more ())

/-- Passes over a string, after its opening quote. -/
def skip : Decoder Unit := iterate skipPiece ()

end BackupReport.Json.Text
