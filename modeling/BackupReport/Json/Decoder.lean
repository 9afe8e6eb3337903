import BackupReport.Json.Fault

/-!
# Decoders

A decoder reads bytes from a cursor and returns a value with the cursor behind it, or a fault.
All decoders are built from a few steps: look at the next byte, take it, pass over a run of bytes,
refuse, and repeat a step.  A decoder sees at most one byte that it does not take.

A source that hands out single bytes has handed out the byte that was only looked at, and counts
it in the position of a later fault; such a source is *buffered*.
-/

namespace BackupReport.Json

/-! ## Cursors -/

/-- What lies behind the last byte of a source: its end, or a failure to read on. -/
inductive Ending where
  | closed
  | failing (reason : String)
deriving DecidableEq

/-- A place in a source.  `position` is behind the last byte passed, `taken` behind the last byte
that the source has handed out. -/
structure Cursor where
  rest : List UInt8
  position : Position
  taken : Position
  buffered : Bool
  ending : Ending

namespace Cursor

/-- The start of a text that is held as a whole. -/
def ofText (bytes : List UInt8) : Cursor := ⟨bytes, .start, .start, false, .closed⟩

/-- The start of a source that hands out single bytes. -/
def ofReads (bytes : List UInt8) (ending : Ending) : Cursor :=
  ⟨bytes, .start, .start, true, ending⟩

/-- The cursor behind some bytes, with the given bytes to come. -/
def pass (c : Cursor) (passed rest : List UInt8) : Cursor :=
  let p := passed.foldl Position.advance c.position
  { c with rest := rest, position := p, taken := p }

/-- The cursor after a look at the given next byte. -/
def look (c : Cursor) (b : UInt8) : Cursor :=
  if c.buffered then { c with taken := c.position.advance b } else c

/-- The place behind the next byte, or behind the last one. -/
def ahead (c : Cursor) : Position :=
  match c.rest with
  | b :: _ => c.position.advance b
  | [] => c.position

end Cursor

/-! ## Decoders -/

/-- A reader of values of the type `α`. -/
abbrev Decoder (α : Type) := StateT Cursor (Except Fault) α

namespace Decoder

variable {α σ : Type}

/-- The next byte, which is not taken, or nothing at the end. -/
def peek : Decoder (Option UInt8) := fun c =>
  match c.rest, c.ending with
  | b :: _, _ => .ok (some b, c.look b)
  | [], .closed => .ok (none, c)
  | [], .failing reason => .error (.sourceFailed reason)

/-- The next byte, which is not taken, or nothing if the source ends or fails. -/
def glance : Decoder (Option UInt8) := fun c =>
  match c.rest with
  | b :: _ => .ok (some b, c.look b)
  | [] => .ok (none, c)

/-- The next byte, which is taken, or nothing at the end. -/
def next : Decoder (Option UInt8) := fun c =>
  match c.rest, c.ending with
  | b :: rest, _ => .ok (some b, c.pass [b] rest)
  | [], .closed => .ok (none, c)
  | [], .failing reason => .error (.sourceFailed reason)

/-- Takes the next byte. -/
def eat : Decoder Unit := do let _ ← next

/-- Takes the longest run of bytes that satisfy `p`. -/
def span (p : UInt8 → Bool) : Decoder (List UInt8) := fun c =>
  let run := c.rest.takeWhile p
  .ok (run, c.pass run (c.rest.dropWhile p))

/-- Refuses at the last byte that the source has handed out. -/
def refuseHere (cause : Cause) : Decoder α := fun c => .error (.refused cause c.taken)

/-- Refuses some bytes before the last one that the source has handed out. -/
def refuseBefore (cause : Cause) (n : Nat) : Decoder α := fun c =>
  .error (.refused cause (c.taken.retreat n))

/-- Refuses at the next byte. -/
def refuseNext (cause : Cause) : Decoder α := fun c => .error (.refused cause c.ahead)

/-! ## Repetition -/

/-- What a repeated step says: go on from a state, or stop with a result. -/
inductive Step (σ α : Type) where
  | more (s : σ)
  | done (a : α)

/-- Repeats a step, once for each of the given bytes and once more at most. -/
def iterateOver (step : σ → Decoder (Step σ α)) : List UInt8 → σ → Decoder α
  | [], s => do
    match ← step s with
    | .done a => pure a
    | .more _ => refuseNext .endOfValue
  | _ :: bound, s => do
    match ← step s with
    | .done a => pure a
    | .more s' => iterateOver step bound s'

/-- Repeats a step from a state until it stops.  Every step that goes on takes a byte, so that
there are never more of them than bytes. -/
def iterate (step : σ → Decoder (Step σ α)) (s : σ) : Decoder α := fun c =>
  iterateOver step c.rest s c

/-- Whether every step that goes on takes a byte. -/
def Progresses (step : σ → Decoder (Step σ α)) : Prop :=
  ∀ s c s' c', step s c = .ok (.more s', c') → c'.rest.length < c.rest.length

/-- Going on as a step says. -/
def proceed (step : σ → Decoder (Step σ α)) : Step σ α → Decoder α
  | .done a => pure a
  | .more s => iterate step s

/-- The bound does not matter once it is as long as the bytes to come. -/
theorem iterateOver_eq {step : σ → Decoder (Step σ α)} (h : Progresses step)
    (bound bound' : List UInt8) (s : σ) (c : Cursor) (hb : c.rest.length ≤ bound.length)
    (hb' : c.rest.length ≤ bound'.length) :
    iterateOver step bound s c = iterateOver step bound' s c := by
  induction bound generalizing bound' s c with
  | nil =>
    cases bound' with
    | nil => rfl
    | cons b bound' =>
      simp only [iterateOver, bind, StateT.bind]
      cases hs : step s c with
      | error e => rfl
      | ok r =>
        obtain ⟨_ | _, c'⟩ := r
        · have := h s c _ c' hs
          simp only [List.length_nil] at hb
          omega
        · rfl
  | cons b bound ih =>
    cases bound' with
    | nil =>
      simp only [iterateOver, bind, StateT.bind]
      cases hs : step s c with
      | error e => rfl
      | ok r =>
        obtain ⟨_ | _, c'⟩ := r
        · have := h s c _ c' hs
          simp only [List.length_nil] at hb'
          omega
        · rfl
    | cons b' bound' =>
      simp only [iterateOver, bind, StateT.bind]
      cases hs : step s c with
      | error e => rfl
      | ok r =>
        obtain ⟨s' | _, c'⟩ := r
        · have := h s c s' c' hs
          simp only [List.length_cons] at hb hb'
          exact ih bound' s' c' (by omega) (by omega)
        · rfl

/-- To repeat a step is to do it once and to go on as it says. -/
theorem iterate_eq {step : σ → Decoder (Step σ α)} (h : Progresses step) (s : σ) :
    iterate step s = step s >>= proceed step := by
  funext c
  simp only [bind, StateT.bind]
  have hover : iterate step s c = iterateOver step c.rest s c := rfl
  rw [hover]
  cases hr : c.rest with
  | nil =>
    simp only [iterateOver, bind, StateT.bind]
    cases hs : step s c with
    | error e => rfl
    | ok r =>
      obtain ⟨_ | _, c'⟩ := r
      · have := h s c _ c' hs
        rw [hr] at this
        exact absurd this (Nat.not_lt_zero _)
      · rfl
  | cons b rest =>
    simp only [iterateOver, bind, StateT.bind]
    cases hs : step s c with
    | error e => rfl
    | ok r =>
      obtain ⟨s' | _, c'⟩ := r
      · have := h s c s' c' hs
        rw [hr, List.length_cons] at this
        exact iterateOver_eq h rest c'.rest s' c' (by omega) (Nat.le_refl _)
      · rfl

/-! ## Blanks and words -/

/-- Whether a byte may stand between the tokens of a text. -/
def isGap (b : UInt8) : Bool := b == 0x20 || b == 0x0A || b == 0x09 || b == 0x0D

/-- The first byte that is no gap, which is not taken. -/
def gap : Decoder (Option UInt8) := do
  let _ ← span isGap
  peek

/-- Takes the rest of a word. -/
def word : List UInt8 → Decoder Unit
  | [] => pure ()
  | b :: later => do
    match ← next with
    | none => refuseHere .endOfValue
    | some found => if found = b then word later else refuseHere .expectedWord

end Decoder

/-! ## The first byte of a value -/

/-- What the first byte of a value announces. -/
inductive Lead where
  | null
  | yes
  | no
  | minus
  | digit
  | quote
  | list
  | object
  | other
deriving DecidableEq

/-- Whether a byte is a decimal digit. -/
def isDigit (b : UInt8) : Bool := 0x30 ≤ b && b ≤ 0x39

/-- What a byte announces as the first of a value. -/
def Lead.of (b : UInt8) : Lead :=
  if b = 0x6E then .null
  else if b = 0x74 then .yes
  else if b = 0x66 then .no
  else if b = 0x2D then .minus
  else if isDigit b then .digit
  else if b = 0x22 then .quote
  else if b = 0x5B then .list
  else if b = 0x7B then .object
  else .other

/-- The letters of `null` after the first. -/
def restOfNull : List UInt8 := [0x75, 0x6C, 0x6C]

/-- The letters of `true` after the first. -/
def restOfTrue : List UInt8 := [0x72, 0x75, 0x65]

/-- The letters of `false` after the first. -/
def restOfFalse : List UInt8 := [0x61, 0x6C, 0x73, 0x65]

/-- What a value is read for: to be decoded, or only to be passed over. -/
inductive Use where
  | decoded
  | skipped
deriving DecidableEq

end BackupReport.Json
