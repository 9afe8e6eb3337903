/-!
# UTF-8

A byte string is read from left to right, and what it holds is a list whose entries are
characters and malformed stretches.  A stretch is malformed if it starts a character and stops
before its last byte, or if it is one byte that starts none.  Strict decoding refuses every
malformed stretch, tolerant decoding puts U+FFFD in its place.

The main statement is `decode?_encode`: what a text is written as reads back as that text.
-/

namespace BackupReport.Utf8

/-! ## Writing -/

/-- The bytes of a character. -/
def encodeChar (c : Char) : List UInt8 :=
  let n := c.toNat
  if n < 0x80 then [UInt8.ofNat n]
  else if n < 0x800 then [UInt8.ofNat (0xC0 + n / 0x40), UInt8.ofNat (0x80 + n % 0x40)]
  else if n < 0x10000 then
    [UInt8.ofNat (0xE0 + n / 0x1000), UInt8.ofNat (0x80 + n / 0x40 % 0x40),
      UInt8.ofNat (0x80 + n % 0x40)]
  else
    [UInt8.ofNat (0xF0 + n / 0x40000), UInt8.ofNat (0x80 + n / 0x1000 % 0x40),
      UInt8.ofNat (0x80 + n / 0x40 % 0x40), UInt8.ofNat (0x80 + n % 0x40)]

/-- The bytes of a text. -/
def encode (cs : List Char) : List UInt8 := cs.flatMap encodeChar

/-! ## Reading -/

/-- A character of which some bytes are still missing: the number read so far, how many bytes
follow the next one, and the range in which the next one must lie. -/
structure Unfinished where
  number : Nat
  after : Nat
  low : Nat
  high : Nat

/-- What one more byte makes of the reading. -/
inductive Outcome where
  | character (c : Char)
  | unfinished (u : Unfinished)
  | malformed

/-- Reads the first byte of a character.  The narrower ranges for the second byte exclude long
forms, surrogates and numbers above U+10FFFF. -/
def lead (b : UInt8) : Outcome :=
  let n := b.toNat
  if n < 0x80 then .character (Char.ofNat n)
  else if n < 0xC2 then .malformed
  else if n < 0xE0 then .unfinished ⟨n - 0xC0, 0, 0x80, 0xBF⟩
  else if n = 0xE0 then .unfinished ⟨0, 1, 0xA0, 0xBF⟩
  else if n = 0xED then .unfinished ⟨0xD, 1, 0x80, 0x9F⟩
  else if n < 0xF0 then .unfinished ⟨n - 0xE0, 1, 0x80, 0xBF⟩
  else if n = 0xF0 then .unfinished ⟨0, 2, 0x90, 0xBF⟩
  else if n < 0xF4 then .unfinished ⟨n - 0xF0, 2, 0x80, 0xBF⟩
  else if n = 0xF4 then .unfinished ⟨4, 2, 0x80, 0x8F⟩
  else .malformed

/-- Reads a later byte of a character. -/
def Unfinished.extend (u : Unfinished) (b : UInt8) : Outcome :=
  let n := b.toNat
  if u.low ≤ n ∧ n ≤ u.high then
    let number := u.number * 0x40 + (n - 0x80)
    match u.after with
    | 0 => .character (Char.ofNat number)
    | after + 1 => .unfinished ⟨number, after, 0x80, 0xBF⟩
  else .malformed

/-- The characters of a byte string in order, with `none` for each malformed stretch.  A byte
that cannot continue an unfinished character ends it and is read as the start of the next. -/
def scanFrom : Option Unfinished → List UInt8 → List (Option Char)
  | none, [] => []
  | some _, [] => [none]
  | none, b :: rest =>
    match lead b with
    | .character c => some c :: scanFrom none rest
    | .unfinished u => scanFrom (some u) rest
    | .malformed => none :: scanFrom none rest
  | some u, b :: rest =>
    match u.extend b with
    | .character c => some c :: scanFrom none rest
    | .unfinished u' => scanFrom (some u') rest
    | .malformed =>
      match lead b with
      | .character c => none :: some c :: scanFrom none rest
      | .unfinished u' => none :: scanFrom (some u') rest
      | .malformed => none :: none :: scanFrom none rest

/-- The characters and malformed stretches of a byte string. -/
def scan (bytes : List UInt8) : List (Option Char) := scanFrom none bytes

/-- The text that a byte string encodes, if nothing in it is malformed. -/
def decode? (bytes : List UInt8) : Option (List Char) :=
  let entries := scan bytes
  if entries.all Option.isSome then some (entries.filterMap id) else none

/-- How many bytes stand before the first malformed stretch of a byte string. -/
def validSize (bytes : List UInt8) : Nat :=
  ((scan bytes).takeWhile Option.isSome).foldr (fun entry n => entry.elim 0 Char.utf8Size + n) 0

/-- The text of a byte string, with U+FFFD for each malformed stretch. -/
def decodeLossy (bytes : List UInt8) : List Char := (scan bytes).map (·.getD '\uFFFD')

/-! ## Reading what was written -/

/-- A number below 256 is kept by a byte. -/
theorem toNat_ofNat_of_lt {n : Nat} (h : n < 256) : (UInt8.ofNat n).toNat = n := by
  simp [Nat.mod_eq_of_lt h]

/-- A character is no surrogate and lies below U+110000. -/
theorem toNat_range (c : Char) : c.toNat < 0xD800 ∨ (0xDFFF < c.toNat ∧ c.toNat < 0x110000) :=
  c.valid

/-- A first byte below 0x80 is a character of its own. -/
theorem lead_ofNat_ascii {n : Nat} (h : n < 0x80) :
    lead (UInt8.ofNat n) = .character (Char.ofNat n) := by
  simp only [lead, toNat_ofNat_of_lt (show n < 256 by omega)]
  rw [if_pos h]

/-- The first of two bytes leaves one to come. -/
theorem lead_ofNat_two {n : Nat} (h : 2 ≤ n) (h' : n < 0x20) :
    lead (UInt8.ofNat (0xC0 + n)) = .unfinished ⟨n, 0, 0x80, 0xBF⟩ := by
  simp only [lead, toNat_ofNat_of_lt (show 0xC0 + n < 256 by omega)]
  rw [if_neg (by omega), if_neg (by omega), if_pos (by omega), Nat.add_sub_cancel_left]

/-- The first of three bytes leaves two to come, in a range that depends on it. -/
theorem lead_ofNat_three {n : Nat} (h : n < 0x10) :
    ∃ low high, lead (UInt8.ofNat (0xE0 + n)) = .unfinished ⟨n, 1, low, high⟩ ∧
      low = (if n = 0 then 0xA0 else 0x80) ∧ high = (if n = 0xD then 0x9F else 0xBF) := by
  simp only [lead, toNat_ofNat_of_lt (show 0xE0 + n < 256 by omega)]
  rw [if_neg (by omega), if_neg (by omega), if_neg (by omega)]
  by_cases h0 : n = 0
  · subst h0
    exact ⟨_, _, rfl, rfl, rfl⟩
  · by_cases hd : n = 0xD
    · subst hd
      exact ⟨_, _, rfl, rfl, rfl⟩
    · rw [if_neg (by omega), if_neg (by omega), if_pos (by omega), Nat.add_sub_cancel_left]
      exact ⟨_, _, rfl, by simp [h0], by simp [hd]⟩

/-- The first of four bytes leaves three to come, in a range that depends on it. -/
theorem lead_ofNat_four {n : Nat} (h : n < 5) :
    ∃ low high, lead (UInt8.ofNat (0xF0 + n)) = .unfinished ⟨n, 2, low, high⟩ ∧
      low = (if n = 0 then 0x90 else 0x80) ∧ high = (if n = 4 then 0x8F else 0xBF) := by
  rcases (show n = 0 ∨ n = 1 ∨ n = 2 ∨ n = 3 ∨ n = 4 by omega) with rfl | rfl | rfl | rfl | rfl <;>
    exact ⟨_, _, rfl, rfl, rfl⟩

/-- A later byte adds its six bits; the last one completes the character. -/
theorem extend_ofNat_last {number low high n : Nat} (hn : n < 0x40) (hlow : low ≤ 0x80 + n)
    (hhigh : 0x80 + n ≤ high) :
    (Unfinished.mk number 0 low high).extend (UInt8.ofNat (0x80 + n)) =
      .character (Char.ofNat (number * 0x40 + n)) := by
  simp only [Unfinished.extend, toNat_ofNat_of_lt (show 0x80 + n < 256 by omega)]
  rw [if_pos ⟨hlow, hhigh⟩, Nat.add_sub_cancel_left]

/-- A later byte that is not the last adds its six bits. -/
theorem extend_ofNat_more {number after low high n : Nat} (hn : n < 0x40)
    (hlow : low ≤ 0x80 + n) (hhigh : 0x80 + n ≤ high) :
    (Unfinished.mk number (after + 1) low high).extend (UInt8.ofNat (0x80 + n)) =
      .unfinished ⟨number * 0x40 + n, after, 0x80, 0xBF⟩ := by
  simp only [Unfinished.extend, toNat_ofNat_of_lt (show 0x80 + n < 256 by omega)]
  rw [if_pos ⟨hlow, hhigh⟩, Nat.add_sub_cancel_left]

/-- The bytes of a character read back as that character, whatever follows them. -/
theorem scanFrom_encodeChar (c : Char) (rest : List UInt8) :
    scanFrom none (encodeChar c ++ rest) = some c :: scanFrom none rest := by
  have hc := toNat_range c
  have hself := Char.ofNat_toNat c
  unfold encodeChar
  generalize c.toNat = n at hc hself
  subst hself
  by_cases h1 : n < 0x80
  · simp only [h1, if_true, List.cons_append, List.nil_append, scanFrom, lead_ofNat_ascii h1]
  by_cases h2 : n < 0x800
  · simp only [h1, h2, if_true, if_false, List.cons_append, List.nil_append, scanFrom,
      lead_ofNat_two (n := n / 0x40) (by omega) (by omega),
      extend_ofNat_last (n := n % 0x40) (by omega) (show 0x80 ≤ _ by omega)
        (show _ ≤ 0xBF by omega)]
    rw [show n / 0x40 * 0x40 + n % 0x40 = n by omega]
  by_cases h3 : n < 0x10000
  · obtain ⟨low, high, hlead, hlow, hhigh⟩ := lead_ofNat_three (n := n / 0x1000) (by omega)
    simp only [h1, h2, h3, if_true, if_false, List.cons_append, List.nil_append, scanFrom, hlead]
    rw [extend_ofNat_more (n := n / 0x40 % 0x40) (by omega) (by split at hlow <;> omega)
      (by split at hhigh <;> omega)]
    simp only []
    rw [extend_ofNat_last (n := n % 0x40) (by omega) (by omega) (by omega)]
    rw [show (n / 0x1000 * 0x40 + n / 0x40 % 0x40) * 0x40 + n % 0x40 = n by omega]
  · obtain ⟨low, high, hlead, hlow, hhigh⟩ := lead_ofNat_four (n := n / 0x40000) (by omega)
    simp only [h1, h2, h3, if_false, List.cons_append, List.nil_append, scanFrom, hlead]
    rw [extend_ofNat_more (n := n / 0x1000 % 0x40) (by omega) (by split at hlow <;> omega)
      (by split at hhigh <;> omega)]
    simp only []
    rw [extend_ofNat_more (n := n / 0x40 % 0x40) (by omega) (by omega) (by omega)]
    simp only []
    rw [extend_ofNat_last (n := n % 0x40) (by omega) (by omega) (by omega)]
    rw [show ((n / 0x40000 * 0x40 + n / 0x1000 % 0x40) * 0x40 + n / 0x40 % 0x40) * 0x40 +
      n % 0x40 = n by omega]

/-- The bytes of a text hold its characters and nothing malformed, whatever follows them. -/
theorem scan_encode_append (cs : List Char) (rest : List UInt8) :
    scan (encode cs ++ rest) = cs.map some ++ scan rest := by
  induction cs with
  | nil => rfl
  | cons c cs ih =>
    rw [encode, List.flatMap_cons, List.append_assoc, scan, scanFrom_encodeChar]
    rw [scan, encode] at ih
    rw [ih]
    rfl

/-- The bytes of a text hold its characters. -/
theorem scan_encode (cs : List Char) : scan (encode cs) = cs.map some := by
  have h := scan_encode_append cs []
  rw [List.append_nil] at h
  rw [h]
  exact List.append_nil _

/-- What a text is written as reads back as that text. -/
theorem decode?_encode (cs : List Char) : decode? (encode cs) = some cs := by
  simp [decode?, scan_encode]

example : decode? [0x68, 0xC3, 0xA9] = some ['h', 'é'] := by decide

end BackupReport.Utf8
