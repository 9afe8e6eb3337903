import BackupReport.Duration
import BackupReport.Proofs.RoundTrip.Integers

/-!
# Durations and their components

A duration is written as components, each of them a number and the letter of its unit (`spell`).
The components of a text are in order and none of them is zero (`canonical_components`), together
they make the duration (`total_components`), and they can be read off the text again (`read_spell`).
So no two durations have the same text (`text_components`).
-/

namespace BackupReport.Duration

/-! ## Components -/

/-- The units in which a duration is written. -/
inductive TimeUnit where
  | hour
  | minute
  | second
deriving DecidableEq

namespace TimeUnit

/-- The letter behind the number of a component. -/
def letter : TimeUnit → Char
  | .hour => 'h'
  | .minute => 'm'
  | .second => 's'

/-- How long a unit is, in seconds. -/
def length : TimeUnit → Nat
  | .hour => 3600
  | .minute => 60
  | .second => 1

/-- The unit with a letter. -/
def ofLetter? : Char → Option TimeUnit
  | 'h' => some .hour
  | 'm' => some .minute
  | 's' => some .second
  | _ => none

theorem ofLetter?_letter (u : TimeUnit) : ofLetter? u.letter = some u := by
  cases u <;> rfl

theorem letter_not_digit (u : TimeUnit) : u.letter.isDigit = false := by
  cases u <;> decide

end TimeUnit

/-- A number of one unit. -/
structure Component where
  amount : Nat
  unit : TimeUnit

/-- A component as it is written. -/
def Component.spell (c : Component) : List Char := Nat.toDigits 10 c.amount ++ [c.unit.letter]

/-- Components as they are written one after the other. -/
def spell (cs : List Component) : List Char := cs.flatMap Component.spell

/-- How long components are together, in seconds. -/
def total (cs : List Component) : Nat := cs.foldr (fun c n => c.amount * c.unit.length + n) 0

/-- Components as a duration that is not zero has them: the larger units come first and none comes
twice, no number is zero or starts with one, and there are fewer minutes and seconds than would make
a larger unit. -/
structure Canonical (cs : List Component) : Prop where
  nonempty : cs ≠ []
  order : cs.Pairwise fun c d => d.unit.length < c.unit.length
  amounts : ∀ c ∈ cs, 1 ≤ c.amount
  leading : ∀ c ∈ cs, ∀ later, Nat.toDigits 10 c.amount ≠ '0' :: later
  below : ∀ c ∈ cs, c.unit ≠ .hour → c.amount < 60

/-! ## The components of a duration -/

/-- The hours, minutes and seconds of a duration, without those that are zero. -/
def components (n : Nat) : List Component :=
  [⟨n / 3600, .hour⟩, ⟨n % 3600 / 60, .minute⟩, ⟨n % 60, .second⟩].filter (·.amount ≠ 0)

variable {n : Nat} {c : Component} {cs : List Component}

theorem mem_components (h : c ∈ components n) : c.amount ≠ 0 ∧
    (c = ⟨n / 3600, .hour⟩ ∨ c = ⟨n % 3600 / 60, .minute⟩ ∨ c = ⟨n % 60, .second⟩) := by
  obtain ⟨hmem, hne⟩ := List.mem_filter.1 h
  refine ⟨of_decide_eq_true hne, ?_⟩
  simpa only [List.mem_cons, List.not_mem_nil, or_false] using hmem

/-- What is zero does not count. -/
theorem total_filter (cs : List Component) : total (cs.filter (·.amount ≠ 0)) = total cs := by
  induction cs with
  | nil => rfl
  | cons c later ih =>
    by_cases hc : c.amount = 0
    · rw [List.filter_cons_of_neg (by simpa using hc), ih]
      simp [total, hc]
    · rw [List.filter_cons_of_pos (by simpa using hc)]
      exact congrArg (c.amount * c.unit.length + ·) ih

theorem total_components (n : Nat) : total (components n) = n := by
  rw [components, total_filter]
  simp only [total, List.foldr_cons, List.foldr_nil, TimeUnit.length]
  omega

theorem canonical_components (h : n ≠ 0) : Canonical (components n) where
  nonempty := by
    intro hnil
    have hzero : total (components n) = 0 := by rw [hnil]; rfl
    exact h ((total_components n).symm.trans hzero)
  order := List.Pairwise.filter _ (by simp [TimeUnit.length])
  amounts c hc := Nat.one_le_iff_ne_zero.2 (mem_components hc).1
  leading c hc later hlater := by
    -- a number that starts with a zero is zero
    rw [Json.toDigits_zero_cons hlater] at hlater
    have hvalue := Nat.ofDigitChars_ten_toDigits (n := c.amount)
    rw [hlater] at hvalue
    exact (mem_components hc).1 hvalue.symm
  below c hc hunit := by
    rcases (mem_components hc).2 with rfl | rfl | rfl
    · exact absurd rfl hunit
    · dsimp only
      omega
    · exact Nat.mod_lt n (by decide)

/-- A component is written if it is not zero. -/
theorem toList_component (amount : Nat) (u : TimeUnit) :
    (component amount (String.singleton u.letter)).toList =
      if amount = 0 then [] else Component.spell ⟨amount, u⟩ := by
  unfold component
  split
  · rfl
  · rw [String.toList_append, Nat.toString_eq_ofList_toDigits, String.toList_ofList]
    simp [Component.spell]

theorem spell_filter (cs : List Component) : spell (cs.filter (·.amount ≠ 0)) =
    cs.flatMap fun c => if c.amount = 0 then [] else c.spell := by
  induction cs with
  | nil => rfl
  | cons c later ih =>
    rw [List.flatMap_cons, ← ih]
    by_cases hc : c.amount = 0
    · rw [List.filter_cons_of_neg (by simpa using hc), if_pos hc]
      rfl
    · rw [List.filter_cons_of_pos (by simpa using hc), if_neg hc]
      rfl

theorem toNat_ne_zero {n : UInt64} (h : n ≠ 0) : n.toNat ≠ 0 :=
  fun hzero => h (UInt64.toNat_inj.1 hzero)

/-- The text of a duration is made of its components. -/
theorem toList_text {n : UInt64} (h : n ≠ 0) :
    (text n).toList = spell (components n.toNat) := by
  have htext : text n = component (n.toNat / 3600) (String.singleton TimeUnit.hour.letter) ++
      component (n.toNat % 3600 / 60) (String.singleton TimeUnit.minute.letter) ++
      component (n.toNat % 60) (String.singleton TimeUnit.second.letter) := if_neg (toNat_ne_zero h)
  rw [htext, components, spell_filter]
  simp only [String.toList_append, toList_component, List.flatMap_cons, List.flatMap_nil,
    List.append_assoc, List.append_nil]

/-! ## Reading -/

/-- Reads components, where some digits of the first one have been read already. -/
def readFrom : Option Nat → List Char → Option (List Component)
  | none, [] => some []
  | some _, [] => none
  | pending, c :: later =>
    if c.isDigit then readFrom (some (10 * pending.getD 0 + (c.toNat - '0'.toNat))) later
    else do
      let amount ← pending
      let unit ← TimeUnit.ofLetter? c
      let others ← readFrom none later
      pure (⟨amount, unit⟩ :: others)

/-- Reads the components of a text. -/
def read? (s : String) : Option (List Component) := readFrom none s.toList

theorem readFrom_digits {ds : List Char} (hds : ∀ c ∈ ds, c.isDigit = true) (m : Nat)
    (rest : List Char) :
    readFrom (some m) (ds ++ rest) = readFrom (some (Nat.ofDigitChars 10 ds m)) rest := by
  induction ds generalizing m with
  | nil => rfl
  | cons d ds ih =>
    obtain ⟨hd, hds⟩ := List.forall_mem_cons.1 hds
    rw [List.cons_append, readFrom, if_pos hd, ih hds, Nat.ofDigitChars_cons]
    rfl

theorem readFrom_toDigits (n : Nat) (rest : List Char) :
    readFrom none (Nat.toDigits 10 n ++ rest) = readFrom (some n) rest := by
  have hdigits : ∀ c ∈ Nat.toDigits 10 n, c.isDigit = true :=
    fun c hc => Nat.isDigit_of_mem_toDigits (by decide) (by decide) hc
  obtain ⟨d, ds, hds⟩ := List.exists_cons_of_ne_nil (Nat.toDigits_ne_nil (n := n) (b := 10))
  have hvalue := Nat.ofDigitChars_ten_toDigits (n := n)
  rw [hds] at hdigits hvalue ⊢
  obtain ⟨hd, hdigits⟩ := List.forall_mem_cons.1 hdigits
  rw [Nat.ofDigitChars_cons] at hvalue
  rw [List.cons_append, readFrom, if_pos hd, readFrom_digits hdigits]
  exact congrArg (fun m => readFrom (some m) rest) hvalue

/-- Components are read back as they have been written. -/
theorem read_spell (cs : List Component) : readFrom none (spell cs) = some cs := by
  induction cs with
  | nil => rfl
  | cons c later ih =>
    have hspell : spell (c :: later) =
        Nat.toDigits 10 c.amount ++ c.unit.letter :: spell later := by
      simp [spell, Component.spell]
    rw [hspell, readFrom_toDigits, readFrom, if_neg (by simp [TimeUnit.letter_not_digit]),
      TimeUnit.ofLetter?_letter, ih]
    rfl

/-- What is read off the text of a duration makes that duration. -/
theorem read_text (n : UInt64) : (read? (text n)).map total = some n.toNat := by
  by_cases h : n = 0
  · subst h
    rfl
  · rw [read?, toList_text h, read_spell, Option.map_some, total_components]

theorem text_ne_empty (n : UInt64) : text n ≠ "" := by
  intro hempty
  have hread := read_text n
  rw [hempty] at hread
  have hzero : n = 0 := UInt64.toNat_inj.1 (Option.some.inj hread).symm
  rw [hzero] at hempty
  exact absurd hempty (by decide)

/-- The text of no seconds is `0s`.  The text of any other duration consists of components in the
order of hours, minutes and seconds, each there at most once and not with zero, which together make
the duration.  They can be read off the text again, so that no two durations have the same text. -/
theorem text_components :
    text 0 = "0s" ∧
    (∀ n : UInt64, n ≠ 0 → ∃ cs, (text n).toList = spell cs ∧ Canonical cs ∧ total cs = n.toNat) ∧
    (∀ n : UInt64, (read? (text n)).map total = some n.toNat) ∧
    ∀ m n : UInt64, text m = text n → m = n := by
  refine ⟨rfl, fun n hn => ?_, read_text, fun m n h => ?_⟩
  · exact ⟨components n.toNat, toList_text hn, canonical_components (toNat_ne_zero hn),
      total_components _⟩
  · have hread := read_text m
    rw [h, read_text n] at hread
    exact (UInt64.toNat_inj.1 (Option.some.inj hread)).symm

end BackupReport.Duration
