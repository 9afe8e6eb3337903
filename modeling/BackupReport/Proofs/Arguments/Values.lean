import BackupReport.Command

/-!
# Values of options

Two kinds of values are not taken as they stand: a capture, whose path and file are parted by the
first equals sign (`readCapture_iff`), and a number of seconds (`readSeconds_iff`).  Both are said
here without the reader, in terms of what the value is made of, and both can be printed so that
they read back (`partsInto_print`, `denotes_print`).
-/

namespace BackupReport

variable {value : String}

/-! ## Captures -/

/-- A capture that can be given on a command line. -/
structure Capture.Proper (capture : Capture) : Prop where
  first : '=' ∉ capture.path.toList
  path : capture.path ≠ ""
  file : capture.file ≠ ""

/-- A text is a path and a file with the first equals sign between them, neither of them empty. -/
structure PartsInto (value : String) (capture : Capture) : Prop where
  text : value.toList = capture.path.toList ++ '=' :: capture.file.toList
  proper : capture.Proper

theorem decide_ne_of_not_mem {c : Char} {before : List Char} (h : c ∉ before) :
    ∀ d ∈ before, decide (d ≠ c) = true :=
  fun _ hd => decide_eq_true (ne_of_mem_of_not_mem hd h)

theorem takeWhile_ne_append {c : Char} {before : List Char} (after : List Char)
    (h : c ∉ before) : (before ++ c :: after).takeWhile (· ≠ c) = before := by
  rw [List.takeWhile_append_of_pos (decide_ne_of_not_mem h), List.takeWhile_cons_of_neg (by simp),
    List.append_nil]

theorem dropWhile_ne_append {c : Char} {before : List Char} (after : List Char)
    (h : c ∉ before) : (before ++ c :: after).dropWhile (· ≠ c) = c :: after := by
  rw [List.dropWhile_append_of_pos (decide_ne_of_not_mem h), List.dropWhile_cons_of_neg (by simp)]

/-- What a text is read as is what it parts into. -/
theorem readCapture_iff {capture : Capture} :
    readCapture value = .ok capture ↔ PartsInto value capture := by
  constructor
  · intro h
    unfold readCapture at h
    dsimp only at h
    split at h
    · rename_i c file hrest
      split at h
      · rename_i hne
        cases h
        -- the text behind the path starts with the character that ended it
        have hc : c = '=' := by
          have hhead := List.head?_dropWhile_not (· ≠ '=') value.toList
          rw [hrest] at hhead
          simpa using hhead
        subst hc
        refine ⟨?_, ?_, ?_, ?_⟩
        · rw [String.toList_ofList, String.toList_ofList, ← hrest, List.takeWhile_append_dropWhile]
        · rw [String.toList_ofList]
          intro hmem
          exact absurd (List.all_eq_true.1 List.all_takeWhile _ hmem) (by decide)
        · exact mt (fun h => by simpa using congrArg String.toList h) hne.1
        · exact mt (fun h => by simpa using congrArg String.toList h) hne.2
      · cases h
    · cases h
  · intro h
    have hpath : capture.path.toList ≠ [] := mt String.toList_eq_nil_iff.1 h.proper.path
    have hfile : capture.file.toList ≠ [] := mt String.toList_eq_nil_iff.1 h.proper.file
    unfold readCapture
    dsimp only
    rw [h.text, takeWhile_ne_append _ h.proper.first, dropWhile_ne_append _ h.proper.first]
    dsimp only
    rw [if_pos ⟨hpath, hfile⟩, String.ofList_toList, String.ofList_toList]

theorem PartsInto.unique {capture capture' : Capture} (h : PartsInto value capture)
    (h' : PartsInto value capture') : capture = capture' :=
  Except.ok.inj ((readCapture_iff.2 h).symm.trans (readCapture_iff.2 h'))

/-- A capture as it is given on a command line. -/
def Capture.print (capture : Capture) : String := capture.path ++ "=" ++ capture.file

theorem partsInto_print {capture : Capture} (h : capture.Proper) :
    PartsInto capture.print capture := by
  refine ⟨?_, h⟩
  rw [Capture.print, String.toList_append, String.toList_append, List.append_assoc]
  rfl

/-! ## Seconds -/

/-- A text is a plus or nothing, and then decimal digits for a number that fits a word. -/
def Denotes (value : String) (n : UInt64) : Prop :=
  ∃ digits, (value.toList = digits ∨ value.toList = '+' :: digits) ∧ digits ≠ [] ∧
    (∀ c ∈ digits, c.isDigit = true) ∧ decimalValue digits = n.toNat

theorem withoutPlus_eq {cs digits : List Char} (h : cs = digits ∨ cs = '+' :: digits)
    (hdigits : ∀ c ∈ digits, c.isDigit = true) : withoutPlus cs = digits := by
  rcases h with rfl | rfl
  · unfold withoutPlus
    split
    · exact absurd (hdigits '+' (List.mem_cons_self ..)) (by decide)
    · rfl
  · rfl

/-- What a text is read as is what it denotes. -/
theorem readSeconds_iff {n : UInt64} : readSeconds value = .ok n ↔ Denotes value n := by
  unfold readSeconds
  dsimp only
  constructor
  · intro h
    split at h
    · rename_i hvalid
      cases h
      refine ⟨withoutPlus value.toList, ?_, hvalid.1, List.all_eq_true.1 hvalid.2.1,
        (UInt64.toNat_ofNat_of_lt hvalid.2.2).symm⟩
      unfold withoutPlus
      split
      · exact .inr ‹_›
      · exact .inl rfl
    · cases h
  · rintro ⟨digits, hvalue, hne, hdigits, hn⟩
    rw [withoutPlus_eq hvalue hdigits,
      if_pos ⟨hne, List.all_eq_true.2 hdigits, hn ▸ UInt64.toNat_lt n⟩, hn, UInt64.ofNat_toNat]

theorem Denotes.unique {n n' : UInt64} (h : Denotes value n) (h' : Denotes value n') : n = n' :=
  Except.ok.inj ((readSeconds_iff.2 h).symm.trans (readSeconds_iff.2 h'))

/-- A number of seconds as it is given on a command line. -/
def printSeconds (n : UInt64) : String := String.ofList (Nat.toDigits 10 n.toNat)

theorem decimalValue_toDigits (n : Nat) : decimalValue (Nat.toDigits 10 n) = n := by
  have hstep : (fun n c => n * 10 + (c.toNat - '0'.toNat)) =
      fun (n : Nat) (c : Char) => 10 * n + (c.toNat - '0'.toNat) := by
    funext n c
    rw [Nat.mul_comm]
  rw [decimalValue, hstep]
  exact Nat.ofDigitChars_ten_toDigits

theorem denotes_print (n : UInt64) : Denotes (printSeconds n) n :=
  ⟨Nat.toDigits 10 n.toNat, .inl String.toList_ofList, Nat.toDigits_ne_nil,
    fun _ => Nat.isDigit_of_mem_toDigits (by decide) (by decide), decimalValue_toDigits _⟩

end BackupReport
