import BackupReport.Listing
import BackupReport.Proofs.Size.Amounts

/-!
# Lines of a listing

A listing is a text of lines, and a line is made of cells between blanks.  Blocks that stand one
after the other can be told apart if the first of them says where it ends (`Parts`): the lines of a
text end in the only newline they have (`text_injective`), and a counter ends in front of the first
blank, as it has none of its own (`fileCounts_injective`).
-/

namespace BackupReport.Listing

/-! ## Blocks -/

section Parts

variable {α β γ : Type} {P : α → Prop} {block : α → List β} {f : α → γ} {as as' : List α}

/-- Blocks that stand one after the other can be told apart: the first of them is known as far as
`f` goes, and the blocks behind it are known. -/
structure Parts (P : α → Prop) (block : α → List β) (f : α → γ) : Prop where
  nonempty : ∀ a, block a ≠ []
  first : ∀ {a a' : α} {as as' : List α}, P a → P a' → (∀ b ∈ as, P b) → (∀ b ∈ as', P b) →
    block a ++ as.flatMap block = block a' ++ as'.flatMap block →
      f a = f a' ∧ as.flatMap block = as'.flatMap block

theorem Parts.map_eq (hparts : Parts P block f) (has : ∀ a ∈ as, P a) (has' : ∀ a ∈ as', P a)
    (h : as.flatMap block = as'.flatMap block) : as.map f = as'.map f := by
  induction as generalizing as' with
  | nil =>
    cases as' with
    | nil => rfl
    | cons a' as' => exact absurd (List.append_eq_nil_iff.1 h.symm).1 (hparts.nonempty a')
  | cons a as ih =>
    cases as' with
    | nil => exact absurd (List.append_eq_nil_iff.1 h).1 (hparts.nonempty a)
    | cons a' as' =>
      obtain ⟨ha, has⟩ := List.forall_mem_cons.1 has
      obtain ⟨ha', has'⟩ := List.forall_mem_cons.1 has'
      obtain ⟨hfirst, hlater⟩ := hparts.first ha ha' has has' h
      rw [List.map_cons, List.map_cons, hfirst, ih has has' hlater]

end Parts

/-- A row of characters ends where a character stands that it does not have. -/
theorem append_cons_inj {c : Char} {xs ys us vs : List Char} (hx : c ∉ xs) (hy : c ∉ ys)
    (h : xs ++ c :: us = ys ++ c :: vs) : xs = ys ∧ us = vs := by
  have htake := congrArg (List.takeWhile (· ≠ c)) h
  have hdrop := congrArg (List.dropWhile (· ≠ c)) h
  rw [takeWhile_ne_append _ hx, takeWhile_ne_append _ hy] at htake
  rw [dropWhile_ne_append _ hx, dropWhile_ne_append _ hy] at hdrop
  exact ⟨htake, (List.cons.inj hdrop).2⟩

/-! ## Lines -/

/-- A text without a newline. -/
def OneLine (s : String) : Prop := '\n' ∉ s.toList

instance (s : String) : Decidable (OneLine s) := inferInstanceAs (Decidable ('\n' ∉ s.toList))

@[simp]
theorem oneLine_append {s t : String} : OneLine (s ++ t) ↔ OneLine s ∧ OneLine t := by
  simp [OneLine, String.toList_append]

@[simp]
theorem oneLine_blanks (s : String) (width : Nat) : OneLine (blanks s width) := by
  simp [OneLine, blanks, List.mem_replicate]

@[simp]
theorem oneLine_left {s : String} {width : Nat} : OneLine (left s width) ↔ OneLine s := by
  simp [left]

@[simp]
theorem oneLine_right {s : String} {width : Nat} : OneLine (right s width) ↔ OneLine s := by
  simp [right]

@[simp]
theorem oneLine_orDash {s : String} (h : OneLine s) : OneLine (orDash s) := by
  unfold orDash
  split
  · decide
  · exact h

theorem toList_text (lines : List String) :
    (text lines).toList = lines.flatMap fun l => l.toList ++ ['\n'] := by
  simp [text, String.toList_join, List.flatMap_map]

theorem parts_lines : Parts OneLine (fun l => l.toList ++ ['\n']) id where
  nonempty l := List.append_ne_nil_of_right_ne_nil _ (List.cons_ne_nil _ _)
  first ha ha' _ _ h := by
    rw [List.append_assoc, List.append_assoc] at h
    obtain ⟨hline, hlater⟩ := append_cons_inj ha ha' h
    exact ⟨String.toList_inj.1 hline, hlater⟩

/-- A text says what its lines are. -/
theorem text_injective {lines lines' : List String} (hlines : ∀ l ∈ lines, OneLine l)
    (hlines' : ∀ l ∈ lines', OneLine l) (h : text lines = text lines') : lines = lines' := by
  have hlist := congrArg String.toList h
  rw [toList_text, toList_text] at hlist
  simpa using parts_lines.map_eq hlines hlines' hlist

/-! ## Counters -/

/-- The counter that some characters show. -/
def readCounter : List Char → Option Int
  | ['-'] => none
  | '-' :: digits => some (-decimalValue digits)
  | digits => some (decimalValue digits)

theorem readCounter_digits (n : Nat) : readCounter (Nat.toDigits 10 n) = some (n : Int) := by
  have hminus : '-' ∉ Nat.toDigits 10 n := Size.not_mem_toDigits (by decide) n
  unfold readCounter
  split
  · rename_i hdigits
    exact absurd (hdigits ▸ List.mem_cons_self) hminus
  · rename_i hdigits
    exact absurd (hdigits ▸ List.mem_cons_self) hminus
  · rw [decimalValue_toDigits]

theorem readCounter_minus (n : Nat) : readCounter ('-' :: Nat.toDigits 10 n) = some (-n : Int) := by
  unfold readCounter
  split
  · rename_i hdigits
    exact absurd (List.cons.inj hdigits).2 Nat.toDigits_ne_nil
  · rename_i hdigits
    rw [← (List.cons.inj hdigits).2, decimalValue_toDigits]
  · rename_i hother
    exact absurd rfl (hother _)

theorem toList_counter (n : Int64) : (counter (some n)).toList =
    if 0 ≤ n.toInt then Nat.toDigits 10 n.toInt.toNat
    else '-' :: Nat.toDigits 10 (-n.toInt).toNat := by
  rw [counter, Int.toString_eq_repr, Int.repr_eq_if]
  split
  · rw [Nat.toList_repr]
  · rw [String.toList_append, Nat.toList_repr]
    rfl

/-- A counter can be read back, and one that was not reported is no number. -/
theorem readCounter_counter (c : Option Int64) :
    readCounter (counter c).toList = c.map Int64.toInt := by
  cases c with
  | none => rfl
  | some n =>
    rw [toList_counter, Option.map_some]
    split
    · rw [readCounter_digits, Int.toNat_of_nonneg ‹_›]
    · rw [readCounter_minus, Int.toNat_of_nonneg (by omega), Int.neg_neg]

theorem counter_injective : Function.Injective counter := by
  intro c c' h
  have hread := congrArg (fun s => readCounter s.toList) h
  simp only [readCounter_counter] at hread
  exact Option.map_injective (fun _ _ => Int64.toInt_inj.1) hread

theorem not_mem_counter {d : Char} (hd : d.isDigit = false) (hminus : d ≠ '-') (c : Option Int64) :
    d ∉ (counter c).toList := by
  cases c with
  | none => simpa [counter] using hminus
  | some n =>
    rw [toList_counter]
    split
    · exact Size.not_mem_toDigits hd _
    · exact List.not_mem_cons_of_ne_of_not_mem hminus (Size.not_mem_toDigits hd _)

@[simp]
theorem oneLine_counter (c : Option Int64) : OneLine (counter c) :=
  not_mem_counter (by decide) (by decide) c

theorem toList_fileCounts (c : FileCounts) : (fileCounts c).toList =
    "      files: ".toList ++ ((counter c.total).toList ++ ' ' ::
      ("total, ".toList ++ ((counter c.added).toList ++ ' ' ::
        ("new, ".toList ++ ((counter c.modified).toList ++ ' ' ::
          ("modified, ".toList ++ ((counter c.unmodified).toList ++ ' ' ::
            "unmodified".toList))))))) := by
  have htotal : " total, ".toList = ' ' :: "total, ".toList := rfl
  have hadded : " new, ".toList = ' ' :: "new, ".toList := rfl
  have hmodified : " modified, ".toList = ' ' :: "modified, ".toList := rfl
  have hunmodified : " unmodified".toList = ' ' :: "unmodified".toList := rfl
  unfold fileCounts
  simp only [String.toList_append, List.append_assoc, htotal, hadded, hmodified, hunmodified,
    List.cons_append]

/-- The line of some counters says what they are. -/
theorem fileCounts_injective : Function.Injective fileCounts := by
  have hcell : ∀ {word : List Char} {c c' : Option Int64} {us vs : List Char},
      word ++ ((counter c).toList ++ ' ' :: us) = word ++ ((counter c').toList ++ ' ' :: vs) →
        c = c' ∧ us = vs := by
    intro word c c' us vs h
    obtain ⟨hcounter, h⟩ := append_cons_inj (not_mem_counter (by decide) (by decide) c)
      (not_mem_counter (by decide) (by decide) c') (List.append_cancel_left h)
    exact ⟨counter_injective (String.toList_inj.1 hcounter), h⟩
  rintro ⟨total, added, modified, unmodified⟩ ⟨total', added', modified', unmodified'⟩ h
  have hline := congrArg String.toList h
  rw [toList_fileCounts, toList_fileCounts] at hline
  obtain ⟨rfl, hline⟩ := hcell hline
  obtain ⟨rfl, hline⟩ := hcell hline
  obtain ⟨rfl, hline⟩ := hcell hline
  obtain ⟨rfl, -⟩ := hcell hline
  rfl

end BackupReport.Listing
