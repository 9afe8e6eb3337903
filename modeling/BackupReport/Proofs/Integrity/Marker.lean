import BackupReport.Capture.Integrity
import BackupReport.Proofs.Grammar.Unicode
import BackupReport.Proofs.RoundTrip.Scalars

/-!
# The line that reports success

An integrity check has passed exactly if a line of its output is written as the success marker
between blanks (`check_iff_marker_line`).  The three things that are done to the output on the way
are undone one by one: it is a series of lines with a newline between any two (`lines_append`), a
line that holds no replacement character after tolerant decoding was well-formed
(`encode_decodeLossy`), and a trimmed text stood between blanks (`trim_eq_iff`).
-/

namespace BackupReport

/-! ## Trimmed texts -/

section Trimming

variable {cs m w w' : List Char}

/-- A text is what trimming leaves of it, between blanks. -/
theorem exists_blanks (cs : List Char) : ∃ w w', cs = w ++ (trim cs ++ w') ∧
    (∀ c ∈ w, isBlank c = true) ∧ ∀ c ∈ w', isBlank c = true := by
  refine ⟨cs.takeWhile isBlank, ((cs.dropWhile isBlank).reverse.takeWhile isBlank).reverse,
    ?_, ?_, ?_⟩
  · rw [trim, trimEnd, ← List.reverse_append, List.takeWhile_append_dropWhile, List.reverse_reverse,
      List.takeWhile_append_dropWhile]
  · exact List.all_eq_true.1 List.all_takeWhile
  · intro c hc
    exact List.all_eq_true.1 List.all_takeWhile c (List.mem_reverse.1 hc)

theorem dropWhile_blanks (hw : ∀ c ∈ w, isBlank c = true)
    (hm : ∀ c ∈ m.head?, isBlank c = false) : (w ++ m).dropWhile isBlank = m := by
  rw [List.dropWhile_append_of_pos hw]
  cases m with
  | nil => rfl
  | cons c m => exact List.dropWhile_cons_of_neg (by simp [hm c rfl])

/-- Trimming leaves a text that has no blank at its ends if that text stands between blanks, and
else not. -/
theorem trim_eq_iff (hm : m ≠ []) (hfirst : ∀ c ∈ m.head?, isBlank c = false)
    (hlast : ∀ c ∈ m.getLast?, isBlank c = false) :
    trim cs = m ↔ ∃ w w', cs = w ++ (m ++ w') ∧
      (∀ c ∈ w, isBlank c = true) ∧ ∀ c ∈ w', isBlank c = true := by
  constructor
  · rintro rfl
    exact exists_blanks cs
  · rintro ⟨w, w', rfl, hw, hw'⟩
    have hhead : ∀ c ∈ (m ++ w').head?, isBlank c = false := by
      obtain ⟨c, m, rfl⟩ := List.exists_cons_of_ne_nil hm
      exact hfirst
    rw [trim, dropWhile_blanks hw hhead, trimEnd, List.reverse_append,
      dropWhile_blanks (by simpa using hw') (by simpa using hlast), List.reverse_reverse]

end Trimming

/-! ## Tolerant decoding -/

namespace Utf8

variable {bytes : List UInt8} {cs : List Char}

theorem decodeLossy_encode (cs : List Char) : decodeLossy (encode cs) = cs := by
  rw [decodeLossy, scan_encode, List.map_map]
  exact List.map_id cs

/-- Where tolerant decoding puts nothing in the place of a malformed stretch, nothing was malformed,
and the text is written as the very bytes that it was read from. -/
theorem encode_decodeLossy (h : '\uFFFD' ∉ decodeLossy bytes) :
    encode (decodeLossy bytes) = bytes := by
  have hsome : ∀ entry ∈ scan bytes, entry = some (entry.getD '\uFFFD') := by
    intro entry hentry
    cases entry with
    | some c => rfl
    | none => exact absurd (List.mem_map.2 ⟨none, hentry, rfl⟩) h
  have hscan : scan bytes = (decodeLossy bytes).map some := by
    rw [decodeLossy, List.map_map]
    exact (List.map_id _).symm.trans (List.map_congr_left hsome)
  have hread : encode ((scan bytes).filterMap id) = bytes := by
    refine encode_of_scan ?_
    rw [hscan, List.all_map]
    exact List.all_eq_true.2 fun _ _ => rfl
  have hkept : ((decodeLossy bytes).map some).filterMap id = decodeLossy bytes := by
    rw [List.filterMap_map]
    exact List.filterMap_some
  rwa [hscan, hkept] at hread

/-- Only the newline is written with a newline byte. -/
theorem eq_newline_of_mem_encodeChar {c : Char} (h : 0x0A ∈ encodeChar c) : c = '\n' := by
  have hbyte : ∀ n : Nat, (0x0A : UInt8) = UInt8.ofNat n → n < 256 → n = 0x0A := by
    intro n hn hlt
    have hnat := congrArg UInt8.toNat hn
    rw [toNat_ofNat_of_lt hlt] at hnat
    exact hnat.symm
  have hc := toNat_range c
  unfold encodeChar at h
  dsimp only at h
  split at h
  · have hnat := hbyte c.toNat (List.mem_singleton.1 h) (by omega)
    exact Char.toNat_inj.1 hnat
  · -- the bytes of a longer form are all at least 0x80
    exfalso
    split at h
    · simp only [List.mem_cons, List.not_mem_nil, or_false] at h
      rcases h with h | h
      all_goals
        have := hbyte _ h (by omega)
        omega
    split at h
    · simp only [List.mem_cons, List.not_mem_nil, or_false] at h
      rcases h with h | h | h
      all_goals
        have := hbyte _ h (by omega)
        omega
    · simp only [List.mem_cons, List.not_mem_nil, or_false] at h
      rcases h with h | h | h | h
      all_goals
        have := hbyte _ h (by omega)
        omega

/-- A text has a newline exactly if its bytes have one. -/
theorem newline_mem_encode : 0x0A ∈ encode cs ↔ '\n' ∈ cs := by
  constructor
  · intro h
    obtain ⟨c, hc, hbyte⟩ := List.mem_flatMap.1 h
    rwa [← eq_newline_of_mem_encodeChar hbyte]
  · intro h
    exact List.mem_flatMap.2 ⟨'\n', h, by decide⟩

end Utf8

namespace Integrity

variable {bytes line : List UInt8}

/-! ## Lines -/

/-- Bytes without a newline are one line. -/
theorem lines_of_not_mem (h : 0x0A ∉ line) : lines line = [line] := by
  induction line with
  | nil => rfl
  | cons b rest ih =>
    obtain ⟨hb, hrest⟩ := not_or.1 (mt List.mem_cons.2 h)
    rw [lines, if_neg (Ne.symm hb), ih hrest]

theorem lines_ne_nil (bytes : List UInt8) : lines bytes ≠ [] := by
  cases bytes with
  | nil => exact List.cons_ne_nil _ _
  | cons b rest =>
    rw [lines]
    split
    · exact List.cons_ne_nil _ _
    · split <;> exact List.cons_ne_nil _ _

/-- A newline ends the lines before it and starts those behind it. -/
theorem lines_append (before after : List UInt8) :
    lines (before ++ 0x0A :: after) = lines before ++ lines after := by
  induction before with
  | nil => rfl
  | cons b before ih =>
    rw [List.cons_append, lines, lines, ih]
    split
    · rfl
    · obtain ⟨line, later, hlines⟩ := List.exists_cons_of_ne_nil (lines_ne_nil before)
      rw [hlines]
      rfl

/-- What stands before and behind a newline is checked apart. -/
theorem passed_append (before after : List UInt8) :
    passed (before ++ 0x0A :: after) = (passed before || passed after) := by
  rw [passed, lines_append, List.any_append]
  rfl

theorem passed_of_not_mem (h : 0x0A ∉ line) : passed line = isMarkerLine line := by
  rw [passed, lines_of_not_mem h, List.any_cons, List.any_nil, Bool.or_false]

/-- Some bytes are a line of others: before them stands nothing or a newline, behind them too, and
they hold none. -/
structure IsLine (before line after : List UInt8) : Prop where
  before : before = [] ∨ ∃ earlier, before = earlier ++ [0x0A]
  after : after = [] ∨ ∃ later, after = 0x0A :: later
  one : 0x0A ∉ line

/-- A marker line is found whatever stands before and behind it. -/
theorem passed_of_isLine {before after : List UInt8} (h : IsLine before line after)
    (hline : isMarkerLine line = true) : passed (before ++ (line ++ after)) = true := by
  have hrest : passed (line ++ after) = true := by
    rcases h.after with rfl | ⟨later, rfl⟩
    · rw [List.append_nil, passed_of_not_mem h.one, hline]
    · rw [passed_append, passed_of_not_mem h.one, hline, Bool.true_or]
  rcases h.before with rfl | ⟨earlier, rfl⟩
  · exact hrest
  · rw [List.append_assoc, List.singleton_append, passed_append, hrest, Bool.or_true]

/-- Where the marker is found, it is a line. -/
theorem exists_line (h : passed bytes = true) : ∃ before line after,
    bytes = before ++ (line ++ after) ∧ IsLine before line after ∧ isMarkerLine line = true := by
  induction hn : bytes.length using Nat.strongRecOn generalizing bytes with
  | ind n ih =>
    by_cases hnewline : 0x0A ∈ bytes
    · -- the first line is the marker, or a line behind it is
      obtain ⟨first, rest, rfl, hfirst⟩ := List.eq_append_cons_of_mem hnewline
      rw [passed_append, passed_of_not_mem hfirst, Bool.or_eq_true] at h
      rcases h with h | h
      · exact ⟨[], first, 0x0A :: rest, rfl, ⟨.inl rfl, .inr ⟨rest, rfl⟩, hfirst⟩, h⟩
      · have hlt : rest.length < n := by
          rw [← hn, List.length_append, List.length_cons]
          omega
        obtain ⟨before, line, after, rfl, hline, hmarker⟩ := ih rest.length hlt h rfl
        refine ⟨first ++ 0x0A :: before, line, after, by simp, ⟨.inr ?_, hline.after, hline.one⟩,
          hmarker⟩
        rcases hline.before with rfl | ⟨earlier, rfl⟩
        · exact ⟨first, rfl⟩
        · exact ⟨first ++ 0x0A :: earlier, by simp⟩
    · rw [passed_of_not_mem hnewline] at h
      exact ⟨[], bytes, [], by simp, ⟨.inl rfl, .inl rfl, hnewline⟩, h⟩

/-! ## The marker -/

/-- Characters that may stand around the marker on its line. -/
def Padding (w : List Char) : Prop := ∀ c ∈ w, isBlank c = true ∧ c ≠ '\n'

/-- A line is the marker line exactly if it is written as the marker between blanks. -/
theorem isMarkerLine_iff : isMarkerLine line = true ↔ ∃ w w',
    line = Utf8.encode (w ++ (marker ++ w')) ∧ (∀ c ∈ w, isBlank c = true) ∧
      ∀ c ∈ w', isBlank c = true := by
  have hfirst : marker.head? = some 'n' := by decide
  have hlast : marker.getLast? = some 'd' := by decide
  have htrim : ∀ {cs}, trim cs = marker ↔ ∃ w w', cs = w ++ (marker ++ w') ∧
      (∀ c ∈ w, isBlank c = true) ∧ ∀ c ∈ w', isBlank c = true :=
    trim_eq_iff (by decide) (by rw [hfirst]; rintro c ⟨⟩; rfl) (by rw [hlast]; rintro c ⟨⟩; rfl)
  rw [isMarkerLine, beq_iff_eq, htrim]
  constructor
  · rintro ⟨w, w', hcs, hw, hw'⟩
    refine ⟨w, w', ?_, hw, hw'⟩
    -- neither the marker nor a blank is the replacement character
    have hblank : ∀ {w : List Char}, (∀ c ∈ w, isBlank c = true) → '\uFFFD' ∉ w := by
      intro w hw hmem
      exact absurd (hw _ hmem) (by decide)
    have hnone : '\uFFFD' ∉ Utf8.decodeLossy line := by
      rw [hcs, List.mem_append, List.mem_append]
      rintro (hmem | hmem | hmem)
      · exact hblank hw hmem
      · exact absurd hmem (by decide)
      · exact hblank hw' hmem
    rw [← hcs, Utf8.encode_decodeLossy hnone]
  · rintro ⟨w, w', rfl, hw, hw'⟩
    exact ⟨w, w', Utf8.decodeLossy_encode _, hw, hw'⟩

theorem check_value (output : List UInt8) : (check output).value = passed output := by
  unfold check
  cases passed output <;> rfl

/-- The output of an integrity check reports success exactly if some line of it is written as the
success marker between blanks, each of them a character with the property `White_Space` other than
the newline.  So no malformed, overlong or replaced byte stands on this line, and no bytes on other
lines hide it or stand for it: what precedes a newline is checked apart from what follows it. -/
theorem check_iff_marker_line :
    (∀ output, (check output).value = true ↔ ∃ before w w' after,
      output = before ++ (Utf8.encode w ++ Utf8.encode "no errors were found".toList ++
        Utf8.encode w' ++ after) ∧
      (before = [] ∨ ∃ earlier, before = earlier ++ [0x0A]) ∧
      (after = [] ∨ ∃ later, after = 0x0A :: later) ∧ Padding w ∧ Padding w') ∧
    ∀ before after, (check (before ++ 0x0A :: after)).value =
      ((check before).value || (check after).value) := by
  simp only [check_value]
  refine ⟨fun output => ⟨fun h => ?_, ?_⟩, passed_append⟩
  · obtain ⟨before, line, after, rfl, hline, hmarker⟩ := exists_line h
    obtain ⟨w, w', rfl, hw, hw'⟩ := isMarkerLine_iff.1 hmarker
    have hone : '\n' ∉ w ++ (marker ++ w') := mt Utf8.newline_mem_encode.2 hline.one
    refine ⟨before, w, w', after, ?_, hline.before, hline.after, fun c hc => ⟨hw c hc, ?_⟩,
      fun c hc => ⟨hw' c hc, ?_⟩⟩
    · simp only [Json.encode_append, List.append_assoc]
      rfl
    · rintro rfl
      exact hone (List.mem_append_left _ hc)
    · rintro rfl
      exact hone (List.mem_append_right _ (List.mem_append_right _ hc))
  · rintro ⟨before, w, w', after, rfl, hbefore, hafter, hw, hw'⟩
    have hline : Utf8.encode w ++ Utf8.encode "no errors were found".toList ++ Utf8.encode w' =
        Utf8.encode (w ++ (marker ++ w')) := by
      simp only [Json.encode_append, List.append_assoc]
      rfl
    rw [hline]
    refine passed_of_isLine ⟨hbefore, hafter, ?_⟩
      (isMarkerLine_iff.2 ⟨w, w', rfl, fun c hc => (hw c hc).1, fun c hc => (hw' c hc).1⟩)
    rw [Utf8.newline_mem_encode, List.mem_append, List.mem_append]
    rintro (hmem | hmem | hmem)
    · exact (hw _ hmem).2 rfl
    · exact absurd hmem (by decide)
    · exact (hw' _ hmem).2 rfl

end Integrity

end BackupReport
