import BackupReport.Proofs.Stream.Truncation

/-!
# Sources that fail

A source may fail behind any of its bytes.  What is reported then is that failure, or what the whole
of the bytes reports (`reported_extend`): the failure is not met only where the decision has been
made before it.  It is never taken for the end of the stream, for no message is missing from a
stream that has not ended (`reported_ok`).

A refusal keeps its cause when the source fails behind it, with one exception: a list that ends in a
comma is refused for that comma only if its closing bracket can be read.
-/

namespace BackupReport

open Json Json.Decoder

/-- The text of a byte count is never empty. -/
theorem Size.text_ne_empty (bytes : UInt64) : Size.text bytes ≠ "" := by
  intro h
  have hlen := congrArg String.length h
  unfold Size.text at hlen
  split at hlen
  · simp [String.length_append] at hlen
  · simp [String.length_append] at hlen

/-- A summary says more than the path. -/
theorem Message.toSnapshot_ne (m : Message) (path : String) :
    m.toSnapshot path ≠ { path := path } := by
  intro h
  exact Size.text_ne_empty m.bytesProcessed (congrArg Snapshot.totalSize h)

namespace Snapshot

/-! ## Outcomes -/

/-- Two outcomes are the same but for the place of a fault; that a comma stands before the closing
bracket of a list may go unnoticed in the first if that bracket comes next in what it lacks. -/
def Akin (more : List UInt8) : Except Error Snapshot → Except Error Snapshot → Prop
  | .ok s, .ok s' => s = s'
  | .error (.decode cause _), .error (.decode cause' _) =>
    cause = cause' ∨ cause = .trailingCharacters ∧ cause' = .trailingComma ∧ BracketNext more
  | _, _ => False

/-- The first summary in some bytes is a given message, and its last byte is the `n`-th of them. -/
def SummaryEnds (bytes : List UInt8) (n : Nat) (m : Message) : Prop :=
  ∃ (gap : List UInt8) (before : List (Frame Message.decode)) (f : Frame Message.decode)
    (tail : List UInt8), (∀ b ∈ gap, isGap b = true) ∧
      (∀ g ∈ before, g.message.isSummary = false) ∧ f.message = m ∧ m.isSummary = true ∧
      (run gap (before ++ [f])).length = n ∧ bytes = run gap (before ++ [f]) ++ tail

variable {path : String} {c : Cursor}

/-- A source that fails does not come to its end. -/
theorem message?_ne_none {reason : String} (he : c.ending = .failing reason) {c' : Cursor} :
    message? Message.decode c ≠ .ok (none, c') := by
  intro h
  rcases message?_ok delimited_message h with ⟨-, hg⟩ | ⟨a, b, c₁, hnone, -, -⟩
  · have hgap := gap_nil (gaps_of_gap_none hg)
    rw [he] at hgap
    dsimp only at hgap
    rw [hg] at hgap
    cases hgap
  · cases hnone

/-- A stream behind which the source fails reports the failure, or what it reports with any more
bytes behind it. -/
theorem reported_extend (path : String) {reason : String} (he : c.ending = .failing reason)
    (more : List UInt8) (e : Ending) :
    reported path (itemsAt Message.decode c) = .error (.source reason) ∨
      Akin more (reported path (itemsAt Message.decode c))
        (reported path (itemsAt Message.decode (c.extend more e))) := by
  induction c using stream_induction delimited_message with
  | _ c ih =>
    cases hm : message? Message.decode c with
    | error f =>
      rw [itemsAt_fault hm]
      rcases (built_message? delimited_message.built).fault_cases hm with
        ⟨cause, p, rfl⟩ | ⟨reason', rfl, he'⟩
      · obtain ⟨cause', p', hm', hakin⟩ :=
          (built_message? delimited_message.built).extend_refused hm
            (by rw [he]; exact Ending.noConfusion) more e
        rw [itemsAt_fault hm']
        exact .inr hakin
      · rw [he] at he'
        cases he'
        exact .inl rfl
    | ok r =>
      obtain ⟨_ | m, c'⟩ := r
      · exact absurd hm (message?_ne_none he)
      · have hm' := message?_extend delimited_message hm more e
        rw [itemsAt_message delimited_message hm, itemsAt_message delimited_message hm']
        cases hs : m.isSummary with
        | true =>
          rw [reported_summary hs, reported_summary hs]
          exact .inr rfl
        | false =>
          rw [reported_progress hs, reported_progress hs]
          exact ih m c' hm (((built_message? delimited_message.built).ending_eq hm).trans he)

/-- A message that is a summary ends where it has been read. -/
theorem summaryEnds_of_summary {m : Message} {c' : Cursor}
    (h : message? Message.decode c = .ok (some m, c')) (hs : m.isSummary = true) :
    ∃ n, SummaryEnds c.rest n m := by
  obtain ⟨gap, text, hgap, hspells, hrest⟩ := exists_spells delimited_message h
  refine ⟨_, gap, [], ⟨text, m, [], hspells, List.forall_mem_nil _⟩, c'.rest, hgap,
    List.forall_mem_nil _, rfl, hs, rfl, ?_⟩
  rw [hrest, List.nil_append, run, run, List.append_nil]

/-- Behind a message that is no summary the first summary is still the first. -/
theorem summaryEnds_of_progress {m m' : Message} {c' : Cursor} {n : Nat}
    (h : message? Message.decode c = .ok (some m, c')) (hs : m.isSummary = false)
    (hends : SummaryEnds c'.rest n m') : ∃ n', SummaryEnds c.rest n' m' := by
  obtain ⟨gap, text, hgap, hspells, hrest⟩ := exists_spells delimited_message h
  obtain ⟨gap', before, f, tail, hgap', hprogress, hf, hsummary, -, hrest'⟩ := hends
  refine ⟨_, gap, ⟨text, m, gap', hspells, hgap'⟩ :: before, f, tail, hgap, ?_, hf, hsummary, rfl,
    ?_⟩
  · exact List.forall_mem_cons.2 ⟨hs, hprogress⟩
  · rw [hrest, hrest', List.cons_append, run]
    simp only [List.append_assoc]

/-- A success is that of the first summary, or of a stream that ends without one. -/
theorem reported_ok {s : Snapshot} (h : reported path (itemsAt Message.decode c) = .ok s) :
    (c.ending = .closed ∧ s = { path := path }) ∨
      ∃ n m, SummaryEnds c.rest n m ∧ s = m.toSnapshot path := by
  induction c using stream_induction delimited_message with
  | _ c ih =>
    cases hm : message? Message.decode c with
    | error f =>
      rw [itemsAt_fault hm] at h
      cases h
    | ok r =>
      obtain ⟨_ | m, c'⟩ := r
      · rw [itemsAt_end hm] at h
        cases h
        cases he : c.ending with
        | closed => exact .inl ⟨rfl, rfl⟩
        | failing reason => exact absurd hm (message?_ne_none he)
      · rw [itemsAt_message delimited_message hm] at h
        cases hs : m.isSummary with
        | true =>
          rw [reported_summary hs] at h
          cases h
          obtain ⟨n, hends⟩ := summaryEnds_of_summary hm hs
          exact .inr ⟨n, m, hends, rfl⟩
        | false =>
          rw [reported_progress hs] at h
          rcases ih m c' hm h with ⟨he, hpath⟩ | ⟨n, m', hends, hsnapshot⟩
          · exact .inl ⟨((built_message? delimited_message.built).ending_eq hm).symm.trans he,
              hpath⟩
          · obtain ⟨n', hends'⟩ := summaryEnds_of_progress hm hs hends
            exact .inr ⟨n', m', hends', hsnapshot⟩

/-- A stream is refused, or its source fails. -/
theorem reported_error {e : Error} (h : reported path (itemsAt Message.decode c) = .error e) :
    (∃ cause p, e = .decode cause p) ∨
      ∃ reason, e = .source reason ∧ c.ending = .failing reason := by
  induction c using stream_induction delimited_message with
  | _ c ih =>
    cases hm : message? Message.decode c with
    | error f =>
      rw [itemsAt_fault hm] at h
      cases h
      rcases (built_message? delimited_message.built).fault_cases hm with
        ⟨cause, p, rfl⟩ | ⟨reason, rfl, he⟩
      · exact .inl ⟨cause, p, rfl⟩
      · exact .inr ⟨reason, rfl, he⟩
    | ok r =>
      obtain ⟨_ | m, c'⟩ := r
      · rw [itemsAt_end hm] at h
        cases h
      · rw [itemsAt_message delimited_message hm] at h
        cases hs : m.isSummary with
        | true =>
          rw [reported_summary hs] at h
          cases h
        | false =>
          rw [reported_progress hs] at h
          rw [← (built_message? delimited_message.built).ending_eq hm]
          exact ih m c' hm h

/-! ## Positions of a failure -/

/-- What is reported on a path where reading fails behind `position` bytes. -/
def ofFailing (path : String) (bytes : List UInt8) (size position : Nat) (reason : String) :
    Except Error Snapshot :=
  (ofSource path ⟨bytes, size, some (position, reason)⟩).value

variable {bytes : List UInt8} {size position : Nat} {reason : String}

theorem ofFailing_value (h : position ≤ bytes.length) :
    ofFailing path bytes size position reason =
      reported path
        (itemsAt Message.decode (.ofReads (bytes.take position) (.failing reason))) := by
  unfold ofFailing
  rw [ofSource_value]
  simp only [Source.ending, Source.reachable, if_pos h]

/-- A failure behind the end is not met. -/
theorem ofFailing_beyond (h : bytes.length < position) :
    ofFailing path bytes size position reason = (ofOutput path bytes).value := by
  unfold ofFailing
  rw [ofSource_value, ofOutput_value]
  simp only [Source.ending, Source.reachable, if_neg (Nat.not_le.2 h),
    List.take_of_length_le (Nat.le_of_lt h)]

/-- An outcome that is like a success is that success. -/
theorem Akin.eq_ok {more : List UInt8} {x : Except Error Snapshot} {s : Snapshot}
    (h : Akin more x (.ok s)) : x = .ok s := by
  cases x with
  | ok s' => exact congrArg Except.ok h
  | error e => cases e <;> exact absurd h id

/-- An outcome that is like a given one is no failure of the source if that is none. -/
theorem Akin.ne_source {more : List UInt8} {x y : Except Error Snapshot} (h : Akin more x y)
    (reason : String) : y ≠ .error (.source reason) := by
  rintro rfl
  cases x with
  | ok s => exact h
  | error e => cases e <;> exact h

/-- Reading on before the failure never leads to the failure where it was not met before. -/
theorem ofFailing_mono {position' : Nat} (h : position ≤ position')
    (hnot : ofFailing path bytes size position reason ≠ .error (.source reason)) :
    ofFailing path bytes size position' reason ≠ .error (.source reason) := by
  by_cases hle : position' ≤ bytes.length
  · have hbytes : bytes.take position ++ (bytes.drop position).take (position' - position) =
        bytes.take position' := by
      rw [← List.take_add, Nat.add_sub_cancel' h]
    rw [ofFailing_value (Nat.le_trans h hle)] at hnot
    rw [ofFailing_value hle, ← hbytes]
    rcases reported_extend path (c := .ofReads (bytes.take position) (.failing reason))
      rfl ((bytes.drop position).take (position' - position)) (.failing reason) with hfail | hakin
    · exact absurd hfail hnot
    · exact hakin.ne_source reason
  · rw [ofFailing_beyond (Nat.lt_of_not_le hle), ofOutput_value]
    intro herror
    rcases reported_error herror with ⟨cause, p, he⟩ | ⟨reason', -, hend⟩
    · cases he
    · cases hend

/-- Where the source fails the failure is reported, or what is reported of all bytes. -/
theorem ofFailing_akin (path : String) (bytes : List UInt8) (size position : Nat)
    (reason : String) : ofFailing path bytes size position reason = .error (.source reason) ∨
      Akin (bytes.drop position) (ofFailing path bytes size position reason)
        (ofOutput path bytes).value := by
  by_cases hle : position ≤ bytes.length
  · rw [ofFailing_value hle, ofOutput_value]
    have hextend := reported_extend path
      (c := .ofReads (bytes.take position) (.failing reason)) rfl (bytes.drop position) .closed
    rwa [show Cursor.extend (.ofReads (bytes.take position) (.failing reason))
        (bytes.drop position) .closed = .ofReads bytes .closed from by
      simp only [Cursor.extend, Cursor.ofReads, List.take_append_drop]] at hextend
  · rw [ofFailing_beyond (Nat.lt_of_not_le hle)]
    refine .inr ?_
    cases h : (ofOutput path bytes).value with
    | ok s => rfl
    | error e =>
      rw [ofOutput_value] at h
      rcases reported_error h with ⟨cause, p, rfl⟩ | ⟨reason', -, hend⟩
      · exact .inl rfl
      · cases hend

/-- Without a summary there is no success before the end of the bytes. -/
theorem ofFailing_of_no_summary (h : (ofOutput path bytes).value = .ok { path := path })
    (hle : position ≤ bytes.length) :
    ofFailing path bytes size position reason = .error (.source reason) := by
  rcases ofFailing_akin path bytes size position reason with hfail | hakin
  · exact hfail
  rw [h] at hakin
  have hr := hakin.eq_ok
  rw [ofFailing_value hle] at hr
  rcases reported_ok hr with ⟨hclosed, -⟩ | ⟨n, m, -, hm⟩
  · cases hclosed
  · exact absurd hm.symm (m.toSnapshot_ne path)

/-- The first summary counts if it can be read as a whole, and else the failure is reported. -/
theorem ofFailing_of_summaryEnds {n : Nat} {m : Message} (h : SummaryEnds bytes n m) :
    (n ≤ position → ofFailing path bytes size position reason = (ofOutput path bytes).value) ∧
      (position < n → ofFailing path bytes size position reason = .error (.source reason)) := by
  obtain ⟨gap, before, f, tail, hgap, hprogress, rfl, hsummary, hn, hbytes⟩ := h
  have hlen : n ≤ bytes.length := by rw [hbytes, List.length_append, hn]; exact Nat.le_add_right _ _
  refine ⟨fun hle => ?_, fun hlt => ?_⟩
  · by_cases hposition : position ≤ bytes.length
    · have htake : bytes.take position =
          run gap (before ++ [f]) ++ tail.take (position - n) := by
        rw [hbytes, List.take_append, List.take_of_length_le (hn ▸ hle), hn]
      rw [ofFailing_value hposition, ofOutput_value,
        reported_found (c := .ofReads (bytes.take position) (.failing reason)) hgap hprogress
          hsummary htake,
        reported_found (c := .ofReads bytes .closed) hgap hprogress hsummary hbytes]
    · exact ofFailing_beyond (Nat.lt_of_not_le hposition)
  · rw [ofFailing_value (Nat.le_trans (Nat.le_of_lt hlt) hlen)]
    have htake : bytes.take position = (stream gap (before ++ [f])).take position := by
      rw [hbytes, stream, List.take_append_of_le_length (by omega),
        List.take_append_of_le_length (by omega)]
    refine reported_failing (c := .ofReads (bytes.take position) (.failing reason)) hgap ?_ path rfl
      htake
    rintro g ⟨earlier, later, hframes, -, hg, hwithin⟩
    -- the only summary is the last message, which is not whole before the failure
    rcases List.eq_nil_or_concat later with rfl | ⟨later, last, rfl⟩
    · rw [← hframes] at hwithin
      omega
    · have hsplit : before ++ [f] = (earlier ++ g :: later) ++ [last] := by
        rw [hframes, List.concat_eq_append, List.append_assoc, List.cons_append]
      have hbefore : before = earlier ++ g :: later := List.append_inj_left' hsplit rfl
      have hnot := hprogress g (by rw [hbefore]; exact List.mem_append_cons_self)
      rw [hg] at hnot
      cases hnot

/-- What is reported where reading fails.

Behind the end of the bytes the failure is not met; anywhere else the failure is reported or what is
reported of all bytes, and from the position on from which it is not the failure it never is again.
If the bytes hold a summary, it is reported exactly from its last byte on; if they end without one,
the failure always is.  Of all bytes, a summary, the path only or a refusal is reported. -/
theorem ofFailing_spec (path : String) (bytes : List UInt8) (size : Nat) (reason : String) :
    (∀ k, bytes.length < k → ofFailing path bytes size k reason = (ofOutput path bytes).value) ∧
    (∀ k, ofFailing path bytes size k reason = .error (.source reason) ∨
      Akin (bytes.drop k) (ofFailing path bytes size k reason) (ofOutput path bytes).value) ∧
    (∀ k k', k ≤ k' → ofFailing path bytes size k reason ≠ .error (.source reason) →
      ofFailing path bytes size k' reason ≠ .error (.source reason)) ∧
    (∀ n m, SummaryEnds bytes n m → ∀ k,
      (n ≤ k → ofFailing path bytes size k reason = (ofOutput path bytes).value) ∧
      (k < n → ofFailing path bytes size k reason = .error (.source reason))) ∧
    ((ofOutput path bytes).value = .ok { path := path } → ∀ k ≤ bytes.length,
      ofFailing path bytes size k reason = .error (.source reason)) ∧
    (∀ s, (ofOutput path bytes).value = .ok s →
      s = { path := path } ∨ ∃ n m, SummaryEnds bytes n m ∧ s = m.toSnapshot path) ∧
    (∀ e, (ofOutput path bytes).value = .error e → ∃ cause p, e = .decode cause p) := by
  refine ⟨fun k h => ofFailing_beyond h, fun k => ofFailing_akin path bytes size k reason,
    fun k k' h hnot => ofFailing_mono h hnot, fun n m h k => ofFailing_of_summaryEnds h,
    fun h k hle => ofFailing_of_no_summary h hle, fun s h => ?_, fun e h => ?_⟩
  · rw [ofOutput_value] at h
    rcases reported_ok h with ⟨-, hs⟩ | hfound
    · exact .inl hs
    · exact .inr hfound
  · rw [ofOutput_value] at h
    rcases reported_error h with hrefused | ⟨reason', -, hend⟩
    · exact hrefused
    · cases hend

/-- A failure behind the last comma of a list that is one comma too long: without it the comma is
refused, and with it what follows the nine entries. -/
theorem ofFailing_surplus :
    ofFailing "/p" [0x5B, 0x22, 0x22, 0x2C, 0x31, 0x2C, 0x31, 0x2C, 0x31, 0x2C, 0x31, 0x2C, 0x31,
      0x2C, 0x31, 0x2C, 0x6E, 0x75, 0x6C, 0x6C, 0x2C, 0x22, 0x22, 0x2C, 0x5D] 1 24
      "reader failed" = .error (.decode .trailingCharacters ⟨1, 24⟩) ∧
    (ofOutput "/p" [0x5B, 0x22, 0x22, 0x2C, 0x31, 0x2C, 0x31, 0x2C, 0x31, 0x2C, 0x31, 0x2C, 0x31,
      0x2C, 0x31, 0x2C, 0x6E, 0x75, 0x6C, 0x6C, 0x2C, 0x22, 0x22, 0x2C, 0x5D]).value =
      .error (.decode .trailingComma ⟨1, 25⟩) ∧
    Cause.message .trailingCharacters ≠ Cause.message .trailingComma := by
  exact ⟨by decide +kernel, by decide +kernel, by decide⟩

end Snapshot

end BackupReport
