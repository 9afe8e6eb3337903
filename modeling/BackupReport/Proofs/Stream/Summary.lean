import BackupReport.Capture.Backup
import BackupReport.Proofs.Stream.Frames

/-!
# The first summary of a stream

What a stream reports on a path depends on its items only, and of these on the first summary or
fault (`reported_progress`, `reported_summary`, `reported_fault`).  What was counted on the way goes
to the log and nowhere else (`ofItems_value`).
-/

namespace BackupReport

open Json Json.Decoder

namespace Snapshot

variable {path : String} {items later : List (Except Fault Message)} {m : Message}

/-- What the items of a stream report on a path. -/
def reported (path : String) (items : List (Except Fault Message)) : Except Error Snapshot :=
  (ofItems path 0 items).value

/-- How many messages have been passed over does not matter to the snapshot. -/
theorem ofItems_value (path : String) (skipped skipped' : Nat)
    (items : List (Except Fault Message)) :
    (ofItems path skipped items).value = (ofItems path skipped' items).value := by
  induction items generalizing skipped skipped' with
  | nil => rfl
  | cons item later ih =>
    cases item with
    | error f => rfl
    | ok m =>
      simp only [ofItems]
      split
      · rfl
      · exact ih _ _

theorem reported_nil : reported path [] = .ok { path := path } := rfl

theorem reported_fault {f : Fault} :
    reported path (.error f :: later) = .error (.ofFault f) := rfl

theorem reported_summary (h : m.isSummary = true) :
    reported path (.ok m :: later) = .ok (m.toSnapshot path) := by
  unfold reported ofItems
  rw [if_pos h]
  rfl

theorem reported_progress (h : m.isSummary = false) :
    reported path (.ok m :: later) = reported path later := by
  unfold reported
  rw [ofItems, if_neg (by rw [h]; exact Bool.false_ne_true)]
  exact ofItems_value path _ _ later

/-- What a source reports on a path is what the items of its stream do. -/
theorem ofSource_value (path : String) (s : Source) :
    (ofSource path s).value =
      reported path (itemsAt Message.decode (.ofReads s.reachable s.ending)) := by
  rw [← Source.cursor_eq]
  rfl

theorem ofOutput_value (path : String) (bytes : List UInt8) : (ofOutput path bytes).value =
    reported path (itemsAt Message.decode (.ofReads bytes .closed)) := ofSource_value path _

/-! ## Streams as they are written -/

variable {gap : List UInt8} {frames : List (Frame Message.decode)}

/-- Messages that are no summaries are passed over. -/
theorem reported_run (path : String) (hgap : ∀ b ∈ gap, isGap b = true)
    (hprogress : ∀ f ∈ frames, f.message.isSummary = false) {c : Cursor} {more : List UInt8}
    (h : c.rest = run gap frames ++ more) :
    ∃ c', c'.rest = more ∧ c'.ending = c.ending ∧
      reported path (itemsAt Message.decode c) = reported path (itemsAt Message.decode c') := by
  obtain ⟨c', hr, he, hitems⟩ := itemsAt_run delimited_message frames hgap h
  refine ⟨c', hr, he, ?_⟩
  rw [hitems]
  clear hitems h
  induction frames generalizing gap with
  | nil => rfl
  | cons f later ih =>
    rw [List.map_cons, List.cons_append, reported_progress (hprogress f List.mem_cons_self)]
    exact ih f.gaps fun g hg => hprogress g (List.mem_cons_of_mem _ hg)

/-- The first summary is what counts, whatever follows it and whatever lies behind the bytes. -/
theorem reported_found (hgap : ∀ b ∈ gap, isGap b = true)
    (hprogress : ∀ f ∈ frames, f.message.isSummary = false) {f : Frame Message.decode}
    (hf : f.message.isSummary = true) {c : Cursor} {more : List UInt8}
    (h : c.rest = run gap (frames ++ [f]) ++ more) :
    reported path (itemsAt Message.decode c) = .ok (f.message.toSnapshot path) := by
  rw [run_concat, stream, List.append_assoc, List.append_assoc] at h
  obtain ⟨c₁, hr₁, -, hreported⟩ := reported_run path hgap hprogress h
  rw [← List.append_assoc] at hr₁
  obtain ⟨c₂, hm, -, -⟩ := message?_frame delimited_message f (lastGap_gaps hgap frames) hr₁
  rw [hreported, itemsAt_message delimited_message hm, reported_summary hf]

end Snapshot

end BackupReport
