import BackupReport.Proofs.Stream.Concatenation
import BackupReport.Proofs.Stream.Summary

/-!
# What a first summary settles

Once the messages of an output have been read up to a summary, the outcome of the run is known:
nothing behind the summary is looked at, and of the messages before it only their number goes to
the log (`ofOutput_first_summary`).  The messages that are handed out of a stream are turned back
into the text that they were read from (`exists_run`), so that whatever else may stand before the
summary can be put in its place.
-/

namespace BackupReport

open Json Json.Decoder

namespace Json

variable {α : Type} {decode : Decoder α}

/-- Messages that a stream hands out stand at its start, with gaps between them, and the other items
come from what follows. -/
theorem exists_run (hd : Delimited decode) (messages : List α) {c : Cursor}
    {later : List (Except Fault α)} (h : itemsAt decode c = messages.map .ok ++ later) :
    ∃ (gap : List UInt8) (frames : List (Frame decode)) (c' : Cursor),
      (∀ b ∈ gap, isGap b = true) ∧ c.rest = run gap frames ++ c'.rest ∧
      frames.map Frame.message = messages ∧ itemsAt decode c' = later := by
  induction messages generalizing c with
  | nil => exact ⟨[], [], c, List.forall_mem_nil _, rfl, rfl, h⟩
  | cons m messages ih =>
    cases hm : message? decode c with
    | error f =>
      rw [itemsAt_fault hm] at h
      cases h
    | ok r =>
      obtain ⟨_ | a, c₁⟩ := r
      · rw [itemsAt_end hm] at h
        cases h
      · rw [itemsAt_message hd hm, List.map_cons, List.cons_append] at h
        obtain ⟨hhead, hitems⟩ := List.cons.inj h
        cases hhead
        obtain ⟨gap, text, hgap, hspells, hrest⟩ := exists_spells hd hm
        obtain ⟨gap', frames, c', hgap', hrest', hframes, hlater⟩ := ih hitems
        -- the gap before the next message is the one behind this
        refine ⟨gap, ⟨text, m, gap', hspells, hgap'⟩ :: frames, c', hgap, ?_, ?_, hlater⟩
        · simp only [hrest, hrest', run, List.append_assoc]
        · rw [List.map_cons, hframes]

end Json

namespace Snapshot

variable {path : String} {m : Message} {skipped : List Message}
  {later : List (Except Fault Message)}

/-- The outcome of a run whose first summary is found behind some other messages. -/
def found (path : String) (skipped : Nat) (m : Message) : Logged (Except Error Snapshot) :=
  ⟨.ok (m.toSnapshot path), [.summaryFound path skipped m.snapshot]⟩

/-- Each message before the first summary is counted, and nothing else is done with it. -/
theorem ofItems_found (hskipped : ∀ k ∈ skipped, k.isSummary = false) (hm : m.isSummary = true)
    (n : Nat) : ofItems path n (skipped.map .ok ++ .ok m :: later) =
      found path (n + skipped.length) m := by
  induction skipped generalizing n with
  | nil =>
    rw [List.map_nil, List.nil_append, ofItems, if_pos hm]
    rfl
  | cons k skipped ih =>
    obtain ⟨hk, hskipped⟩ := List.forall_mem_cons.1 hskipped
    rw [List.map_cons, List.cons_append, ofItems, if_neg (Bool.eq_false_iff.1 hk), ih hskipped,
      List.length_cons, Nat.add_right_comm, Nat.add_assoc]

variable {gap : List UInt8} {before : List (Frame Message.decode)} {f : Frame Message.decode}

/-- An output that starts with some messages and a summary reports the summary, whatever the
messages say and whatever follows. -/
theorem ofOutput_found (hgap : ∀ b ∈ gap, isGap b = true)
    (hbefore : ∀ g ∈ before, g.message.isSummary = false) (hf : f.message.isSummary = true)
    (tail : List UInt8) : ofOutput path (run gap (before ++ [f]) ++ tail) =
      found path before.length f.message := by
  have hitems : ∃ later, items Message.decode (run gap (before ++ [f]) ++ tail) =
      (before.map Frame.message).map .ok ++ .ok f.message :: later := by
    obtain ⟨c', -, -, h⟩ := itemsAt_run delimited_message (before ++ [f]) hgap
      (c := .ofReads (run gap (before ++ [f]) ++ tail) .closed) rfl
    refine ⟨itemsAt Message.decode c', ?_⟩
    rw [items_eq, h, List.map_append, List.map_map, List.append_assoc]
    rfl
  obtain ⟨later, hitems⟩ := hitems
  change ofItems path 0 (items Message.decode _) = _
  rw [hitems, ofItems_found (List.forall_mem_map.2 hbefore) hf, Nat.zero_add, List.length_map]

/-- An output whose messages can be read up to a first summary reports that summary, and notes how
many messages stand before it.  Nothing that is put behind the output changes this, and the part of
it that ends with the summary is made of gaps, the messages before the summary, and the summary:
with any other gaps and any other messages that are no summaries in their place the same is
reported, and the number of these messages is noted. -/
theorem ofOutput_first_summary {output : List UInt8}
    (hitems : items Message.decode output = skipped.map .ok ++ .ok m :: later)
    (hskipped : ∀ k ∈ skipped, k.isSummary = false) (hm : m.isSummary = true) (path : String) :
    ofOutput path output =
      ⟨.ok (m.toSnapshot path), [.summaryFound path skipped.length m.snapshot]⟩ ∧
    (∀ tail, ofOutput path (output ++ tail) = ofOutput path output) ∧
    ∃ (gap : List UInt8) (before : List (Frame Message.decode)) (f : Frame Message.decode)
      (rest : List UInt8), (∀ b ∈ gap, isGap b = true) ∧
      output = run gap (before ++ [f]) ++ rest ∧ before.map Frame.message = skipped ∧
      f.message = m ∧
      ∀ (gap' : List UInt8) (before' : List (Frame Message.decode)) (tail : List UInt8),
        (∀ b ∈ gap', isGap b = true) → (∀ g ∈ before', g.message.isSummary = false) →
        ofOutput path (run gap' (before' ++ [f]) ++ tail) =
          ⟨.ok (m.toSnapshot path), [.summaryFound path before'.length m.snapshot]⟩ := by
  have hrun : itemsAt Message.decode (.ofReads output .closed) =
      (skipped ++ [m]).map .ok ++ later := by
    rw [← items_eq, hitems, List.map_append, List.append_assoc]
    rfl
  obtain ⟨gap, frames, c', hgap, houtput, hframes, -⟩ := exists_run delimited_message _ hrun
  obtain ⟨before, last, rfl, rfl, hlast⟩ := List.map_eq_append_iff.1 hframes
  obtain ⟨f, rfl, rfl⟩ := List.map_eq_singleton_iff.1 hlast
  replace houtput : output = run gap (before ++ [f]) ++ c'.rest := houtput
  have hbefore : ∀ g ∈ before, g.message.isSummary = false := List.forall_mem_map.1 hskipped
  have hfound : ∀ tail, ofOutput path (output ++ tail) = found path before.length f.message := by
    intro tail
    rw [houtput, List.append_assoc]
    exact ofOutput_found hgap hbefore hm _
  have hwhole := hfound []
  rw [List.append_nil] at hwhole
  refine ⟨?_, fun tail => (hfound tail).trans hwhole.symm, gap, before, f, c'.rest, hgap, houtput,
    rfl, rfl, fun gap' before' tail hgap' hbefore' => ofOutput_found hgap' hbefore' hm tail⟩
  rw [hwhole, List.length_map]
  rfl

/-- An empty message and a summary as a list of one entry; a brace behind them does not matter. -/
theorem ofOutput_first_summary_brace :
    items Message.decode [0x7B, 0x7D, 0x5B, 0x22, 0x73, 0x75, 0x6D, 0x6D, 0x61, 0x72, 0x79, 0x22,
      0x5D] = [({} : Message)].map .ok ++ .ok { kind := "summary" } :: [] ∧
    ofOutput "/srv" ([0x7B, 0x7D, 0x5B, 0x22, 0x73, 0x75, 0x6D, 0x6D, 0x61, 0x72, 0x79, 0x22,
      0x5D] ++ [0x7B]) =
      ⟨.ok (({ kind := "summary" } : Message).toSnapshot "/srv"),
        [.summaryFound "/srv" 1 ""]⟩ := by
  have hitems : items Message.decode [0x7B, 0x7D, 0x5B, 0x22, 0x73, 0x75, 0x6D, 0x6D, 0x61, 0x72,
      0x79, 0x22, 0x5D] = [({} : Message)].map .ok ++ .ok { kind := "summary" } :: [] := by
    decide +kernel
  obtain ⟨hfound, htail, -⟩ :=
    ofOutput_first_summary hitems (List.forall_mem_singleton.2 rfl) rfl "/srv"
  exact ⟨hitems, (htail [0x7B]).trans hfound⟩

end Snapshot

end BackupReport
