import Mathlib.Control.Monad.Basic
import BackupReport.Proofs.Stream.Summary

/-!
# Streams that break off

A stream may be cut at any byte.  The cut lies inside a message, or it leaves whole messages and a
gap (`take_splits`, `take_not_splits`).  In the first case the message is a fault, in the second the
stream ends as if nothing had been cut off; a summary that is whole before the cut counts in either
case (`Snapshot.ofOutput_take`).
-/

namespace BackupReport

open Json Json.Decoder

/-! ## Where a cut lies -/

section Cuts

variable {α : Type} {decode : Decoder α} {gap : List UInt8} {frames : List (Frame decode)} {n : Nat}

/-- A cut lies inside a message, behind its first byte and before its last. -/
def SplitsMessage (gap : List UInt8) (frames : List (Frame decode)) (n : Nat) : Prop :=
  ∃ before f after, frames = before ++ f :: after ∧ (stream gap before).length < n ∧
    n < (run gap (before ++ [f])).length

/-- A cut inside a message leaves whole messages, a gap and a part of the message. -/
theorem take_splits {before : List (Frame decode)} {f : Frame decode}
    (after : List (Frame decode)) (hlow : (stream gap before).length < n)
    (hhigh : n < (run gap (before ++ [f])).length) :
    ∃ part cut, f.text = part ++ cut ∧ part ≠ [] ∧ cut ≠ [] ∧
      (stream gap (before ++ f :: after)).take n =
        run gap before ++ (lastGap gap before ++ part) := by
  rw [run_concat, List.length_append] at hhigh
  obtain ⟨m, rfl⟩ := Nat.exists_eq_add_of_lt hlow
  have hm : m + 1 < f.text.length := by omega
  refine ⟨f.text.take (m + 1), f.text.drop (m + 1), (List.take_append_drop _ _).symm, ?_, ?_, ?_⟩
  · exact List.ne_nil_of_length_pos (by rw [List.length_take]; omega)
  · exact List.ne_nil_of_length_pos (by rw [List.length_drop]; omega)
  · rw [stream_append, run_concat, List.append_assoc, Nat.add_assoc, List.take_length_add_append,
      List.take_append_of_le_length (by omega), stream, List.append_assoc]

/-- Any other cut leaves whole messages and a gap. -/
theorem take_not_splits (hgap : ∀ b ∈ gap, isGap b = true) (h : ¬ SplitsMessage gap frames n) :
    ∃ before after gaps, frames = before ++ after ∧ (∀ b ∈ gaps, isGap b = true) ∧
      (run gap before).length ≤ n ∧ (stream gap frames).take n = run gap before ++ gaps := by
  have hprefix : ∀ m, ∀ b ∈ gap.take m, isGap b = true :=
    fun m b hb => hgap b (List.mem_of_mem_take hb)
  induction frames generalizing gap n with
  | nil => exact ⟨[], [], gap.take n, rfl, hprefix n, Nat.zero_le n, rfl⟩
  | cons f later ih =>
    rw [stream_cons]
    by_cases hlow : n ≤ gap.length
    · refine ⟨[], f :: later, gap.take n, rfl, hprefix n, Nat.zero_le n, ?_⟩
      rw [List.append_assoc, List.take_append_of_le_length hlow]
      rfl
    · by_cases hhigh : n < (gap ++ f.text).length
      · refine absurd ⟨[], f, later, rfl, Nat.lt_of_not_le hlow, ?_⟩ h
        rw [List.nil_append, run, run, List.append_nil]
        exact hhigh
      · -- the cut lies behind the first message
        obtain ⟨m, rfl⟩ := Nat.exists_eq_add_of_le (Nat.le_of_not_lt hhigh)
        have hlater : ¬ SplitsMessage f.gap later m := by
          rintro ⟨before, g, after, rfl, hbefore, hg⟩
          refine h ⟨f :: before, g, after, rfl, ?_, ?_⟩
          · rw [stream_cons, List.length_append]
            omega
          · simp only [List.cons_append, run, List.length_append] at hg ⊢
            omega
        obtain ⟨before, after, gaps, rfl, hgaps, hle, htake⟩ :=
          ih f.gaps hlater fun m b hb => f.gaps b (List.mem_of_mem_take hb)
        refine ⟨f :: before, after, gaps, rfl, hgaps, ?_, ?_⟩
        · rw [run, List.length_append]
          omega
        · rw [List.take_length_add_append, htake, run]
          simp only [List.append_assoc]

end Cuts

/-! ## What a stream reports that is cut -/

namespace Snapshot

variable {gap : List UInt8} {frames : List (Frame Message.decode)} {n : Nat}

/-- The first summary of a stream is a given one, and it is whole before the cut. -/
def SummaryWithin (gap : List UInt8) (frames : List (Frame Message.decode)) (n : Nat)
    (f : Frame Message.decode) : Prop :=
  ∃ before after, frames = before ++ f :: after ∧ (∀ g ∈ before, g.message.isSummary = false) ∧
    f.message.isSummary = true ∧ (run gap (before ++ [f])).length ≤ n

/-- Where no summary is whole before the cut, no message before the cut is one. -/
theorem no_summary_before (h : ∀ f, ¬ SummaryWithin gap frames n f)
    {before after : List (Frame Message.decode)} (hframes : frames = before ++ after)
    (hn : (run gap before).length ≤ n) : ∀ g ∈ before, g.message.isSummary = false := by
  cases hfind : before.find? fun g => g.message.isSummary with
  | none =>
    intro g hg
    exact Bool.eq_false_iff.2 (List.find?_eq_none.1 hfind g hg)
  | some f =>
    obtain ⟨hf, earlier, later, rfl, hearlier⟩ := List.find?_eq_some_iff_append.1 hfind
    refine absurd ⟨earlier, later ++ after, ?_, ?_, hf, ?_⟩ (h f)
    · rw [hframes, List.append_assoc, List.cons_append]
    · intro g hg
      simpa using hearlier g hg
    · rw [List.append_cons, run_append, List.length_append] at hn
      omega

/-- A stream that is cut inside a message, before its first summary ends, is refused. -/
theorem reported_splits (hgap : ∀ b ∈ gap, isGap b = true)
    (hnone : ∀ f, ¬ SummaryWithin gap frames n f) (hsplits : SplitsMessage gap frames n)
    (path : String) {c : Cursor} (h : c.rest = (stream gap frames).take n) :
    match c.ending with
    | .closed => ∃ cause p, reported path (itemsAt Message.decode c) = .error (.decode cause p)
    | .failing reason => reported path (itemsAt Message.decode c) = .error (.source reason) := by
  obtain ⟨before, f, after, hframes, hlow, hhigh⟩ := hsplits
  obtain ⟨part, cut, htext, hpart, hcut, htake⟩ := take_splits after hlow hhigh
  rw [hframes, htake] at h
  have hle : (run gap before).length ≤ n := by
    rw [stream, List.length_append] at hlow
    omega
  obtain ⟨c', hr, he, hreported⟩ :=
    reported_run path hgap (no_summary_before hnone hframes hle) h
  have hitems := itemsAt_cut delimited_message f (lastGap_gaps hgap before) htext hpart hcut hr
  rw [he] at hitems
  rw [hreported]
  cases hend : c.ending with
  | closed =>
    rw [hend] at hitems
    obtain ⟨cause, p, hitems⟩ := hitems
    rw [hitems]
    exact ⟨cause, p, reported_fault⟩
  | failing reason =>
    rw [hend] at hitems
    rw [hitems]
    exact reported_fault

/-- A stream that is cut elsewhere before its first summary ends has no summary. -/
theorem reported_not_splits (hgap : ∀ b ∈ gap, isGap b = true)
    (hnone : ∀ f, ¬ SummaryWithin gap frames n f) (hsplits : ¬ SplitsMessage gap frames n)
    (path : String) {c : Cursor} (h : c.rest = (stream gap frames).take n) :
    match c.ending with
    | .closed => reported path (itemsAt Message.decode c) = .ok { path := path }
    | .failing reason => reported path (itemsAt Message.decode c) = .error (.source reason) := by
  obtain ⟨before, after, gaps, hframes, hgaps, hle, htake⟩ := take_not_splits hgap hsplits
  rw [htake] at h
  obtain ⟨c', hr, he, hreported⟩ :=
    reported_run path hgap (no_summary_before hnone hframes hle) h
  have hitems := itemsAt_gaps Message.decode (c := c') (by rw [hr]; exact hgaps)
  rw [he] at hitems
  rw [hreported]
  cases hend : c.ending with
  | closed =>
    rw [hend] at hitems
    rw [hitems]
    exact reported_nil
  | failing reason =>
    rw [hend] at hitems
    rw [hitems]
    exact reported_fault

/-- Where the source fails before the first summary of a stream ends, that failure is reported: it
is never passed over. -/
theorem reported_failing (hgap : ∀ b ∈ gap, isGap b = true)
    (hnone : ∀ f, ¬ SummaryWithin gap frames n f) (path : String) {c : Cursor} {reason : String}
    (he : c.ending = .failing reason) (h : c.rest = (stream gap frames).take n) :
    reported path (itemsAt Message.decode c) = .error (.source reason) := by
  by_cases hsplits : SplitsMessage gap frames n
  · have hfail := reported_splits hgap hnone hsplits path h
    rw [he] at hfail
    exact hfail
  · have hfail := reported_not_splits hgap hnone hsplits path h
    rw [he] at hfail
    exact hfail

/-- The output of a backup run that is cut at any byte reports its first summary if that is whole
before the cut; else it is refused if the cut lies inside a message, and holds the path only if it
does not. -/
theorem ofOutput_take (hgap : ∀ b ∈ gap, isGap b = true) (n : Nat) (path : String) :
    (∀ f, SummaryWithin gap frames n f →
      (ofOutput path ((stream gap frames).take n)).value = .ok (f.message.toSnapshot path)) ∧
    ((∀ f, ¬ SummaryWithin gap frames n f) →
      (SplitsMessage gap frames n →
        ∃ cause p, (ofOutput path ((stream gap frames).take n)).value =
          .error (.decode cause p)) ∧
      (¬ SplitsMessage gap frames n →
        (ofOutput path ((stream gap frames).take n)).value = .ok { path := path })) := by
  rw [ofOutput_value]
  refine ⟨?_, fun hnone => ?_⟩
  · rintro f ⟨before, after, hframes, hprogress, hf, hn⟩
    have htake : (stream gap frames).take n = run gap (before ++ [f]) ++
        (stream f.gap after).take (n - (run gap (before ++ [f])).length) := by
      rw [hframes, stream_append, List.take_append, List.take_of_length_le hn]
    exact reported_found hgap hprogress hf htake
  · exact ⟨fun hsplits => reported_splits (c := .ofReads _ .closed) hgap hnone hsplits path rfl,
      fun hsplits => reported_not_splits (c := .ofReads _ .closed) hgap hnone hsplits path rfl⟩

/-- An empty message, a newline, and a summary as a list of one entry: the cut lies behind its
closing bracket. -/
theorem ofOutput_take_summary : (∀ b ∈ [(0x20 : UInt8)], isGap b = true) ∧
    ∃ frames : List (Frame Message.decode),
      (stream [0x20] frames).take 15 = [0x20, 0x7B, 0x7D, 0x0A, 0x5B, 0x22, 0x73, 0x75, 0x6D, 0x6D,
        0x61, 0x72, 0x79, 0x22, 0x5D] ∧
      (ofOutput "/srv" ((stream [0x20] frames).take 15)).value =
        .ok (({ kind := "summary" } : Message).toSnapshot "/srv") := by
  have hgap : ∀ b ∈ [(0x20 : UInt8)], isGap b = true := by simp [isGap]
  have hnewline : ∀ b ∈ [(0x0A : UInt8)], isGap b = true := by simp [isGap]
  have hempty : Spells Message.decode [0x7B, 0x7D] {} :=
    spells_of_decodeWhole delimited_message (by simp [isGap]) (by simp [isGap])
      (by decide +kernel)
  have hsummary : Spells Message.decode
      [0x5B, 0x22, 0x73, 0x75, 0x6D, 0x6D, 0x61, 0x72, 0x79, 0x22, 0x5D] { kind := "summary" } :=
    spells_of_decodeWhole delimited_message (by simp [isGap]) (by simp [isGap])
      (by decide +kernel)
  refine ⟨hgap, [⟨_, _, [0x0A], hempty, hnewline⟩, ⟨_, _, [0x20], hsummary, hgap⟩], rfl, ?_⟩
  refine (ofOutput_take hgap 15 "/srv").1 _ ⟨[_], [], rfl, ?_, rfl, ?_⟩
  · intro g hg
    rw [List.mem_singleton.1 hg]
    rfl
  · exact Nat.le_refl 15

end Snapshot

end BackupReport
