import BackupReport.Proofs.Decoder.Transfer
import BackupReport.Proofs.Stream.Items

/-!
# Streams as they are written

A stream is written as messages with gaps before, between and behind them.  A `Frame` is a message
with the text that spells it and the gap behind it; `stream` puts frames together.  Wherever such a
text stands, its messages are read one after the other (`itemsAt_run`), and a text that breaks off
inside a message is not read as one (`Spells.decode_cut`).

A message is spelled by every text that decodes as a whole without a gap around it
(`spells_of_decodeWhole`), and nothing else is ever read as a message (`exists_spells`).
-/

namespace BackupReport.Json

open Decoder

variable {α : Type} {decode : Decoder α}

/-! ## Frames -/

/-- A text spells a message: it starts with the message and ends with it. -/
def Spells (decode : Decoder α) (text : List UInt8) (a : α) : Prop :=
  (∀ b ∈ text.head?, isGap b = false) ∧
    ∃ c, decode (.ofReads text .closed) = .ok (a, c) ∧ c.rest = []

/-- A message of a stream: the text that spells it, what it says, and the gap behind it. -/
structure Frame (decode : Decoder α) where
  text : List UInt8
  message : α
  gap : List UInt8
  spells : Spells decode text message
  gaps : ∀ b ∈ gap, isGap b = true

/-- The text of some messages behind a gap, up to the end of the last message. -/
def run (gap : List UInt8) : List (Frame decode) → List UInt8
  | [] => []
  | f :: later => gap ++ f.text ++ run f.gap later

/-- The gap behind the last of some messages. -/
def lastGap (gap : List UInt8) : List (Frame decode) → List UInt8
  | [] => gap
  | f :: later => lastGap f.gap later

/-- The text of some messages behind a gap, with the gap behind the last message. -/
def stream (gap : List UInt8) (frames : List (Frame decode)) : List UInt8 :=
  run gap frames ++ lastGap gap frames

theorem stream_cons (gap : List UInt8) (f : Frame decode) (later : List (Frame decode)) :
    stream gap (f :: later) = gap ++ f.text ++ stream f.gap later := by
  simp only [stream, run, lastGap, List.append_assoc]

theorem run_append (gap : List UInt8) (before after : List (Frame decode)) :
    run gap (before ++ after) = run gap before ++ run (lastGap gap before) after := by
  induction before generalizing gap with
  | nil => rfl
  | cons f before ih =>
    rw [List.cons_append, run, ih, run, lastGap]
    simp only [List.append_assoc]

theorem run_concat (gap : List UInt8) (before : List (Frame decode)) (f : Frame decode) :
    run gap (before ++ [f]) = stream gap before ++ f.text := by
  rw [run_append, stream]
  simp only [run, List.append_nil, List.append_assoc]

theorem stream_append (gap : List UInt8) (before : List (Frame decode)) (f : Frame decode)
    (after : List (Frame decode)) :
    stream gap (before ++ f :: after) = run gap (before ++ [f]) ++ stream f.gap after := by
  induction before generalizing gap with
  | nil => rw [List.nil_append, stream_cons, List.nil_append, run, run, List.append_nil]
  | cons g before ih =>
    rw [List.cons_append, stream_cons, ih, List.cons_append, run]
    simp only [List.append_assoc]

theorem lastGap_gaps {gap : List UInt8} (hgap : ∀ b ∈ gap, isGap b = true)
    (frames : List (Frame decode)) : ∀ b ∈ lastGap gap frames, isGap b = true := by
  induction frames generalizing gap with
  | nil => exact hgap
  | cons f later ih => exact ih f.gaps

/-! ## Reading a message -/

namespace Spells

variable {text : List UInt8} {a : α}

/-- A text that spells a message starts with a byte that is no gap. -/
theorem exists_cons (hd : Delimited decode) (h : Spells decode text a) :
    ∃ b rest, text = b :: rest ∧ isGap b = false := by
  obtain ⟨hhead, c, hc, -⟩ := h
  have hlt := hd.consumes _ a c hc
  cases text with
  | nil => exact absurd hlt (Nat.not_lt_zero _)
  | cons b rest => exact ⟨b, rest, rfl, hhead b rfl⟩

/-- A text that spells a message is read as that message wherever it stands. -/
theorem decode_eq (hd : Delimited decode) (h : Spells decode text a) {c : Cursor}
    {more : List UInt8} (hr : c.rest = text ++ more) :
    ∃ c', decode c = .ok (a, c') ∧ c'.rest = more ∧ c'.ending = c.ending := by
  obtain ⟨-, c₀, hc₀, hnil⟩ := h
  have hext := hd.closes.extend_ok hc₀ more c.ending
  obtain ⟨c', hc', hrest⟩ := hd.built.transfer_ok hext hr rfl
  refine ⟨c', hc', ?_, hd.built.ending_eq hc'⟩
  rw [hrest, Cursor.extend_rest, hnil, List.nil_append]

/-- A text that breaks off inside a message is no message: the text is refused at its end, or the
source is seen to fail. -/
theorem decode_cut (hd : Delimited decode) (h : Spells decode text a) {c : Cursor}
    {cut : List UInt8} (htext : text = c.rest ++ cut) (hcut : cut ≠ []) :
    match c.ending with
    | .closed => ∃ cause p, decode c = .error (.refused cause p)
    | .failing reason => decode c = .error (.sourceFailed reason) := by
  -- the whole text is read as a message that leaves nothing
  have hwhole : ∃ c', decode (c.extend cut .closed) = .ok (a, c') ∧ c'.rest = [] := by
    have hrest : (c.extend cut .closed).rest = text ++ [] := by
      rw [Cursor.extend_rest, htext, List.append_nil]
    obtain ⟨c', hc', hrest, -⟩ := h.decode_eq hd hrest
    exact ⟨c', hc', hrest⟩
  obtain ⟨c', hc', hnil⟩ := hwhole
  cases hdec : decode c with
  | ok r =>
    obtain ⟨a', c₁⟩ := r
    have hext := hd.closes.extend_ok hdec cut .closed
    rw [hc'] at hext
    cases hext
    exact absurd (List.append_eq_nil_iff.1 hnil).2 hcut
  | error f =>
    rcases hd.built.fault_cases hdec with ⟨cause, p, rfl⟩ | ⟨reason, rfl, hend⟩
    · cases hend : c.ending with
      | closed => exact ⟨cause, p, rfl⟩
      | failing reason =>
        obtain ⟨cause', p', hext, -⟩ :=
          hd.built.extend_refused hdec (by rw [hend]; exact Ending.noConfusion) cut .closed
        rw [hc'] at hext
        cases hext
    · rw [hend]

end Spells

/-- A text that decodes as a whole holds one value and a gap. -/
theorem decodeWhole_ok {text : List UInt8} {a : α} (h : decodeWhole decode text = .ok a) :
    ∃ c c', decode (.ofText text) = .ok (a, c) ∧ gap c = .ok (none, c') := by
  unfold decodeWhole at h
  generalize hrun : StateT.run _ _ = result at h
  cases result with
  | error f => cases h
  | ok r =>
    obtain ⟨a', c'⟩ := r
    cases h
    obtain ⟨a', c, hdec, hrun⟩ := bind_ok hrun
    obtain ⟨r, c₁, hg, hrun⟩ := bind_ok hrun
    cases r with
    | some b => cases hrun
    | none =>
      obtain ⟨rfl, rfl⟩ := pure_ok hrun
      exact ⟨c, c₁, hdec, hg⟩

/-- A text that decodes as a whole spells what it decodes as, if no gap surrounds it. -/
theorem spells_of_decodeWhole (hd : Delimited decode) {text : List UInt8} {a : α}
    (hhead : ∀ b ∈ text.head?, isGap b = false) (hlast : ∀ b ∈ text.getLast?, isGap b = false)
    (h : decodeWhole decode text = .ok a) : Spells decode text a := by
  obtain ⟨c₁, c₂, hdec, hg⟩ := decodeWhole_ok h
  obtain ⟨run, hpass⟩ := hd.built.passes hdec
  have htext : text = run ++ c₁.rest := hpass.1
  have hnil : c₁.rest = [] := by
    cases hl : c₁.rest.getLast? with
    | none => exact List.getLast?_eq_none_iff.1 hl
    | some b =>
      have hb : text.getLast? = some b := by rw [htext, List.getLast?_append, hl, Option.some_or]
      have hgap := gaps_of_gap_none hg b (List.mem_of_getLast? hl)
      rw [hlast b hb] at hgap
      cases hgap
  obtain ⟨c₃, hc₃, hr₃⟩ := hd.built.transfer_ok (c := .ofReads text .closed) hdec rfl rfl
  exact ⟨hhead, c₃, hc₃, hr₃.trans hnil⟩

/-- A message that is read has a text that spells it, behind a gap. -/
theorem exists_spells (hd : Delimited decode) {c c' : Cursor} {a : α}
    (h : message? decode c = .ok (some a, c')) :
    ∃ gap text, (∀ b ∈ gap, isGap b = true) ∧ Spells decode text a ∧
      c.rest = gap ++ text ++ c'.rest := by
  rcases message?_ok hd h with ⟨hnone, -⟩ | ⟨a', b, c₁, ha, hg, hdec⟩
  · cases hnone
  cases ha
  obtain ⟨gaps, hr, hgaps⟩ := gap_ok hg
  obtain ⟨rest, hrest⟩ := announces_gap c b c₁ hg
  obtain ⟨text, hpass⟩ := hd.built.passes hdec
  have hr₁ : c₁.rest = text ++ c'.rest := hpass.1
  refine ⟨gaps, text, hgaps, ⟨?_, ?_⟩, by rw [hr, hr₁, List.append_assoc]⟩
  · intro b' hb'
    have hhead : c₁.rest.head? = some b' := by
      rw [hr₁, List.head?_append, Option.mem_def.1 hb', Option.some_or]
    rw [hrest, List.head?_cons] at hhead
    cases hhead
    exact isGap_of_gap hg
  · -- without what follows it the text is read as it is with it
    have hcut : c₁ =
        ({ c₁ with rest := text, ending := .closed } : Cursor).extend c'.rest c₁.ending := by
      unfold Cursor.extend
      rw [← hr₁]
    rw [hcut] at hdec
    obtain ⟨c₂, hc₂, hc'⟩ := hd.closes.restrict_ok hdec (Nat.le_refl _)
    obtain ⟨c₃, hc₃, hr₃⟩ := hd.built.transfer_ok (c := .ofReads text .closed) hc₂ rfl rfl
    have hnil : c'.rest = c₂.rest ++ c'.rest := congrArg Cursor.rest hc'
    exact ⟨c₃, hc₃, hr₃.trans (List.self_eq_append_left.1 hnil)⟩

/-! ## Reading a stream -/

/-- The next message of a stream is that of the next frame. -/
theorem message?_frame (hd : Delimited decode) (f : Frame decode) {gap more : List UInt8}
    (hgap : ∀ b ∈ gap, isGap b = true) {c : Cursor} (h : c.rest = gap ++ f.text ++ more) :
    ∃ c', message? decode c = .ok (some f.message, c') ∧ c'.rest = more ∧
      c'.ending = c.ending := by
  obtain ⟨b, rest, htext, hb⟩ := f.spells.exists_cons hd
  have h' : c.rest = gap ++ b :: (rest ++ more) := by
    rw [h, htext, List.append_assoc, List.cons_append]
  obtain ⟨c₁, hg, hr₁, he₁⟩ := gap_cons h' hgap hb
  have hr : c₁.rest = f.text ++ more := by rw [hr₁, htext, List.cons_append]
  obtain ⟨c', hc', hr', he'⟩ := f.spells.decode_eq hd hr
  exact ⟨c', message?_some hd hg hc', hr', he'.trans he₁⟩

/-- The messages of a stream are handed out in order, and the stream goes on behind them. -/
theorem itemsAt_run (hd : Delimited decode) (frames : List (Frame decode)) {gap more : List UInt8}
    (hgap : ∀ b ∈ gap, isGap b = true) {c : Cursor} (h : c.rest = run gap frames ++ more) :
    ∃ c', c'.rest = more ∧ c'.ending = c.ending ∧
      itemsAt decode c = (frames.map fun f => .ok f.message) ++ itemsAt decode c' := by
  induction frames generalizing gap c with
  | nil => exact ⟨c, h, rfl, rfl⟩
  | cons f later ih =>
    rw [run, List.append_assoc] at h
    obtain ⟨c₁, hm, hr₁, he₁⟩ := message?_frame hd f hgap h
    obtain ⟨c', hr', he', hitems⟩ := ih f.gaps hr₁
    refine ⟨c', hr', he'.trans he₁, ?_⟩
    rw [itemsAt_message hd hm, hitems]
    rfl

/-- Behind the last message there is nothing, or the failure of the source. -/
theorem itemsAt_gaps (decode : Decoder α) {c : Cursor} (h : ∀ b ∈ c.rest, isGap b = true) :
    itemsAt decode c = match c.ending with
      | .closed => []
      | .failing reason => [.error (.sourceFailed reason)] := by
  have hgap := gap_nil h
  cases he : c.ending with
  | closed =>
    rw [he] at hgap
    obtain ⟨c', hc'⟩ := hgap
    exact itemsAt_end (message?_end hc')
  | failing reason =>
    rw [he] at hgap
    exact itemsAt_fault (bind_of_error hgap)

/-- Inside a message there is a fault: a refusal, or the failure of the source. -/
theorem itemsAt_cut (hd : Delimited decode) (f : Frame decode) {gap part cut : List UInt8}
    (hgap : ∀ b ∈ gap, isGap b = true) (htext : f.text = part ++ cut) (hpart : part ≠ [])
    (hcut : cut ≠ []) {c : Cursor} (h : c.rest = gap ++ part) :
    match c.ending with
    | .closed => ∃ cause p, itemsAt decode c = [.error (.refused cause p)]
    | .failing reason => itemsAt decode c = [.error (.sourceFailed reason)] := by
  obtain ⟨b, rest, htext', hb⟩ := f.spells.exists_cons hd
  obtain ⟨b', rest', rfl⟩ := List.exists_cons_of_ne_nil hpart
  have hbb : b' = b := by
    rw [htext, List.cons_append] at htext'
    exact (List.cons.inj htext').1
  obtain ⟨c₁, hg, hr₁, he₁⟩ := gap_cons h hgap (hbb ▸ hb)
  have hdecode := f.spells.decode_cut hd (c := c₁) (by rw [hr₁]; exact htext) hcut
  rw [he₁] at hdecode
  cases he : c.ending with
  | closed =>
    rw [he] at hdecode
    obtain ⟨cause, p, hdecode⟩ := hdecode
    exact ⟨cause, p, itemsAt_fault (message?_error hg hdecode)⟩
  | failing reason =>
    rw [he] at hdecode
    exact itemsAt_fault (message?_error hg hdecode)

end BackupReport.Json
