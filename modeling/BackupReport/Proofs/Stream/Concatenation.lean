import Mathlib.Control.Monad.Basic
import BackupReport.Proofs.Decoder.Places
import BackupReport.Proofs.Stream.Items

/-!
# Streams one after the other

Where a stream of messages ends without a fault, nothing of it is left behind: another stream put
after it is read as if it stood alone, with its faults moved by the bytes before
(`items_append`).  Neither a byte that was only looked at, nor what was counted of lines and
columns, nor a gap that lies across the seam makes a difference.
-/

namespace BackupReport.Json

open Decoder

variable {α : Type} {decode : Decoder α}

/-! ## The seam -/

/-- A gap that reaches the end of a text goes on into what is put behind it. -/
theorem gap_seam {c : Cursor} (h : ∀ b ∈ c.rest, isGap b = true) (he : c.ending = .closed)
    (more : List UInt8) : gap (c.extend more .closed) = gap (c.pass c.rest more) := by
  have hs : span isGap (c.extend more .closed) = .ok (c.rest ++ more.takeWhile isGap,
      (c.pass c.rest more).pass (more.takeWhile isGap) (more.dropWhile isGap)) := by
    simp [span, Cursor.extend, Cursor.pass, List.takeWhile_append_of_pos h,
      List.dropWhile_append_of_pos h, List.foldl_append, he]
  have hs' : span isGap (c.pass c.rest more) = .ok (more.takeWhile isGap,
      (c.pass c.rest more).pass (more.takeWhile isGap) (more.dropWhile isGap)) := rfl
  unfold gap
  rw [bind_of_ok hs, bind_of_ok hs']

/-- The items of a stream behind which more bytes are put are its own and then those of these bytes,
read from where the stream ended. -/
theorem itemsAt_extend (hd : Delimited decode) (c : Cursor) (he : c.ending = .closed)
    (h : ∀ item ∈ itemsAt decode c, item.isOk = true) (more : List UInt8) :
    itemsAt decode (c.extend more .closed) =
      itemsAt decode c ++ itemsAt decode (c.pass c.rest more) := by
  induction c using stream_induction hd with
  | _ c ih =>
    cases hm : message? decode c with
    | error f =>
      rw [itemsAt_fault hm] at h
      cases h _ List.mem_cons_self
    | ok r =>
      obtain ⟨_ | a, c'⟩ := r
      · rcases message?_ok hd hm with ⟨-, hg⟩ | ⟨a, b, c₁, hnone, -, -⟩
        · rw [itemsAt_end hm, List.nil_append]
          refine itemsAt_congr hd ?_
          unfold message?
          have hseam := gap_seam (gaps_of_gap_none hg) he more
          simp only [bind, StateT.bind, hseam]
        · cases hnone
      · have hcons := itemsAt_message hd hm
        rw [hcons] at h
        obtain ⟨run, hr, hp, hend, hbuf⟩ := (built_message? hd.built).passes hm
        have hseam : c'.pass c'.rest more = c.pass c.rest more := by
          simp only [Cursor.pass, hr, hp, hend, hbuf, List.foldl_append]
        rw [itemsAt_message hd (message?_extend hd hm more .closed), hcons, List.cons_append,
          ih a c' hm (hend.trans he) (fun item hitem => h item (List.mem_cons_of_mem _ hitem)),
          hseam]

/-! ## Behind other bytes -/

/-- An item at the place behind a text. -/
def moved (bytes : List UInt8) : Except Fault α → Except Fault α
  | .ok a => .ok a
  | .error f => .error (f.behind bytes)

/-- The items of a stream that stands behind other bytes are its own, moved by these. -/
theorem itemsAt_behind (hd : Delimited decode) (c : Cursor) (hc : c.Placed) (bytes : List UInt8) :
    itemsAt decode (c.behind bytes) = (itemsAt decode c).map (moved bytes) := by
  induction c using stream_induction hd with
  | _ c ih =>
    cases hm : message? decode c with
    | error f =>
      rw [itemsAt_fault hm, itemsAt_fault ((built_message? hd.built).behind_error hc hm bytes)]
      rfl
    | ok r =>
      obtain ⟨r, c'⟩ := r
      obtain ⟨hc', hm'⟩ := (built_message? hd.built).behind_ok hc hm bytes
      cases r with
      | none =>
        rw [itemsAt_end hm, itemsAt_end hm']
        rfl
      | some a =>
        rw [itemsAt_message hd hm, itemsAt_message hd hm', ih a c' hm hc']
        rfl

/-! ## Whole streams -/

/-- The items of a stream of messages that is given by its bytes. -/
def items (decode : Decoder α) (bytes : List UInt8) : List (Except Fault α) :=
  (Messages.ofSource (.ofBytes bytes)).items decode

theorem items_eq (decode : Decoder α) (bytes : List UInt8) :
    items decode bytes = itemsAt decode (.ofReads bytes .closed) := by
  unfold items itemsAt Messages.ofSource
  rw [Source.cursor_eq]
  rfl

/-- Streams of delimited messages may be put one after the other: if the first has no fault, the
items are those of the first and then those of the second, the faults of which are moved by the
bytes of the first. -/
theorem items_append_of_delimited (hd : Delimited decode) (first second : List UInt8)
    (h : ∀ item ∈ items decode first, item.isOk = true) :
    items decode (first ++ second) =
      items decode first ++ (items decode second).map (moved first) := by
  rw [items_eq] at h
  simp only [items_eq]
  have hbehind : (Cursor.ofReads first .closed).pass first second =
      (Cursor.ofReads second .closed).behind first := by
    simp only [Cursor.ofReads, Cursor.pass, Cursor.behind, Position.foldl_advance_start]
  have hplaced : (Cursor.ofReads second .closed).Placed := ⟨Nat.le_refl 1, Nat.le_refl 1⟩
  calc itemsAt decode (.ofReads (first ++ second) .closed)
      = itemsAt decode ((Cursor.ofReads first .closed).extend second .closed) := rfl
    _ = itemsAt decode (.ofReads first .closed) ++
        itemsAt decode ((Cursor.ofReads first .closed).pass first second) :=
      itemsAt_extend hd _ rfl h second
    _ = itemsAt decode (.ofReads first .closed) ++
        (itemsAt decode (.ofReads second .closed)).map (moved first) := by
      rw [hbehind, itemsAt_behind hd _ hplaced]

/-- Streams of the messages of a backup run may be put one after the other, at any place in a gap
between them: a stream without faults changes nothing behind it but the places of faults.  A fault
at line `L` and column `C` of the second stream lies as many lines further down as the first has
newlines, and if `L` is one, as many bytes further to the right as follow the last of these. -/
theorem items_append (first second : List UInt8)
    (h : ∀ item ∈ items Message.decode first, item.isOk = true) :
    items Message.decode (first ++ second) =
      items Message.decode first ++ (items Message.decode second).map (moved first) :=
  items_append_of_delimited delimited_message first second h

/-- A list that is not closed, behind a message with a newline and two more bytes. -/
theorem items_append_seam :
    (∀ item ∈ items Message.decode [0x7B, 0x7D, 0x0A, 0x20, 0x09], item.isOk = true) ∧
      items Message.decode ([0x7B, 0x7D, 0x0A, 0x20, 0x09] ++ [0x20, 0x5B]) =
        [.ok {}, .error (.refused .endOfList ⟨2, 4⟩)] := by
  have hfirst : items Message.decode [0x7B, 0x7D, 0x0A, 0x20, 0x09] = [.ok {}] := by
    decide +kernel
  have hsecond : items Message.decode [0x20, 0x5B] = [.error (.refused .endOfList ⟨1, 2⟩)] := by
    decide +kernel
  have hok : ∀ item ∈ items Message.decode [0x7B, 0x7D, 0x0A, 0x20, 0x09], item.isOk = true := by
    rw [hfirst]
    decide
  refine ⟨hok, ?_⟩
  rw [items_append _ _ hok, hfirst, hsecond]
  rfl

end BackupReport.Json
