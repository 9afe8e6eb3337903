import BackupReport.Proofs.Decoder.Closing
import BackupReport.Proofs.Decoder.Gaps

/-!
# The items of a stream

What a stream hands out from a cursor on is what its next message says: the message and then the
items behind it, nothing, or a fault (`itemsAt_message`, `itemsAt_end`, `itemsAt_fault`).  These
three equations are all that is used of a stream.

Messages are assumed to be *delimited*: the decoder is built from the steps, takes a byte, and what
it accepts shows its own end.  Records are (`delimited_record`).
-/

namespace BackupReport.Json

open Decoder

variable {α ρ : Type}

/-! ## Delimited messages -/

/-- A decoder of values that show their own end, and by their first byte say that they do. -/
structure Delimited (decode : Decoder α) : Prop where
  built : Built decode
  consumes : Consumes decode
  closes : Closes decode
  lead : ∀ {c c' c₁ : Cursor} {a : α} {b : UInt8}, decode c = .ok (a, c') →
    gap c = .ok (some b, c₁) → (Lead.of b).delimited = true

theorem delimited_record {fields : List (Field ρ)} (name : String)
    (h : ∀ field ∈ fields, Built field.decode) (r : ρ) : Delimited (record name fields r) where
  built := built_record name h r
  consumes := consumes_record name h r
  closes := closes_record name h r
  lead := by
    intro c c' c₁ a b hok hg
    simp only [record, onLead] at hok
    rw [bind_of_ok hg] at hok
    dsimp only at hok
    cases hl : Lead.of b with
    | object => rfl
    | list => rfl
    | _ =>
      simp only [hl] at hok
      exact absurd hok (refuses_refuseValue _ c₁ a c')

/-- The messages of a backup run are delimited. -/
theorem delimited_message : Delimited Message.decode := by
  refine delimited_record _ ?_ _
  intro field hfield
  simp only [Message.fields, List.mem_cons, List.not_mem_nil, or_false] at hfield
  rcases hfield with rfl | rfl | rfl | rfl | rfl | rfl | rfl | rfl | rfl
  · exact built_field (built_nullAsDefault built_string) _
  · exact built_field (built_optional built_signed) _
  · exact built_field (built_optional built_signed) _
  · exact built_field (built_optional built_signed) _
  · exact built_field (built_nullAsDefault built_unsigned) _
  · exact built_field (built_optional built_signed) _
  · exact built_field (built_nullAsDefault built_unsigned) _
  · exact built_field (built_nullAsDefault built_double) _
  · exact built_field (built_nullAsDefault built_string) _

/-! ## One message -/

theorem built_scalarEnd : Built scalarEnd := by
  refine .bind .peek fun r => ?_
  cases r with
  | none => exact .pure ()
  | some b =>
    dsimp only
    split
    · exact .pure ()
    · exact .refuseNext _

theorem built_message? {decode : Decoder α} (h : Built decode) : Built (message? decode) := by
  refine .bind built_gap fun r => ?_
  cases r with
  | none => exact .pure none
  | some b =>
    refine .bind h fun a => ?_
    split
    · exact .pure _
    · exact .bind built_scalarEnd fun _ => .pure _

variable {decode : Decoder α}

theorem message?_end {c c₁ : Cursor} (hg : gap c = .ok (none, c₁)) :
    message? decode c = .ok (none, c₁) := bind_of_ok hg

theorem message?_some (hd : Delimited decode) {c c₁ c' : Cursor} {b : UInt8} {a : α}
    (hg : gap c = .ok (some b, c₁)) (h : decode c₁ = .ok (a, c')) :
    message? decode c = .ok (some a, c') := by
  simp only [message?]
  rw [bind_of_ok hg]
  dsimp only
  rw [bind_of_ok h, if_pos (hd.lead h (gap_again hg))]
  rfl

theorem message?_error {c c₁ : Cursor} {b : UInt8} {f : Fault} (hg : gap c = .ok (some b, c₁))
    (h : decode c₁ = .error f) : message? decode c = .error f := by
  simp only [message?]
  rw [bind_of_ok hg]
  exact bind_of_error h

/-- A message is read behind a gap; at the end of the stream there is nothing but a gap. -/
theorem message?_ok (hd : Delimited decode) {c c' : Cursor} {r : Option α}
    (h : message? decode c = .ok (r, c')) :
    (r = none ∧ gap c = .ok (none, c')) ∨
      ∃ a b c₁, r = some a ∧ gap c = .ok (some b, c₁) ∧ decode c₁ = .ok (a, c') := by
  obtain ⟨l, c₁, hg, h⟩ := bind_ok h
  cases l with
  | none =>
    obtain ⟨rfl, rfl⟩ := pure_ok h
    exact .inl ⟨rfl, hg⟩
  | some b =>
    obtain ⟨a, c₂, ha, h⟩ := bind_ok h
    rw [if_pos (hd.lead ha (gap_again hg))] at h
    obtain ⟨rfl, rfl⟩ := pure_ok h
    exact .inr ⟨a, b, c₁, rfl, hg, ha⟩

/-- A message takes a byte if its decoder does. -/
theorem message?_length (hconsumes : Consumes decode) {c c' : Cursor} {a : α}
    (h : message? decode c = .ok (some a, c')) : c'.rest.length < c.rest.length := by
  obtain ⟨l, c₁, hg, h⟩ := bind_ok h
  refine Nat.lt_of_lt_of_le ?_ (built_gap.length_le hg)
  cases l with
  | none => cases (pure_ok h).1
  | some b =>
    refine (hconsumes.bind fun a => ?_) c₁ _ c' h
    split
    · exact .pure _
    · exact .bind built_scalarEnd fun _ => .pure _

/-- More bytes behind a message do not change it. -/
theorem message?_extend (hd : Delimited decode) {c c' : Cursor} {a : α}
    (h : message? decode c = .ok (some a, c')) (more : List UInt8) (e : Ending) :
    message? decode (c.extend more e) = .ok (some a, c'.extend more e) := by
  rcases message?_ok hd h with ⟨hnone, -⟩ | ⟨a', b, c₁, ha', hg, ha⟩
  · cases hnone
  · cases ha'
    obtain ⟨rest, hrest⟩ := announces_gap c b c₁ hg
    exact message?_some hd (built_gap.extend_ok hg (.inl (by simp [hrest])) more e)
      (hd.closes.extend_ok ha more e)

/-! ## Items -/

/-- The items of a stream from a cursor on. -/
def itemsAt (decode : Decoder α) (c : Cursor) : List (Except Fault α) :=
  Messages.items decode ⟨c, false⟩

theorem drainOver_failed (bound : List UInt8) (c : Cursor) :
    (Messages.drainOver decode bound ⟨c, true⟩).1 = [] := by
  cases bound <;> rfl

/-- The bound does not matter once it is as long as the bytes to come. -/
theorem drainOver_eq (hd : Delimited decode) (bound bound' : List UInt8) (c : Cursor)
    (hb : c.rest.length ≤ bound.length) (hb' : c.rest.length ≤ bound'.length) :
    (Messages.drainOver decode bound ⟨c, false⟩).1 =
      (Messages.drainOver decode bound' ⟨c, false⟩).1 := by
  induction bound generalizing bound' c with
  | nil =>
    simp only [Messages.drainOver, Messages.next]
    cases bound' with
    | nil => rfl
    | cons b bound' =>
      simp only [Messages.drainOver, Messages.next]
      cases hm : (message? decode).run c with
      | error f => simp [drainOver_failed]
      | ok r =>
        obtain ⟨_ | a, c'⟩ := r
        · simp
        · have hlt := message?_length hd.consumes hm
          simp only [List.length_nil] at hb
          omega
  | cons b bound ih =>
    simp only [Messages.drainOver, Messages.next]
    cases hm : (message? decode).run c with
    | error f =>
      cases bound' <;> simp [Messages.drainOver, Messages.next, hm, drainOver_failed]
    | ok r =>
      obtain ⟨_ | a, c'⟩ := r
      · cases bound' <;> simp [Messages.drainOver, Messages.next, hm]
      · have hlt := message?_length hd.consumes hm
        cases bound' with
        | nil =>
          simp only [List.length_nil] at hb'
          omega
        | cons b' bound' =>
          simp only [List.length_cons] at hb hb'
          have := ih bound' c' (by omega) (by omega)
          simp [Messages.drainOver, Messages.next, hm, this]

theorem itemsAt_message (hd : Delimited decode) {c c' : Cursor} {a : α}
    (h : message? decode c = .ok (some a, c')) :
    itemsAt decode c = .ok a :: itemsAt decode c' := by
  have hlt := message?_length hd.consumes h
  have hrun : (message? decode).run c = .ok (some a, c') := h
  unfold itemsAt Messages.items Messages.drain
  cases hr : c.rest with
  | nil => simp [hr] at hlt
  | cons b rest =>
    rw [hr, List.length_cons] at hlt
    simp only [Messages.drainOver, Messages.next, hrun]
    simp [drainOver_eq hd rest c'.rest c' (by omega) (Nat.le_refl _)]

theorem itemsAt_end {c c' : Cursor} (h : message? decode c = .ok (none, c')) :
    itemsAt decode c = [] := by
  have hrun : (message? decode).run c = .ok (none, c') := h
  unfold itemsAt Messages.items Messages.drain
  cases c.rest <;> simp [Messages.drainOver, Messages.next, hrun]

theorem itemsAt_fault {c : Cursor} {f : Fault} (h : message? decode c = .error f) :
    itemsAt decode c = [.error f] := by
  have hrun : (message? decode).run c = .error f := h
  unfold itemsAt Messages.items Messages.drain
  cases c.rest <;> simp [Messages.drainOver, Messages.next, hrun, drainOver_failed]

/-- The items of a stream are those of its next message and of what is behind it. -/
theorem itemsAt_congr (hd : Delimited decode) {c c' : Cursor}
    (h : message? decode c = message? decode c') : itemsAt decode c = itemsAt decode c' := by
  cases hm : message? decode c with
  | error f => rw [itemsAt_fault hm, itemsAt_fault (h ▸ hm)]
  | ok r =>
    obtain ⟨_ | a, c₁⟩ := r
    · rw [itemsAt_end hm, itemsAt_end (h ▸ hm)]
    · have hm' : message? decode c' = .ok (some a, c₁) := h ▸ hm
      rw [itemsAt_message hd hm, itemsAt_message hd hm']

/-- A source is read as its reachable bytes before its ending, whatever the size of the reads. -/
theorem Source.cursor_eq (s : Source) : s.cursor = .ofReads s.reachable s.ending := by
  rw [Source.cursor, Source.flatten_reads]

/-- A fact about the items of a stream may be assumed of the stream behind a message. -/
theorem stream_induction (hd : Delimited decode) {P : Cursor → Prop}
    (h : ∀ c, (∀ a c', message? decode c = .ok (some a, c') → P c') → P c) (c : Cursor) : P c := by
  induction hn : c.rest.length using Nat.strongRecOn generalizing c with
  | ind n ih =>
    refine h c fun a c' hm => ih c'.rest.length ?_ c' rfl
    rw [← hn]
    exact message?_length hd.consumes hm

end BackupReport.Json
