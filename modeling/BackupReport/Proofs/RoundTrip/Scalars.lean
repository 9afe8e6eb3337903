import BackupReport.Json.Pretty
import BackupReport.Proofs.Decoder.Gaps
import BackupReport.Proofs.Decoder.Targets

/-!
# Written scalars

A value is written as a text that may stand behind a gap and before a comma or the end of a line;
`Reads` says that a decoder takes exactly this text from such a place, and what it makes of it.
Here this is shown of truth values (`reads_boolean`), and of a value that may be missing if it is
shown of the value (`Reads.optional`).
-/

namespace BackupReport.Json

open Decoder

variable {α β : Type}

/-! ## Texts and what stands around them -/

/-- What stands behind a value inside another one: a comma or the end of a line. -/
def Ends (rest : List UInt8) : Prop := ∃ b later, rest = b :: later ∧ (b = 0x2C ∨ b = 0x0A)

/-- A decoder reads a value from the text that it is written as, whatever gap stands before it. -/
structure Reads (decode : Decoder α) (text : List Char) (a : α) : Prop where
  lead : ∃ b later, Utf8.encode text = b :: later ∧ Lead.of b ≠ .null ∧ Lead.of b ≠ .other
  run : ∀ {c : Cursor} {gaps rest : List UInt8}, (∀ b ∈ gaps, isGap b = true) →
    c.rest = gaps ++ Utf8.encode text ++ rest → Ends rest →
      ∃ c', decode c = .ok (a, c') ∧ c'.rest = rest

theorem encode_append (cs ds : List Char) :
    Utf8.encode (cs ++ ds) = Utf8.encode cs ++ Utf8.encode ds := List.flatMap_append

theorem encode_cons (x : Char) (cs : List Char) :
    Utf8.encode (x :: cs) = Utf8.encodeChar x ++ Utf8.encode cs := List.flatMap_cons

/-- A character below U+0080 is written as one byte. -/
theorem encode_ascii {x : Char} (h : x.toNat < 0x80) (cs : List Char) :
    Utf8.encode (x :: cs) = UInt8.ofNat x.toNat :: Utf8.encode cs := by
  rw [encode_cons, Utf8.encodeChar, if_pos h]
  rfl

/-- What announces a value is no gap. -/
theorem isGap_of_lead {b : UInt8} (h : Lead.of b ≠ .other) : isGap b = false := by
  rw [Bool.eq_false_iff]
  intro hgap
  simp only [isGap, Bool.or_eq_true, beq_iff_eq] at hgap
  rcases hgap with ((rfl | rfl) | rfl) | rfl <;> exact h (by decide)

/-- A value is decoded as its first byte demands. -/
theorem onLead_eq {c : Cursor} {gaps later : List UInt8} {b : UInt8}
    (hgaps : ∀ b ∈ gaps, isGap b = true) (h : c.rest = gaps ++ b :: later)
    (hb : Lead.of b ≠ .other) :
    ∃ c', c'.rest = b :: later ∧
      ∀ decode : Lead → Decoder α, onLead decode c = decode (Lead.of b) c' := by
  obtain ⟨c', hg, hr, -⟩ := gap_cons h hgaps (isGap_of_lead hb)
  refine ⟨c', hr, fun decode => ?_⟩
  unfold onLead
  rw [bind_of_ok hg]

theorem next_cons {c : Cursor} {b : UInt8} {rest : List UInt8} (h : c.rest = b :: rest) :
    next c = .ok (some b, c.pass [b] rest) := by
  simp only [next, h]

theorem peek_cons {c : Cursor} {b : UInt8} {rest : List UInt8} (h : c.rest = b :: rest) :
    ∃ c', peek c = .ok (some b, c') ∧ c'.rest = b :: rest := by
  refine ⟨c.look b, ?_, by rw [Cursor.look_rest, h]⟩
  simp only [peek, h]

/-- A value is read behind the byte that announces it. -/
theorem Reads.behind_lead {decode : Lead → Decoder α} {d : Decoder α} {text : List Char} {b : UInt8}
    {inner : List UInt8} {a : α} (htext : Utf8.encode text = b :: inner)
    (hnull : Lead.of b ≠ .null) (hother : Lead.of b ≠ .other)
    (hdecode : decode (Lead.of b) = eat >>= fun _ => d)
    (hd : ∀ {c : Cursor} {rest : List UInt8}, c.rest = inner ++ rest → Ends rest →
      ∃ c', d c = .ok (a, c') ∧ c'.rest = rest) :
    Reads (onLead decode) text a where
  lead := ⟨b, inner, htext, hnull, hother⟩
  run := by
    intro c gaps rest hgaps h hends
    rw [List.append_assoc, htext, List.cons_append] at h
    obtain ⟨c₁, hr₁, hlead⟩ := onLead_eq hgaps h hother
    obtain ⟨c', hrun, hr'⟩ := hd (c := c₁.pass [b] (inner ++ rest)) rfl hends
    refine ⟨c', ?_, hr'⟩
    rw [hlead, hdecode]
    exact (bind_of_ok (eat_cons hr₁)).trans hrun

/-! ## Truth values and missing values -/

/-- The letters of a word are taken one after the other. -/
theorem word_run (letters : List UInt8) {c : Cursor} {rest : List UInt8}
    (h : c.rest = letters ++ rest) : ∃ c', word letters c = .ok ((), c') ∧ c'.rest = rest := by
  induction letters generalizing c with
  | nil => exact ⟨c, rfl, h⟩
  | cons b later ih =>
    obtain ⟨c', hc', hr⟩ := ih (c := c.pass [b] (later ++ rest)) rfl
    refine ⟨c', ?_, hr⟩
    simp only [word]
    rw [bind_of_ok (next_cons h)]
    dsimp only
    rw [if_pos rfl]
    exact hc'

theorem reads_boolean (level : Nat) (b : Bool) :
    Reads boolean (Pretty.value level (.boolean b)) b := by
  cases b with
  | true =>
    refine .behind_lead (b := 0x74) rfl (by decide) (by decide) rfl fun h _ => ?_
    obtain ⟨c', hword, hr⟩ := word_run restOfTrue h
    exact ⟨c', bind_of_ok hword, hr⟩
  | false =>
    refine .behind_lead (b := 0x66) rfl (by decide) (by decide) rfl fun h _ => ?_
    obtain ⟨c', hword, hr⟩ := word_run restOfFalse h
    exact ⟨c', bind_of_ok hword, hr⟩

/-- A value that is there is read as itself where it may be missing, for it is not `null`. -/
theorem Reads.optional {decode : Decoder α} {text : List Char} {a : α} (h : Reads decode text a) :
    Reads (optional decode) text (some a) where
  lead := h.lead
  run := by
    intro c gaps rest hgaps hc hends
    obtain ⟨b, later, htext, hnull, hother⟩ := h.lead
    have hc' : c.rest = gaps ++ b :: (later ++ rest) := by
      rw [hc, htext, List.append_assoc, List.cons_append]
    obtain ⟨c₁, hg, hr₁, -⟩ := gap_cons hc' hgaps (isGap_of_lead hother)
    have hr₁' : c₁.rest = [] ++ Utf8.encode text ++ rest := by
      rw [hr₁, htext, List.nil_append, List.cons_append]
    obtain ⟨c', hd, hr'⟩ := h.run (List.forall_mem_nil _) hr₁' hends
    refine ⟨c', ?_, hr'⟩
    unfold Json.optional
    rw [bind_of_ok hg, if_neg (by simpa using hnull), ← bind_pure_comp]
    exact bind_of_ok hd

/-- A value is read and set as it is read. -/
theorem Reads.map {decode : Decoder α} {text : List Char} {a : α} (h : Reads decode text a)
    (g : α → β) : Reads (g <$> decode) text (g a) where
  lead := h.lead
  run := by
    intro c gaps rest hgaps hc hends
    obtain ⟨c', hd, hr'⟩ := h.run hgaps hc hends
    refine ⟨c', ?_, hr'⟩
    rw [← bind_pure_comp]
    exact bind_of_ok hd

end BackupReport.Json
