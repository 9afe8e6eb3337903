import BackupReport.Proofs.Grammar.Series
import BackupReport.Proofs.Grammar.Strings
import BackupReport.Proofs.Skipping.Values

/-!
# The grammar of values

How a value is written, to any depth (`IsValue`).  A value of this form is passed over wherever it
stands, up to its end (`IsValue.passed`), by an induction with one case for each form; the lists and
objects are walked entry by entry (`walks_listed`, `walks_members`).
-/

namespace BackupReport.Json

open Decoder Skip

/-! ## How a value is written -/

/-- A member of an object as it is written: what stands between the quotes of its key, and its
value. -/
structure Member where
  key : List UInt8
  value : List UInt8

/-- A member is a key between quotes, a colon and a value, with gaps around the colon. -/
inductive Member.Writes (m : Member) : List UInt8 → Prop
  | intro {g g' : List UInt8} : Gap g → Gap g' →
      m.Writes (0x22 :: (m.key ++ 0x22 :: (g ++ 0x3A :: (g' ++ m.value))))

/-- A value as it is written. -/
inductive IsValue : List UInt8 → Prop
  | null : IsValue (0x6E :: restOfNull)
  | yes : IsValue (0x74 :: restOfTrue)
  | no : IsValue (0x66 :: restOfFalse)
  | number {m : Numeral} {text : List UInt8} : m.Written text → IsValue text
  | string {text : List UInt8} : Text.Body text → IsValue (0x22 :: (text ++ [0x22]))
  | list {es : List (List UInt8)} {text : List UInt8} : Series Eq 0x5D true es text →
      (∀ e ∈ es, IsValue e) → IsValue (0x5B :: text)
  | object {ms : List Member} {text : List UInt8} : Series Member.Writes 0x7D true ms text →
      (∀ m ∈ ms, Text.Body m.key) → (∀ m ∈ ms, IsValue m.value) → IsValue (0x7B :: text)

/-- A member whose key and value have their form. -/
structure Member.Formed (m : Member) : Prop where
  key : Text.Body m.key
  value : IsValue m.value

/-- An object with the given members as it is written. -/
inductive ObjectText (ms : List Member) : List UInt8 → Prop
  | intro {text : List UInt8} : Series Member.Writes 0x7D true ms text →
      ObjectText ms (0x7B :: text)

/-- The member with a key and a value that are written as they are given. -/
def Member.plain (key value : String) : Member :=
  ⟨Utf8.encode key.toList, Utf8.encode value.toList⟩

/-- A member without gaps around its colon. -/
def Member.text (m : Member) : List UInt8 := 0x22 :: (m.key ++ 0x22 :: 0x3A :: m.value)

/-- An object may be written without any gaps. -/
theorem ObjectText.of_compact {ms : List Member} {o : List UInt8}
    (h : o = 0x7B :: compact Member.text 0x7D true ms) : ObjectText ms o := by
  have hwrites : ∀ m : Member, m.Writes m.text :=
    fun _ => .intro (List.forall_mem_nil _) (List.forall_mem_nil _)
  rw [h]
  exact .intro (.of_compact hwrites true ms)

theorem isValue_zero : IsValue [0x30] :=
  .number (m := ⟨false, [0x30], none, none⟩) (.plain rfl (.intro .zero .absent .absent))

/-- A key that is half of a pair is the key of a member, and spells no text. -/
theorem Member.formed_half : (Member.plain "\\ud800" "0").Formed ∧
    ∀ s, ¬ Text.Spells (Member.plain "\\ud800" "0").key s := by
  have hkey : (Member.plain "\\ud800" "0").key = [0x5C, 0x75, 0x64, 0x38, 0x30, 0x30] := by
    decide +kernel
  have hvalue : (Member.plain "\\ud800" "0").value = [0x30] := by decide +kernel
  refine ⟨⟨hkey ▸ .number rfl .nil, hvalue ▸ isValue_zero⟩, fun s => ?_⟩
  rw [hkey]
  exact Text.not_spells_half rfl rfl s

theorem ObjectText.value {ms : List Member} {text : List UInt8} (h : ObjectText ms text)
    (hms : ∀ m ∈ ms, m.Formed) : IsValue text := by
  cases h with
  | intro hseries => exact .object hseries (fun m hm => (hms m hm).key) fun m hm => (hms m hm).value

/-- A value shows by its first byte what it is. -/
theorem IsValue.lead {w : List UInt8} (h : IsValue w) :
    ∃ b later, w = b :: later ∧ Lead.of b ≠ .other := by
  cases h with
  | number hm =>
    obtain ⟨b, later, rfl, hb⟩ := hm.lead
    exact ⟨b, later, rfl, (ne_of_lead_number hb).2⟩
  | _ => exact ⟨_, _, rfl, by decide⟩

/-! ## Passing over a value -/

variable {c : Cursor} {g rest text w : List UInt8} {frames : List Skip.Frame}

/-- A text that is passed over as one value, whatever frames and gaps it stands in. -/
def Passed (w : List UInt8) : Prop :=
  ∀ (frames : List Skip.Frame) ⦃c : Cursor⦄ ⦃g rest : List UInt8⦄, Gap g → Stops rest →
    c.rest = g ++ (w ++ rest) →
      ∃ c', Walks (⟨.value, frames⟩, c) (⟨.after, frames⟩, c') ∧ c'.rest = rest

/-- Behind a gap the first byte of a value is found. -/
theorem gap_lead {b : UInt8} {inner : List UInt8} (hb : Lead.of b ≠ .other) (hg : Gap g)
    (h : c.rest = g ++ (b :: inner ++ rest)) :
    ∃ c', gap c = .ok (some b, c') ∧ c'.rest = b :: (inner ++ rest) := by
  obtain ⟨c', hgap, hr, -⟩ := gap_cons h hg (isGap_of_lead hb)
  exact ⟨c', hgap, hr⟩

theorem passed_word (lead : Lead) {b : UInt8} {letters : List UInt8} (hb : Lead.of b = lead)
    (hl : (lead, letters) ∈ [(.null, restOfNull), (.yes, restOfTrue), (.no, restOfFalse)]) :
    Passed (b :: letters) := by
  intro frames c g rest hg _ h
  have hother : Lead.of b ≠ .other := by
    intro hother
    rw [← hb, hother] at hl
    simp at hl
  obtain ⟨c₁, hgap, hr₁⟩ := gap_lead hother hg h
  obtain ⟨c', hword, hr'⟩ := word_run letters (c := c₁.pass [b] (letters ++ rest)) rfl
  exact ⟨c', walks_of_enterValue (enterValue_word hgap hb hl (eat_cons hr₁) hword), hr'⟩

theorem passed_number {m : Numeral} (hm : m.Written w) : Passed w := by
  intro frames c g rest hg hstops h
  obtain ⟨b, inner, rfl, hb⟩ := hm.lead
  obtain ⟨c₁, hgap, hr₁⟩ := gap_lead (ne_of_lead_number hb).2 hg h
  obtain ⟨c', hskip, hr'⟩ := Numeral.skip_ok hm hstops hr₁
  exact ⟨c', walks_of_enterValue (enterValue_number hgap hb hskip), hr'⟩

theorem passed_string (htext : Text.Body text) : Passed (0x22 :: (text ++ [0x22])) := by
  intro frames c g rest hg _ h
  obtain ⟨c₁, hgap, hr₁⟩ := gap_lead (by decide) hg h
  rw [List.append_assoc] at hr₁
  obtain ⟨c', hskip, hr'⟩ :=
    Text.skip_ok htext (c := c₁.pass [0x22] (text ++ ([0x22] ++ rest))) rfl
  exact ⟨c', walks_of_enterValue (enterValue_string hgap (by decide) (eat_cons hr₁) hskip), hr'⟩

/-- The entries of a list are passed over one after the other. -/
theorem walks_listed {first : Bool} {es : List (List UInt8)}
    (hseries : Series Eq 0x5D first es text) (hvalues : ∀ e ∈ es, IsValue e)
    (hpassed : ∀ e ∈ es, Passed e) (h : c.rest = text ++ rest) :
    ∃ c', Walks (⟨inside first, .list :: frames⟩, c) (⟨.after, frames⟩, c') ∧ c'.rest = rest := by
  induction hseries generalizing c with
  | @close first g hg =>
    rw [List.append_assoc] at h
    obtain ⟨c₁, hgap, hr₁, -⟩ := gap_cons h hg (by decide)
    exact ⟨_, walks_close .list hgap (eat_cons hr₁), rfl⟩
  | @entry first e es sep _ later hsep heq hlater ih =>
    subst heq
    obtain ⟨b, inner, he, hb⟩ := (hvalues e List.mem_cons_self).lead
    have hc : c.rest = sep ++ b :: (inner ++ (later ++ rest)) := by
      rw [h, he]
      simp
    obtain ⟨c₁, hnext, hr₁⟩ := nextEntry_more hsep hb hc
    have hr₁' : c₁.rest = [] ++ (e ++ (later ++ rest)) := by
      rw [hr₁, he]
      simp
    obtain ⟨c₂, hwalk, hr₂⟩ := hpassed e List.mem_cons_self (.list :: frames)
      (List.forall_mem_nil _) (hlater.stops (.inl rfl) rest) hr₁'
    obtain ⟨c', hwalks, hr'⟩ := ih (fun e he => hvalues e (List.mem_cons_of_mem _ he))
      (fun e he => hpassed e (List.mem_cons_of_mem _ he)) hr₂
    exact ⟨c', (walks_entry (nextEntry_cases hnext) hwalk).trans hwalks, hr'⟩

/-- The members of an object are passed over one after the other. -/
theorem walks_members {first : Bool} {ms : List Member}
    (hseries : Series Member.Writes 0x7D first ms text) (hkeys : ∀ m ∈ ms, Text.Body m.key)
    (hpassed : ∀ m ∈ ms, Passed m.value) (h : c.rest = text ++ rest) :
    ∃ c', Walks (⟨inside first, .object :: frames⟩, c) (⟨.after, frames⟩, c') ∧ c'.rest = rest := by
  induction hseries generalizing c with
  | @close first g hg =>
    rw [List.append_assoc] at h
    obtain ⟨c₁, hgap, hr₁, -⟩ := gap_cons h hg (by decide)
    exact ⟨_, walks_close .object hgap (eat_cons hr₁), rfl⟩
  | @entry first m ms sep _ later hsep hwrites hlater ih =>
    obtain ⟨hg, hg'⟩ := hwrites
    rename_i g g'
    have hc : c.rest =
        sep ++ 0x22 :: (m.key ++ 0x22 :: (g ++ 0x3A :: (g' ++ (m.value ++ (later ++ rest))))) := by
      rw [h]
      simp
    obtain ⟨c₁, hnext, hr₁⟩ := nextMember_more hsep hc
    obtain ⟨c₂, hkey, hr₂⟩ := Text.skip_ok (hkeys m List.mem_cons_self) hr₁
    obtain ⟨c₃, hcolon, hr₃⟩ := colon_cons hg hr₂
    obtain ⟨c₄, hwalk, hr₄⟩ := hpassed m List.mem_cons_self (.object :: frames) hg'
      (hlater.stops (.inr rfl) rest) hr₃
    obtain ⟨c', hwalks, hr'⟩ := ih (fun m hm => hkeys m (List.mem_cons_of_mem _ hm))
      (fun m hm => hpassed m (List.mem_cons_of_mem _ hm)) hr₄
    exact ⟨c', (walks_member (nextMember_cases hnext) hkey hcolon hwalk).trans hwalks, hr'⟩

/-- Every value is passed over, however deep it is nested and however large its numbers are. -/
theorem IsValue.passed (h : IsValue w) : Passed w := by
  induction h with
  | null => exact passed_word .null (by decide) (by simp)
  | yes => exact passed_word .yes (by decide) (by simp)
  | no => exact passed_word .no (by decide) (by simp)
  | number hm => exact passed_number hm
  | string htext => exact passed_string htext
  | @list es text hseries hvalues ih =>
    intro frames c g rest hg _ h
    obtain ⟨c₁, hgap, hr₁⟩ := gap_lead (by decide) hg h
    obtain ⟨c', hwalks, hr'⟩ :=
      walks_listed hseries hvalues ih (c := c₁.pass [0x5B] (text ++ rest)) rfl
    have henter : enterValue frames c = _ := enterValue_list hgap (by decide) (eat_cons hr₁)
    exact ⟨c', (Moves.value henter).walks.trans hwalks, hr'⟩
  | @object ms text hseries hkeys _ ih =>
    intro frames c g rest hg _ h
    obtain ⟨c₁, hgap, hr₁⟩ := gap_lead (by decide) hg h
    obtain ⟨c', hwalks, hr'⟩ :=
      walks_members hseries hkeys ih (c := c₁.pass [0x7B] (text ++ rest)) rfl
    have henter : enterValue frames c = _ := enterValue_object hgap (by decide) (eat_cons hr₁)
    exact ⟨c', (Moves.value henter).walks.trans hwalks, hr'⟩

/-- What a decoder reads of a value is all of it. -/
theorem IsValue.end_eq {α : Type} {d : Decoder α} {c' : Cursor} {a : α} (hw : IsValue w)
    (hd : Spanned d) (hg : Gap g) (hstops : Stops rest) (h : c.rest = g ++ (w ++ rest))
    (hrun : d c = .ok (a, c')) : c'.rest = rest := by
  obtain ⟨c₁, hwalks, hr₁⟩ := hw.passed [] hg hstops h
  have hskip := hd.skipValue_ok hrun
  rw [skipValue_of_walks hwalks] at hskip
  cases hskip
  exact hr₁

end BackupReport.Json
