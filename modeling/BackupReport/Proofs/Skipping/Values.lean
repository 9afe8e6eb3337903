import BackupReport.Proofs.Decoder.Gaps
import BackupReport.Proofs.Decoder.Targets
import BackupReport.Proofs.Skipping.Walks

/-!
# Whatever decodes is passed over

A value that some decoder reads is passed over up to where the decoder stopped, inside whatever
frames it stands (`Spanned`).  So two decoders that read a value from the same place read the same
bytes (`Spanned.end_unique`), whatever they make of them.
-/

namespace BackupReport.Json

open Decoder Skip

variable {α β ρ : Type} {c c' c₁ c₂ : Cursor} {frames : List Skip.Frame} {b : UInt8}

/-- What a decoder reads is passed over as one value, whatever frames it stands in. -/
def Spanned (d : Decoder α) : Prop :=
  ∀ (frames : List Skip.Frame) {c c' : Cursor} {a : α}, d c = .ok (a, c') →
    Walks (⟨.value, frames⟩, c) (⟨.after, frames⟩, c')

namespace Spanned

variable {d : Decoder α}

theorem map (hd : Spanned d) (g : α → β) : Spanned (g <$> d) := by
  intro frames c c' b h
  obtain ⟨a, h, -⟩ := map_ok h
  exact hd frames h

/-- What decodes is passed over. -/
theorem skipValue_ok (hd : Spanned d) {a : α} (h : d c = .ok (a, c')) :
    skipValue c = .ok ((), c') := skipValue_of_walks (hd [] h)

/-- Two decoders that read a value from one place read the same bytes. -/
theorem end_unique {e : Decoder β} (hd : Spanned d) (he : Spanned e) {a : α} {b : β}
    (h : d c = .ok (a, c')) (h' : e c = .ok (b, c₁)) : c' = c₁ := by
  have hskip := hd.skipValue_ok h
  rw [he.skipValue_ok h'] at hskip
  cases hskip
  rfl

end Spanned

theorem spanned_skipValue : Spanned skipValue := fun frames _ _ _ h => walks_of_skipValue frames h

/-! ## Entering a value -/

/-- A gap before a value may be passed first. -/
theorem enterValue_gap {r : Option UInt8} (h : gap c = .ok (r, c₁)) :
    enterValue frames c = enterValue frames c₁ := by
  unfold enterValue
  rw [bind_of_ok h, bind_of_ok (gap_again h)]

/-- A walk over a value may start before the gap in front of it. -/
theorem Skip.Walks.behind_gap {r : Option UInt8} (hg : gap c = .ok (r, c₁))
    (h : Walks (⟨.value, frames⟩, c₁) (⟨.after, frames⟩, c')) :
    Walks (⟨.value, frames⟩, c) (⟨.after, frames⟩, c') := by
  obtain ⟨s, c₂, henter, hwalk⟩ := h.enters nofun
  rw [← enterValue_gap hg] at henter
  exact (Moves.value henter).walks.trans hwalk

/-- A value that is entered and left in one step. -/
theorem walks_of_enterValue (h : enterValue frames c = .ok (⟨.after, frames⟩, c')) :
    Walks (⟨.value, frames⟩, c) (⟨.after, frames⟩, c') := (Moves.value h).walks

theorem enterValue_word {lead : Lead} {letters : List UInt8} (hg : gap c = .ok (some b, c₁))
    (hb : Lead.of b = lead)
    (hl : (lead, letters) ∈ [(.null, restOfNull), (.yes, restOfTrue), (.no, restOfFalse)])
    (he : eat c₁ = .ok ((), c₂)) (hw : word letters c₂ = .ok ((), c')) :
    enterValue frames c = .ok (⟨.after, frames⟩, c') := by
  unfold enterValue
  rw [bind_of_ok hg]
  simp only [List.mem_cons, Prod.mk.injEq, List.not_mem_nil, or_false] at hl
  rcases hl with ⟨rfl, rfl⟩ | ⟨rfl, rfl⟩ | ⟨rfl, rfl⟩ <;>
    · simp only [hb]
      rw [bind_of_ok he, bind_of_ok hw]
      rfl

theorem enterValue_number (hg : gap c = .ok (some b, c₁))
    (hb : Lead.of b = .minus ∨ Lead.of b = .digit) (h : Numeral.skip c₁ = .ok ((), c')) :
    enterValue frames c = .ok (⟨.after, frames⟩, c') := by
  unfold enterValue
  rw [bind_of_ok hg]
  rcases hb with hb | hb <;>
    · simp only [hb]
      rw [bind_of_ok h]
      rfl

theorem enterValue_string (hg : gap c = .ok (some b, c₁)) (hb : Lead.of b = .quote)
    (he : eat c₁ = .ok ((), c₂)) (h : Text.skip c₂ = .ok ((), c')) :
    enterValue frames c = .ok (⟨.after, frames⟩, c') := by
  unfold enterValue
  rw [bind_of_ok hg]
  simp only [hb]
  rw [bind_of_ok he, bind_of_ok h]
  rfl

theorem enterValue_list (hg : gap c = .ok (some b, c₁)) (hb : Lead.of b = .list)
    (he : eat c₁ = .ok ((), c')) :
    enterValue frames c = .ok (⟨.opened, .list :: frames⟩, c') := by
  unfold enterValue
  rw [bind_of_ok hg]
  simp only [hb]
  rw [bind_of_ok he]
  rfl

theorem enterValue_object (hg : gap c = .ok (some b, c₁)) (hb : Lead.of b = .object)
    (he : eat c₁ = .ok ((), c')) :
    enterValue frames c = .ok (⟨.opened, .object :: frames⟩, c') := by
  unfold enterValue
  rw [bind_of_ok hg]
  simp only [hb]
  rw [bind_of_ok he]
  rfl

/-! ## Scalars -/

theorem spanned_number (wanted : Wanted) (accept : Number → Except Cause α) :
    Spanned (number wanted accept) := by
  intro frames c c' a h
  obtain ⟨r, c₁, hg, h⟩ := bind_ok h
  cases r with
  | none => cases h
  | some b =>
    dsimp only at h
    cases hl : Lead.of b with
    | minus | digit =>
      simp only [hl] at h
      obtain ⟨n, c₂, hn, h⟩ := bind_ok h
      cases ha : accept n with
      | error cause =>
        simp only [ha] at h
        cases h
      | ok a' =>
        simp only [ha] at h
        obtain ⟨-, rfl⟩ := pure_ok h
        exact walks_of_enterValue
          (enterValue_number hg (by simp [hl]) (Numeral.skip_of_decode hn))
    | _ =>
      simp only [hl] at h
      exact absurd h (refuses_refuseValue _ c₁ a c')

theorem spanned_string : Spanned Json.string := by
  intro frames c c' s h
  obtain ⟨r, c₁, hg, h⟩ := bind_ok h
  cases r with
  | none => cases h
  | some b =>
    dsimp only at h
    cases hl : Lead.of b with
    | quote =>
      simp only [hl] at h
      obtain ⟨_, c₂, he, h⟩ := bind_ok h
      exact walks_of_enterValue (enterValue_string hg hl he (Text.skip_of_decode h))
    | _ =>
      simp only [hl] at h
      exact absurd h (refuses_refuseValue _ c₁ s c')

theorem spanned_boolean : Spanned boolean := by
  intro frames c c' x h
  obtain ⟨r, c₁, hg, h⟩ := bind_ok h
  cases r with
  | none => cases h
  | some b =>
    dsimp only at h
    cases hl : Lead.of b with
    | yes | no =>
      simp only [hl] at h
      obtain ⟨_, c₂, he, h⟩ := bind_ok h
      obtain ⟨_, c₃, hw, h⟩ := bind_ok h
      obtain ⟨-, rfl⟩ := pure_ok h
      exact walks_of_enterValue (enterValue_word hg hl (by simp) he hw)
    | _ =>
      simp only [hl] at h
      exact absurd h (refuses_refuseValue _ c₁ x c')

theorem spanned_unit : Spanned unit := by
  intro frames c c' u h
  obtain ⟨r, c₁, hg, h⟩ := bind_ok h
  cases r with
  | none => cases h
  | some b =>
    dsimp only at h
    cases hl : Lead.of b with
    | null =>
      simp only [hl] at h
      obtain ⟨_, c₂, he, hw⟩ := bind_ok h
      exact walks_of_enterValue (enterValue_word hg hl (by simp) he hw)
    | _ =>
      simp only [hl] at h
      exact absurd h (refuses_refuseValue _ c₁ u c')

theorem Spanned.optional {d : Decoder α} (hd : Spanned d) : Spanned (Json.optional d) := by
  intro frames c c' a h
  obtain ⟨r, c₁, hg, h⟩ := bind_ok h
  split at h
  · rename_i hnull
    obtain ⟨b, rfl, hl⟩ := Option.map_eq_some_iff.1 hnull
    obtain ⟨_, c₂, he, h⟩ := bind_ok h
    obtain ⟨_, c₃, hw, h⟩ := bind_ok h
    obtain ⟨-, rfl⟩ := pure_ok h
    exact walks_of_enterValue (enterValue_word hg hl (by simp) he hw)
  · obtain ⟨x, h, -⟩ := map_ok h
    exact (hd frames h).behind_gap hg

theorem Spanned.nullAsDefault [Inhabited α] {d : Decoder α} (hd : Spanned d) :
    Spanned (Json.nullAsDefault d) := hd.optional.map _

/-! ## Lists -/

/-- The place in a frame before its first entry, or behind an entry. -/
def inside (first : Bool) : Skip.Place := if first then .opened else .after

theorem inside_ne_value (first : Bool) : inside first ≠ .value := by
  cases first <;> exact nofun

/-- Where a frame is closed, its list or object has been passed over. -/
theorem walks_close {first : Bool} (frame : Skip.Frame)
    (hg : gap c = .ok (some frame.closing, c₁)) (he : eat c₁ = .ok ((), c')) :
    Walks (⟨inside first, frame :: frames⟩, c) (⟨.after, frames⟩, c') :=
  (Moves.close (inside_ne_value first) hg he).walks

/-- A walk over an entry of a list starts where the list says that there is one. -/
theorem walks_entry {first : Bool} (hn : NextEntry first c true c₁)
    (h : Walks (⟨.value, .list :: frames⟩, c₁) (⟨.after, .list :: frames⟩, c')) :
    Walks (⟨inside first, .list :: frames⟩, c) (⟨.after, .list :: frames⟩, c') := by
  obtain ⟨s, c₂, henter, hwalk⟩ := h.enters nofun
  refine (Moves.walks ?_).trans hwalk
  cases hn with
  | first hg hclosing => exact .first hg hclosing henter
  | later hg he hg' =>
    rw [← enterValue_gap hg'] at henter
    exact .later hg he henter

/-- Where a list ends, its frame is closed. -/
theorem walks_closeEntry {first : Bool} (hn : NextEntry first c false c₁)
    (he : eat c₁ = .ok ((), c')) :
    Walks (⟨inside first, .list :: frames⟩, c) (⟨.after, frames⟩, c') := by
  cases hn with
  | closing hg => exact walks_close .list hg he

theorem walks_closeList {first : Bool} (h : closeList c = .ok ((), c')) :
    Walks (⟨inside first, .list :: frames⟩, c) (⟨.after, frames⟩, c') := by
  obtain ⟨r, c₁, hg, h⟩ := bind_ok h
  cases r with
  | none => cases h
  | some b =>
    dsimp only at h
    split at h
    · rename_i hclosing
      subst hclosing
      exact walks_close .list hg h
    · split at h
      · obtain ⟨_, c₂, -, h⟩ := bind_ok h
        exact absurd h (refuses_refuseSurplus c₂ () c')
      · cases h

theorem walks_entries {d : Decoder α} (hd : Spanned d) (hc : Consumes d) {sofar as : List α}
    (h : iterate (entry d) sofar c = .ok (as, c')) :
    Walks (⟨inside sofar.isEmpty, .list :: frames⟩, c) (⟨.after, frames⟩, c') := by
  induction sofar, c using iterate_induction (progresses_entry hc) with
  | _ sofar c ih =>
    rcases iterate_ok (progresses_entry hc) h with hlast | ⟨sofar', c₂, hmore, h⟩
    · obtain ⟨another, c₁, hn, hlast⟩ := bind_ok hlast
      cases another with
      | true =>
        obtain ⟨a, c₂, -, hlast⟩ := bind_ok hlast
        cases (pure_ok hlast).1
      | false =>
        obtain ⟨_, c₂, he, hlast⟩ := bind_ok hlast
        obtain ⟨-, rfl⟩ := pure_ok hlast
        exact walks_closeEntry (nextEntry_cases hn) he
    · have hrest := ih sofar' c₂ hmore h
      obtain ⟨another, c₁, hn, hmore⟩ := bind_ok hmore
      cases another with
      | true =>
        obtain ⟨a, c₃, ha, hmore⟩ := bind_ok hmore
        obtain ⟨heq, rfl⟩ := pure_ok hmore
        cases heq
        exact (walks_entry (nextEntry_cases hn) (hd _ ha)).trans hrest
      | false =>
        obtain ⟨_, c₃, -, hmore⟩ := bind_ok hmore
        cases (pure_ok hmore).1

theorem Spanned.list {d : Decoder α} (hd : Spanned d) (hc : Consumes d) :
    Spanned (Json.list d) := by
  intro frames c c' as h
  obtain ⟨r, c₁, hg, h⟩ := bind_ok h
  cases r with
  | none => cases h
  | some b =>
    dsimp only at h
    cases hl : Lead.of b with
    | list =>
      simp only [hl] at h
      obtain ⟨_, c₂, he, h⟩ := bind_ok h
      exact (Moves.value (enterValue_list hg hl he)).walks.trans (walks_entries hd hc h)
    | _ =>
      simp only [hl] at h
      exact absurd h (refuses_refuseValue _ c₁ as c')

/-! ## Objects -/

/-- A key and the colon after it are passed over. -/
theorem memberKey_ok {c₃ c₄ : Cursor} (hg : gap c = .ok (some 0x22, c₁))
    (he : eat c₁ = .ok ((), c₂)) (hk : Text.skip c₂ = .ok ((), c₃))
    (hc : colon c₃ = .ok ((), c₄)) : memberKey c = .ok ((), c₄) := by
  unfold memberKey
  rw [bind_of_ok hg]
  dsimp only
  rw [if_pos rfl, bind_of_ok he, bind_of_ok hk]
  exact hc

/-- A walk over the value of a member starts where the object says that there is one. -/
theorem walks_member {first : Bool} {c₃ : Cursor}
    (hn : NextMember first c true c₁) (hk : Text.skip c₁ = .ok ((), c₂))
    (hc : colon c₂ = .ok ((), c₃))
    (h : Walks (⟨.value, .object :: frames⟩, c₃) (⟨.after, .object :: frames⟩, c')) :
    Walks (⟨inside first, .object :: frames⟩, c) (⟨.after, .object :: frames⟩, c') := by
  obtain ⟨s, c₄, henter, hwalk⟩ := h.enters nofun
  refine (Moves.walks ?_).trans hwalk
  have hentry : ∀ {c₅ c₆}, gap c₅ = .ok (some 0x22, c₆) → eat c₆ = .ok ((), c₁) →
      enterEntry .object frames c₅ = .ok (s, c₄) := by
    intro c₅ c₆ hg he
    exact (bind_of_ok (memberKey_ok hg he hk hc)).trans henter
  cases hn with
  | first hg he => exact .first hg (by decide) (hentry (gap_again hg) he)
  | later hg he hg' he' => exact .later hg he (hentry hg' he')

/-- Where an object ends, its frame is closed. -/
theorem walks_closeMember {first : Bool} (hn : NextMember first c false c₁)
    (he : eat c₁ = .ok ((), c')) :
    Walks (⟨inside first, .object :: frames⟩, c) (⟨.after, frames⟩, c') := by
  cases hn with
  | closing hg => exact walks_close .object hg he

section Records

variable {fields : List (Json.Field ρ)}

/-- A round of reading an object is a walk over a member or out of the object. -/
theorem walks_round (hspanned : ∀ field ∈ fields, Spanned field.decode) {p : Progress ρ}
    {r : Step (Progress ρ) ρ} (h : member fields p c = .ok (r, c')) :
    match r with
    | .more p' => p'.first = false ∧
        Walks (⟨inside p.first, .object :: frames⟩, c) (⟨.after, .object :: frames⟩, c')
    | .done _ => Walks (⟨inside p.first, .object :: frames⟩, c) (⟨.after, frames⟩, c') := by
  obtain ⟨another, c₁, hn, h⟩ := bind_ok h
  cases another with
  | true =>
    obtain ⟨key, c₂, hk, h⟩ := bind_ok h
    cases hf : fields.find? (·.name == key) with
    | none =>
      simp only [hf] at h
      obtain ⟨_, c₃, hc, h⟩ := bind_ok h
      obtain ⟨_, c₄, hv, h⟩ := bind_ok h
      obtain ⟨rfl, rfl⟩ := pure_ok h
      exact ⟨rfl, walks_member (nextMember_cases hn) (Text.skip_of_decode hk) hc
        (spanned_skipValue _ hv)⟩
    | some field =>
      simp only [hf] at h
      split at h
      · exact absurd h (refuses_refuseRepeated key c₂ r c')
      · obtain ⟨_, c₃, hc, h⟩ := bind_ok h
        obtain ⟨change, c₄, hv, h⟩ := bind_ok h
        obtain ⟨rfl, rfl⟩ := pure_ok h
        exact ⟨rfl, walks_member (nextMember_cases hn) (Text.skip_of_decode hk) hc
          (hspanned field (List.mem_of_find?_eq_some hf) _ hv)⟩
  | false =>
    obtain ⟨_, c₂, he, h⟩ := bind_ok h
    obtain ⟨rfl, rfl⟩ := pure_ok h
    exact walks_closeMember (nextMember_cases hn) he

theorem walks_byName (hbuilt : ∀ field ∈ fields, Built field.decode)
    (hspanned : ∀ field ∈ fields, Spanned field.decode) {p : Progress ρ} {r : ρ}
    (h : iterate (member fields) p c = .ok (r, c')) :
    Walks (⟨inside p.first, .object :: frames⟩, c) (⟨.after, frames⟩, c') := by
  induction p, c using iterate_induction (progresses_member hbuilt) with
  | _ p c ih =>
    rcases iterate_ok (progresses_member hbuilt) h with hlast | ⟨p', c₁, hmore, h⟩
    · exact walks_round hspanned hlast
    · have hrest := ih p' c₁ hmore h
      obtain ⟨hfirst, hround⟩ := walks_round hspanned hmore
      rw [hfirst] at hrest
      exact Walks.trans hround hrest

theorem walks_byPlace (hspanned : ∀ field ∈ fields, Spanned field.decode) {first : Bool}
    {r r' : ρ} (h : byPlace fields first r c = .ok (r', c')) :
    Walks (⟨inside first, .list :: frames⟩, c) (⟨.after, frames⟩, c') := by
  induction fields generalizing first r c with
  | nil =>
    obtain ⟨_, c₁, hc, h⟩ := bind_ok h
    obtain ⟨-, rfl⟩ := pure_ok h
    exact walks_closeList hc
  | cons field later ih =>
    obtain ⟨another, c₁, hn, h⟩ := bind_ok h
    cases another with
    | true =>
      obtain ⟨change, c₂, hv, h⟩ := bind_ok h
      exact (walks_entry (nextEntry_cases hn) (hspanned field List.mem_cons_self _ hv)).trans
        (ih (fun f hf => hspanned f (List.mem_cons_of_mem _ hf)) h)
    | false =>
      obtain ⟨_, c₂, he, h⟩ := bind_ok h
      obtain ⟨-, rfl⟩ := pure_ok h
      exact walks_closeEntry (nextEntry_cases hn) he

theorem spanned_record (name : String) (hbuilt : ∀ field ∈ fields, Built field.decode)
    (hspanned : ∀ field ∈ fields, Spanned field.decode) (r : ρ) :
    Spanned (record name fields r) := by
  intro frames c c' r' h
  obtain ⟨l, c₁, hg, h⟩ := bind_ok h
  cases l with
  | none => cases h
  | some b =>
    dsimp only at h
    cases hl : Lead.of b with
    | object =>
      simp only [hl] at h
      obtain ⟨_, c₂, he, h⟩ := bind_ok h
      exact (Moves.value (enterValue_object hg hl he)).walks.trans
        (walks_byName hbuilt hspanned h)
    | list =>
      simp only [hl] at h
      obtain ⟨_, c₂, he, h⟩ := bind_ok h
      exact (Moves.value (enterValue_list hg hl he)).walks.trans (walks_byPlace hspanned h)
    | _ =>
      simp only [hl] at h
      exact absurd h (refuses_refuseValue _ c₁ r' c')

end Records

end BackupReport.Json
