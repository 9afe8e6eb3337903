import BackupReport.Capture.Retention
import BackupReport.Proofs.Decoder.Assembly

/-!
# Decoders into types

The walk through the decoders goes on from the parts of a text to the types that are decoded.  A
record is built from the steps if its fields are (`built_record`), and it takes at least its opening
byte (`consumes_record`), so that lists of records can be repeated.
-/

namespace BackupReport.Json.Decoder

variable {α β ρ : Type}

/-! ## Scalars -/

theorem built_refuseValue (wanted : Wanted) : Built (refuseValue wanted : Decoder α) := by
  refine .bind .peek fun r => ?_
  cases r with
  | none => exact .refuseNext _
  | some b =>
    dsimp only
    split
    · exact .bind built_eat fun _ => .bind (built_word _) fun _ => .refuseHere _
    · exact .bind built_eat fun _ => .bind (built_word _) fun _ => .refuseHere _
    · exact .bind built_eat fun _ => .bind (built_word _) fun _ => .refuseHere _
    · exact .bind built_number fun _ => .refuseHere _
    · exact .bind built_number fun _ => .refuseHere _
    · exact .bind built_eat fun _ => .bind built_text fun _ => .refuseHere _
    · exact .refuseHere _
    · exact .refuseHere _
    · exact .refuseNext _

theorem refuses_refuseValue (wanted : Wanted) : Refuses (refuseValue wanted : Decoder α) := by
  refine .after fun r => ?_
  cases r with
  | none => exact refuses_refuseNext _
  | some b =>
    dsimp only
    split
    · exact .after fun _ => .after fun _ => refuses_refuseHere _
    · exact .after fun _ => .after fun _ => refuses_refuseHere _
    · exact .after fun _ => .after fun _ => refuses_refuseHere _
    · exact .after fun _ => refuses_refuseHere _
    · exact .after fun _ => refuses_refuseHere _
    · exact .after fun _ => .after fun _ => refuses_refuseHere _
    · exact refuses_refuseHere _
    · exact refuses_refuseHere _
    · exact refuses_refuseNext _

theorem built_onLead {decode : Lead → Decoder α} (h : ∀ lead, Built (decode lead)) :
    Built (onLead decode) := by
  refine .bind built_gap fun r => ?_
  cases r with
  | none => exact .refuseNext _
  | some b => exact h _

theorem consumes_onLead {decode : Lead → Decoder α} (h : ∀ lead, Advances (decode lead)) :
    Consumes (onLead decode) :=
  announces_gap.bind_consumes built_gap (refuses_refuseNext _).consumes fun b => h (Lead.of b)

theorem built_numberAs (wanted : Wanted) (accept : Number → Except Cause α) :
    Built (Json.number wanted accept) := by
  refine built_onLead fun lead => ?_
  cases lead with
  | minus | digit =>
    refine .bind built_number fun n => ?_
    split
    · exact .pure _
    · exact .refuseHere _
  | _ => exact built_refuseValue _

theorem built_signed : Built signed := built_numberAs _ _

theorem built_unsigned : Built unsigned := built_numberAs _ _

theorem built_double : Built double := built_numberAs _ _

theorem built_string : Built Json.string := by
  refine built_onLead fun lead => ?_
  split
  · exact .bind built_eat fun _ => built_text
  · exact built_refuseValue _

theorem built_boolean : Built boolean := by
  refine built_onLead fun lead => ?_
  split
  · exact .bind built_eat fun _ => .bind (built_word _) fun _ => .pure _
  · exact .bind built_eat fun _ => .bind (built_word _) fun _ => .pure _
  · exact built_refuseValue _

theorem built_unit : Built unit := by
  refine built_onLead fun lead => ?_
  split
  · exact .bind built_eat fun _ => built_word _
  · exact built_refuseValue _

theorem built_optional {decode : Decoder α} (h : Built decode) : Built (optional decode) := by
  refine .bind built_gap fun r => ?_
  split
  · exact .bind built_eat fun _ => .bind (built_word _) fun _ => .pure _
  · exact h.map _

theorem built_nullAsDefault [Inhabited α] {decode : Decoder α} (h : Built decode) :
    Built (nullAsDefault decode) := (built_optional h).map _

/-! ## Lists -/

theorem built_nextEntry (first : Bool) : Built (nextEntry first) := by
  refine .bind built_gap fun r => ?_
  cases r with
  | none => exact .refuseNext _
  | some b =>
    dsimp only
    split
    · exact .pure _
    · split
      · exact .pure _
      · split
        · refine .bind built_eat fun _ => .bind built_gap fun r => ?_
          cases r with
          | none => exact .refuseNext _
          | some c =>
            dsimp only
            split
            · exact .refuseNext _
            · exact .pure _
        · exact .refuseNext _

theorem built_closeList : Built closeList := by
  refine .bind built_gap fun r => ?_
  cases r with
  | none => exact .refuseNext _
  | some b =>
    dsimp only
    split
    · exact built_eat
    · split
      · exact .bind built_eat fun _ => .refuseSurplus
      · exact .refuseNext _

/-- What can stand before the end of a list or the next entry: the closing bracket, the first entry,
or a comma and a later one. -/
inductive NextEntry : Bool → Cursor → Bool → Cursor → Prop
  | closing {first : Bool} {c c' : Cursor} : gap c = .ok (some 0x5D, c') →
      NextEntry first c false c'
  | first {b : UInt8} {c c' : Cursor} : gap c = .ok (some b, c') → b ≠ 0x5D →
      NextEntry true c true c'
  | later {b : UInt8} {c c₁ c₂ c' : Cursor} : gap c = .ok (some 0x2C, c₁) → eat c₁ = .ok ((), c₂) →
      gap c₂ = .ok (some b, c') → NextEntry false c true c'

theorem nextEntry_cases {first another : Bool} {c c' : Cursor}
    (h : nextEntry first c = .ok (another, c')) : NextEntry first c another c' := by
  obtain ⟨r, c₁, hg, h⟩ := bind_ok h
  cases r with
  | none => cases h
  | some b =>
    dsimp only at h
    split at h
    · rename_i hclosing
      obtain ⟨rfl, rfl⟩ := pure_ok h
      exact .closing (hclosing ▸ hg)
    · rename_i hclosing
      split at h
      · rename_i hfirst
        obtain ⟨rfl, rfl⟩ := pure_ok h
        exact hfirst ▸ .first hg hclosing
      · rename_i hfirst
        split at h
        · rename_i hcomma
          obtain ⟨_, c₂, he, h⟩ := bind_ok h
          obtain ⟨r, c₃, hg', h⟩ := bind_ok h
          cases r with
          | none => cases h
          | some d =>
            dsimp only at h
            split at h
            · cases h
            · obtain ⟨rfl, rfl⟩ := pure_ok h
              exact Bool.eq_false_iff.2 hfirst ▸ .later (hcomma ▸ hg) he hg'
        · cases h

/-- Where no entry follows, the closing bracket is next. -/
theorem nextEntry_false {first : Bool} {c c' : Cursor} (h : nextEntry first c = .ok (false, c')) :
    ∃ rest, c'.rest = 0x5D :: rest := by
  cases nextEntry_cases h with
  | closing hg => exact announces_gap c _ c' hg

theorem built_entry {decode : Decoder α} (h : Built decode) (sofar : List α) :
    Built (entry decode sofar) := by
  refine .bind (built_nextEntry _) fun another => ?_
  split
  · exact .bind h fun _ => .pure _
  · exact .bind built_eat fun _ => .pure _

theorem consumes_entry {decode : Decoder α} (h : Consumes decode) (sofar : List α) :
    Consumes (entry decode sofar) := by
  intro c r c'' hok
  obtain ⟨another, c', hn, hok⟩ := bind_ok hok
  refine Nat.lt_of_lt_of_le ?_ ((built_nextEntry _).length_le hn)
  cases another with
  | true => exact (h.bind fun _ => .pure _) c' r c'' hok
  | false =>
    obtain ⟨rest, hrest⟩ := nextEntry_false hn
    exact (advances_eat.bind fun _ => .pure _) c' r c'' (by simp [hrest]) hok

theorem progresses_entry {decode : Decoder α} (h : Consumes decode) :
    Progresses (entry decode) := Consumes.progresses (consumes_entry h)

theorem built_entries {decode : Decoder α} (h : Built decode) (h' : Consumes decode) :
    Built (entries decode) := .iterate [] (progresses_entry h') (built_entry h)

theorem built_list {decode : Decoder α} (h : Built decode) (h' : Consumes decode) :
    Built (list decode) := by
  refine built_onLead fun lead => ?_
  split
  · exact .bind built_eat fun _ => built_entries h h'
  · exact built_refuseValue _

/-! ## Objects -/

theorem built_nextMember (first : Bool) : Built (nextMember first) := by
  refine .bind built_gap fun r => ?_
  cases r with
  | none => exact .refuseNext _
  | some b =>
    dsimp only
    split
    · exact .pure _
    · split
      · split
        · exact .bind built_eat fun _ => .pure _
        · exact .refuseNext _
      · split
        · refine .bind built_eat fun _ => .bind built_gap fun r => ?_
          cases r with
          | none => exact .refuseNext _
          | some c =>
            dsimp only
            split
            · exact .bind built_eat fun _ => .pure _
            · split
              · exact .refuseNext _
              · exact .refuseNext _
        · exact .refuseNext _

/-- What can stand before the end of an object or the next member, up to the quote of its key: the
closing brace, the first member, or a comma and a later one. -/
inductive NextMember : Bool → Cursor → Bool → Cursor → Prop
  | closing {first : Bool} {c c' : Cursor} : gap c = .ok (some 0x7D, c') →
      NextMember first c false c'
  | first {c c₁ c' : Cursor} : gap c = .ok (some 0x22, c₁) → eat c₁ = .ok ((), c') →
      NextMember true c true c'
  | later {c c₁ c₂ c₃ c' : Cursor} : gap c = .ok (some 0x2C, c₁) → eat c₁ = .ok ((), c₂) →
      gap c₂ = .ok (some 0x22, c₃) → eat c₃ = .ok ((), c') → NextMember false c true c'

theorem nextMember_cases {first another : Bool} {c c' : Cursor}
    (h : nextMember first c = .ok (another, c')) : NextMember first c another c' := by
  obtain ⟨r, c₁, hg, h⟩ := bind_ok h
  cases r with
  | none => cases h
  | some b =>
    dsimp only at h
    split at h
    · rename_i hclosing
      obtain ⟨rfl, rfl⟩ := pure_ok h
      exact .closing (hclosing ▸ hg)
    · split at h
      · rename_i hfirst
        split at h
        · rename_i hquote
          obtain ⟨_, c₂, he, h⟩ := bind_ok h
          obtain ⟨rfl, rfl⟩ := pure_ok h
          exact hfirst ▸ .first (hquote ▸ hg) he
        · cases h
      · rename_i hfirst
        split at h
        · rename_i hcomma
          obtain ⟨_, c₂, he, h⟩ := bind_ok h
          obtain ⟨r, c₃, hg', h⟩ := bind_ok h
          cases r with
          | none => cases h
          | some d =>
            dsimp only at h
            split at h
            · rename_i hquote
              obtain ⟨_, c₄, he', h⟩ := bind_ok h
              obtain ⟨rfl, rfl⟩ := pure_ok h
              exact Bool.eq_false_iff.2 hfirst ▸ .later (hcomma ▸ hg) he (hquote ▸ hg') he'
            · split at h
              · cases h
              · cases h
        · cases h

/-- Where no member follows, the closing brace is next; else a quote has been taken. -/
theorem nextMember_ok {first another : Bool} {c c' : Cursor}
    (h : nextMember first c = .ok (another, c')) :
    if another then c'.rest.length < c.rest.length else ∃ rest, c'.rest = 0x7D :: rest := by
  have hadvances : ∀ {b c c₁ c'}, gap c = .ok (some b, c₁) → eat c₁ = .ok ((), c') →
      c'.rest.length < c.rest.length := by
    intro b c c₁ c' hg he
    obtain ⟨rest, hrest⟩ := announces_gap c b c₁ hg
    exact Nat.lt_of_lt_of_le (advances_eat c₁ _ c' (by simp [hrest]) he) (built_gap.length_le hg)
  cases nextMember_cases h with
  | closing hg => exact announces_gap c _ c' hg
  | first hg he => exact hadvances hg he
  | later hg he hg' he' => exact Nat.lt_trans (hadvances hg' he') (hadvances hg he)

theorem built_colon : Built colon := by
  refine .bind built_gap fun r => ?_
  cases r with
  | none => exact .refuseNext _
  | some b =>
    dsimp only
    split
    · exact built_eat
    · exact .refuseNext _

/-- What follows a step that reads up to a member takes a byte, with the key or with the brace. -/
theorem consumes_nextMember_bind {first : Bool} {k : Bool → Decoder α} (htrue : Built (k true))
    (hfalse : Advances (k false)) : Consumes (nextMember first >>= k) := by
  intro c a c'' h
  obtain ⟨another, c', hn, h⟩ := bind_ok h
  have hspec := nextMember_ok hn
  cases another with
  | true => exact Nat.lt_of_le_of_lt (htrue.length_le h) hspec
  | false =>
    obtain ⟨rest, hrest⟩ := hspec
    exact Nat.lt_of_lt_of_le (hfalse c' a c'' (by simp [hrest]) h)
      ((built_nextMember first).length_le hn)

/-! ## Records -/

section Records

variable {fields : List (Field ρ)}

theorem built_field {name : String} {decode : Decoder α} (h : Built decode) (set : α → ρ → ρ) :
    Built (Field.of name decode set).decode := h.map set

/-- Reads a member of which the key has been read. -/
def behindKey (fields : List (Field ρ)) (p : Progress ρ) (key : String) :
    Decoder (Step (Progress ρ) ρ) :=
  match fields.find? (·.name == key) with
  | some field =>
    if p.seen.contains key then refuseRepeated key
    else do
      colon
      let change ← field.decode
      pure (.more ⟨false, key :: p.seen, change p.record⟩)
  | none => do
    colon
    skipValue
    pure (.more ⟨false, p.seen, p.record⟩)

theorem built_behindKey (h : ∀ field ∈ fields, Built field.decode) (p : Progress ρ)
    (key : String) : Built (behindKey fields p key) := by
  unfold behindKey
  cases hf : fields.find? (·.name == key) with
  | none => exact .bind built_colon fun _ => .bind built_skipValue fun _ => .pure _
  | some field =>
    dsimp only
    split
    · exact .refuseRepeated key
    · exact .bind built_colon fun _ => .bind (h field (List.mem_of_find?_eq_some hf))
        fun _ => .pure _

theorem built_member (h : ∀ field ∈ fields, Built field.decode) (p : Progress ρ) :
    Built (member fields p) := by
  refine .bind (built_nextMember _) fun another => ?_
  split
  · exact .bind built_text fun key => built_behindKey h p key
  · exact .bind built_eat fun _ => .pure _

theorem progresses_member (h : ∀ field ∈ fields, Built field.decode) :
    Progresses (member fields) :=
  Consumes.progresses fun p => consumes_nextMember_bind
    (.bind built_text fun key => built_behindKey h p key)
    (advances_eat.bind fun _ => .pure _)

theorem built_byName (h : ∀ field ∈ fields, Built field.decode) (r : ρ) :
    Built (byName fields r) := .iterate _ (progresses_member h) (built_member h)

theorem built_byPlace (h : ∀ field ∈ fields, Built field.decode) (first : Bool) (r : ρ) :
    Built (byPlace fields first r) := by
  induction fields generalizing first r with
  | nil => exact .bind built_closeList fun _ => .pure r
  | cons field later ih =>
    refine .bind (built_nextEntry first) fun another => ?_
    split
    · exact .bind (h field List.mem_cons_self) fun change =>
        ih (fun f hf => h f (List.mem_cons_of_mem _ hf)) _ _
    · exact .bind built_eat fun _ => .pure r

/-- A record is built from the steps if its fields are. -/
theorem built_record (name : String) (h : ∀ field ∈ fields, Built field.decode) (r : ρ) :
    Built (record name fields r) := by
  refine built_onLead fun lead => ?_
  split
  · exact .bind built_eat fun _ => built_byName h r
  · exact .bind built_eat fun _ => built_byPlace h true r
  · exact built_refuseValue _

/-- A record takes a byte, its opening one at least. -/
theorem consumes_record (name : String) (h : ∀ field ∈ fields, Built field.decode) (r : ρ) :
    Consumes (record name fields r) := by
  refine consumes_onLead fun lead => ?_
  split
  · exact advances_eat.bind fun _ => built_byName h r
  · exact advances_eat.bind fun _ => built_byPlace h true r
  · exact (refuses_refuseValue _).advances

end Records

end BackupReport.Json.Decoder
