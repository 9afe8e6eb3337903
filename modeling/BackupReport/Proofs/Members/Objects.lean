import Mathlib.Data.List.Forall2
import Mathlib.Data.List.ReduceOption
import BackupReport.Proofs.Members.Values

/-!
# What a decoder makes of an object

A member either belongs to a field, by the text that its key spells, or it does not count
(`Effect`).  A record is read from an object exactly if every member has an effect and no field
occurs twice; it is then the record that the members make of the defaults (`Outcome`, `record_ok`,
`record_outcome`).  Each round of the decoder is one member (`member_ok`, `member_effect`), and the
rounds follow the series of members.
-/

namespace BackupReport.Json

open Decoder

variable {ρ : Type} {fields : List (Field ρ)} {m : Member} {ms : List Member}
  {p : Progress ρ} {r r' : ρ} {c c' : Cursor} {g g' sep text rest w : List UInt8}

/-! ## Members -/

/-- What a member means to a record: the name of its field with the change that its value makes, or
nothing. -/
inductive Effect (fields : List (Field ρ)) (m : Member) : Option (String × (ρ → ρ)) → Prop
  | known {name : String} {field : Field ρ} {change : ρ → ρ} : Text.Spells m.key name →
      fields.find? (·.name == name) = some field → Takes field.decode m.value change →
      Effect fields m (some (name, change))
  | unknown {name : String} : Text.Spells m.key name →
      fields.find? (·.name == name) = none → Effect fields m none

/-- The progress behind a member. -/
def Progress.after (p : Progress ρ) : Option (String × (ρ → ρ)) → Progress ρ
  | some (name, change) => ⟨false, name :: p.seen, change p.record⟩
  | none => ⟨false, p.seen, p.record⟩

@[simp] theorem Progress.after_first (p : Progress ρ) (e : Option (String × (ρ → ρ))) :
    (p.after e).first = false := by
  cases e <;> rfl

/-- A member is read up to its key and then behind it. -/
theorem member_key (fields : List (Field ρ)) (hsep : Separator p.first sep)
    (hwrites : m.Writes text) (h : c.rest = sep ++ (text ++ rest)) :
    ∃ g g' c₁, Gap g ∧ Gap g' ∧
      c₁.rest = m.key ++ 0x22 :: (g ++ 0x3A :: (g' ++ (m.value ++ rest))) ∧
      member fields p c = (Text.decode >>= behindKey fields p) c₁ := by
  obtain ⟨hg, hg'⟩ := hwrites
  rename_i g g'
  have hc : c.rest =
      sep ++ 0x22 :: (m.key ++ 0x22 :: (g ++ 0x3A :: (g' ++ (m.value ++ rest)))) := by
    rw [h]
    simp
  obtain ⟨c₁, hnext, hr₁⟩ := nextMember_more hsep hc
  refine ⟨g, g', c₁, hg, hg', hr₁, ?_⟩
  unfold member
  rw [bind_of_ok hnext, if_pos rfl]
  rfl

/-- The value of a field that has not occurred is read behind the colon. -/
theorem behindKey_field {name : String} {field : Field ρ}
    (hfind : fields.find? (·.name == name) = some field) (hfresh : name ∉ p.seen) (hg : Gap g)
    (h : c.rest = g ++ 0x3A :: rest) :
    ∃ c₁, c₁.rest = rest ∧ behindKey fields p name c = (do
      let change ← field.decode
      pure (.more ⟨false, name :: p.seen, change p.record⟩) :
        Decoder (Step (Progress ρ) ρ)) c₁ := by
  obtain ⟨c₁, hcolon, hr₁⟩ := colon_cons hg h
  refine ⟨c₁, hr₁, ?_⟩
  unfold behindKey
  simp only [hfind]
  rw [if_neg (by simpa using hfresh), bind_of_ok hcolon]

/-- The value of a member that is no field is passed over behind the colon. -/
theorem behindKey_other {name : String} (hfind : fields.find? (·.name == name) = none)
    (hg : Gap g) (hg' : Gap g') (hw : IsValue w) (hstops : Stops rest)
    (h : c.rest = g ++ 0x3A :: (g' ++ (w ++ rest))) :
    ∃ c', behindKey fields p name c = .ok (.more (p.after none), c') ∧ c'.rest = rest := by
  obtain ⟨c₁, hcolon, hr₁⟩ := colon_cons hg h
  obtain ⟨c', hskip, hr'⟩ := takes_skipValue hw hg' hstops hr₁
  exact ⟨c', behindKey_skip hfind hcolon hskip, hr'⟩

/-- A member that has an effect is read, unless its field has occurred. -/
theorem member_ok {e : Option (String × (ρ → ρ))} (hm : m.Formed) (he : Effect fields m e)
    (hfresh : ∀ x ∈ e, x.1 ∉ p.seen) (hsep : Separator p.first sep) (hwrites : m.Writes text)
    (hstops : Stops rest) (h : c.rest = sep ++ (text ++ rest)) :
    ∃ c', member fields p c = .ok (.more (p.after e), c') ∧ c'.rest = rest := by
  obtain ⟨g, g', c₁, hg, hg', hr₁, hmember⟩ := member_key fields hsep hwrites h
  cases he with
  | @known name field change hspells hfind htakes =>
    obtain ⟨c₂, hkey, hr₂⟩ := Text.decode_ok hspells hr₁
    obtain ⟨c₃, hr₃, hbehind⟩ := behindKey_field hfind (hfresh _ rfl) hg hr₂
    obtain ⟨c', hvalue, hr'⟩ := htakes hg' hstops hr₃
    refine ⟨c', ?_, hr'⟩
    rw [hmember, bind_of_ok hkey, hbehind, bind_of_ok hvalue]
    rfl
  | @unknown name hspells hfind =>
    obtain ⟨c₂, hkey, hr₂⟩ := Text.decode_ok hspells hr₁
    obtain ⟨c', hbehind, hr'⟩ := behindKey_other (p := p) hfind hg hg' hm.value hstops hr₂
    refine ⟨c', ?_, hr'⟩
    rw [hmember, bind_of_ok hkey]
    exact hbehind

/-- A member that is read has an effect, and its field has not occurred. -/
theorem member_effect {s : Step (Progress ρ) ρ} (hm : m.Formed)
    (hsteady : ∀ field ∈ fields, Steady field.decode) (hsep : Separator p.first sep)
    (hwrites : m.Writes text) (hstops : Stops rest) (h : c.rest = sep ++ (text ++ rest))
    (hrun : member fields p c = .ok (s, c')) :
    ∃ e, Effect fields m e ∧ (∀ x ∈ e, x.1 ∉ p.seen) ∧ s = .more (p.after e) ∧ c'.rest = rest := by
  obtain ⟨g, g', c₁, hg, hg', hr₁, hmember⟩ := member_key fields hsep hwrites h
  rw [hmember] at hrun
  obtain ⟨name, c₂, hkey, hrun⟩ := bind_ok hrun
  obtain ⟨hspells, hr₂⟩ := Text.spells_of_decode hm.key hr₁ hkey
  cases hfind : fields.find? (·.name == name) with
  | none =>
    obtain ⟨c₃, hbehind, hr₃⟩ := behindKey_other (p := p) hfind hg hg' hm.value hstops hr₂
    rw [hbehind] at hrun
    cases hrun
    exact ⟨none, .unknown hspells hfind, nofun, rfl, hr₃⟩
  | some field =>
    by_cases hfresh : name ∈ p.seen
    · unfold behindKey at hrun
      simp only [hfind] at hrun
      rw [if_pos (by simpa using hfresh)] at hrun
      exact absurd hrun (refuses_refuseRepeated name c₂ s c')
    · obtain ⟨c₃, hr₃, hbehind⟩ := behindKey_field hfind hfresh hg hr₂
      rw [hbehind] at hrun
      obtain ⟨change, c₄, hvalue, hrun⟩ := bind_ok hrun
      obtain ⟨rfl, rfl⟩ := pure_ok hrun
      obtain ⟨htakes, hr₄⟩ := (hsteady field (List.mem_of_find?_eq_some hfind)).takes_of_ok hm.value
        hg' hstops hr₃ hvalue
      refine ⟨some (name, change), .known hspells hfind htakes, ?_, rfl, hr₄⟩
      rintro x ⟨⟩
      exact hfresh

/-! ## Outcomes -/

/-- The effects of which there are any, in their order. -/
def known (es : List (Option (String × (ρ → ρ)))) : List (String × (ρ → ρ)) := es.reduceOption

/-- The fields that some members belong to, in the order of the members. -/
def namesOf (es : List (Option (String × (ρ → ρ)))) : List String := (known es).map Prod.fst

/-- What some members make of a record, one after the other. -/
def applied (es : List (Option (String × (ρ → ρ)))) (r : ρ) : ρ :=
  (known es).foldl (fun r x => x.2 r) r

/-- What an object with the given members makes of a record: every member has an effect, no field
occurs twice, and the record is changed by one member after the other. -/
def Outcome (fields : List (Field ρ)) (r : ρ) (ms : List Member) (r' : ρ) : Prop :=
  ∃ es, List.Forall₂ (Effect fields) ms es ∧ (namesOf es).Nodup ∧ applied es r = r'

theorem applied_cons (e : Option (String × (ρ → ρ))) (es : List (Option (String × (ρ → ρ))))
    (p : Progress ρ) : applied (e :: es) p.record = applied es (p.after e).record := by
  cases e <;> rfl

/-- No field occurs twice among a member and those behind it, exactly if it does not occur among
those before or behind it, or twice there. -/
theorem nodup_cons (e : Option (String × (ρ → ρ))) (es : List (Option (String × (ρ → ρ))))
    (p : Progress ρ) :
    (namesOf (e :: es) ++ p.seen).Nodup ↔ (namesOf es ++ (p.after e).seen).Nodup := by
  cases e with
  | none => exact Iff.rfl
  | some x => exact List.nodup_middle.symm

theorem fresh_of_nodup {e : Option (String × (ρ → ρ))} {es : List (Option (String × (ρ → ρ)))}
    (h : (namesOf (e :: es) ++ p.seen).Nodup) : ∀ x ∈ e, x.1 ∉ p.seen := by
  rintro x ⟨⟩ hx
  exact (List.nodup_cons.1 h).1 (List.mem_append_right _ hx)

/-! ## Objects -/

/-- Members that have effects are read one after the other. -/
theorem members_ok (hbuilt : ∀ field ∈ fields, Built field.decode)
    {es : List (Option (String × (ρ → ρ)))} (hms : ∀ m ∈ ms, m.Formed) {first : Bool}
    (hseries : Series Member.Writes 0x7D first ms text) (hes : List.Forall₂ (Effect fields) ms es)
    (hfirst : first = p.first) (hnodup : (namesOf es ++ p.seen).Nodup)
    (h : c.rest = text ++ rest) :
    ∃ c', iterate (member fields) p c = .ok (applied es p.record, c') ∧ c'.rest = rest := by
  induction hseries generalizing es p c with
  | close hg =>
    cases hes
    rw [List.append_assoc] at h
    obtain ⟨c', hmember, hr'⟩ := member_close fields p hg h
    exact ⟨c', iterate_done (progresses_member hbuilt) hmember, hr'⟩
  | @entry first m ms sep text later hsep hwrites hlater ih =>
    subst hfirst
    obtain ⟨hm, hms⟩ := List.forall_mem_cons.1 hms
    cases hes with
    | @cons _ e _ es he hes =>
      rw [List.append_assoc, List.append_assoc] at h
      obtain ⟨c₁, hmember, hr₁⟩ := member_ok hm he (fresh_of_nodup hnodup) hsep hwrites
        (hlater.stops (.inr rfl) rest) h
      obtain ⟨c', hlast, hr'⟩ :=
        ih hms hes (Progress.after_first p e).symm ((nodup_cons e es p).1 hnodup) hr₁
      refine ⟨c', ?_, hr'⟩
      rw [iterate_more (progresses_member hbuilt) hmember, hlast, applied_cons]

/-- Members that are read one after the other have effects. -/
theorem members_effects (hbuilt : ∀ field ∈ fields, Built field.decode)
    (hsteady : ∀ field ∈ fields, Steady field.decode) (hms : ∀ m ∈ ms, m.Formed) {first : Bool}
    (hseries : Series Member.Writes 0x7D first ms text) (hfirst : first = p.first)
    (hnodup : p.seen.Nodup) (h : c.rest = text ++ rest)
    (hrun : iterate (member fields) p c = .ok (r', c')) :
    ∃ es, List.Forall₂ (Effect fields) ms es ∧ (namesOf es ++ p.seen).Nodup ∧
      applied es p.record = r' := by
  induction hseries generalizing p c with
  | close hg =>
    rw [List.append_assoc] at h
    obtain ⟨c₁, hmember, -⟩ := member_close fields p hg h
    rw [iterate_done (progresses_member hbuilt) hmember] at hrun
    cases hrun
    exact ⟨[], .nil, hnodup, rfl⟩
  | @entry first m ms sep text later hsep hwrites hlater ih =>
    subst hfirst
    obtain ⟨hm, hms⟩ := List.forall_mem_cons.1 hms
    rw [List.append_assoc, List.append_assoc] at h
    have hstops := hlater.stops (.inr rfl) rest
    rcases iterate_ok (progresses_member hbuilt) hrun with hdone | ⟨p', c₁, hmore, hrun⟩
    · obtain ⟨e, -, -, hmore, -⟩ := member_effect hm hsteady hsep hwrites hstops h hdone
      cases hmore
    · obtain ⟨e, he, hfresh, hp', hr₁⟩ := member_effect hm hsteady hsep hwrites hstops h hmore
      cases hp'
      have hseen : (p.after e).seen.Nodup := by
        cases e with
        | none => exact hnodup
        | some x => exact List.nodup_cons.2 ⟨hfresh x rfl, hnodup⟩
      obtain ⟨es, hes, hnames, happlied⟩ :=
        ih hms (Progress.after_first p e).symm hseen hr₁ hrun
      exact ⟨e :: es, .cons he hes, (nodup_cons e es p).2 hnames,
        (applied_cons e es p).trans happlied⟩

section Records

variable {name : String} {o : List UInt8}

/-- A record is read from the members of an object. -/
theorem record_eq (name : String) (fields : List (Field ρ)) (r : ρ) (hg : Gap g)
    (h : c.rest = g ++ (0x7B :: text ++ rest)) :
    ∃ c₁, c₁.rest = text ++ rest ∧ record name fields r c = byName fields r c₁ := by
  obtain ⟨c₁, hr₁, hlead⟩ := onLead_eq hg h (by decide)
  refine ⟨c₁.pass [0x7B] (text ++ rest), rfl, ?_⟩
  unfold record
  rw [hlead]
  exact bind_of_ok (eat_cons hr₁)

/-- An object that has an outcome is read with this outcome, whatever stands around it. -/
theorem record_ok (name : String) (hbuilt : ∀ field ∈ fields, Built field.decode)
    (hms : ∀ m ∈ ms, m.Formed)
    (ho : ObjectText ms o) (houtcome : Outcome fields r ms r') (hg : Gap g)
    (h : c.rest = g ++ (o ++ rest)) :
    ∃ c', record name fields r c = .ok (r', c') ∧ c'.rest = rest := by
  obtain ⟨hseries⟩ := ho
  obtain ⟨es, hes, hnodup, rfl⟩ := houtcome
  obtain ⟨c₁, hr₁, heq⟩ := record_eq name fields r hg h
  rw [heq]
  exact members_ok hbuilt (p := ⟨true, [], r⟩) hms hseries hes rfl (by simpa using hnodup) hr₁

/-- An object that is read has the outcome that it is read with. -/
theorem record_outcome (hbuilt : ∀ field ∈ fields, Built field.decode)
    (hsteady : ∀ field ∈ fields, Steady field.decode) (hms : ∀ m ∈ ms, m.Formed)
    (ho : ObjectText ms o) (hg : Gap g) (h : c.rest = g ++ (o ++ rest))
    (hrun : record name fields r c = .ok (r', c')) : Outcome fields r ms r' := by
  obtain ⟨hseries⟩ := ho
  obtain ⟨c₁, hr₁, heq⟩ := record_eq name fields r hg h
  rw [heq] at hrun
  obtain ⟨es, hes, hnodup, happlied⟩ := members_effects hbuilt hsteady (p := ⟨true, [], r⟩) hms
    hseries rfl List.nodup_nil hr₁ hrun
  exact ⟨es, hes, by simpa using hnodup, happlied⟩

end Records

end BackupReport.Json
