import Mathlib.Data.List.Pairwise
import Mathlib.Data.List.Perm.Basic
import BackupReport.Proofs.Members.Objects

/-!
# Only known members count

Two objects that differ in the order of their members, in members that are no fields, or in fields
that are `null` in one and missing in the other (`Varies`) have the same outcomes
(`Varies.outcome_iff`).  This takes fields that change a record independently of each other, and for
which `null` leaves the defaults as they are (`Unordered`).
-/

namespace BackupReport.Json

open Decoder

variable {ρ : Type} {fields : List (Field ρ)} {m : Member} {ms ms' later : List Member}
  {r r' : ρ} {es : List (Option (String × (ρ → ρ)))}

/-! ## Variations -/

/-- Members that differ only in their order, in members whose keys spell no field name, and in
fields that are `null` in one place and missing in the other. -/
inductive Varies (names : List String) : List Member → List Member → Prop
  | perm {ms ms' : List Member} : ms.Perm ms' → Varies names ms ms'
  | unknown {m : Member} {ms later : List Member} {key : String} : m.Formed →
      Text.Spells m.key key → key ∉ names → Varies names (ms ++ later) (ms ++ m :: later)
  | null {m : Member} {ms later : List Member} {name : String} : Text.Spells m.key name →
      name ∈ names → m.value = 0x6E :: restOfNull →
      (∀ m' ∈ ms ++ later, ¬ Text.Spells m'.key name) →
      Varies names (ms ++ later) (ms ++ m :: later)
  | symm {ms ms' : List Member} : Varies names ms ms' → Varies names ms' ms
  | trans {ms ms' ms'' : List Member} : Varies names ms ms' → Varies names ms' ms'' →
      Varies names ms ms''

/-- Two fields change a record independently of each other. -/
def Field.Independent (field field' : Field ρ) : Prop :=
  ∀ (w w' : List UInt8) (change change' : ρ → ρ), Takes field.decode w change →
    Takes field'.decode w' change' → ∀ r, change (change' r) = change' (change r)

instance : Std.Symm (Field.Independent (ρ := ρ)) :=
  ⟨fun _ _ h _ _ _ _ htakes htakes' r => (h _ _ _ _ htakes' htakes r).symm⟩

/-- Fields of a record that may come in any order: they change the record independently of each
other, and `null` leaves it with its default. -/
structure Unordered (fields : List (Field ρ)) (r : ρ) : Prop where
  value : ∀ field ∈ fields, Value field.decode
  steady : ∀ field ∈ fields, Steady field.decode
  independent : fields.Pairwise Field.Independent
  null : ∀ field ∈ fields, ∃ change, Takes field.decode (0x6E :: restOfNull) change ∧ change r = r

theorem Unordered.built (h : Unordered fields r) : ∀ field ∈ fields, Built field.decode :=
  fun field hfield => (h.value field hfield).built

/-- Where all members have their form, they have it after any variation. -/
theorem Varies.formed {names : List String} (h : Varies names ms ms') :
    (∀ m ∈ ms, m.Formed) ↔ ∀ m ∈ ms', m.Formed := by
  induction h with
  | perm hperm => simp only [hperm.mem_iff]
  | unknown hm => simp only [List.mem_append, List.mem_cons]; grind
  | @null m ms later name hspells _ hnull =>
    have hm : m.Formed := ⟨hspells.body, hnull ▸ .null⟩
    simp only [List.mem_append, List.mem_cons]
    grind
  | symm _ ih => exact ih.symm
  | trans _ _ ih ih' => exact ih.trans ih'

/-! ## The order of the members -/

/-- What is known of some members is what one of them means. -/
theorem effect_of_known (hes : List.Forall₂ (Effect fields) ms es) {x : String × (ρ → ρ)}
    (hx : x ∈ known es) : ∃ m ∈ ms, Effect fields m (some x) := by
  rw [known, List.reduceOption_mem_iff] at hx
  induction hes with
  | nil => exact absurd hx List.not_mem_nil
  | @cons m e ms es he _ ih =>
    rcases List.mem_cons.1 hx with rfl | hx
    · exact ⟨m, List.mem_cons_self, he⟩
    · obtain ⟨m', hm', he'⟩ := ih hx
      exact ⟨m', List.mem_cons_of_mem _ hm', he'⟩

/-- What is known of some members belongs to a field. -/
theorem field_of_known (hes : List.Forall₂ (Effect fields) ms es) {x : String × (ρ → ρ)}
    (hx : x ∈ known es) : ∃ field ∈ fields, field.name = x.1 ∧ ∃ w, Takes field.decode w x.2 := by
  obtain ⟨m, -, he⟩ := effect_of_known hes hx
  cases he with
  | known _ hfind htakes =>
    refine ⟨_, List.mem_of_find?_eq_some hfind, ?_, _, htakes⟩
    simpa using List.find?_some hfind

/-- The changes that different members make may be made in any order. -/
theorem Unordered.commute_known (h : Unordered fields r) (hes : List.Forall₂ (Effect fields) ms es)
    (hnodup : (namesOf es).Nodup) {x y : String × (ρ → ρ)} (hx : x ∈ known es)
    (hy : y ∈ known es) (z : ρ) : y.2 (x.2 z) = x.2 (y.2 z) := by
  by_cases hname : x.1 = y.1
  · rw [List.inj_on_of_nodup_map hnodup hx hy hname]
  · obtain ⟨field, hfield, hfx, w, htakes⟩ := field_of_known hes hx
    obtain ⟨field', hfield', hfy, w', htakes'⟩ := field_of_known hes hy
    have hne : field'.name ≠ field.name := by
      rw [hfx, hfy]
      exact Ne.symm hname
    exact h.independent.forall hfield' hfield (fun heq => hne (congrArg _ heq)) _ _ _ _
      htakes' htakes z

/-- The order of the members does not matter. -/
theorem Unordered.outcome_perm (h : Unordered fields r) (hperm : ms.Perm ms')
    (houtcome : Outcome fields r ms r') : Outcome fields r ms' r' := by
  obtain ⟨es, hes, hnodup, happlied⟩ := houtcome
  obtain ⟨es', hes', hperm'⟩ := List.perm_comp_forall₂ hperm.symm hes
  have hknown : (known es').Perm (known es) := hperm'.filterMap id
  refine ⟨es', hes', (hknown.map Prod.fst).nodup_iff.2 hnodup, ?_⟩
  rw [← happlied]
  refine (hknown.symm.foldl_eq' (fun x hx y hy z => ?_) r).symm
  exact h.commute_known hes hnodup hx hy z

/-! ## Members that do not count -/

theorem find?_none_iff {name : String} :
    fields.find? (·.name == name) = none ↔ name ∉ fields.map Field.name := by
  simp [List.find?_eq_none]

/-- A member that is no field does not count. -/
theorem outcome_unknown {key : String} (hspells : Text.Spells m.key key)
    (hkey : key ∉ fields.map Field.name) :
    Outcome fields r (m :: ms) r' ↔ Outcome fields r ms r' := by
  have hfind := find?_none_iff.2 hkey
  constructor
  · rintro ⟨es, hes, hnodup, happlied⟩
    cases hes with
    | @cons _ e _ es he hes =>
      cases he with
      | known hspells' hfind' =>
        rw [hspells.unique hspells', hfind'] at hfind
        cases hfind
      | unknown => exact ⟨es, hes, hnodup, happlied⟩
  · rintro ⟨es, hes, hnodup, happlied⟩
    exact ⟨none :: es, .cons (.unknown hspells hfind) hes, hnodup, happlied⟩

/-- A field that is `null` is as one that is missing. -/
theorem Unordered.outcome_null (h : Unordered fields r) {name : String}
    (hspells : Text.Spells m.key name) (hname : name ∈ fields.map Field.name)
    (hnull : m.value = 0x6E :: restOfNull) (hother : ∀ m' ∈ ms, ¬ Text.Spells m'.key name) :
    Outcome fields r (m :: ms) r' ↔ Outcome fields r ms r' := by
  constructor
  · rintro ⟨es, hes, hnodup, happlied⟩
    cases hes with
    | @cons _ e _ es he hes =>
      cases he with
      | @known name' field change hspells' hfind htakes =>
        obtain ⟨change', htakes', hchange'⟩ := h.null field (List.mem_of_find?_eq_some hfind)
        rw [hnull] at htakes
        cases htakes.unique htakes'
        refine ⟨es, hes, (List.nodup_cons.1 hnodup).2, ?_⟩
        have hfirst : applied es (change r) = r' := happlied
        rwa [hchange'] at hfirst
      | unknown hspells' hfind =>
        cases hspells.unique hspells'
        exact absurd hname (find?_none_iff.1 hfind)
  · rintro ⟨es, hes, hnodup, happlied⟩
    cases hfind : fields.find? (·.name == name) with
    | none => exact absurd hname (find?_none_iff.1 hfind)
    | some field =>
      obtain ⟨change, htakes, hchange⟩ := h.null field (List.mem_of_find?_eq_some hfind)
      have he : Effect fields m (some (name, change)) := .known hspells hfind (hnull ▸ htakes)
      refine ⟨some (name, change) :: es, .cons he hes, List.nodup_cons.2 ⟨?_, hnodup⟩, ?_⟩
      · -- no other member belongs to the field
        intro hmem
        obtain ⟨x, hx, hxname⟩ := List.mem_map.1 hmem
        obtain ⟨m', hm', he'⟩ := effect_of_known hes hx
        cases he' with
        | known hspells' =>
          cases hxname
          exact hother m' hm' hspells'
      · have hfirst : applied es (change r) = r' := by rwa [hchange]
        exact hfirst

/-! ## All variations -/

/-- A variation of the members does not change what they make of a record. -/
theorem Varies.outcome_iff (hfields : Unordered fields r)
    (h : Varies (fields.map Field.name) ms ms') :
    Outcome fields r ms r' ↔ Outcome fields r ms' r' := by
  have hmiddle : ∀ {m : Member} {ms later : List Member},
      Outcome fields r (m :: (ms ++ later)) r' ↔ Outcome fields r (ms ++ m :: later) r' :=
    ⟨hfields.outcome_perm List.perm_middle.symm, hfields.outcome_perm List.perm_middle⟩
  induction h with
  | perm hperm => exact ⟨hfields.outcome_perm hperm, hfields.outcome_perm hperm.symm⟩
  | unknown _ hspells hkey => exact (outcome_unknown hspells hkey).symm.trans hmiddle
  | null hspells hname hnull hother =>
    exact (hfields.outcome_null hspells hname hnull hother).symm.trans hmiddle
  | symm _ ih => exact ih.symm
  | trans _ _ ih ih' => exact ih.trans ih'

/-! ## Objects -/

section Records

variable {name : String} {o o' : List UInt8}

/-- An object is taken as its outcome. -/
theorem takes_record_iff (hfields : Unordered fields r) (hms : ∀ m ∈ ms, m.Formed)
    (ho : ObjectText ms o) : Takes (record name fields r) o r' ↔ Outcome fields r ms r' := by
  constructor
  · intro h
    obtain ⟨c', hrun⟩ := h.before_comma
    exact record_outcome hfields.built hfields.steady hms ho (List.forall_mem_nil _) rfl hrun
  · intro h c g rest hg _ hc
    exact record_ok _ hfields.built hms ho h hg hc

/-- Objects with varied members are taken as the same records. -/
theorem takes_varies (hfields : Unordered fields r) (hms : ∀ m ∈ ms, m.Formed)
    (h : Varies (fields.map Field.name) ms ms') (ho : ObjectText ms o) (ho' : ObjectText ms' o')
    (r' : ρ) : Takes (record name fields r) o r' ↔ Takes (record name fields r) o' r' := by
  rw [takes_record_iff hfields hms ho, takes_record_iff hfields (h.formed.1 hms) ho']
  exact h.outcome_iff hfields

/-- Objects with varied members are read as the same record wherever they stand, or both refused. -/
theorem record_varies (hfields : Unordered fields r) (hms : ∀ m ∈ ms, m.Formed)
    (h : Varies (fields.map Field.name) ms ms') (ho : ObjectText ms o) (ho' : ObjectText ms' o')
    {c c' : Cursor} {g g' rest : List UInt8} (hg : Gap g) (hg' : Gap g')
    (hc : c.rest = g ++ (o ++ rest)) (hc' : c'.rest = g' ++ (o' ++ rest)) :
    Alike (record name fields r) c c' := by
  have hms' := h.formed.1 hms
  have hiff : ∀ r', Outcome fields r ms r' ↔ Outcome fields r ms' r' := fun _ =>
    h.outcome_iff hfields
  refine alike_of_exact (Outcome fields r ms) rest (fun r' houtcome => ?_) (fun r' houtcome => ?_)
    (fun r' c₁ hrun => ?_) (fun r' c₁ hrun => ?_)
  · exact record_ok name hfields.built hms ho houtcome hg hc
  · exact record_ok name hfields.built hms' ho' ((hiff r').1 houtcome) hg' hc'
  · exact record_outcome hfields.built hfields.steady hms ho hg hc hrun
  · exact (hiff r').2 (record_outcome hfields.built hfields.steady hms' ho' hg' hc' hrun)

end Records

end BackupReport.Json
