import BackupReport.Proofs.Members.Variation

/-!
# A record field by field

Where no field occurs twice, a record is what its fields make of the defaults one after the other,
each by its only member, or not at all (`Unordered.outcome_of_fields`).  In what order the members
stand does not matter, nor what stands between them.
-/

namespace BackupReport.Json

open Decoder

variable {ρ : Type} {fields : List (Field ρ)} {m m' : Member} {ms : List Member} {r r' : ρ}
  {names : List String} {es : List (Option (String × (ρ → ρ)))}

/-! ## Members of different fields -/

/-- Two members do not belong to the same field. -/
def Apart (names : List String) (m m' : Member) : Prop :=
  ∀ name ∈ names, Text.Spells m.key name → ¬ Text.Spells m'.key name

instance : Std.Symm (Apart names) :=
  ⟨fun _ _ h name hname hspells hspells' => h name hname hspells' hspells⟩

section Keys

variable {keys : List String}

/-- The keys of some members spell these texts. -/
def Keyed (ms : List Member) (keys : List String) : Prop :=
  List.Forall₂ (fun m key => Text.Spells m.key key) ms keys

theorem Keyed.exists_mem (h : Keyed ms keys) (hm : m ∈ ms) :
    ∃ key ∈ keys, Text.Spells m.key key := by
  induction h with
  | nil => exact absurd hm List.not_mem_nil
  | @cons m' key ms keys hspells _ ih =>
    rcases List.mem_cons.1 hm with rfl | hm
    · exact ⟨key, List.mem_cons_self, hspells⟩
    · obtain ⟨key', hkey', hspells'⟩ := ih hm
      exact ⟨key', List.mem_cons_of_mem _ hkey', hspells'⟩

theorem Keyed.exists_key (h : Keyed ms keys) (hm : m ∈ ms) : ∃ key, Text.Spells m.key key := by
  obtain ⟨key, -, hspells⟩ := h.exists_mem hm
  exact ⟨key, hspells⟩

/-- A field whose name is none of the keys has no member. -/
theorem Keyed.not_spells (h : Keyed ms keys) {name : String} (hname : name ∉ keys) :
    ∀ m ∈ ms, ¬ Text.Spells m.key name := by
  intro m hm hspells
  obtain ⟨key, hkey, hspells'⟩ := h.exists_mem hm
  cases hspells.unique hspells'
  exact hname hkey

/-- Members with different keys do not belong to the same field. -/
theorem Keyed.apart (h : Keyed ms keys) (hkeys : keys.Nodup) : ms.Pairwise (Apart names) := by
  induction h with
  | nil => exact .nil
  | @cons m key ms keys hspells hms ih =>
    obtain ⟨hkey, hkeys⟩ := List.nodup_cons.1 hkeys
    refine .cons (fun m' hm' name _ hname hname' => ?_) (ih hkeys)
    cases hspells.unique hname
    exact Keyed.not_spells hms hkey m' hm' hname'

end Keys

/-- Where no field occurs twice, it has one member at most. -/
theorem eq_of_apart (hapart : ms.Pairwise (Apart names)) (hm : m ∈ ms) (hm' : m' ∈ ms)
    {name : String} (hname : name ∈ names) (hspells : Text.Spells m.key name)
    (hspells' : Text.Spells m'.key name) : m = m' := by
  by_contra hne
  exact hapart.forall hm hm' hne name hname hspells hspells'

/-- What a field makes of a record: what its member makes of it, or nothing if there is none. -/
inductive Makes (ms : List Member) (field : Field ρ) : (ρ → ρ) → Prop
  | given {m : Member} {change : ρ → ρ} : m ∈ ms → Text.Spells m.key field.name →
      Takes field.decode m.value change → Makes ms field change
  | missing : (∀ m ∈ ms, ¬ Text.Spells m.key field.name) → Makes ms field id

/-! ## Effects -/

/-- A member has one effect at most. -/
theorem Effect.unique {e e' : Option (String × (ρ → ρ))} (h : Effect fields m e)
    (h' : Effect fields m e') : e = e' := by
  cases h with
  | known hspells hfind htakes =>
    cases h' with
    | known hspells' hfind' htakes' =>
      cases hspells.unique hspells'
      cases hfind.symm.trans hfind'
      rw [htakes.unique htakes']
    | unknown hspells' hfind' =>
      cases hspells.unique hspells'
      cases hfind.symm.trans hfind'
  | unknown hspells hfind =>
    cases h' with
    | known hspells' hfind' =>
      cases hspells.unique hspells'
      cases hfind.symm.trans hfind'
    | unknown => rfl

/-- If every member has an effect, there are effects of all. -/
theorem exists_effects (h : ∀ m ∈ ms, ∃ e, Effect fields m e) :
    ∃ es, List.Forall₂ (Effect fields) ms es := by
  induction ms with
  | nil => exact ⟨[], .nil⟩
  | cons m ms ih =>
    obtain ⟨e, he⟩ := h m List.mem_cons_self
    obtain ⟨es, hes⟩ := ih fun m hm => h m (List.mem_cons_of_mem _ hm)
    exact ⟨e :: es, .cons he hes⟩

/-- What some member means is known. -/
theorem known_of_effect (hes : List.Forall₂ (Effect fields) ms es) (hm : m ∈ ms)
    {x : String × (ρ → ρ)} (hx : Effect fields m (some x)) : x ∈ known es := by
  rw [known, List.reduceOption_mem_iff]
  induction hes with
  | nil => exact absurd hm List.not_mem_nil
  | @cons m' e ms es he _ ih =>
    rcases List.mem_cons.1 hm with rfl | hm
    · rw [hx.unique he]
      exact List.mem_cons_self
    · exact List.mem_cons_of_mem _ (ih hm)

/-- Where no two members belong to the same field, no field occurs twice among the effects. -/
theorem nodup_of_apart (hes : List.Forall₂ (Effect fields) ms es)
    (hapart : ms.Pairwise (Apart (fields.map Field.name))) : (namesOf es).Nodup := by
  induction hes with
  | nil => exact List.nodup_nil
  | @cons m e ms es he hes ih =>
    obtain ⟨hfirst, hlater⟩ := List.pairwise_cons.1 hapart
    cases he with
    | unknown => exact ih hlater
    | @known name field change hspells hfind _ =>
      refine List.nodup_cons.2 ⟨?_, ih hlater⟩
      intro hmem
      obtain ⟨x, hx, hname⟩ := List.mem_map.1 hmem
      obtain ⟨m', hm', he'⟩ := effect_of_known hes hx
      have hfield : name ∈ fields.map Field.name := by
        by_contra hnone
        rw [find?_none_iff.2 hnone] at hfind
        cases hfind
      cases he' with
      | known hspells' =>
        cases hname
        exact hfirst m' hm' name hfield hspells hspells'

/-! ## The order of the fields -/

/-- The fields with the changes that they make. -/
def pairs (fields : List (Field ρ)) (changes : List (ρ → ρ)) : List (String × (ρ → ρ)) :=
  List.zipWith (fun field change => (field.name, change)) fields changes

section Pairs

variable {changes : List (ρ → ρ)}

theorem pairs_names {R : Field ρ → (ρ → ρ) → Prop} (h : List.Forall₂ R fields changes) :
    (pairs fields changes).map Prod.fst = fields.map Field.name := by
  induction h with
  | nil => rfl
  | cons _ _ ih => exact congrArg _ ih

theorem foldl_pairs {R : Field ρ → (ρ → ρ) → Prop} (h : List.Forall₂ R fields changes) (r : ρ) :
    (pairs fields changes).foldl (fun r x => x.2 r) r =
      changes.foldl (fun r change => change r) r := by
  induction h generalizing r with
  | nil => rfl
  | @cons _ change _ _ _ _ ih => exact ih (change r)

theorem exists_field {R : Field ρ → (ρ → ρ) → Prop} (h : List.Forall₂ R fields changes)
    {x : String × (ρ → ρ)} (hx : x ∈ pairs fields changes) :
    ∃ field ∈ fields, field.name = x.1 ∧ R field x.2 := by
  induction h with
  | nil => exact absurd hx List.not_mem_nil
  | @cons field change fields changes hr _ ih =>
    rcases List.mem_cons.1 hx with rfl | hx
    · exact ⟨field, List.mem_cons_self, rfl, hr⟩
    · obtain ⟨field', hfield', hrest⟩ := ih hx
      exact ⟨field', List.mem_cons_of_mem _ hfield', hrest⟩

theorem exists_pair {R : Field ρ → (ρ → ρ) → Prop} (h : List.Forall₂ R fields changes)
    {field : Field ρ} (hfield : field ∈ fields) :
    ∃ change, (field.name, change) ∈ pairs fields changes ∧ R field change := by
  induction h with
  | nil => exact absurd hfield List.not_mem_nil
  | @cons field' change fields changes hr _ ih =>
    rcases List.mem_cons.1 hfield with rfl | hfield
    · exact ⟨change, List.mem_cons_self, hr⟩
    · obtain ⟨change', hpair, hr'⟩ := ih hfield
      exact ⟨change', List.mem_cons_of_mem _ hpair, hr'⟩

end Pairs

/-- A member of a field means what the field makes. -/
theorem effect_of_makes (hapart : ms.Pairwise (Apart (fields.map Field.name)))
    (hnames : (fields.map Field.name).Nodup) {field : Field ρ} (hfield : field ∈ fields)
    (hm : m ∈ ms) (hspells : Text.Spells m.key field.name) {change : ρ → ρ}
    (hmakes : Makes ms field change) : Effect fields m (some (field.name, change)) := by
  cases hmakes with
  | missing hmissing => exact absurd hspells (hmissing m hm)
  | given hm' hspells' htakes =>
    cases eq_of_apart hapart hm hm' (List.mem_map_of_mem hfield) hspells hspells'
    exact .known hspells (find?_of_mem hnames hfield) htakes

section Order

variable {changes : List (ρ → ρ)}

/-- What is known of the members is what some field makes. -/
theorem mem_pairs_of_known (hapart : ms.Pairwise (Apart (fields.map Field.name)))
    (hnames : (fields.map Field.name).Nodup) (hmakes : List.Forall₂ (Makes ms) fields changes)
    (hes : List.Forall₂ (Effect fields) ms es) {x : String × (ρ → ρ)} (hx : x ∈ known es) :
    x ∈ pairs fields changes := by
  obtain ⟨m, hm, he⟩ := effect_of_known hes hx
  cases he with
  | @known name field change hspells hfind htakes =>
    have hname : field.name = name := by simpa using List.find?_some hfind
    have hfield := List.mem_of_find?_eq_some hfind
    subst hname
    obtain ⟨change', hpair, hmake⟩ := exists_pair hmakes hfield
    have he' := effect_of_makes hapart hnames hfield hm hspells hmake
    cases Effect.unique (.known hspells hfind htakes) he'
    exact hpair

/-- What is known of the members is what those fields make that have a member. -/
theorem known_perm_pairs (hapart : ms.Pairwise (Apart (fields.map Field.name)))
    (hnames : (fields.map Field.name).Nodup) (hmakes : List.Forall₂ (Makes ms) fields changes)
    (hes : List.Forall₂ (Effect fields) ms es) :
    (known es).Perm ((pairs fields changes).filter fun x => decide (x.1 ∈ namesOf es)) := by
  have hpairs : ((pairs fields changes).map Prod.fst).Nodup := by
    rw [pairs_names hmakes]
    exact hnames
  refine (List.perm_ext_iff_of_nodup (List.Nodup.of_map _ (nodup_of_apart hes hapart))
    ((List.Nodup.of_map _ hpairs).filter _)).2 fun x => ?_
  rw [List.mem_filter, decide_eq_true_iff]
  constructor
  · intro hx
    exact ⟨mem_pairs_of_known hapart hnames hmakes hes hx, List.mem_map_of_mem hx⟩
  · rintro ⟨hx, hmem⟩
    obtain ⟨y, hy, hname⟩ := List.mem_map.1 hmem
    have hy' := mem_pairs_of_known hapart hnames hmakes hes hy
    rwa [← List.inj_on_of_nodup_map hpairs hy' hx hname]

/-- A field that has no member makes nothing. -/
theorem change_eq_id (hnames : (fields.map Field.name).Nodup)
    (hmakes : List.Forall₂ (Makes ms) fields changes) (hes : List.Forall₂ (Effect fields) ms es)
    {x : String × (ρ → ρ)} (hx : x ∈ pairs fields changes) (hnot : x.1 ∉ namesOf es) :
    x.2 = id := by
  obtain ⟨field, hfield, hname, hmake⟩ := exists_field hmakes hx
  obtain ⟨name, change⟩ := x
  cases hname
  cases hmake with
  | missing => rfl
  | given hm hspells htakes =>
    have he : Effect fields _ (some (field.name, change)) :=
      .known hspells (find?_of_mem hnames hfield) htakes
    exact absurd (List.mem_map_of_mem (known_of_effect hes hm he)) hnot

/-- Where no field occurs twice and each makes something of its member, the outcome is what the
fields make of the record one after the other. -/
theorem Unordered.outcome_of_fields (hfields : Unordered fields r)
    (hnames : (fields.map Field.name).Nodup) (hkeys : ∀ m ∈ ms, ∃ key, Text.Spells m.key key)
    (hapart : ms.Pairwise (Apart (fields.map Field.name)))
    (hmakes : List.Forall₂ (Makes ms) fields changes) :
    Outcome fields r ms (changes.foldl (fun r change => change r) r) := by
  have heffects : ∀ m ∈ ms, ∃ e, Effect fields m e := by
    intro m hm
    obtain ⟨key, hkey⟩ := hkeys m hm
    by_cases hknown : key ∈ fields.map Field.name
    · obtain ⟨field, hfield, rfl⟩ := List.mem_map.1 hknown
      obtain ⟨change, -, hmake⟩ := exists_pair hmakes hfield
      exact ⟨_, effect_of_makes hapart hnames hfield hm hkey hmake⟩
    · exact ⟨none, .unknown hkey (find?_none_iff.2 hknown)⟩
  obtain ⟨es, hes⟩ := exists_effects heffects
  have hnodup := nodup_of_apart hes hapart
  refine ⟨es, hes, hnodup, ?_⟩
  have hperm := known_perm_pairs hapart hnames hmakes hes
  calc applied es r
      = ((pairs fields changes).filter fun x => decide (x.1 ∈ namesOf es)).foldl
          (fun r x => x.2 r) r :=
        hperm.foldl_eq' (fun x hx y hy z => hfields.commute_known hes hnodup hx hy z) r
    _ = (pairs fields changes).foldl (fun r x => x.2 r) r := by
        rw [List.foldl_filter]
        refine List.foldl_ext _ _ _ fun r' x hx => ?_
        by_cases hmem : x.1 ∈ namesOf es
        · simp [hmem]
        · simp [hmem, change_eq_id hnames hmakes hes hx hmem]
    _ = changes.foldl (fun r change => change r) r := foldl_pairs hmakes r

end Order

/-! ## What an outcome tells of the members -/

/-- Where an object has an outcome, every member has an effect. -/
theorem Outcome.effect (h : Outcome fields r ms r') (hm : m ∈ ms) : ∃ e, Effect fields m e := by
  obtain ⟨es, hes, -, -⟩ := h
  have hall : List.Forall₂ (fun m e => (∃ e, Effect fields m e) ∧ Effect fields m e) ms es :=
    hes.imp fun _ e he => ⟨⟨e, he⟩, he⟩
  exact ((List.forall₂_and_left ms es).1 hall).1 m hm

/-- Where an object has an outcome, its keys are texts. -/
theorem Outcome.keys (h : Outcome fields r ms r') (hm : m ∈ ms) :
    ∃ key, Text.Spells m.key key := by
  obtain ⟨e, he⟩ := h.effect hm
  cases he with
  | known hspells => exact ⟨_, hspells⟩
  | unknown hspells => exact ⟨_, hspells⟩

/-- Where an object has an outcome, every member of a field is taken by the field. -/
theorem Outcome.takes (h : Outcome fields r ms r') (hnames : (fields.map Field.name).Nodup)
    {field : Field ρ} (hfield : field ∈ fields) (hm : m ∈ ms)
    (hspells : Text.Spells m.key field.name) : ∃ change, Takes field.decode m.value change := by
  obtain ⟨e, he⟩ := h.effect hm
  have hfind := find?_of_mem hnames hfield
  cases he with
  | known hspells' hfind' htakes =>
    cases hspells.unique hspells'
    cases hfind.symm.trans hfind'
    exact ⟨_, htakes⟩
  | unknown hspells' hfind' =>
    cases hspells.unique hspells'
    cases hfind.symm.trans hfind'

end BackupReport.Json
