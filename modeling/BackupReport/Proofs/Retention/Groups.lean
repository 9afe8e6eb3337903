import BackupReport.Proofs.Members.Captures
import BackupReport.Proofs.Members.Fields
import BackupReport.Proofs.Session.Trace

/-!
# Groups of a retention run

A group is an object in which `keep` and `remove` each are missing, `null`, or a list of any values
(`Lists`); how many entries the lists have is all that counts.  An object decodes as a group exactly
if it has this form and all its keys are texts (`decode_group_iff`).
-/

namespace BackupReport

open Json Json.Decoder

namespace Json

variable {α ρ : Type} {d : Decoder α} {w : List UInt8} {a : α}

/-! ## Whole texts -/

/-- What is read up to a gap at the end of a text is read of the whole text. -/
theorem decodeWhole_of_run (hd : Built d) {c : Cursor} (h : d (.ofText w) = .ok (a, c))
    (hgap : ∀ b ∈ c.rest, isGap b = true) : decodeWhole d w = .ok a := by
  have hend : c.ending = .closed := hd.ending_eq h
  have hnone := gap_nil hgap
  rw [hend] at hnone
  obtain ⟨c', hnone⟩ := hnone
  unfold decodeWhole
  simp only [StateT.run]
  rw [bind_of_ok h, bind_of_ok hnone]
  rfl

/-- A value that is taken wherever it stands is taken alone if it shows its own end. -/
theorem decodeWhole_of_takes (hd : Built d) (hcloses : Closes d) (h : Takes d w a) :
    decodeWhole d w = .ok a := by
  obtain ⟨c, hrun, hr⟩ :=
    h (c := .ofText (w ++ [0x2C])) (List.forall_mem_nil _) (stops_comma []) rfl
  have hextended : d ((Cursor.ofText w).extend [0x2C] .closed) = .ok (a, c) := hrun
  have hcut : [0x2C].length ≤ c.rest.length := Nat.le_of_eq (congrArg List.length hr.symm)
  obtain ⟨c₁, hrun₁, rfl⟩ := hcloses.restrict_ok hextended hcut
  have hnil : c₁.rest = [] := List.append_left_eq_self.1 hr
  refine decodeWhole_of_run hd hrun₁ ?_
  rw [hnil]
  exact List.forall_mem_nil _

/-! ## Lists -/

/-- A value is a list, or it is declined where a list is wanted. -/
theorem list_or_declines (hw : IsValue w) : (∃ entries text, w = 0x5B :: text ∧
    Series Eq 0x5D true entries text ∧ ∀ e ∈ entries, IsValue e) ∨ Declines (list d) w := by
  cases hw with
  | number hm =>
    exact .inr (declines_of_written hm (refuses_refuseValue _) (refuses_refuseValue _))
  | list hseries hvalues => exact .inl ⟨_, _, rfl, hseries, hvalues⟩
  | _ => exact .inr (declines_of_lead (by decide) (refuses_refuseValue _))

/-! ## Outcomes -/

section Outcomes

variable {fields : List (Field ρ)} {ms : List Member} {r r' : ρ}
  {es : List (Option (String × (ρ → ρ)))}

/-- An object has one outcome at most. -/
theorem Outcome.unique {r'' : ρ} (h : Outcome fields r ms r') (h' : Outcome fields r ms r'') :
    r' = r'' := by
  obtain ⟨es, hes, -, rfl⟩ := h
  obtain ⟨es', hes', -, rfl⟩ := h'
  have hunique : Relator.RightUnique (Effect fields) := fun _ _ _ he he' => he.unique he'
  rw [hunique.forall₂ hes hes']

/-- Where no field occurs twice among the effects, no two members belong to the same field. -/
theorem apart_of_nodup (hes : List.Forall₂ (Effect fields) ms es) (hnodup : (namesOf es).Nodup) :
    ms.Pairwise (Apart (fields.map Field.name)) := by
  induction hes with
  | nil => exact .nil
  | @cons m e ms es he hes ih =>
    cases he with
    | unknown hspells hfind =>
      refine .cons (fun m' _ name hname hspells' _ => ?_) (ih hnodup)
      cases hspells.unique hspells'
      exact find?_none_iff.1 hfind hname
    | @known name field change hspells hfind =>
      obtain ⟨hfresh, hnodup⟩ := List.nodup_cons.1 hnodup
      refine .cons (fun m' hm' name' _ hspells' hspells'' => ?_) (ih hnodup)
      cases hspells.unique hspells'
      -- the later member would mean the same field
      obtain ⟨e', -, he'⟩ := exists_match hes hm'
      cases he' with
      | known hkey hfind' htakes' =>
        cases hkey.unique hspells''
        have hknown := known_of_effect hes hm' (.known hspells'' hfind' htakes')
        exact hfresh (List.mem_map.2 ⟨_, hknown, rfl⟩)
      | unknown hkey hfind' =>
        cases hkey.unique hspells''
        cases hfind.symm.trans hfind'

theorem Outcome.apart (h : Outcome fields r ms r') :
    ms.Pairwise (Apart (fields.map Field.name)) := by
  obtain ⟨es, hes, hnodup, -⟩ := h
  exact apart_of_nodup hes hnodup

end Outcomes

end Json

namespace Retention

/-! ## Lists of entries -/

/-- How many entries the field of a name lists among some members: none if it is missing or `null`,
else those of its list, whatever values they are. -/
inductive Lists (ms : List Member) (name : String) : Nat → Prop
  | missing : (∀ m ∈ ms, ¬ Text.Spells m.key name) → Lists ms name 0
  | null {m : Member} : m ∈ ms → Text.Spells m.key name → m.value = 0x6E :: restOfNull →
      Lists ms name 0
  | entries {m : Member} {es : List (List UInt8)} {text : List UInt8} : m ∈ ms →
      Text.Spells m.key name → m.value = 0x5B :: text → Series Eq 0x5D true es text →
      (∀ e ∈ es, IsValue e) → Lists ms name es.length

section Entries

variable {ms : List Member} {entries : List (List UInt8)} {text w : List UInt8} {name : String}
  {n : Nat}

/-- The entries of a list are counted, whatever they are. -/
theorem takes_entryCount (hseries : Series Eq 0x5D true entries text)
    (hvalues : ∀ e ∈ entries, IsValue e) : Takes entryCount (0x5B :: text) entries.length := by
  have hall : List.Forall₂ (Takes skipValue) entries (entries.map fun _ => ()) :=
    List.forall₂_map_right_iff.2 (List.forall₂_same.2 fun e he => takes_skipValue (hvalues e he))
  have hlist : Takes (list skipValue) (0x5B :: text) (entries.map fun _ => ()) := by
    intro c g rest hg _ hc
    exact list_ok Skip.consumes_skipValue hseries hvalues hall hg hc
  have hcount := ((hlist.map List.length).optional (by decide) (by decide)).map (·.getD default)
  rw [List.length_map] at hcount
  exact hcount

/-- Entries are counted of `null` and of lists only. -/
theorem entryCount_cases (hw : IsValue w) (h : Takes entryCount w n) : w = 0x6E :: restOfNull ∨
    ∃ entries text, w = 0x5B :: text ∧ Series Eq 0x5D true entries text ∧
      ∀ e ∈ entries, IsValue e := by
  rcases hw.null_or with hnull | ⟨b, inner, rfl, hnull, hother⟩
  · exact .inl hnull
  · rcases list_or_declines (d := skipValue) hw with hlist | hdeclines
    · exact .inr hlist
    · have hcount : Declines entryCount (b :: inner) :=
        ((hdeclines.map List.length).optional hnull hother).map _
      exact absurd hcount h.not_declines

/-- A field whose entries are counted makes their number of a group, or nothing if it is missing. -/
theorem Lists.makes {set : Nat → Group → Group} (h : Lists ms name n) :
    ∃ change, Makes ms (Field.of name entryCount set) change ∧
      (change = set n ∨ change = id ∧ n = 0) := by
  cases h with
  | missing hnone => exact ⟨id, .missing hnone, .inr ⟨rfl, rfl⟩⟩
  | null hm hspells hnull =>
    exact ⟨set 0, .given hm hspells (hnull ▸ (takes_null_default _).map set), .inl rfl⟩
  | entries hm hspells hvalue hseries hvalues =>
    exact ⟨set _, .given hm hspells (hvalue ▸ (takes_entryCount hseries hvalues).map set), .inl rfl⟩

/-- The entries of a field can be counted if they can be in its member. -/
theorem exists_lists (hms : ∀ m ∈ ms, IsValue m.value)
    (htakes : ∀ m ∈ ms, Text.Spells m.key name → ∃ n, Takes entryCount m.value n) :
    ∃ n, Lists ms name n := by
  by_cases hgiven : ∃ m ∈ ms, Text.Spells m.key name
  · obtain ⟨m, hm, hspells⟩ := hgiven
    obtain ⟨n, hn⟩ := htakes m hm hspells
    rcases entryCount_cases (hms m hm) hn with hnull | ⟨entries, text, hvalue, hseries, hvalues⟩
    · exact ⟨0, .null hm hspells hnull⟩
    · exact ⟨_, .entries hm hspells hvalue hseries hvalues⟩
  · push Not at hgiven
    exact ⟨0, .missing hgiven⟩

end Entries

/-! ## Groups -/

/-- What the members of a group come to: neither field occurs twice, and both list as many entries
as the group counts. -/
structure Counted (ms : List Member) (g : Group) : Prop where
  apart : ms.Pairwise (Apart ["keep", "remove"])
  kept : Lists ms "keep" g.kept
  removed : Lists ms "remove" g.removed

/-- A group as it is written: an object whose keys are texts, with its entries counted. -/
inductive IsGroup : List UInt8 → Group → Prop
  | intro {ms : List Member} {o : List UInt8} {g : Group} : ObjectText ms o →
      (∀ m ∈ ms, IsValue m.value) → (∀ m ∈ ms, ∃ key, Text.Spells m.key key) → Counted ms g →
      IsGroup o g

section Groups

variable {ms : List Member} {o : List UInt8} {g : Group}

theorem formed_of_keys (hvalues : ∀ m ∈ ms, IsValue m.value)
    (hkeys : ∀ m ∈ ms, ∃ key, Text.Spells m.key key) : ∀ m ∈ ms, m.Formed := by
  intro m hm
  obtain ⟨key, hkey⟩ := hkeys m hm
  exact ⟨hkey.body, hvalues m hm⟩

theorem Counted.outcome (h : Counted ms g) (hkeys : ∀ m ∈ ms, ∃ key, Text.Spells m.key key) :
    Json.Outcome Group.fields {} ms g := by
  obtain ⟨keep, hkeep, hkept⟩ := h.kept.makes
  obtain ⟨remove, hremove, hremoved⟩ := h.removed.makes
  have houtcome := unordered_group.outcome_of_fields (by decide) hkeys h.apart
    (.cons hkeep (.cons hremove .nil))
  obtain ⟨kept, removed⟩ := g
  rcases hkept with rfl | ⟨rfl, hzero⟩ <;> rcases hremoved with rfl | ⟨rfl, hzero'⟩ <;>
    simp_all

theorem counted_of_outcome (hvalues : ∀ m ∈ ms, IsValue m.value)
    (h : Json.Outcome Group.fields {} ms g) : Counted ms g := by
  have hlists : ∀ {name : String} {set : Nat → Group → Group},
      Field.of name entryCount set ∈ Group.fields → ∃ n, Lists ms name n := by
    intro name set hfield
    refine exists_lists hvalues fun m hm hspells => ?_
    obtain ⟨change, htakes⟩ := h.takes (by decide) hfield hm hspells
    rcases steady_entryCount _ (hvalues m hm) with hcount | hdeclines
    · exact hcount
    · exact absurd (hdeclines.map set) htakes.not_declines
  obtain ⟨kept, hkept⟩ := hlists List.mem_cons_self
  obtain ⟨removed, hremoved⟩ := hlists (List.mem_cons_of_mem _ List.mem_cons_self)
  have hcounted : Counted ms ⟨kept, removed⟩ := ⟨h.apart, hkept, hremoved⟩
  cases h.unique (hcounted.outcome fun m hm => h.keys hm)
  exact hcounted

theorem IsGroup.takes (h : IsGroup o g) : Takes Group.decode o g := by
  obtain ⟨ho, hvalues, hkeys, hcounted⟩ := h
  exact (takes_record_iff unordered_group (formed_of_keys hvalues hkeys) ho).2
    (hcounted.outcome hkeys)

/-- An object decodes as a group exactly if it is written as that group. -/
theorem decode_group_iff (hms : ∀ m ∈ ms, m.Formed) (ho : ObjectText ms o) :
    decodeWhole Group.decode o = .ok g ↔
      (∀ m ∈ ms, ∃ key, Text.Spells m.key key) ∧ Counted ms g := by
  constructor
  · intro h
    obtain ⟨c, -, hrun, -⟩ := decodeWhole_ok h
    have houtcome : Json.Outcome Group.fields {} ms g := record_outcome unordered_group.built
      unordered_group.steady hms ho (List.forall_mem_nil _) (List.append_nil o).symm hrun
    exact ⟨fun m hm => houtcome.keys hm,
      counted_of_outcome (fun m hm => (hms m hm).value) houtcome⟩
  · rintro ⟨hkeys, hcounted⟩
    exact decodeWhole_of_takes kind_group.built kind_group.closes
      (IsGroup.intro ho (fun m hm => (hms m hm).value) hkeys hcounted).takes

/-- An object with a key that is no text does not decode as a group. -/
theorem not_decoded_of_key (hms : ∀ m ∈ ms, m.Formed) (ho : ObjectText ms o) {m : Member}
    (hm : m ∈ ms) (hkey : ∀ key, ¬ Text.Spells m.key key) : decodeWhole Group.decode o ≠ .ok g := by
  intro hdecoded
  obtain ⟨key, hspells⟩ := ((decode_group_iff hms ho).1 hdecoded).1 m hm
  exact hkey key hspells

/-- A field is spoiled that holds neither `null` nor a list, or that occurs twice. -/
inductive Spoiled (ms : List Member) (name : String) : Prop
  | kind {m : Member} : m ∈ ms → Text.Spells m.key name → m.value ≠ 0x6E :: restOfNull →
      m.value.head? ≠ some 0x5B → Spoiled ms name
  | twice {m m' : Member} : [m, m'].Sublist ms → Text.Spells m.key name →
      Text.Spells m'.key name → Spoiled ms name

theorem Spoiled.not_counted {name : String} (h : Spoiled ms name)
    (hname : name ∈ ["keep", "remove"]) : ¬ Counted ms g := by
  intro hcounted
  have hlists : ∃ n, Lists ms name n := by
    simp only [List.mem_cons, List.not_mem_nil, or_false] at hname
    rcases hname with rfl | rfl
    · exact ⟨_, hcounted.kept⟩
    · exact ⟨_, hcounted.removed⟩
  obtain ⟨n, hlists⟩ := hlists
  cases h with
  | kind hm hspells hnull hlist =>
    cases hlists with
    | missing hnone => exact hnone _ hm hspells
    | null hm' hspells' hvalue =>
      cases eq_of_apart hcounted.apart hm hm' hname hspells hspells'
      exact hnull hvalue
    | entries hm' hspells' hvalue =>
      cases eq_of_apart hcounted.apart hm hm' hname hspells hspells'
      exact hlist (by rw [hvalue]; rfl)
  | twice hsublist hspells hspells' =>
    exact List.pairwise_pair.1 (hcounted.apart.sublist hsublist) name hname hspells hspells'

/-- An object of which a field is spoiled does not decode as a group. -/
theorem Spoiled.not_decoded {name : String} (h : Spoiled ms name)
    (hname : name ∈ ["keep", "remove"]) (hms : ∀ m ∈ ms, m.Formed) (ho : ObjectText ms o) :
    decodeWhole Group.decode o ≠ .ok g :=
  fun hdecoded => h.not_counted hname ((decode_group_iff hms ho).1 hdecoded).2

/-- A group that keeps a list and an object, and has `null` for `remove`. -/
theorem isGroup_nested :
    IsGroup (Utf8.encode "\x7b\"keep\":[[0],\x7b\x7d],\"remove\":null\x7d".toList) ⟨2, 0⟩ := by
  have hgap : Gap [] := List.forall_mem_nil _
  have hlist : IsValue [0x5B, 0x30, 0x5D] := .list (.entry (.first hgap) rfl (.close hgap))
    (List.forall_mem_singleton.2 isValue_zero)
  have hnone : Series Member.Writes 0x7D true [] [0x7D] := .close hgap
  have hobject : IsValue [0x7B, 0x7D] :=
    .object hnone (List.forall_mem_nil _) (List.forall_mem_nil _)
  have hvalues : ∀ e ∈ [[0x5B, 0x30, 0x5D], [0x7B, 0x7D]], IsValue e :=
    List.forall_mem_cons.2 ⟨hlist, List.forall_mem_singleton.2 hobject⟩
  have hentries : Series Eq 0x5D true [[0x5B, 0x30, 0x5D], [0x7B, 0x7D]]
      [0x5B, 0x30, 0x5D, 0x2C, 0x7B, 0x7D, 0x5D] :=
    .entry (.first hgap) rfl (.entry (.later hgap hgap) rfl (.close hgap))
  have hkeep : Text.Spells (Member.plain "keep" "[[0],\x7b\x7d]").key "keep" :=
    Text.spells_plain (by decide +kernel)
  have hkept : (Member.plain "keep" "[[0],\x7b\x7d]").value =
      0x5B :: [0x5B, 0x30, 0x5D, 0x2C, 0x7B, 0x7D, 0x5D] := by decide +kernel
  have hremove : Text.Spells (Member.plain "remove" "null").key "remove" :=
    Text.spells_plain (by decide +kernel)
  have hnull : (Member.plain "remove" "null").value = 0x6E :: restOfNull := by decide +kernel
  have hkeys : Keyed [Member.plain "keep" "[[0],\x7b\x7d]", Member.plain "remove" "null"]
      ["keep", "remove"] := .cons hkeep (.cons hremove .nil)
  have ho : ObjectText [Member.plain "keep" "[[0],\x7b\x7d]", Member.plain "remove" "null"]
      (Utf8.encode "\x7b\"keep\":[[0],\x7b\x7d],\"remove\":null\x7d".toList) :=
    .of_compact (by decide +kernel)
  refine .intro ho ?_ (fun m hm => hkeys.exists_key hm) ⟨hkeys.apart (by decide), ?_, ?_⟩
  · exact List.forall_mem_cons.2 ⟨hkept ▸ .list hentries hvalues,
      List.forall_mem_singleton.2 (hnull ▸ .null)⟩
  · exact .entries (.head _) hkeep hkept hentries hvalues
  · exact .null (.tail _ (.head _)) hremove hnull

/-- A group that keeps a string which holds a bracket, and has no `remove`. -/
theorem isGroup_quoted :
    IsGroup (Utf8.encode "\x7b\"keep\":[\"]\"]\x7d".toList) ⟨1, 0⟩ := by
  have hgap : Gap [] := List.forall_mem_nil _
  have hbracket : Text.Body [0x5D] := .plain (by decide) .nil
  have hvalues : ∀ e ∈ [[0x22, 0x5D, 0x22]], IsValue e :=
    List.forall_mem_singleton.2 (.string hbracket)
  have hentries : Series Eq 0x5D true [[0x22, 0x5D, 0x22]] [0x22, 0x5D, 0x22, 0x5D] :=
    .entry (.first hgap) rfl (.close hgap)
  have hkeep : Text.Spells (Member.plain "keep" "[\"]\"]").key "keep" :=
    Text.spells_plain (by decide +kernel)
  have hkept : (Member.plain "keep" "[\"]\"]").value = 0x5B :: [0x22, 0x5D, 0x22, 0x5D] := by
    decide +kernel
  have hkeys : Keyed [Member.plain "keep" "[\"]\"]"] ["keep"] := .cons hkeep .nil
  have ho : ObjectText [Member.plain "keep" "[\"]\"]"]
      (Utf8.encode "\x7b\"keep\":[\"]\"]\x7d".toList) :=
    .of_compact (by decide +kernel)
  refine .intro ho ?_ (fun m hm => hkeys.exists_key hm) ⟨hkeys.apart (by decide), ?_, ?_⟩
  · exact List.forall_mem_singleton.2 (hkept ▸ .list hentries hvalues)
  · exact .entries (.head _) hkeep hkept hentries hvalues
  · exact .missing (hkeys.not_spells (by decide))

end Groups

end Retention

end BackupReport
