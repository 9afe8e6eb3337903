import BackupReport.Proofs.Members.Variation
import BackupReport.Proofs.Stream.Concatenation
import BackupReport.Proofs.Stream.Summary

/-!
# The known members of captured outputs

The messages of a backup run, the object of a statistics run and the groups of a retention run are
records whose fields may come in any order (`unordered_message`, `unordered_repositorySize`,
`unordered_group`).
What stands around such an object is read in the same way after two objects that come to the same
(`Alike.itemsAt`, `Alike.decodeWhole`, `alike_list`), so that a variation of the members changes
nothing of what the whole output says (`decoded_by_known_members`).
-/

namespace BackupReport

open Json Json.Decoder

variable {α ρ : Type}

/-! ## Fields -/

section Fields

variable {name name' : String} {d : Decoder α} {w : List UInt8} {set : α → ρ → ρ}

/-- A field is set to what its value is taken as. -/
theorem Json.Takes.change_eq {change : ρ → ρ} (h : Takes (Field.of name d set).decode w change) :
    ∃ a, change = set a := by
  obtain ⟨c', hrun⟩ := h.before_comma
  obtain ⟨a, -, rfl⟩ := map_ok hrun
  exact ⟨a, rfl⟩

/-- Fields are independent if it does not matter which of them is set first. -/
theorem independent_of {β : Type} {d' : Decoder β} {set' : β → ρ → ρ}
    (h : ∀ a b r, set a (set' b r) = set' b (set a r)) :
    Field.Independent (Field.of name d set) (Field.of name' d' set') := by
  intro _ _ _ _ htakes htakes' r
  obtain ⟨a, rfl⟩ := htakes.change_eq
  obtain ⟨b, rfl⟩ := htakes'.change_eq
  exact h a b r

/-- A field that `null` sets to its default is left as it is by `null`. -/
theorem null_field {a : α} {r : ρ} (h : Takes d (0x6E :: restOfNull) a) (hset : set a r = r) :
    ∃ change, Takes (Field.of name d set).decode (0x6E :: restOfNull) change ∧ change r = r :=
  ⟨set a, h.map set, hset⟩

end Fields

/-! ## The three records -/

theorem value_double : Value double := ⟨built_numberAs _ _, spanned_number _ _⟩

theorem steady_signed : Steady signed := steady_number _ _

theorem steady_unsigned : Steady unsigned := steady_number _ _

theorem steady_double : Steady double := steady_number _ _

theorem steady_entryCount : Steady Retention.entryCount :=
  Steady.nullAsDefault (.map (steady_list value_skipValue Skip.consumes_skipValue) _)

/-- The fields of a message may come in any order. -/
theorem unordered_message : Unordered Message.fields {} where
  value := by
    simp only [Message.fields, List.forall_mem_cons]
    exact ⟨value_string.nullAsDefault.field _, value_signed.optional.field _,
      value_signed.optional.field _, value_signed.optional.field _,
      value_unsigned.nullAsDefault.field _, value_signed.optional.field _,
      value_unsigned.nullAsDefault.field _, value_double.nullAsDefault.field _,
      value_string.nullAsDefault.field _, List.forall_mem_nil _⟩
  steady := by
    simp only [Message.fields, List.forall_mem_cons]
    exact ⟨steady_string.nullAsDefault.map _, steady_signed.optional.map _,
      steady_signed.optional.map _, steady_signed.optional.map _,
      steady_unsigned.nullAsDefault.map _, steady_signed.optional.map _,
      steady_unsigned.nullAsDefault.map _, steady_double.nullAsDefault.map _,
      steady_string.nullAsDefault.map _, List.forall_mem_nil _⟩
  independent := by
    simp only [Message.fields, List.pairwise_cons, List.forall_mem_cons, List.not_mem_nil,
      false_implies, implies_true, List.Pairwise.nil, and_true]
    and_intros <;> exact independent_of fun _ _ _ => rfl
  null := by
    simp only [Message.fields, List.forall_mem_cons]
    exact ⟨null_field (takes_null_default _) rfl, null_field (takes_null _) rfl,
      null_field (takes_null _) rfl, null_field (takes_null _) rfl,
      null_field (takes_null_default _) rfl, null_field (takes_null _) rfl,
      null_field (takes_null_default _) rfl, null_field (takes_null_default _) rfl,
      null_field (takes_null_default _) rfl, List.forall_mem_nil _⟩

theorem unordered_repositorySize : Unordered RepositorySize.fields 0 where
  value := value_repositorySizeFields
  steady := List.forall_mem_singleton.2 (steady_unsigned.nullAsDefault.map _)
  independent := List.pairwise_singleton _ _
  null := List.forall_mem_singleton.2 (null_field (takes_null_default _) rfl)

theorem unordered_group : Unordered Retention.Group.fields {} where
  value := value_groupFields
  steady := by
    simp only [Retention.Group.fields, List.forall_mem_cons]
    exact ⟨steady_entryCount.map _, steady_entryCount.map _, List.forall_mem_nil _⟩
  independent := List.pairwise_pair.2 (independent_of fun _ _ _ => rfl)
  null := by
    simp only [Retention.Group.fields, List.forall_mem_cons]
    exact ⟨null_field (takes_null_default _) rfl, null_field (takes_null_default _) rfl,
      List.forall_mem_nil _⟩

/-! ## Around an object -/

section Around

variable {decode d : Decoder α} {c c' c₁ c₁' : Cursor}

/-- From the same bytes a decoder makes the same, faults aside. -/
theorem toOption_transfer (hd : Built d) (hr : c'.rest = c.rest) (he : c'.ending = c.ending) :
    ((d c').map Prod.fst).toOption = ((d c).map Prod.fst).toOption := by
  cases hrun : d c with
  | ok r =>
    obtain ⟨c₁, hrun', -⟩ := hd.transfer_ok hrun hr he
    rw [hrun']
    rfl
  | error fault =>
    cases hrun' : d c' with
    | error fault' => rfl
    | ok r =>
      obtain ⟨c₁, hrun₁, -⟩ := hd.transfer_ok hrun' hr.symm he.symm
      rw [hrun] at hrun₁
      cases hrun₁

/-- Whole texts with values that come to the same come to the same. -/
theorem Json.Alike.decodeWhole (hd : Built d) {text text' : List UInt8}
    (h : Alike d (.ofText text) (.ofText text')) :
    (decodeWhole d text).toOption = (decodeWhole d text').toOption := by
  unfold Json.decodeWhole
  simp only [StateT.run]
  rcases h with ⟨a, c₁, c₁', hrun, hrun', hr⟩ | ⟨hrefused, hrefused'⟩
  · rw [bind_of_ok hrun, bind_of_ok hrun']
    refine toOption_transfer (.bind built_gap fun r => ?_) hr
      ((hd.ending_eq hrun).trans (hd.ending_eq hrun').symm)
    cases r with
    | none => exact .pure a
    | some b => exact .refuseNext _
  · cases hrun : d (.ofText text) with
    | ok r => exact absurd hrun (hrefused r)
    | error fault =>
      cases hrun' : d (.ofText text') with
      | ok r => exact absurd hrun' (hrefused' r)
      | error fault' =>
        rw [bind_of_error hrun, bind_of_error hrun']
        rfl

/-- The items of a stream are the same wherever its bytes stand, faults aside. -/
theorem itemsAt_transfer (hd : Delimited decode) (hr : c'.rest = c.rest)
    (he : c'.ending = c.ending) :
    (itemsAt decode c').map Except.toOption = (itemsAt decode c).map Except.toOption := by
  have hbuilt := built_message? hd.built
  induction c using stream_induction hd generalizing c' with
  | _ c ih =>
    cases hm : message? decode c with
    | error fault =>
      cases hm' : message? decode c' with
      | error fault' =>
        rw [itemsAt_fault hm, itemsAt_fault hm']
        rfl
      | ok r =>
        obtain ⟨c₁, hm₁, -⟩ := hbuilt.transfer_ok hm' hr.symm he.symm
        rw [hm] at hm₁
        cases hm₁
    | ok r =>
      obtain ⟨r, c₁⟩ := r
      obtain ⟨c₁', hm', hr'⟩ := hbuilt.transfer_ok hm hr he
      cases r with
      | none => rw [itemsAt_end hm, itemsAt_end hm']
      | some a =>
        have he' : c₁'.ending = c₁.ending := by
          rw [hbuilt.ending_eq hm', hbuilt.ending_eq hm, he]
        rw [itemsAt_message hd hm, itemsAt_message hd hm', List.map_cons, List.map_cons,
          ih a c₁ hm hr' he']

/-- The items of two streams are the same, faults aside, if their first messages come to the
same. -/
theorem Json.Alike.itemsAt (hd : Delimited decode) {b b' : UInt8} (hg : gap c = .ok (some b, c₁))
    (hg' : gap c' = .ok (some b', c₁')) (he : c'.ending = c.ending) (h : Alike decode c₁ c₁') :
    (itemsAt decode c).map Except.toOption = (itemsAt decode c').map Except.toOption := by
  rcases h with ⟨a, c₂, c₂', hrun, hrun', hr⟩ | ⟨hrefused, hrefused'⟩
  · rw [itemsAt_message hd (message?_some hd hg hrun),
      itemsAt_message hd (message?_some hd hg' hrun'), List.map_cons, List.map_cons,
      itemsAt_transfer hd hr ?_]
    rw [hd.built.ending_eq hrun, built_gap.ending_eq hg, hd.built.ending_eq hrun',
      built_gap.ending_eq hg', he]
  · cases hrun : decode c₁ with
    | ok r => exact absurd hrun (hrefused r)
    | error fault =>
      cases hrun' : decode c₁' with
      | ok r => exact absurd hrun' (hrefused' r)
      | error fault' =>
        rw [itemsAt_fault (message?_error hg hrun), itemsAt_fault (message?_error hg' hrun')]
        rfl

/-- Behind a stream without faults the items of another one are its own, faults aside. -/
theorem items_toOption (hd : Delimited decode) {before : List UInt8}
    (hbefore : ∀ item ∈ items decode before, item.isOk = true) (more : List UInt8) :
    (items decode (before ++ more)).map Except.toOption =
      (items decode before).map Except.toOption ++ (items decode more).map Except.toOption := by
  have hmoved : ∀ item : Except Fault α, (moved before item).toOption = item.toOption := by
    intro item
    cases item <;> rfl
  rw [items_append_of_delimited hd before more hbefore, List.map_append, List.map_map]
  congr 1
  exact List.map_congr_left fun item _ => hmoved item

/-- What a stream reports does not depend on its faults but for where they stand. -/
theorem reported_congr (path : String) {items items' : List (Except Fault Message)}
    (h : items.map Except.toOption = items'.map Except.toOption) :
    (Snapshot.reported path items).toOption = (Snapshot.reported path items').toOption := by
  induction items generalizing items' with
  | nil =>
    cases items' with
    | nil => rfl
    | cons item' later' => cases h
  | cons item later ih =>
    cases items' with
    | nil => cases h
    | cons item' later' =>
      obtain ⟨hitem, hlater⟩ := List.cons.inj h
      cases item with
      | error fault =>
        cases item' with
        | error fault' => rfl
        | ok m' => cases hitem
      | ok m =>
        cases item' with
        | error fault' => cases hitem
        | ok m' =>
          cases hitem
          cases hs : m.isSummary with
          | true => rw [Snapshot.reported_summary hs, Snapshot.reported_summary hs]
          | false =>
            rw [Snapshot.reported_progress hs, Snapshot.reported_progress hs]
            exact ih hlater

/-- Lists whose entries are taken as the same values come to the same. -/
theorem alike_list (hconsumes : Consumes d) (hsteady : Steady d) {es es' : List (List UInt8)}
    {g g' text text' rest : List UInt8} (hes : ∀ e ∈ es, IsValue e) (hes' : ∀ e ∈ es', IsValue e)
    (htakes : ∀ as, List.Forall₂ (Takes d) es as ↔ List.Forall₂ (Takes d) es' as)
    (hseries : Series Eq 0x5D true es text) (hseries' : Series Eq 0x5D true es' text')
    (hg : Gap g) (hg' : Gap g') (hc : c.rest = g ++ (0x5B :: text ++ rest))
    (hc' : c'.rest = g' ++ (0x5B :: text' ++ rest)) : Alike (list d) c c' := by
  refine alike_of_exact (List.Forall₂ (Takes d) es) rest (fun as hall => ?_) (fun as hall => ?_)
    (fun as c₁ hrun => ?_) (fun as c₁ hrun => ?_)
  · exact list_ok hconsumes hseries hes hall hg hc
  · exact list_ok hconsumes hseries' hes' ((htakes as).1 hall) hg' hc'
  · exact list_takes hconsumes hsteady hseries hes hg hc hrun
  · exact (htakes as).2 (list_takes hconsumes hsteady hseries' hes' hg' hc' hrun)

/-- An entry may be replaced by one that is taken as the same values. -/
theorem forall₂_replaced {β γ : Type} {R : β → γ → Prop} {e e' : β} (h : ∀ a, R e a ↔ R e' a)
    (before after : List β) (as : List γ) :
    List.Forall₂ R (before ++ e :: after) as ↔ List.Forall₂ R (before ++ e' :: after) as := by
  induction before generalizing as with
  | nil => cases as <;> simp [h]
  | cons first before ih => cases as <;> simp [ih]

end Around

/-! ## Whole outputs -/

section Variations

variable {ms ms' : List Member} {o o' : List UInt8}

theorem RepositorySize.text_toOption (output : List UInt8) :
    (RepositorySize.text output).toOption =
      (decodeWhole RepositorySize.decode output).toOption.map Size.text := by
  unfold RepositorySize.text
  cases decodeWhole RepositorySize.decode output <;> rfl

theorem Retention.totals_toOption (output : List UInt8) :
    (Retention.totals output).value.toOption =
      (decodeWhole (list Retention.Group.decode) output).toOption.map
        Retention.Totals.ofGroups := by
  unfold Retention.totals
  cases decodeWhole (list Retention.Group.decode) output <;> rfl

/-- Behind a gap an object starts with its brace. -/
theorem gap_object {c : Cursor} {g rest : List UInt8} (ho : ObjectText ms o) (hg : Gap g)
    (h : c.rest = g ++ (o ++ rest)) :
    ∃ c₁, gap c = .ok (some 0x7B, c₁) ∧ c₁.rest = [] ++ (o ++ rest) := by
  obtain ⟨-⟩ := ho
  exact gap_lead (by decide) hg h

/-- A message of a stream counts by its known members. -/
theorem items_varies (hms : ∀ m ∈ ms, m.Formed) (ho : ObjectText ms o) (ho' : ObjectText ms' o')
    (h : Varies (Message.fields.map Field.name) ms ms') {before : List UInt8} (after : List UInt8)
    (hbefore : ∀ item ∈ items Message.decode before, item.isOk = true) :
    (items Message.decode (before ++ (o ++ after))).map Except.toOption =
      (items Message.decode (before ++ (o' ++ after))).map Except.toOption := by
  rw [items_toOption delimited_message hbefore, items_toOption delimited_message hbefore,
    items_eq _ (o ++ after), items_eq _ (o' ++ after)]
  congr 1
  have hnil : Gap [] := List.forall_mem_nil _
  obtain ⟨c, hgap, hr⟩ := gap_object (c := .ofReads (o ++ after) .closed) ho hnil rfl
  obtain ⟨c', hgap', hr'⟩ := gap_object (c := .ofReads (o' ++ after) .closed) ho' hnil rfl
  have halike : Alike Message.decode c c' :=
    record_varies unordered_message hms h ho ho' hnil hnil hr hr'
  exact halike.itemsAt delimited_message hgap hgap' rfl

/-- A group among others counts by its known members. -/
theorem decodeWhole_group_varies (hms : ∀ m ∈ ms, m.Formed) (ho : ObjectText ms o)
    (ho' : ObjectText ms' o') (h : Varies (Retention.Group.fields.map Field.name) ms ms')
    {before after : List (List UInt8)} {g text text' : List UInt8} (rest : List UInt8) (hg : Gap g)
    (hothers : ∀ e ∈ before ++ after, IsValue e)
    (hseries : Series Eq 0x5D true (before ++ o :: after) text)
    (hseries' : Series Eq 0x5D true (before ++ o' :: after) text') :
    (decodeWhole (list Retention.Group.decode) (g ++ (0x5B :: text ++ rest))).toOption =
      (decodeWhole (list Retention.Group.decode) (g ++ (0x5B :: text' ++ rest))).toOption := by
  have hvalues : ∀ {x : List UInt8}, IsValue x → ∀ e ∈ before ++ x :: after, IsValue e := by
    intro x hx e he
    rcases List.mem_cons.1 (List.perm_middle.mem_iff.1 he) with rfl | he
    · exact hx
    · exact hothers e he
  have halike : Alike (list Retention.Group.decode) (.ofText (g ++ (0x5B :: text ++ rest)))
      (.ofText (g ++ (0x5B :: text' ++ rest))) :=
    alike_list consumes_group (steady_record _ value_groupFields _)
      (hvalues (ho.value hms)) (hvalues (ho'.value (h.formed.1 hms)))
      (forall₂_replaced (takes_varies unordered_group hms h ho ho') before after) hseries hseries'
      hg hg rfl rfl
  exact halike.decodeWhole kind_retention.built

end Variations

/-- Decoding depends on the known members only.  Two objects that differ in the order of their
members, in members that are no fields, or in fields that are `null` in one and missing in the other
are decoded alike, as a message of a backup stream, as the object of a statistics run, and as a
group of a retention run: both are refused, or both are decoded as the same record.  So they may
stand for each other in any output. -/
theorem decoded_by_known_members {ms ms' : List Member} {o o' : List UInt8}
    (hms : ∀ m ∈ ms, m.Formed) (ho : ObjectText ms o) (ho' : ObjectText ms' o') :
    (Varies (Message.fields.map Field.name) ms ms' → ∀ (path : String) (before after : List UInt8),
      (∀ item ∈ items Message.decode before, item.isOk = true) →
        (items Message.decode (before ++ (o ++ after))).map Except.toOption =
            (items Message.decode (before ++ (o' ++ after))).map Except.toOption ∧
          (Snapshot.ofOutput path (before ++ (o ++ after))).value.toOption =
            (Snapshot.ofOutput path (before ++ (o' ++ after))).value.toOption) ∧
    (Varies (RepositorySize.fields.map Field.name) ms ms' → ∀ g after : List UInt8, Gap g →
        (decodeWhole RepositorySize.decode (g ++ (o ++ after))).toOption =
            (decodeWhole RepositorySize.decode (g ++ (o' ++ after))).toOption ∧
          (RepositorySize.text (g ++ (o ++ after))).toOption =
            (RepositorySize.text (g ++ (o' ++ after))).toOption) ∧
    (Varies (Retention.Group.fields.map Field.name) ms ms' → ∀ (before after : List (List UInt8))
      (g text text' rest : List UInt8), Gap g → (∀ e ∈ before ++ after, IsValue e) →
        Series Eq 0x5D true (before ++ o :: after) text →
        Series Eq 0x5D true (before ++ o' :: after) text' →
        (decodeWhole (list Retention.Group.decode) (g ++ (0x5B :: text ++ rest))).toOption =
            (decodeWhole (list Retention.Group.decode) (g ++ (0x5B :: text' ++ rest))).toOption ∧
          (Retention.totals (g ++ (0x5B :: text ++ rest))).value.toOption =
            (Retention.totals (g ++ (0x5B :: text' ++ rest))).value.toOption) := by
  refine ⟨?_, ?_, ?_⟩
  · intro h path before after hbefore
    have hitems := items_varies hms ho ho' h after hbefore
    refine ⟨hitems, ?_⟩
    rw [items_eq, items_eq] at hitems
    rw [Snapshot.ofOutput_value, Snapshot.ofOutput_value]
    exact reported_congr path hitems
  · intro h g after hg
    have halike : Alike RepositorySize.decode (.ofText (g ++ (o ++ after)))
        (.ofText (g ++ (o' ++ after))) :=
      record_varies unordered_repositorySize hms h ho ho' hg hg rfl rfl
    have hdecoded := halike.decodeWhole kind_repositorySize.built
    refine ⟨hdecoded, ?_⟩
    rw [RepositorySize.text_toOption, RepositorySize.text_toOption, hdecoded]
  · intro h before after g text text' rest hg hothers hseries hseries'
    have hdecoded := decodeWhole_group_varies hms ho ho' h rest hg hothers hseries hseries'
    refine ⟨hdecoded, ?_⟩
    rw [Retention.totals_toOption, Retention.totals_toOption, hdecoded]

/-- A size behind a member that is no field. -/
theorem decoded_by_known_members_size :
    Varies (RepositorySize.fields.map Field.name) [Member.plain "total_size" "7"]
        [Member.plain "a" "[]", Member.plain "total_size" "7"] ∧
      (decodeWhole RepositorySize.decode
        (Utf8.encode "\x7b\"a\":[],\"total_size\":7\x7d".toList)).toOption = some 7 := by
  have hsize : Text.Spells (Member.plain "total_size" "7").key "total_size" :=
    Text.spells_plain (by decide +kernel)
  have hother : Text.Spells (Member.plain "a" "[]").key "a" := Text.spells_plain (by decide +kernel)
  have hdigit : Numeral.Whole [0x37] := .row rfl (by decide) (List.forall_mem_nil _)
  have hseven : IsValue [0x37] :=
    .number (m := ⟨false, [0x37], none, none⟩) (.plain rfl (.intro hdigit .absent .absent))
  have hgap : Gap [] := List.forall_mem_nil _
  have hlist : IsValue [0x5B, 0x5D] := .list (.close hgap) (List.forall_mem_nil _)
  have hms : ∀ m ∈ [Member.plain "total_size" "7"], m.Formed :=
    List.forall_mem_singleton.2 ⟨hsize.body, hseven⟩
  have hvaries : Varies (RepositorySize.fields.map Field.name) [Member.plain "total_size" "7"]
      [Member.plain "a" "[]", Member.plain "total_size" "7"] :=
    show Varies _ ([] ++ [_]) ([] ++ _ :: [_]) from
      .unknown ⟨hother.body, hlist⟩ hother (by decide)
  have ho : ObjectText [Member.plain "total_size" "7"]
      (Utf8.encode "\x7b\"total_size\":7\x7d".toList) :=
    .of_compact (by decide +kernel)
  have ho' : ObjectText [Member.plain "a" "[]", Member.plain "total_size" "7"]
      (Utf8.encode "\x7b\"a\":[],\"total_size\":7\x7d".toList) :=
    .of_compact (by decide +kernel)
  refine ⟨hvaries, ?_⟩
  have hsame := ((decoded_by_known_members hms ho ho').2.1 hvaries [] [] hgap).1
  rw [List.nil_append, List.nil_append, List.append_nil, List.append_nil] at hsame
  rw [← hsame]
  decide +kernel

end BackupReport
