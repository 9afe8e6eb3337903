import Mathlib.Algebra.Order.BigOperators.Group.List
import Mathlib.Algebra.Order.Ring.Nat
import BackupReport.Proofs.Documents.Torn
import BackupReport.Proofs.Retention.Groups

/-!
# What a retention run reports

The output of a retention run is a list of groups (`Listed`).  If every one of them is written as a
group the totals are the sums over what the groups list (`totals_of_groups`); each entry takes a
byte, so that the sums of an output that a machine can hold fit a word (`sum_le_length`).  If one of
them is no group there are no totals (`totals_undecodable`).
-/

namespace BackupReport

open Json Json.Decoder

namespace Json

variable {ι : Type} {writes : ι → List UInt8 → Prop} {closing : UInt8} {first : Bool} {es : List ι}
  {text : List UInt8}

/-- Together the entries of a series weigh no more than its text if each weighs no more than its
own. -/
theorem Series.sum_le {weight : ι → Nat} (h : Series writes closing first es text)
    (hweight : ∀ e ∈ es, ∀ text, writes e text → weight e ≤ text.length) :
    (es.map weight).sum ≤ text.length := by
  induction h with
  | close => exact Nat.zero_le _
  | entry _ hwrites _ ih =>
    obtain ⟨he, hes⟩ := List.forall_mem_cons.1 hweight
    have hfirst := he _ hwrites
    have hlater := ih hes
    simp only [List.map_cons, List.sum_cons, List.length_append]
    omega

end Json

namespace Retention

variable {os os' : List (List UInt8)} {groups groups' : List Group} {output output' : List UInt8}

/-! ## How long an output is -/

/-- A field lists no more entries than the object has bytes. -/
theorem Lists.le_length {ms : List Member} {name : String} {n : Nat} {o : List UInt8}
    (h : Lists ms name n) (ho : ObjectText ms o) : n ≤ o.length := by
  cases h with
  | missing => exact Nat.zero_le _
  | null => exact Nat.zero_le _
  | @entries m es text hm _ hvalue hseries hvalues =>
    obtain @⟨members, hmembers⟩ := ho
    have hentries : (es.map fun _ => 1).sum ≤ text.length := by
      refine hseries.sum_le fun e he text htext => ?_
      obtain ⟨b, later, rfl, -⟩ := (hvalues e he).lead
      rw [← htext]
      exact Nat.succ_le_succ (Nat.zero_le _)
    have hmember : m.value.length ≤ (ms.map fun m => m.value.length).sum :=
      List.le_sum_of_mem (List.mem_map_of_mem hm)
    have hobject : (ms.map fun m => m.value.length).sum ≤ members.length := by
      refine hmembers.sum_le fun m _ text htext => ?_
      obtain ⟨-, -⟩ := htext
      simp only [List.length_cons, List.length_append]
      omega
    rw [List.map_const', List.sum_replicate_nat, Nat.mul_one] at hentries
    rw [hvalue, List.length_cons] at hmember
    rw [List.length_cons]
    omega

/-- The output of a retention run: a list of the given texts, with gaps around it. -/
inductive Listed (os : List (List UInt8)) : List UInt8 → Prop
  | intro {g text g' : List UInt8} : Gap g → Gap g' → Series Eq 0x5D true os text →
      Listed os (g ++ (0x5B :: text ++ g'))

theorem Listed.of_compact (h : output = 0x5B :: compact id 0x5D true os) : Listed os output := by
  have hseries : Series Eq 0x5D true os (compact id 0x5D true os) :=
    .of_compact (fun _ => rfl) true os
  have hlisted := Listed.intro (List.forall_mem_nil _) (List.forall_mem_nil _) hseries
  rwa [List.nil_append, List.append_nil, ← h] at hlisted

theorem Listed.sum_le (h : Listed os output) : (os.map List.length).sum ≤ output.length := by
  obtain @⟨g, text, g', -, -, hseries⟩ := h
  have hsum : (os.map List.length).sum ≤ text.length :=
    hseries.sum_le fun e _ text htext => htext ▸ Nat.le_refl _
  simp only [List.length_append, List.length_cons]
  omega

/-- The groups of an output list no more entries than it has bytes. -/
theorem sum_le_length (h : Listed os output) (hgroups : List.Forall₂ IsGroup os groups) :
    (groups.map Group.kept).sum ≤ output.length ∧
      (groups.map Group.removed).sum ≤ output.length := by
  have hle : (groups.map Group.kept).sum ≤ (os.map List.length).sum ∧
      (groups.map Group.removed).sum ≤ (os.map List.length).sum := by
    clear h
    induction hgroups with
    | nil => exact ⟨Nat.le_refl _, Nat.le_refl _⟩
    | cons hgroup _ ih =>
      obtain ⟨ho, -, -, hcounted⟩ := hgroup
      exact ⟨Nat.add_le_add (hcounted.kept.le_length ho) ih.1,
        Nat.add_le_add (hcounted.removed.le_length ho) ih.2⟩
  exact ⟨hle.1.trans h.sum_le, hle.2.trans h.sum_le⟩

theorem isValue_of_groups (hgroups : List.Forall₂ IsGroup os groups) : ∀ o ∈ os, IsValue o := by
  intro o ho
  obtain ⟨g, -, hgroup⟩ := exists_match hgroups ho
  obtain ⟨hobject, hvalues, hkeys, -⟩ := hgroup
  exact hobject.value (formed_of_keys hvalues hkeys)

/-! ## Sums -/

theorem clamp_toInt (n : Nat) : (clamp n).toInt = min n (UInt64.size / 2 - 1) :=
  Int64.toInt_ofNat_of_lt (Nat.lt_of_le_of_lt (Nat.min_le_right ..) (by decide))

theorem clamp_nonneg (n : Nat) : 0 ≤ (clamp n).toInt := by
  rw [clamp_toInt]
  exact Int.natCast_nonneg _

theorem clamp_of_lt {n : Nat} (h : n < 2 ^ 63) : (clamp n).toInt = n := by
  have hmax : n ≤ UInt64.size / 2 - 1 := Nat.le_of_lt_succ h
  rw [clamp_toInt, Nat.min_eq_left hmax]

theorem ofGroups_eq (groups : List Group) : Totals.ofGroups groups =
    ⟨clamp (groups.map Group.kept).sum, clamp (groups.map Group.removed).sum⟩ := by
  simp only [Totals.ofGroups, List.sum_eq_foldr, List.foldr_map]

theorem ofGroups_perm (h : groups.Perm groups') :
    Totals.ofGroups groups = Totals.ofGroups groups' := by
  rw [ofGroups_eq, ofGroups_eq, (h.map _).sum_nat, (h.map Group.removed).sum_nat]

/-! ## Totals -/

/-- Where every text of a list is written as a group, the totals are the sums over the groups. -/
theorem totals_of_groups (h : Listed os output) (hgroups : List.Forall₂ IsGroup os groups) :
    (totals output).value = .ok (Totals.ofGroups groups) := by
  have htakes : List.Forall₂ (Takes Group.decode) os groups := hgroups.imp fun _ _ h => h.takes
  have hvalues : ∀ o ∈ os, IsValue o := isValue_of_groups hgroups
  obtain @⟨g, text, g', hg, hg', hseries⟩ := h
  have hc : (Cursor.ofText (g ++ (0x5B :: text ++ g'))).rest = g ++ (0x5B :: text ++ g') := rfl
  obtain ⟨c, hrun, hr⟩ := list_ok consumes_group hseries hvalues htakes hg hc
  have hwhole := decodeWhole_of_run kind_retention.built hrun (hr ▸ hg')
  unfold totals
  rw [hwhole]
  rfl

/-- Where some text of a list does not decode as a group there are no totals, whatever the others
are. -/
theorem totals_undecodable (h : Listed os output) (hvalues : ∀ o ∈ os, IsValue o)
    {o : List UInt8} (ho : o ∈ os) (hnone : ∀ g, decodeWhole Group.decode o ≠ .ok g) :
    Undecodable (totals output).value := by
  cases hwhole : decodeWhole (list Group.decode) output with
  | error fault =>
    obtain ⟨cause, p, rfl⟩ := decodeWhole_error kind_retention.built hwhole
    exact ⟨cause, p, by unfold totals; rw [hwhole]; rfl⟩
  | ok groups =>
    exfalso
    obtain ⟨hg, -, hseries⟩ := h
    obtain ⟨c, -, hrun, -⟩ := decodeWhole_ok hwhole
    have hsteady : Steady Group.decode := steady_record _ value_groupFields _
    have htakes := list_takes consumes_group hsteady hseries hvalues hg rfl hrun
    obtain ⟨g, -, hgroup⟩ := exists_match htakes ho
    exact hnone g (decodeWhole_of_takes kind_group.built kind_group.closes hgroup)

/-- Where some object of a list has a key that is no text there are no totals. -/
theorem totals_undecodable_key (h : Listed os output) (hvalues : ∀ o ∈ os, IsValue o)
    {ms : List Member} {o : List UInt8} (ho : o ∈ os) (hobject : ObjectText ms o)
    (hms : ∀ m ∈ ms, m.Formed) {m : Member} (hm : m ∈ ms) (hkey : ∀ key, ¬ Text.Spells m.key key) :
    Undecodable (totals output).value :=
  totals_undecodable h hvalues ho fun _ => not_decoded_of_key hms hobject hm hkey

/-! ## What a run reports -/

/-- Where every group of an output is an object in which `keep` and `remove` each are missing,
`null`, or a list of any values, and in which all keys are texts, the totals are the numbers of
their entries: never negative, and exact for an output of less than 2^63 bytes.  So it does not
matter which values the entries are, nor in which order the groups stand, and the totals of two
outputs add up where their groups are put into one list.  Where one text of a list does not decode
as a group there are no totals, whatever the other texts are; that is so if `keep` or `remove` is of
another kind, or occurs twice, and if the key of some member is no text. -/
theorem totals_counts (h : Listed os output) (hgroups : List.Forall₂ IsGroup os groups) :
    (∃ t, (totals output).value = .ok t ∧ 0 ≤ t.kept.toInt ∧ 0 ≤ t.removed.toInt ∧
      (output.length < 2 ^ 63 → t.kept.toInt = (groups.map Group.kept).sum ∧
        t.removed.toInt = (groups.map Group.removed).sum)) ∧
    (∀ os' output', Listed os' output' → List.Forall₂ IsGroup os' groups ∨ os'.Perm os →
      (totals output').value = (totals output).value) ∧
    (∀ os' groups' output' joined, Listed os' output' → List.Forall₂ IsGroup os' groups' →
      Listed (os ++ os') joined → joined.length < 2 ^ 63 →
        ∃ t t' t'', (totals output).value = .ok t ∧ (totals output').value = .ok t' ∧
          (totals joined).value = .ok t'' ∧ t''.kept.toInt = t.kept.toInt + t'.kept.toInt ∧
          t''.removed.toInt = t.removed.toInt + t'.removed.toInt) ∧
    (∀ os' output' o, Listed os' output' → (∀ x ∈ os', IsValue x) → o ∈ os' →
      (∀ g, decodeWhole Group.decode o ≠ .ok g) → Undecodable (totals output').value) ∧
    (∀ ms o name g, (∀ m ∈ ms, m.Formed) → ObjectText ms o → name ∈ ["keep", "remove"] →
      Spoiled ms name → decodeWhole Group.decode o ≠ .ok g) ∧
    (∀ os' output' ms o m, Listed os' output' → (∀ x ∈ os', IsValue x) → o ∈ os' →
      ObjectText ms o → (∀ m ∈ ms, m.Formed) → m ∈ ms → (∀ key, ¬ Text.Spells m.key key) →
        Undecodable (totals output').value) := by
  have htotals := totals_of_groups h hgroups
  refine ⟨⟨_, htotals, ?_, ?_, fun hlength => ?_⟩, ?_, ?_, ?_, ?_, ?_⟩
  · exact ofGroups_eq groups ▸ clamp_nonneg _
  · exact ofGroups_eq groups ▸ clamp_nonneg _
  · obtain ⟨hkept, hremoved⟩ := sum_le_length h hgroups
    rw [ofGroups_eq]
    exact ⟨clamp_of_lt (Nat.lt_of_le_of_lt hkept hlength),
      clamp_of_lt (Nat.lt_of_le_of_lt hremoved hlength)⟩
  · rintro os' output' h' (hgroups' | hperm)
    · rw [totals_of_groups h' hgroups', htotals]
    · obtain ⟨groups', hgroups', hperm'⟩ := List.perm_comp_forall₂ hperm hgroups
      rw [totals_of_groups h' hgroups', htotals, ofGroups_perm hperm']
  · intro os' groups' output' joined h' hgroups' hjoined hlength
    have hboth := List.rel_append hgroups hgroups'
    obtain ⟨hkept, hremoved⟩ := sum_le_length hjoined hboth
    refine ⟨_, _, _, htotals, totals_of_groups h' hgroups', totals_of_groups hjoined hboth, ?_⟩
    rw [List.map_append, List.sum_append] at hkept hremoved
    simp only [ofGroups_eq, List.map_append, List.sum_append]
    constructor
    · rw [clamp_of_lt (by omega), clamp_of_lt (by omega), clamp_of_lt (by omega), Int.natCast_add]
    · rw [clamp_of_lt (by omega), clamp_of_lt (by omega), clamp_of_lt (by omega), Int.natCast_add]
  · exact fun os' output' o h' hvalues ho hnone => totals_undecodable h' hvalues ho hnone
  · exact fun ms o name g hms ho hname hspoiled => hspoiled.not_decoded hname hms ho
  · intro os' output' ms o m h' hvalues ho hobject hms hm hkey
    exact totals_undecodable_key h' hvalues ho hobject hms hm hkey

/-- Two groups that keep three snapshots together and remove none: entries that are nested, a field
that is `null` and one that is missing. -/
theorem totals_counts_nested :
    Listed [Utf8.encode "\x7b\"keep\":[[0],\x7b\x7d],\"remove\":null\x7d".toList,
        Utf8.encode "\x7b\"keep\":[\"]\"]\x7d".toList] (Utf8.encode
      "[\x7b\"keep\":[[0],\x7b\x7d],\"remove\":null\x7d,\x7b\"keep\":[\"]\"]\x7d]".toList) ∧
    List.Forall₂ IsGroup
      [Utf8.encode "\x7b\"keep\":[[0],\x7b\x7d],\"remove\":null\x7d".toList,
        Utf8.encode "\x7b\"keep\":[\"]\"]\x7d".toList] [⟨2, 0⟩, ⟨1, 0⟩] ∧
    ∃ t, (totals (Utf8.encode
      "[\x7b\"keep\":[[0],\x7b\x7d],\"remove\":null\x7d,\x7b\"keep\":[\"]\"]\x7d]".toList)).value =
        .ok t ∧ t.kept.toInt = 3 ∧ t.removed.toInt = 0 := by
  have hgroups := List.Forall₂.cons isGroup_nested (.cons isGroup_quoted .nil)
  have hlisted : Listed
      [Utf8.encode "\x7b\"keep\":[[0],\x7b\x7d],\"remove\":null\x7d".toList,
        Utf8.encode "\x7b\"keep\":[\"]\"]\x7d".toList] (Utf8.encode
      "[\x7b\"keep\":[[0],\x7b\x7d],\"remove\":null\x7d,\x7b\"keep\":[\"]\"]\x7d]".toList) :=
    .of_compact (by decide +kernel)
  refine ⟨hlisted, hgroups, ?_⟩
  obtain ⟨t, ht, -, -, hexact⟩ := (totals_counts hlisted hgroups).1
  obtain ⟨hkept, hremoved⟩ := hexact (by decide +kernel)
  exact ⟨t, ht, hkept, hremoved⟩

/-- An object with one member, the key of which is half of a surrogate pair: `keep` and `remove` are
missing from it, and yet there are no totals. -/
theorem totals_surrogate_key :
    ObjectText [Member.plain "\\ud800" "0"] (Utf8.encode "\x7b\"\\ud800\":0\x7d".toList) ∧
      (∀ m ∈ [Member.plain "\\ud800" "0"], m.Formed) ∧
      Counted [Member.plain "\\ud800" "0"] ⟨0, 0⟩ ∧
      Listed [Utf8.encode "\x7b\"\\ud800\":0\x7d".toList]
        (Utf8.encode "[\x7b\"\\ud800\":0\x7d]".toList) ∧
      Undecodable (totals (Utf8.encode "[\x7b\"\\ud800\":0\x7d]".toList)).value := by
  obtain ⟨hhalf, hnone⟩ := Member.formed_half
  have hformed : ∀ m ∈ [Member.plain "\\ud800" "0"], m.Formed := List.forall_mem_singleton.2 hhalf
  have hobject : ObjectText [Member.plain "\\ud800" "0"]
      (Utf8.encode "\x7b\"\\ud800\":0\x7d".toList) :=
    .of_compact (by decide +kernel)
  have hlisted : Listed [Utf8.encode "\x7b\"\\ud800\":0\x7d".toList]
      (Utf8.encode "[\x7b\"\\ud800\":0\x7d]".toList) :=
    .of_compact (by decide +kernel)
  refine ⟨hobject, hformed, ⟨List.pairwise_singleton _ _, ?_, ?_⟩, hlisted, ?_⟩
  · exact .missing (List.forall_mem_singleton.2 (hnone _))
  · exact .missing (List.forall_mem_singleton.2 (hnone _))
  · exact totals_undecodable_key hlisted (List.forall_mem_singleton.2 (hobject.value hformed))
      List.mem_cons_self hobject hformed List.mem_cons_self hnone

end Retention

end BackupReport
