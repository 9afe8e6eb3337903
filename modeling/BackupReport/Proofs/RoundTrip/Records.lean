import BackupReport.Proofs.Decoder.Closing
import BackupReport.Proofs.RoundTrip.Containers
import BackupReport.Proofs.RoundTrip.Integers

/-!
# Written records

What a record is written as reads back as that record, whatever it holds (`ofBytes_json`): each kind
of member is left out exactly for the value that its field has without it (`Fills.text`,
`Fills.option`, `Fills.count`, `Fills.list`), and each record is put together from such members.
-/

namespace BackupReport

open Json Json.Decoder

variable {α ρ : Type}

/-! ## Written records -/

/-- A decoder of records, and how the records are written that it reads. -/
structure Written (decode : Decoder ρ) (toTree : ρ → Tree) : Prop where
  built : Built decode
  consumes : Consumes decode
  closes : Closes decode
  reads : ∀ level r, Reads decode (Pretty.value level (toTree r)) r

theorem written_record (name : String) {fields : List (Json.Field ρ)} {members : ρ → Members}
    {r₀ : ρ}
    (hbuilt : ∀ field ∈ fields, Built field.decode) (hnames : (fields.map Field.name).Nodup)
    (hfills : ∀ level r, Fills level fields (members r) r₀ r) :
    Written (record name fields r₀) fun r => .object (members r) where
  built := built_record name hbuilt r₀
  consumes := consumes_record name hbuilt r₀
  closes := closes_record name hbuilt r₀
  reads level r := reads_record name hbuilt hnames (hfills (level + 1) r)

/-- What a value is read from, it is read from as a whole text if it shows its own end: a line
behind it ends it, and is then taken away again. -/
theorem Json.Reads.decodeWhole {decode : Decoder α} {text : List Char} {a : α}
    (h : Reads decode text a) (hbuilt : Built decode) (hcloses : Closes decode) :
    Json.decodeWhole decode (Utf8.encode text) = .ok a := by
  have hline : ((Cursor.ofText (Utf8.encode text)).extend [0x0A] .closed).rest =
      [] ++ Utf8.encode text ++ [0x0A] := rfl
  obtain ⟨c', hdecode', hr'⟩ :=
    h.run (List.forall_mem_nil _) hline ⟨0x0A, [], rfl, .inr rfl⟩
  obtain ⟨c, hdecode, hc'⟩ :=
    hcloses.restrict_ok hdecode' (Nat.le_of_eq (congrArg List.length hr'.symm))
  have hnil : c.rest = [] := by
    have hrest : [0x0A] = c.rest ++ [0x0A] := hr'.symm.trans (congrArg Cursor.rest hc')
    exact List.self_eq_append_left.1 hrest
  have hgap := gap_nil (c := c) (by rw [hnil]; exact List.forall_mem_nil _)
  rw [hbuilt.ending_eq hdecode] at hgap
  obtain ⟨c₁, hg⟩ := hgap
  unfold Json.decodeWhole
  rw [StateT.run, bind_of_ok hdecode, bind_of_ok hg]
  rfl

/-- The text of a record reads back as the record. -/
theorem Written.decodeWhole {decode : Decoder ρ} {toTree : ρ → Tree} (h : Written decode toTree)
    (r : ρ) : decodeWhole decode (Utf8.encode (Pretty.text (toTree r))) = .ok r :=
  (h.reads 0 r).decodeWhole h.built h.closes

/-! ## Members that may be left out -/

section Members

variable {level : Nat} {later : List (Json.Field ρ)} {members : Members} {r r' : ρ} {key : String}

theorem Json.Fills.text {set : String → ρ → ρ} (s : String) (hempty : set "" r = r)
    (h : Fills level later members (set s r) r') :
    Fills level (.of key Json.string set :: later) (textMember key s ++ members) r r' := by
  unfold textMember
  split
  · subst s
    rw [hempty] at h
    exact .skip h
  · exact .take ((reads_string level s).map set) h

theorem Json.Fills.option {decode : Decoder α} {toTree : α → Tree} {set : Option α → ρ → ρ}
    (a : Option α) (hnone : set none r = r)
    (hreads : ∀ x, Reads decode (Pretty.value level (toTree x)) x)
    (h : Fills level later members (set a r) r') :
    Fills level (.of key (optional decode) set :: later) (optionMember key toTree a ++ members) r
      r' := by
  cases a with
  | none =>
    rw [hnone] at h
    exact .skip h
  | some x => exact .take ((hreads x).optional.map set) h

theorem Json.Fills.count {set : Int64 → ρ → ρ} (n : Int64) (hzero : set 0 r = r)
    (h : Fills level later members (set n r) r') :
    Fills level (.of key signed set :: later) (countMember key n ++ members) r r' := by
  unfold countMember
  split
  · subst n
    rw [hzero] at h
    exact .skip h
  · exact .take ((reads_counter level n).map set) h

theorem Json.Fills.list {decode : Decoder α} {toTree : α → Tree} {set : List α → ρ → ρ}
    (as : List α) (hempty : set [] r = r) (hwritten : Written decode toTree)
    (h : Fills level later members (set as r) r') :
    Fills level (.of key (Json.list decode) set :: later) (listMember key toTree as ++ members) r
      r' := by
  cases as with
  | nil =>
    rw [hempty] at h
    exact .skip h
  | cons a as =>
    have hlist := Reads.list hwritten.consumes (a :: as) fun x _ => hwritten.reads (level + 1) x
    exact .take (hlist.map set) h

theorem Json.Fills.always {decode : Decoder α} {value : Tree} {set : α → ρ → ρ} {a : α}
    (hreads : Reads decode (Pretty.value level value) a)
    (h : Fills level later members (set a r) r') :
    Fills level (.of key decode set :: later) ((key, value) :: members) r r' :=
  .take (hreads.map set) h

end Members

/-! ## Phases -/

theorem built_named : Built Phase.named := by
  refine .bind built_eat fun _ => .bind built_text fun name => ?_
  split
  · exact .pure _
  · exact .refuseHere _

theorem built_keyed : Built Phase.keyed := by
  refine .bind built_gap fun r => ?_
  cases r with
  | none => exact .refuseNext _
  | some b =>
    dsimp only
    split
    · refine .bind built_named fun phase => .bind built_colon fun _ => .bind built_unit fun _ =>
        .bind built_gap fun r => ?_
      cases r with
      | none => exact .refuseHere _
      | some b =>
        dsimp only
        split
        · exact .bind built_eat fun _ => .pure _
        · exact .refuseHere _
    · split
      · exact .refuseNext _
      · exact .refuseNext _

theorem built_phase : Built Phase.decode := by
  refine built_onLead fun lead => ?_
  cases lead with
  | quote => exact built_named
  | object => exact .bind built_eat fun _ => built_keyed
  | _ => exact .refuseNext _

/-- A phase is read by its name. -/
theorem reads_phase (level : Nat) (p : Phase) :
    Reads Phase.decode (Pretty.value level p.toTree) p := by
  have hname : Phase.ofName? p.name = some p := by cases p <;> decide
  refine .behind_lead (encode_string p.name) (by decide) (by decide) rfl fun h _ => ?_
  rw [List.append_assoc] at h
  obtain ⟨c', hdecode, hr'⟩ := Text.decode_written p.name h
  refine ⟨c', ?_, hr'⟩
  rw [bind_of_ok hdecode]
  simp only [hname]
  rfl

/-! ## Records -/

theorem written_fileCounts : Written FileCounts.decode FileCounts.toTree := by
  have hcounter : Built (optional signed) := built_optional built_signed
  refine written_record _ ?_ (by decide) fun level c => ?_
  · simp only [List.forall_mem_cons]
    exact ⟨built_field hcounter _, built_field hcounter _, built_field hcounter _,
      built_field hcounter _, List.forall_mem_nil _⟩
  · simp only [List.append_assoc]
    refine .option _ rfl (reads_counter level) ?_
    refine .option _ rfl (reads_counter level) ?_
    refine .option _ rfl (reads_counter level) ?_
    rw [← List.append_nil (optionMember _ _ _)]
    exact .option _ rfl (reads_counter level) (.nil c)

theorem written_snapshot : Written Snapshot.decode Snapshot.toTree := by
  refine written_record _ ?_ (by decide) fun level s => ?_
  · simp only [List.forall_mem_cons]
    exact ⟨built_field built_string _, built_field built_string _, built_field built_string _,
      built_field built_string _, built_field built_string _,
      built_field written_fileCounts.built _, List.forall_mem_nil _⟩
  · simp only [List.append_assoc]
    refine .text _ rfl ?_
    refine .text _ rfl ?_
    refine .text _ rfl ?_
    refine .text _ rfl ?_
    refine .text _ rfl ?_
    exact .always (written_fileCounts.reads level s.files) (.nil s)

theorem written_hostBackup : Written HostBackup.decode HostBackup.toTree := by
  have hsnapshots : Built (list Snapshot.decode) :=
    built_list written_snapshot.built written_snapshot.consumes
  refine written_record _ ?_ (by decide) fun level h => ?_
  · simp only [List.forall_mem_cons]
    exact ⟨built_field built_string _, built_field (built_optional built_phase) _,
      built_field hsnapshots _, built_field built_string _, built_field built_string _,
      List.forall_mem_nil _⟩
  · simp only [List.append_assoc]
    refine .text _ rfl ?_
    refine .option _ rfl (reads_phase level) ?_
    refine .list _ rfl written_snapshot ?_
    refine .text _ rfl ?_
    rw [← List.append_nil (textMember _ _)]
    exact .text _ rfl (.nil h)

theorem written_hostRestore : Written HostRestore.decode HostRestore.toTree := by
  refine written_record _ ?_ (by decide) fun level h => ?_
  · simp only [List.forall_mem_cons]
    exact ⟨built_field built_string _, built_field (built_optional built_phase) _,
      built_field built_string _, built_field built_string _, List.forall_mem_nil _⟩
  · simp only [List.append_assoc]
    refine .text _ rfl ?_
    refine .option _ rfl (reads_phase level) ?_
    refine .text _ rfl ?_
    rw [← List.append_nil (textMember _ _)]
    exact .text _ rfl (.nil h)

theorem written_repository : Written Repository.decode Repository.toTree := by
  refine written_record _ ?_ (by decide) fun level r => ?_
  · simp only [List.forall_mem_cons]
    exact ⟨built_field (built_optional built_boolean) _, built_field built_string _,
      built_field built_signed _, built_field built_signed _, List.forall_mem_nil _⟩
  · simp only [List.append_assoc]
    refine .option _ rfl (reads_boolean level) ?_
    refine .text _ rfl ?_
    refine .count _ rfl ?_
    rw [← List.append_nil (countMember _ _)]
    exact .count _ rfl (.nil r)

theorem written_backupRecord : Written BackupRecord.decode BackupRecord.toTree := by
  have hhosts : Built (list HostBackup.decode) :=
    built_list written_hostBackup.built written_hostBackup.consumes
  refine written_record _ ?_ (by decide) fun level r => ?_
  · simp only [List.forall_mem_cons]
    exact ⟨built_field hhosts _, built_field written_repository.built _, List.forall_mem_nil _⟩
  · refine .list _ rfl written_hostBackup ?_
    exact .always (written_repository.reads level r.repository) (.nil r)

theorem written_restoreRecord : Written RestoreRecord.decode RestoreRecord.toTree := by
  have hhosts : Built (list HostRestore.decode) :=
    built_list written_hostRestore.built written_hostRestore.consumes
  refine written_record _ ?_ (by decide) fun level r => ?_
  · simp only [List.forall_mem_cons]
    exact ⟨built_field hhosts _, List.forall_mem_nil _⟩
  · rw [← List.append_nil (listMember _ _ _)]
    exact .list _ rfl written_hostRestore (.nil r)

/-! ## Whole texts -/

/-- An object that has members is not written as the empty object. -/
theorem text_object_cons (m : String × Tree) (later : Members) :
    Pretty.text (.object (m :: later)) ≠ ['\x7b', '\x7d'] := by
  obtain ⟨key, value⟩ := m
  intro h
  rw [Pretty.text, Pretty.value] at h
  cases (List.cons.inj h).2

theorem ofBytes_backup (r : BackupRecord) :
    BackupRecord.ofBytes (Utf8.encode r.json) = .ok r := by
  unfold BackupRecord.ofBytes BackupRecord.json
  rw [written_backupRecord.decodeWhole r]
  rfl

theorem ofBytes_restore (r : RestoreRecord) :
    RestoreRecord.ofBytes (Utf8.encode r.json) = .ok r := by
  unfold RestoreRecord.ofBytes RestoreRecord.json
  rw [written_restoreRecord.decodeWhole r]
  rfl

/-- What a record is written as reads back as that record, whatever it holds.  The empty object is
the text of no backup record, and of a restore record only if that is the empty one. -/
theorem ofBytes_json (b : BackupRecord) (r : RestoreRecord) :
    BackupRecord.ofBytes (Utf8.encode b.json) = .ok b ∧
    RestoreRecord.ofBytes (Utf8.encode r.json) = .ok r ∧
    b.json ≠ ['\x7b', '\x7d'] ∧
    (r.json = ['\x7b', '\x7d'] ↔ r = {}) := by
  refine ⟨ofBytes_backup b, ofBytes_restore r, ?_, ?_⟩
  · unfold BackupRecord.json BackupRecord.toTree listMember
    split
    · exact text_object_cons _ _
    · exact text_object_cons _ _
  · obtain ⟨hosts⟩ := r
    cases hosts with
    | nil => exact ⟨fun _ => rfl, fun _ => rfl⟩
    | cons host later =>
      refine ⟨fun h => absurd h (text_object_cons _ _), fun h => ?_⟩
      cases h

end BackupReport
