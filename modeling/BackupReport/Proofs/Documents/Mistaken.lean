import BackupReport.Proofs.Documents.Kinds
import BackupReport.Proofs.Files.Writing
import BackupReport.Session

/-!
# Documents that are taken for another kind

The two kinds of records have no member in common.  A record that is read as one of the other kind
is therefore passed over member by member, whatever it holds, and leaves the empty record
(`read_as_other_kind`).  What makes this work for every record is that a member is read by its own
kind, so that it is passed over too (`Reads.skipped`).
-/

namespace BackupReport.Json

open Decoder

variable {α ρ : Type} {c : Cursor} {gaps rest : List UInt8} {level : Nat}

/-! ## Members that are passed over -/

/-- What some decoder reads from its written form is passed over there. -/
theorem Reads.skipped {decode : Decoder α} {text : List Char} {a : α} (h : Reads decode text a)
    (hspanned : Spanned decode) : Reads skipValue text () where
  lead := h.lead
  run := by
    intro c gaps rest hgaps hc hends
    obtain ⟨c', hrun, hr'⟩ := h.run hgaps hc hends
    exact ⟨c', hspanned.skipValue_ok hrun, hr'⟩

/-- A member that no field of a record has, and that is passed over. -/
structure Foreign (fields : List (Field ρ)) (level : Nat) (m : String × Tree) : Prop where
  unknown : fields.find? (·.name == m.1) = none
  skipped : Reads skipValue (Pretty.value level m.2) ()

variable {fields : List (Field ρ)}

theorem member_foreign {m : String × Tree} (hm : Foreign fields level m) (p : Progress ρ)
    (hends : Ends rest)
    (h : c.rest = separator p.first ++ (Utf8.encode (Pretty.line level) ++
      (Utf8.encode (Pretty.string m.1) ++ 0x3A :: 0x20 ::
        (Utf8.encode (Pretty.value level m.2) ++ rest)))) :
    ∃ c', member fields p c = .ok (.more ⟨false, p.seen, p.record⟩, c') ∧ c'.rest = rest := by
  obtain ⟨c₁, hr₁, hmember⟩ := member_written h
  obtain ⟨c₂, hcolon, hr₂⟩ := colon_cons (g := []) (List.forall_mem_nil _) hr₁
  have hr₂' : c₂.rest = [0x20] ++ Utf8.encode (Pretty.value level m.2) ++ rest := hr₂
  obtain ⟨c', hskip, hr'⟩ := hm.skipped.run (by simp [isGap]) hr₂' hends
  exact ⟨c', hmember.trans (behindKey_skip hm.unknown hcolon hskip), hr'⟩

/-- Members that are passed over leave the record as it is. -/
theorem iterate_foreign (hbuilt : ∀ field ∈ fields, Built field.decode)
    {members : List (String × Tree)} (hmembers : ∀ m ∈ members, Foreign fields level m)
    (p : Progress ρ) (hgaps : ∀ b ∈ gaps, isGap b = true)
    (hends : members ≠ [] → Ends (gaps ++ 0x7D :: rest))
    (hc : c.rest = membersText p.first level members ++ (gaps ++ 0x7D :: rest)) :
    ∃ c', iterate (member fields) p c = .ok (p.record, c') ∧ c'.rest = rest := by
  induction members generalizing p c with
  | nil =>
    obtain ⟨c', hmember, hr'⟩ := member_close fields p hgaps hc
    exact ⟨c', iterate_done (progresses_member hbuilt) hmember, hr'⟩
  | cons m later ih =>
    obtain ⟨hm, hlater⟩ := List.forall_mem_cons.1 hmembers
    -- what stands behind the value: the later members, or the end of the object
    have hstops : Ends (membersText false level later ++ (gaps ++ 0x7D :: rest)) := by
      cases later with
      | nil => exact hends (List.cons_ne_nil _ _)
      | cons m later => exact ends_comma _
    simp only [membersText, List.append_assoc, List.cons_append] at hc
    obtain ⟨c₁, hmember, hr₁⟩ := member_foreign hm p hstops hc
    obtain ⟨c', hrun, hr'⟩ := ih hlater ⟨false, p.seen, p.record⟩
      (fun _ => hends (List.cons_ne_nil _ _)) hr₁
    refine ⟨c', ?_, hr'⟩
    rw [iterate_more (progresses_member hbuilt) hmember, hrun]

/-- An object all of whose members are passed over is read as the record of the defaults. -/
theorem reads_foreign (name : String) (hbuilt : ∀ field ∈ fields, Built field.decode)
    {members : List (String × Tree)} (hmembers : ∀ m ∈ members, Foreign fields (level + 1) m)
    (r : ρ) : Reads (record name fields r) (Pretty.value level (.object members)) r := by
  obtain ⟨closing, hgaps, hends, htext⟩ := encode_object level members
  refine .behind_lead htext (by decide) (by decide) rfl fun {c rest} hc _ => ?_
  rw [List.append_assoc, List.append_assoc] at hc
  exact iterate_foreign hbuilt hmembers ⟨true, [], r⟩ hgaps (hends rest) hc

end BackupReport.Json

namespace BackupReport

open Files Json Json.Decoder

variable {ρ : Type}

/-! ## Members of records -/

/-- A list of written values is passed over where no field has its name. -/
theorem foreign_list {α : Type} {fields : List (Json.Field ρ)} {key : String}
    {decode : Decoder α} {toTree : α → Tree} (hkey : fields.find? (·.name == key) = none)
    (hwritten : Written decode toTree) (hspanned : Spanned decode) (as : List α) :
    ∀ m ∈ listMember key toTree as, Foreign fields 1 m := by
  intro m hm
  unfold listMember at hm
  split at hm
  · cases hm
  · rw [List.mem_singleton] at hm
    subst hm
    have hreads : Reads (Json.list decode) (Pretty.value 1 (.list (as.map toTree))) as :=
      .list hwritten.consumes as fun a _ => hwritten.reads 2 a
    exact ⟨hkey, hreads.skipped (hspanned.list hwritten.consumes)⟩

/-- A backup record is read as the empty restore record. -/
theorem reads_backup_as_restore (b : BackupRecord) :
    Reads RestoreRecord.decode (Pretty.value 0 b.toTree) {} := by
  have hhosts := kind_hostRestore.toValue.list written_hostRestore.consumes
  have hrepository : Reads skipValue (Pretty.value 1 b.repository.toTree) () :=
    (written_repository.reads 1 b.repository).skipped kind_repository.spanned
  refine reads_foreign _ ?_ ?_ _
  · simp only [List.forall_mem_cons]
    exact ⟨(hhosts.field _).built, List.forall_mem_nil _⟩
  · rw [List.forall_mem_append]
    exact ⟨foreign_list rfl written_hostBackup kind_hostBackup.spanned b.hosts,
      List.forall_mem_singleton.2 ⟨rfl, hrepository⟩⟩

/-- A restore record is read as the empty backup record. -/
theorem reads_restore_as_backup (r : RestoreRecord) :
    Reads BackupRecord.decode (Pretty.value 0 r.toTree) {} := by
  have hhosts := kind_hostBackup.toValue.list written_hostBackup.consumes
  refine reads_foreign _ ?_ ?_ _
  · simp only [List.forall_mem_cons]
    exact ⟨(hhosts.field _).built, (kind_repository.toValue.field _).built, List.forall_mem_nil _⟩
  · exact foreign_list rfl written_hostRestore kind_hostRestore.spanned r.hosts

/-! ## Whole texts -/

theorem ofBytes_backup_as_restore (b : BackupRecord) :
    RestoreRecord.ofBytes (Utf8.encode b.json) = .ok {} := by
  unfold RestoreRecord.ofBytes BackupRecord.json Pretty.text
  rw [(reads_backup_as_restore b).decodeWhole kind_restoreRecord.built kind_restoreRecord.closes]
  rfl

theorem ofBytes_restore_as_backup (r : RestoreRecord) :
    BackupRecord.ofBytes (Utf8.encode r.json) = .ok {} := by
  unfold BackupRecord.ofBytes RestoreRecord.json Pretty.text
  rw [(reads_restore_as_backup r).decodeWhole kind_backupRecord.built kind_backupRecord.closes]
  rfl

/-- The text of a record decodes as the other kind of record too, and so does a file that holds it:
as the empty record, which has no host and so none that failed, whatever hosts and errors the text
is about. -/
theorem read_as_other_kind (b : BackupRecord) (r : RestoreRecord) :
    RestoreRecord.ofBytes (Utf8.encode b.json) = .ok {} ∧
    BackupRecord.ofBytes (Utf8.encode r.json) = .ok {} ∧
    ∀ (t : FileTree) (path : String),
      (t.read (.ofString path) = .ok (Utf8.encode b.json) →
        ∃ other, (Archive.readRestore FileTree.access path t).1.value = .ok other ∧
          other.hosts = [] ∧ other.hasFailures = false) ∧
      (t.read (.ofString path) = .ok (Utf8.encode r.json) →
        ∃ other, (Archive.readBackup FileTree.access path t).1.value = .ok other ∧
          other.hosts = [] ∧ other.hasFailures = false) := by
  refine ⟨ofBytes_backup_as_restore b, ofBytes_restore_as_backup r, fun t path => ⟨?_, ?_⟩⟩
  · intro hread
    have hvalue := (Archive.read_value RestoreRecord.ofBytes hread).1
    exact ⟨{}, hvalue.trans (ofBytes_backup_as_restore b), rfl, rfl⟩
  · intro hread
    have hvalue := (Archive.read_value BackupRecord.ofBytes hread).1
    exact ⟨{}, hvalue.trans (ofBytes_restore_as_backup r), rfl, rfl⟩

/-- A record of one host, which failed with an error that looks like the end of the text. -/
def failedRecord : BackupRecord :=
  ⟨[{ hostname := "a", phase := some .failed, error := "\"\x7d]" }], {}⟩

/-- A failed host is passed over with its error. -/
theorem read_as_other_kind_failed :
    ((FileTree.empty []).put ["f"] (.file (Utf8.encode failedRecord.json))).read (.ofString "f") =
        .ok (Utf8.encode failedRecord.json) ∧
      ∃ other, (Archive.readRestore FileTree.access "f"
          ((FileTree.empty []).put ["f"] (.file (Utf8.encode failedRecord.json)))).1.value =
            .ok other ∧
        other.hosts = [] ∧ other.hasFailures = false := by
  have hread : ((FileTree.empty []).put ["f"] (.file (Utf8.encode failedRecord.json))).read
      (.ofString "f") = .ok (Utf8.encode failedRecord.json) := rfl
  exact ⟨hread, ((read_as_other_kind failedRecord {}).2.2 _ "f").1 hread⟩

end BackupReport
