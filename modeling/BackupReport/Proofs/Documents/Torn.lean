import BackupReport.Proofs.Documents.Kinds
import BackupReport.Proofs.Files.Writing

/-!
# Documents that break off

A document that lacks the last of its bytes that is no white space is refused, whichever kind it is
of and whichever kind it is read as (`torn_refused`).  So a record that was written in part only is
never read as a record.
-/

namespace BackupReport

open Files Json Json.Decoder

/-! ## Reading each kind -/

/-- A reading is refused because the text does not decode. -/
def Undecodable {α : Type} (reading : Except Error α) : Prop :=
  ∃ cause position, reading = .error (.decode cause position)

/-- A text is accepted as a document of some kind. -/
inductive Accepted (text : List UInt8) : Prop
  | backup (r : BackupRecord) : BackupRecord.ofBytes text = .ok r → Accepted text
  | restore (r : RestoreRecord) : RestoreRecord.ofBytes text = .ok r → Accepted text
  | retention (t : Retention.Totals) : (Retention.totals text).value = .ok t → Accepted text
  | repositorySize (size : String) : RepositorySize.text text = .ok size → Accepted text

/-- A text is refused as a document of every kind. -/
structure Refused (text : List UInt8) : Prop where
  backup : Undecodable (BackupRecord.ofBytes text)
  restore : Undecodable (RestoreRecord.ofBytes text)
  retention : Undecodable (Retention.totals text).value
  repositorySize : Undecodable (RepositorySize.text text)

section Decoding

variable {α : Type} {decode : Decoder α} {text : List UInt8}

theorem decodeWhole_of_ok {a : α} (h : (decodeWhole decode text).mapError Error.ofFault = .ok a) :
    decodeWhole decode text = .ok a := by
  cases hd : decodeWhole decode text with
  | ok a' =>
    rw [hd] at h
    cases h
    rfl
  | error fault =>
    rw [hd] at h
    cases h

theorem undecodable_of_refused
    (h : ∃ cause position, decodeWhole decode text = .error (.refused cause position)) :
    Undecodable ((decodeWhole decode text).mapError Error.ofFault) := by
  obtain ⟨cause, position, h⟩ := h
  exact ⟨cause, position, by rw [h]; rfl⟩

end Decoding

/-- What is accepted as a document is decoded by a decoder of some kind. -/
theorem Accepted.decodes {text : List UInt8} (h : Accepted text) :
    ∃ (α : Type) (decode : Decoder α) (a : α), Kind decode ∧ decodeWhole decode text = .ok a := by
  cases h with
  | backup r h => exact ⟨_, _, r, kind_backupRecord, decodeWhole_of_ok h⟩
  | restore r h => exact ⟨_, _, r, kind_restoreRecord, decodeWhole_of_ok h⟩
  | retention t h =>
    unfold Retention.totals at h
    cases hd : decodeWhole (list Retention.Group.decode) text with
    | ok groups => exact ⟨_, _, groups, kind_retention, hd⟩
    | error fault =>
      rw [hd] at h
      cases h
  | repositorySize size h =>
    unfold RepositorySize.text at h
    cases hd : decodeWhole RepositorySize.decode text with
    | ok n => exact ⟨_, _, n, kind_repositorySize, hd⟩
    | error fault =>
      rw [hd] at h
      cases h

/-- What every kind of decoder refuses is refused as a document of every kind. -/
theorem refused_of_decodeWhole {text : List UInt8}
    (h : ∀ {α : Type} {decode : Decoder α}, Kind decode →
      ∃ cause position, decodeWhole decode text = .error (.refused cause position)) :
    Refused text where
  backup := undecodable_of_refused (h kind_backupRecord)
  restore := undecodable_of_refused (h kind_restoreRecord)
  retention := by
    obtain ⟨cause, position, hd⟩ := h kind_retention
    exact ⟨cause, position, by unfold Retention.totals; rw [hd]; rfl⟩
  repositorySize := by
    obtain ⟨cause, position, hd⟩ := h kind_repositorySize
    exact ⟨cause, position, by unfold RepositorySize.text; rw [hd]; rfl⟩

theorem Accepted.refuses_torn {torn cut : List UInt8} (h : Accepted (torn ++ cut))
    (hcut : ∃ b ∈ cut, isGap b = false) : Refused torn := by
  obtain ⟨α, decode, a, hkind, hd⟩ := h.decodes
  exact refused_of_decodeWhole fun hkind' => hkind.refuses_torn hkind' hd hcut

/-! ## Written records -/

/-- The text of a record of either kind. -/
inductive RecordText : List Char → Prop
  | backup (r : BackupRecord) : RecordText r.json
  | restore (r : RestoreRecord) : RecordText r.json

/-- A record is written as an object, and is read as what it was. -/
theorem RecordText.accepted {text : List Char} (h : RecordText text) :
    Accepted (Utf8.encode text) ∧ ∃ members, text = Pretty.text (.object members) := by
  cases h with
  | backup r => exact ⟨.backup r (ofBytes_backup r), _, rfl⟩
  | restore r => exact ⟨.restore r (ofBytes_restore r), _, rfl⟩

/-- Whatever the text of an object is cut off from, the cut has its closing brace. -/
theorem closing_of_cut {members : List (String × Tree)} {torn cut : List UInt8}
    (h : Utf8.encode (Pretty.text (.object members)) = torn ++ cut) (hcut : cut ≠ []) :
    ∃ b ∈ cut, isGap b = false := by
  obtain ⟨closing, -, -, htext⟩ := encode_object 0 members
  have hlast : (torn ++ cut).getLast? = some 0x7D := by
    rw [← h, Pretty.text, htext, ← List.append_assoc, ← List.cons_append]
    exact List.getLast?_concat
  obtain ⟨b, hb⟩ := Option.ne_none_iff_exists'.1 (mt List.getLast?_eq_none_iff.1 hcut)
  rw [List.getLast?_append, hb, Option.some_or, Option.some.injEq] at hlast
  exact ⟨b, List.mem_of_getLast? hb, by rw [hlast]; decide⟩

theorem RecordText.refuses_torn {text : List Char} (h : RecordText text) {torn cut : List UInt8}
    (htext : Utf8.encode text = torn ++ cut) (hcut : cut ≠ []) : Refused torn := by
  obtain ⟨haccepted, members, rfl⟩ := h.accepted
  rw [htext] at haccepted
  exact haccepted.refuses_torn (closing_of_cut htext hcut)

/-- A document of any kind that lacks the last of its bytes that is no white space is refused as a
document of every kind.  So no file that holds only a part of what writing a record has left in a
file is read as a record of either kind. -/
theorem torn_refused (torn cut : List UInt8) :
    ((∃ b ∈ cut, isGap b = false) → Accepted (torn ++ cut) → Refused torn) ∧
      ∀ (text : List Char) (t t' : FileTree) (path path' : String), RecordText text →
        (Archive.write FileTree.access path text t).1.value = .ok () →
        (Archive.write FileTree.access path text t).2.read (.ofString path) = .ok (torn ++ cut) →
        cut ≠ [] → t'.read (.ofString path') = .ok torn →
          Undecodable (Archive.readBackup FileTree.access path' t').1.value ∧
          Undecodable (Archive.readRestore FileTree.access path' t').1.value := by
  refine ⟨fun hcut haccepted => haccepted.refuses_torn hcut, ?_⟩
  intro text t t' path path' hrecord hwrite hread hcut htorn
  obtain ⟨t₁, hw, heq⟩ := Archive.write_ok hwrite
  rw [heq, FileTree.read_of_write hw, Except.ok.injEq] at hread
  have hrefused := hrecord.refuses_torn hread hcut
  unfold Archive.readBackup Archive.readRestore
  rw [(Archive.read_value BackupRecord.ofBytes htorn).1,
    (Archive.read_value RestoreRecord.ofBytes htorn).1]
  exact ⟨hrefused.backup, hrefused.restore⟩

/-- A record of one host. -/
def oneHost : BackupRecord := { hosts := [{ hostname := "web" }] }

/-- What is left of its text where writing breaks off within the name of the host. -/
def tornHost : List UInt8 := (Utf8.encode oneHost.json).take 52

/-- A written record that is torn within a string is refused, also where a file holds it. -/
theorem torn_refused_host :
    Utf8.encode "\"hostname\": \"we".toList <:+ tornHost ∧ Refused tornHost ∧
      (Archive.write FileTree.access "o" oneHost.json (.empty [])).1.value = .ok () ∧
      ((FileTree.empty []).put ["o"] (.file tornHost)).read (.ofString "o") = .ok tornHost ∧
      Undecodable (Archive.readBackup FileTree.access "o"
        ((FileTree.empty []).put ["o"] (.file tornHost))).1.value ∧
      Undecodable (Archive.readRestore FileTree.access "o"
        ((FileTree.empty []).put ["o"] (.file tornHost))).1.value := by
  have hparts : tornHost ++ (Utf8.encode oneHost.json).drop 52 = Utf8.encode oneHost.json :=
    List.take_append_drop 52 _
  have hbrace : ∃ b ∈ (Utf8.encode oneHost.json).drop 52, isGap b = false :=
    ⟨0x7D, by decide +kernel, by decide⟩
  have haccepted : Accepted (tornHost ++ (Utf8.encode oneHost.json).drop 52) :=
    hparts ▸ .backup oneHost (ofBytes_backup oneHost)
  have hwrite : (Archive.write FileTree.access "o" oneHost.json (.empty [])).1.value = .ok () := rfl
  have hread : (Archive.write FileTree.access "o" oneHost.json (.empty [])).2.read
      (.ofString "o") = .ok (tornHost ++ (Utf8.encode oneHost.json).drop 52) := by
    obtain ⟨t, hw, heq⟩ := Archive.write_ok hwrite
    rw [heq, hparts]
    exact FileTree.read_of_write hw
  have htorn : ((FileTree.empty []).put ["o"] (.file tornHost)).read (.ofString "o") =
      .ok tornHost := rfl
  obtain ⟨hbackup, hrestore⟩ := (torn_refused _ _).2 _ _ _ _ _ (.backup oneHost) hwrite hread
    (by decide +kernel) htorn
  exact ⟨by decide +kernel, (torn_refused _ _).1 hbrace haccepted, hwrite, htorn, hbackup, hrestore⟩

end BackupReport
