import BackupReport.Capture.RepositorySize
import BackupReport.Proofs.RoundTrip.Records
import BackupReport.Proofs.Skipping.Values
import BackupReport.Proofs.Stream.Frames

/-!
# Kinds of documents

A document is a text that holds one value and nothing else.  Four kinds are read: backup records,
restore records, the output of a retention run and that of a statistics run.  Each is a list or an
object, which shows its own end and is passed over as one value (`Kind`).  That is all it takes to
notice a document that breaks off, by a decoder of whatever kind (`Kind.refuses_torn`).
-/

namespace BackupReport

open Json Json.Decoder

variable {α β ρ : Type}

/-- A decoder that reads whole values. -/
structure Json.Value (decode : Decoder α) : Prop where
  built : Built decode
  spanned : Spanned decode

/-- A decoder of documents: it reads whole values that show their own end. -/
structure Json.Kind (decode : Decoder α) : Prop extends Value decode where
  closes : Closes decode

/-! ## Documents that break off -/

/-- Nothing but a refusal keeps a decoder from its value, when the whole text is there. -/
theorem Json.Built.refused_ofText {d : Decoder α} (hd : Built d) {text : List UInt8} {fault : Fault}
    (h : (d.run (.ofText text)).map Prod.fst = .error fault) :
    ∃ cause position, fault = .refused cause position := by
  cases hrun : d.run (.ofText text) with
  | ok r =>
    rw [hrun] at h
    cases h
  | error f =>
    rw [hrun] at h
    cases h
    rcases hd.fault_cases hrun with hrefused | ⟨reason, -, hending⟩
    · exact hrefused
    · cases hending

/-- A whole text is decoded, or refused. -/
theorem Json.decodeWhole_error {decode : Decoder α} (hb : Built decode) {text : List UInt8}
    {fault : Fault} (h : decodeWhole decode text = .error fault) :
    ∃ cause position, fault = .refused cause position := by
  unfold decodeWhole at h
  refine Built.refused_ofText ?_ h
  refine .bind hb fun a => .bind built_gap fun r => ?_
  cases r with
  | none => exact .pure a
  | some b => exact .refuseNext _

/-- What one kind of decoder accepts, broken off before its last byte that is no gap, is refused by
every kind: read up to the end it would stop short of where the whole text is passed over. -/
theorem Json.Kind.refuses_torn {decode : Decoder α} {decode' : Decoder β} (hd : Kind decode)
    (hd' : Kind decode') {torn cut : List UInt8} {a : α}
    (h : decodeWhole decode (torn ++ cut) = .ok a) (hcut : ∃ b ∈ cut, isGap b = false) :
    ∃ cause position, decodeWhole decode' torn = .error (.refused cause position) := by
  cases htorn : decodeWhole decode' torn with
  | error fault =>
    obtain ⟨cause, position, rfl⟩ := decodeWhole_error hd'.built htorn
    exact ⟨cause, position, rfl⟩
  | ok b =>
    exfalso
    obtain ⟨c₁, _, hread, -⟩ := decodeWhole_ok htorn
    obtain ⟨c₂, _, hwhole, hgap⟩ := decodeWhole_ok h
    -- the whole text, read by the second decoder, would keep all that was cut off
    have hext : decode' (.ofText (torn ++ cut)) = .ok (b, c₁.extend cut .closed) :=
      hd'.closes.extend_ok hread cut .closed
    have hend := hd.spanned.end_unique hd'.spanned hwhole hext
    obtain ⟨x, hx, hxgap⟩ := hcut
    have hmem : x ∈ c₂.rest := by
      rw [hend]
      exact List.mem_append_right _ hx
    rw [gaps_of_gap_none hgap x hmem] at hxgap
    cases hxgap

/-! ## Values -/

theorem value_signed : Value signed := ⟨built_signed, spanned_number _ _⟩

theorem value_unsigned : Value unsigned := ⟨built_unsigned, spanned_number _ _⟩

theorem value_string : Value Json.string := ⟨built_string, spanned_string⟩

theorem value_boolean : Value boolean := ⟨built_boolean, spanned_boolean⟩

theorem value_skipValue : Value skipValue := ⟨built_skipValue, spanned_skipValue⟩

theorem Json.Value.optional {decode : Decoder α} (h : Value decode) : Value (optional decode) :=
  ⟨built_optional h.built, h.spanned.optional⟩

theorem Json.Value.nullAsDefault [Inhabited α] {decode : Decoder α} (h : Value decode) :
    Value (nullAsDefault decode) := ⟨built_nullAsDefault h.built, h.spanned.nullAsDefault⟩

theorem Json.Value.list {decode : Decoder α} (h : Value decode) (hc : Consumes decode) :
    Value (Json.list decode) := ⟨built_list h.built hc, h.spanned.list hc⟩

theorem Json.Value.field {name : String} {decode : Decoder α} (h : Value decode)
    (set : α → ρ → ρ) : Value (Field.of name decode set).decode :=
  ⟨built_field h.built set, h.spanned.map set⟩

theorem kind_list {decode : Decoder α} (h : Value decode) (hc : Consumes decode) :
    Kind (Json.list decode) := ⟨h.list hc, closes_list h.built hc⟩

theorem kind_record (name : String) {fields : List (Json.Field ρ)}
    (h : ∀ field ∈ fields, Value field.decode) (r : ρ) : Kind (record name fields r) :=
  have hbuilt : ∀ field ∈ fields, Built field.decode := fun field hf => (h field hf).built
  ⟨⟨built_record name hbuilt r,
    spanned_record name hbuilt (fun field hf => (h field hf).spanned) r⟩,
    closes_record name hbuilt r⟩

/-! ## Records -/

/-- The name of a phase is a quote and a text. -/
theorem named_ok {c c' : Cursor} {p : Phase} (h : Phase.named c = .ok (p, c')) :
    ∃ c₁ name, eat c = .ok ((), c₁) ∧ Text.decode c₁ = .ok (name, c') := by
  obtain ⟨_, c₁, he, h⟩ := bind_ok h
  obtain ⟨name, c₂, hk, h⟩ := bind_ok h
  cases hp : Phase.ofName? name with
  | none =>
    simp only [hp] at h
    cases h
  | some _ =>
    simp only [hp] at h
    obtain ⟨-, rfl⟩ := pure_ok h
    exact ⟨c₁, name, he, hk⟩

/-- A phase as the only key of an object is passed over with the object. -/
theorem walks_keyed {frames : List Skip.Frame} {c c' : Cursor} {p : Phase}
    (h : Phase.keyed c = .ok (p, c')) :
    Skip.Walks (⟨.opened, .object :: frames⟩, c) (⟨.after, frames⟩, c') := by
  obtain ⟨r, c₁, hg, h⟩ := bind_ok h
  cases r with
  | none => cases h
  | some b =>
    dsimp only at h
    split at h
    · rename_i hquote
      obtain ⟨phase, c₃, hn, h⟩ := bind_ok h
      obtain ⟨c₂, name, he, hk⟩ := named_ok hn
      obtain ⟨_, c₄, hc, h⟩ := bind_ok h
      obtain ⟨_, c₅, hu, h⟩ := bind_ok h
      obtain ⟨r, c₆, hg', h⟩ := bind_ok h
      have hmember :
          Skip.Walks (⟨.opened, .object :: frames⟩, c) (⟨.after, .object :: frames⟩, c₅) :=
        walks_member (.first (hquote ▸ hg) he) (Text.skip_of_decode hk) hc (spanned_unit _ hu)
      cases r with
      | none => cases h
      | some x =>
        dsimp only at h
        split at h
        · rename_i hclosing
          obtain ⟨_, c₇, he', h⟩ := bind_ok h
          obtain ⟨-, rfl⟩ := pure_ok h
          subst hclosing
          refine hmember.trans (Skip.Moves.walks ?_)
          exact .close nofun hg' he'
        · cases h
    · split at h
      · cases h
      · cases h

/-- A phase is passed over, whether it is a name or an object with the name as its key. -/
theorem spanned_phase : Spanned Phase.decode := by
  intro frames c c' p h
  obtain ⟨r, c₁, hg, h⟩ := bind_ok h
  cases r with
  | none => cases h
  | some b =>
    dsimp only at h
    cases hl : Lead.of b with
    | quote =>
      simp only [hl] at h
      obtain ⟨c₂, name, he, hk⟩ := named_ok h
      exact walks_of_enterValue (enterValue_string hg hl he (Text.skip_of_decode hk))
    | object =>
      simp only [hl] at h
      obtain ⟨_, c₂, he, h⟩ := bind_ok h
      exact (Skip.Moves.value (enterValue_object hg hl he)).walks.trans (walks_keyed h)
    | _ =>
      simp only [hl] at h
      cases h

theorem value_phase : Value Phase.decode := ⟨built_phase, spanned_phase⟩

theorem kind_fileCounts : Kind FileCounts.decode := by
  refine kind_record _ ?_ _
  simp only [List.forall_mem_cons]
  exact ⟨value_signed.optional.field _, value_signed.optional.field _,
    value_signed.optional.field _, value_signed.optional.field _, List.forall_mem_nil _⟩

theorem kind_snapshot : Kind Snapshot.decode := by
  refine kind_record _ ?_ _
  simp only [List.forall_mem_cons]
  exact ⟨value_string.field _, value_string.field _, value_string.field _, value_string.field _,
    value_string.field _, kind_fileCounts.toValue.field _, List.forall_mem_nil _⟩

theorem kind_hostBackup : Kind HostBackup.decode := by
  refine kind_record _ ?_ _
  simp only [List.forall_mem_cons]
  exact ⟨value_string.field _, value_phase.optional.field _,
    (kind_snapshot.toValue.list written_snapshot.consumes).field _, value_string.field _,
    value_string.field _, List.forall_mem_nil _⟩

theorem kind_hostRestore : Kind HostRestore.decode := by
  refine kind_record _ ?_ _
  simp only [List.forall_mem_cons]
  exact ⟨value_string.field _, value_phase.optional.field _, value_string.field _,
    value_string.field _, List.forall_mem_nil _⟩

theorem kind_repository : Kind Repository.decode := by
  refine kind_record _ ?_ _
  simp only [List.forall_mem_cons]
  exact ⟨value_boolean.optional.field _, value_string.field _, value_signed.field _,
    value_signed.field _, List.forall_mem_nil _⟩

theorem kind_backupRecord : Kind BackupRecord.decode := by
  refine kind_record _ ?_ _
  simp only [List.forall_mem_cons]
  exact ⟨(kind_hostBackup.toValue.list written_hostBackup.consumes).field _,
    kind_repository.toValue.field _, List.forall_mem_nil _⟩

theorem kind_restoreRecord : Kind RestoreRecord.decode := by
  refine kind_record _ ?_ _
  simp only [List.forall_mem_cons]
  exact ⟨(kind_hostRestore.toValue.list written_hostRestore.consumes).field _,
    List.forall_mem_nil _⟩

/-! ## Captured outputs -/

theorem value_entryCount : Value Retention.entryCount := by
  have hlist := value_skipValue.list Skip.consumes_skipValue
  exact Value.nullAsDefault ⟨hlist.built.map _, hlist.spanned.map _⟩

theorem value_groupFields : ∀ field ∈ Retention.Group.fields, Value field.decode := by
  simp only [Retention.Group.fields, List.forall_mem_cons]
  exact ⟨value_entryCount.field _, value_entryCount.field _, List.forall_mem_nil _⟩

theorem kind_group : Kind Retention.Group.decode :=
  kind_record _ value_groupFields _

theorem consumes_group : Consumes Retention.Group.decode :=
  consumes_record _ (fun field hf => (value_groupFields field hf).built) _

theorem kind_retention : Kind (list Retention.Group.decode) :=
  kind_list kind_group.toValue consumes_group

theorem value_repositorySizeFields : ∀ field ∈ RepositorySize.fields, Value field.decode := by
  simp only [RepositorySize.fields, List.forall_mem_cons]
  exact ⟨value_unsigned.nullAsDefault.field _, List.forall_mem_nil _⟩

theorem kind_repositorySize : Kind RepositorySize.decode :=
  kind_record _ value_repositorySizeFields _

end BackupReport
