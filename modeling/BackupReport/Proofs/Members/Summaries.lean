import BackupReport.Proofs.Members.Captures
import BackupReport.Proofs.Members.Fields
import BackupReport.Proofs.Members.Literals

/-!
# What a summary says

A summary reports four counters and two byte counts, each as an integer literal of any length, as
`null` or not at all, and the name of a snapshot (`Summary`, `Summarizes`).  If every literal is
within the bounds of its field and all keys are texts, the snapshot holds exactly what the summary
reports; else the summary is refused (`summary_mapping`).  No number is wrapped, clamped or rounded,
and none is taken for another.  The keys must be texts even of members that are no fields
(`undecodable_key_refused`, `summary_surrogate_key`).
-/

namespace BackupReport

open Json Json.Decoder

variable {α ρ : Type} {ms : List Member} {o : List UInt8} {name : String} {v : Option Literal}

/-! ## What the members of an object hold -/

/-- A field of an object holds a literal, or none if it is `null` or missing. -/
inductive Holds (ms : List Member) (name : String) : Option Literal → Prop
  | missing : (∀ m ∈ ms, ¬ Text.Spells m.key name) → Holds ms name none
  | null {m : Member} : m ∈ ms → Text.Spells m.key name → m.value = 0x6E :: restOfNull →
      Holds ms name none
  | literal {m : Member} {l : Literal} : m ∈ ms → Text.Spells m.key name → m.value = l.text →
      Holds ms name (some l)

/-- A field of an object holds a string that spells a text. -/
def HoldsText (ms : List Member) (name s : String) : Prop :=
  ∃ m ∈ ms, Text.Spells m.key name ∧
    ∃ text, Text.Spells text s ∧ m.value = 0x22 :: (text ++ [0x22])

/-- A field that holds a literal, or none, is set to the word for it or to its default. -/
theorem Holds.makes (h : Holds ms name v) {d : Decoder α} (set : α → ρ → ρ) {a : α}
    {word : Literal → α} (hnull : Takes d (0x6E :: restOfNull) a)
    (htakes : ∀ l ∈ v, Takes d l.text (word l)) :
    ∃ change, Makes ms (Field.of name d set) change ∧
      ∀ r, set a r = r → change r = set (v.elim a word) r := by
  cases h with
  | missing hmissing => exact ⟨id, .missing hmissing, fun r hr => hr.symm⟩
  | null hm hspells hvalue =>
    exact ⟨set a, .given hm hspells (hvalue ▸ hnull.map set), fun _ _ => rfl⟩
  | @literal m l hm hspells hvalue =>
    exact ⟨set (word l), .given hm hspells (hvalue ▸ (htakes l rfl).map set), fun _ _ => rfl⟩

/-- A literal is no `null`. -/
theorem Json.Literal.lead (l : Literal) :
    ∃ b inner, l.text = b :: inner ∧ Lead.of b ≠ .null ∧ Lead.of b ≠ .other := by
  obtain ⟨b, inner, htext, hb⟩ := l.written_text.lead
  exact ⟨b, inner, htext, ne_of_lead_number hb⟩

theorem takes_optional {d : Decoder α} {a : α} (l : Literal) (h : Takes d l.text a) :
    Takes (optional d) l.text (some a) := by
  obtain ⟨b, inner, htext, hnull, hother⟩ := l.lead
  rw [htext] at h ⊢
  exact h.optional hnull hother

theorem declines_optional {d : Decoder α} (l : Literal) (h : Declines d l.text) :
    Declines (optional d) l.text := by
  obtain ⟨b, inner, htext, hnull, hother⟩ := l.lead
  rw [htext] at h ⊢
  exact h.optional hnull hother

/-- A text that may be `null` is set as it is spelled. -/
theorem HoldsText.makes {s : String} (h : HoldsText ms name s) (set : String → ρ → ρ) :
    Makes ms (Field.of name (nullAsDefault string) set) (set s) := by
  obtain ⟨m, hm, hkey, text, htext, hvalue⟩ := h
  have htakes : Takes (optional string) m.value (some s) := by
    rw [hvalue]
    exact (takes_string htext).optional (by decide) (by decide)
  exact .given hm hkey ((htakes.map _).map set)

/-! ## Summaries -/

/-- What a summary reports; a field that is `null` or missing reports nothing. -/
structure Summary where
  filesNew : Option Literal
  filesChanged : Option Literal
  filesUnmodified : Option Literal
  dataAdded : Option Literal
  filesProcessed : Option Literal
  bytesProcessed : Option Literal
  snapshot : String

/-- The members of an object report a summary: they may come in any order and among others, but no
field occurs twice. -/
structure Summarizes (ms : List Member) (x : Summary) : Prop where
  formed : ∀ m ∈ ms, m.Formed
  once : ms.Pairwise (Apart (Message.fields.map Field.name))
  kind : HoldsText ms "message_type" "summary"
  filesNew : Holds ms "files_new" x.filesNew
  filesChanged : Holds ms "files_changed" x.filesChanged
  filesUnmodified : Holds ms "files_unmodified" x.filesUnmodified
  dataAdded : Holds ms "data_added" x.dataAdded
  filesProcessed : Holds ms "total_files_processed" x.filesProcessed
  bytesProcessed : Holds ms "total_bytes_processed" x.bytesProcessed
  duration : Holds ms "total_duration" none
  snapshot : HoldsText ms "snapshot_id" x.snapshot

namespace Summary

/-- A counter is nothing, or an integer of 64 bits with a sign. -/
def FitsCounter (v : Option Literal) : Prop := ∀ l ∈ v, l.Within (-(2 ^ 63)) (2 ^ 63)

/-- A byte count is nothing, or an integer of 64 bits without a sign. -/
def FitsBytes (v : Option Literal) : Prop := ∀ l ∈ v, l.Within 0 (2 ^ 64)

/-- Every literal of a summary is within the bounds of its field. -/
structure Fits (x : Summary) : Prop where
  filesNew : FitsCounter x.filesNew
  filesChanged : FitsCounter x.filesChanged
  filesUnmodified : FitsCounter x.filesUnmodified
  dataAdded : FitsBytes x.dataAdded
  filesProcessed : FitsCounter x.filesProcessed
  bytesProcessed : FitsBytes x.bytesProcessed

/-- A snapshot holds what a summary reports: the counters as they are written or nothing, the texts
of the byte counts as they are written or of zero, and the name as it is spelled. -/
structure MapsTo (x : Summary) (path : String) (s : Snapshot) : Prop where
  name : s.name = x.snapshot
  path : s.path = path
  added : s.files.added.map Int64.toInt = x.filesNew.map Literal.value
  modified : s.files.modified.map Int64.toInt = x.filesChanged.map Literal.value
  unmodified : s.files.unmodified.map Int64.toInt = x.filesUnmodified.map Literal.value
  total : s.files.total.map Int64.toInt = x.filesProcessed.map Literal.value
  uploaded : ∃ n : UInt64, (n.toNat : Int) = x.dataAdded.elim 0 Literal.value ∧
    s.uploaded = Size.text n
  totalSize : ∃ n : UInt64, (n.toNat : Int) = x.bytesProcessed.elim 0 Literal.value ∧
    s.totalSize = Size.text n
  processingTime : s.processingTime = Duration.text 0

/-- The word for a counter. -/
def counter (v : Option Literal) : Option Int64 :=
  v.elim none fun l => some (Int64.ofInt l.value)

/-- The word for a byte count. -/
def byteCount (v : Option Literal) : UInt64 := v.elim 0 fun l => UInt64.ofNat l.value.toNat

/-- A counter within its bounds is held as it is written. -/
theorem counter_exact (h : FitsCounter v) :
    (counter v).map Int64.toInt = v.map Literal.value := by
  cases v with
  | none => rfl
  | some l => exact congrArg some (Literal.toInt_word (h l rfl))

/-- A byte count within its bounds is held as it is written, or as zero. -/
theorem byteCount_exact (h : FitsBytes v) :
    ((byteCount v).toNat : Int) = v.elim 0 Literal.value := by
  cases v with
  | none => rfl
  | some l => exact Literal.toNat_word (h l rfl)

/-- The message of a summary. -/
def message (x : Summary) : Message where
  kind := "summary"
  filesNew := counter x.filesNew
  filesChanged := counter x.filesChanged
  filesUnmodified := counter x.filesUnmodified
  dataAdded := byteCount x.dataAdded
  filesProcessed := counter x.filesProcessed
  bytesProcessed := byteCount x.bytesProcessed
  snapshot := x.snapshot

theorem Fits.mapsTo {x : Summary} (h : x.Fits) (path : String) :
    x.MapsTo path (x.message.toSnapshot path) where
  name := rfl
  path := rfl
  added := counter_exact h.filesNew
  modified := counter_exact h.filesChanged
  unmodified := counter_exact h.filesUnmodified
  total := counter_exact h.filesProcessed
  uploaded := ⟨_, byteCount_exact h.dataAdded, rfl⟩
  totalSize := ⟨_, byteCount_exact h.bytesProcessed, rfl⟩
  processingTime := by
    have hzero : Binary64.zero.toWord = 0 := by decide +kernel
    exact congrArg Duration.text hzero

end Summary

/-! ## Reading a summary -/

section Reading

variable {x : Summary} {m : Message} {g : List UInt8}

theorem nodup_messageFields : (Message.fields.map Field.name).Nodup := by decide

/-- A summary within the bounds is read as its message if all keys are texts. -/
theorem Summarizes.outcome (h : Summarizes ms x) (hkeys : ∀ m ∈ ms, ∃ key, Text.Spells m.key key)
    (hx : x.Fits) : Outcome Message.fields {} ms x.message := by
  have hcounter : ∀ {v : Option Literal}, Summary.FitsCounter v → ∀ l ∈ v,
      Takes (optional signed) l.text (some (Int64.ofInt l.value)) :=
    fun hv l hl => takes_optional l (Literal.takes_signed (hv l hl))
  have hbytes : ∀ {v : Option Literal}, Summary.FitsBytes v → ∀ l ∈ v,
      Takes (nullAsDefault unsigned) l.text (UInt64.ofNat l.value.toNat) :=
    fun hv l hl => (takes_optional l (Literal.takes_unsigned (hv l hl))).map _
  -- what the fields make, in their order
  have hkind := h.kind.makes fun s (m : Message) => { m with kind := s }
  obtain ⟨new, hnew, hnew'⟩ := h.filesNew.makes (fun n (m : Message) => { m with filesNew := n })
    (takes_null signed) (hcounter hx.filesNew)
  obtain ⟨changed, hchanged, hchanged'⟩ := h.filesChanged.makes
    (fun n (m : Message) => { m with filesChanged := n }) (takes_null signed)
    (hcounter hx.filesChanged)
  obtain ⟨unmodified, hunmodified, hunmodified'⟩ := h.filesUnmodified.makes
    (fun n (m : Message) => { m with filesUnmodified := n }) (takes_null signed)
    (hcounter hx.filesUnmodified)
  obtain ⟨added, hadded, hadded'⟩ := h.dataAdded.makes
    (fun n (m : Message) => { m with dataAdded := n }) (takes_null_default unsigned)
    (hbytes hx.dataAdded)
  obtain ⟨processed, hprocessed, hprocessed'⟩ := h.filesProcessed.makes
    (fun n (m : Message) => { m with filesProcessed := n }) (takes_null signed)
    (hcounter hx.filesProcessed)
  obtain ⟨bytes, hbytesProcessed, hbytesProcessed'⟩ := h.bytesProcessed.makes
    (fun n (m : Message) => { m with bytesProcessed := n }) (takes_null_default unsigned)
    (hbytes hx.bytesProcessed)
  have hnone : ∀ l ∈ (none : Option Literal), Takes (nullAsDefault double) l.text default := nofun
  obtain ⟨duration, hduration, hduration'⟩ := h.duration.makes
    (fun y (m : Message) => { m with duration := y }) (takes_null_default double) hnone
  have hsnapshot := h.snapshot.makes fun s (m : Message) => { m with snapshot := s }
  have hmakes : List.Forall₂ (Makes ms) Message.fields [_, new, changed, unmodified, added,
      processed, bytes, duration, _] :=
    .cons hkind <| .cons hnew <| .cons hchanged <| .cons hunmodified <| .cons hadded <|
      .cons hprocessed <| .cons hbytesProcessed <| .cons hduration <| .cons hsnapshot .nil
  have houtcome := unordered_message.outcome_of_fields nodup_messageFields hkeys h.once hmakes
  simp only [List.foldl_cons, List.foldl_nil] at houtcome
  rw [hnew' _ rfl, hchanged' _ rfl, hunmodified' _ rfl, hadded' _ rfl, hprocessed' _ rfl,
    hbytesProcessed' _ rfl, hduration' _ rfl] at houtcome
  exact houtcome

/-- Where an object has an outcome, no literal is declined by its field. -/
theorem Holds.not_declines (h : Holds ms name v) {fields : List (Json.Field ρ)} {r r' : ρ}
    (houtcome : Outcome fields r ms r') (hnames : (fields.map Field.name).Nodup) {d : Decoder α}
    {set : α → ρ → ρ} (hfield : Field.of name d set ∈ fields) :
    ∀ l ∈ v, ¬ Declines d l.text := by
  rintro l hl hdeclines
  cases h with
  | missing | null => cases hl
  | literal hm hspells hvalue =>
    cases hl
    obtain ⟨change, htakes⟩ := houtcome.takes hnames hfield hm hspells
    rw [hvalue] at htakes
    exact htakes.not_declines (hdeclines.map set)

/-- A summary that is read is within the bounds. -/
theorem Summarizes.fits (h : Summarizes ms x) (houtcome : Outcome Message.fields {} ms m) :
    x.Fits := by
  have hcounter : ∀ {name : String} {v : Option Literal} {set : Option Int64 → Message → Message},
      Holds ms name v → Field.of name (optional signed) set ∈ Message.fields →
        Summary.FitsCounter v := by
    intro name v set hholds hfield l hl
    by_contra hout
    exact hholds.not_declines houtcome nodup_messageFields hfield l hl
      (declines_optional l (Literal.declines_signed hout))
  have hbytes : ∀ {name : String} {v : Option Literal} {set : UInt64 → Message → Message},
      Holds ms name v → Field.of name (nullAsDefault unsigned) set ∈ Message.fields →
        Summary.FitsBytes v := by
    intro name v set hholds hfield l hl
    by_contra hout
    exact hholds.not_declines houtcome nodup_messageFields hfield l hl
      ((declines_optional l (Literal.declines_unsigned hout)).map _)
  constructor
  · exact hcounter h.filesNew (.tail _ (.head _))
  · exact hcounter h.filesChanged (.tail _ (.tail _ (.head _)))
  · exact hcounter h.filesUnmodified (.tail _ (.tail _ (.tail _ (.head _))))
  · exact hbytes h.dataAdded (.tail _ (.tail _ (.tail _ (.tail _ (.head _)))))
  · exact hcounter h.filesProcessed (.tail _ (.tail _ (.tail _ (.tail _ (.tail _ (.head _))))))
  · exact hbytes h.bytesProcessed
      (.tail _ (.tail _ (.tail _ (.tail _ (.tail _ (.tail _ (.head _)))))))

/-- Where the first object of an output comes to a summary, the output holds its snapshot. -/
theorem ofOutput_of_outcome (hms : ∀ m ∈ ms, m.Formed) (ho : ObjectText ms o) (hg : Gap g)
    (houtcome : Outcome Message.fields {} ms m) (hsummary : m.isSummary = true) (path : String)
    (more : List UInt8) :
    (Snapshot.ofOutput path (g ++ (o ++ more))).value = .ok (m.toSnapshot path) := by
  obtain ⟨c, hgap, hr⟩ := gap_object (c := .ofReads (g ++ (o ++ more)) .closed) ho hg rfl
  have hrecord := record_ok "BackupSummary" unordered_message.built hms ho houtcome
    (List.forall_mem_nil _) hr
  obtain ⟨c', hrun, -⟩ := hrecord
  have hmessage := message?_some delimited_message hgap hrun
  rw [Snapshot.ofOutput_value, itemsAt_message delimited_message hmessage,
    Snapshot.reported_summary hsummary]

/-- Where the first object of an output has no outcome, the output is refused. -/
theorem refused_of_no_outcome (hms : ∀ m ∈ ms, m.Formed) (ho : ObjectText ms o) (hg : Gap g)
    (hnone : ∀ m, ¬ Outcome Message.fields {} ms m) (path : String) (more : List UInt8) :
    ∃ cause position,
      (Snapshot.ofOutput path (g ++ (o ++ more))).value = .error (.decode cause position) := by
  obtain ⟨c, hgap, hr⟩ := gap_object (c := .ofReads (g ++ (o ++ more)) .closed) ho hg rfl
  cases hrun : Message.decode c with
  | ok r =>
    have houtcome := record_outcome unordered_message.built unordered_message.steady hms ho
      (List.forall_mem_nil _) hr hrun
    exact absurd houtcome (hnone _)
  | error fault =>
    rw [Snapshot.ofOutput_value, itemsAt_fault (message?_error hgap hrun), Snapshot.reported_fault]
    have hclosed : c.ending = .closed := built_gap.ending_eq hgap
    rcases delimited_message.built.fault_cases hrun with
      ⟨cause, position, rfl⟩ | ⟨reason, -, hfailing⟩
    · exact ⟨cause, position, rfl⟩
    · rw [hclosed] at hfailing
      cases hfailing

/-- A key that is no text is refused, whatever the object reports and to whatever member it
belongs. -/
theorem undecodable_key_refused (hms : ∀ m ∈ ms, m.Formed) (ho : ObjectText ms o) (hg : Gap g)
    {m : Member} (hm : m ∈ ms) (hkey : ∀ key, ¬ Text.Spells m.key key) (path : String)
    (more : List UInt8) :
    ∃ cause position,
      (Snapshot.ofOutput path (g ++ (o ++ more))).value = .error (.decode cause position) := by
  refine refused_of_no_outcome hms ho hg (fun _ houtcome => ?_) path more
  obtain ⟨key, hspells⟩ := houtcome.keys hm
  exact hkey key hspells

/-- A summary is mapped exactly, or it is refused.  If all keys are texts, every literal is within
the bounds of its field and none is written `-0`, the snapshot holds the counters that are reported,
a zero among them, and no others; the texts of the byte counts, or of zero bytes; and the name.
Else the output is refused, however long the literals are.  Neither the order of the members
matters, nor members that are no fields, if only their keys are texts, nor what follows the
object. -/
theorem summary_mapping (hx : Summarizes ms x) (ho : ObjectText ms o) (hg : Gap g)
    (path : String) (more : List UInt8) :
    ((∀ m ∈ ms, ∃ key, Text.Spells m.key key) ∧ x.Fits →
      ∃ s, (Snapshot.ofOutput path (g ++ (o ++ more))).value = .ok s ∧ x.MapsTo path s) ∧
    (¬ ((∀ m ∈ ms, ∃ key, Text.Spells m.key key) ∧ x.Fits) → ∃ cause position,
      (Snapshot.ofOutput path (g ++ (o ++ more))).value = .error (.decode cause position)) := by
  constructor
  · rintro ⟨hkeys, hfits⟩
    have houtcome := hx.outcome hkeys hfits
    exact ⟨_, ofOutput_of_outcome hx.formed ho hg houtcome rfl path more, hfits.mapsTo path⟩
  · intro hnot
    refine refused_of_no_outcome hx.formed ho hg (fun m houtcome => hnot ⟨?_, ?_⟩) path more
    · exact fun m hm => houtcome.keys hm
    · exact hx.fits houtcome

/-- A summary that reports no new files. -/
theorem summary_mapping_zero :
    ∃ s, (Snapshot.ofOutput "p" (Utf8.encode
      "\x7b\"message_type\":\"summary\",\"files_new\":0,\"snapshot_id\":\"a\"\x7d".toList)).value =
        .ok s ∧
      s.name = "a" ∧ s.files.added.map Int64.toInt = some 0 ∧ s.files.modified = none := by
  have hkind : Text.Spells (Member.plain "message_type" "\"summary\"").key "message_type" :=
    Text.spells_plain (by decide +kernel)
  have hnew : Text.Spells (Member.plain "files_new" "0").key "files_new" :=
    Text.spells_plain (by decide +kernel)
  have hsnapshot : Text.Spells (Member.plain "snapshot_id" "\"a\"").key "snapshot_id" :=
    Text.spells_plain (by decide +kernel)
  have hsummary : Text.Spells (Utf8.encode "summary".toList) "summary" :=
    Text.spells_plain (by decide +kernel)
  have hname : Text.Spells (Utf8.encode "a".toList) "a" := Text.spells_plain (by decide +kernel)
  have hkeys : Keyed [Member.plain "message_type" "\"summary\"", Member.plain "files_new" "0",
      Member.plain "snapshot_id" "\"a\""] ["message_type", "files_new", "snapshot_id"] :=
    .cons hkind (.cons hnew (.cons hsnapshot .nil))
  have hx : Summarizes [Member.plain "message_type" "\"summary\"", Member.plain "files_new" "0",
      Member.plain "snapshot_id" "\"a\""]
        ⟨some ⟨false, [0x30], .zero⟩, none, none, none, none, none, "a"⟩ := {
    formed := List.forall_mem_cons.2 ⟨⟨hkind.body, .string hsummary.body⟩,
      List.forall_mem_cons.2 ⟨⟨hnew.body, Literal.isValue ⟨false, [0x30], .zero⟩⟩,
        List.forall_mem_singleton.2 ⟨hsnapshot.body, .string hname.body⟩⟩⟩
    once := hkeys.apart (by decide)
    kind := ⟨_, .head _, hkind, _, hsummary, rfl⟩
    filesNew := .literal (.tail _ (.head _)) hnew rfl
    filesChanged := .missing (hkeys.not_spells (by decide))
    filesUnmodified := .missing (hkeys.not_spells (by decide))
    dataAdded := .missing (hkeys.not_spells (by decide))
    filesProcessed := .missing (hkeys.not_spells (by decide))
    bytesProcessed := .missing (hkeys.not_spells (by decide))
    duration := .missing (hkeys.not_spells (by decide))
    snapshot := ⟨_, .tail _ (.tail _ (.head _)), hsnapshot, _, hname, rfl⟩ }
  have hfits : Summary.Fits ⟨some ⟨false, [0x30], .zero⟩, none, none, none, none, none, "a"⟩ := {
    filesNew := by
      rintro l ⟨⟩
      exact ⟨by decide, by decide, by decide⟩
    filesChanged := nofun
    filesUnmodified := nofun
    dataAdded := nofun
    filesProcessed := nofun
    bytesProcessed := nofun }
  have hgap : Gap [] := List.forall_mem_nil _
  have ho : ObjectText [Member.plain "message_type" "\"summary\"", Member.plain "files_new" "0",
      Member.plain "snapshot_id" "\"a\""] (Utf8.encode
        "\x7b\"message_type\":\"summary\",\"files_new\":0,\"snapshot_id\":\"a\"\x7d".toList) :=
    .of_compact (by decide +kernel)
  obtain ⟨s, hs, hmaps⟩ := (summary_mapping hx ho hgap "p" []).1
    ⟨fun _ hm => hkeys.exists_key hm, hfits⟩
  rw [List.append_nil] at hs
  exact ⟨s, hs, hmaps.name, hmaps.added, Option.map_eq_none_iff.1 hmaps.modified⟩

/-- A summary with a further member, the key of which is half of a surrogate pair: none of its
literals is out of bounds, and yet it is refused. -/
theorem summary_surrogate_key :
    Summarizes [Member.plain "message_type" "\"summary\"", Member.plain "snapshot_id" "\"a\"",
        Member.plain "\\ud800" "0"] ⟨none, none, none, none, none, none, "a"⟩ ∧
      Summary.Fits ⟨none, none, none, none, none, none, "a"⟩ ∧
      ObjectText [Member.plain "message_type" "\"summary\"", Member.plain "snapshot_id" "\"a\"",
        Member.plain "\\ud800" "0"] (Utf8.encode
          "\x7b\"message_type\":\"summary\",\"snapshot_id\":\"a\",\"\\ud800\":0\x7d".toList) ∧
      ∃ cause position, (Snapshot.ofOutput "/p" (Utf8.encode
        "\x7b\"message_type\":\"summary\",\"snapshot_id\":\"a\",\"\\ud800\":0\x7d".toList)).value =
          .error (.decode cause position) := by
  have hkind : Text.Spells (Member.plain "message_type" "\"summary\"").key "message_type" :=
    Text.spells_plain (by decide +kernel)
  have hsnapshot : Text.Spells (Member.plain "snapshot_id" "\"a\"").key "snapshot_id" :=
    Text.spells_plain (by decide +kernel)
  have hsummary : Text.Spells (Utf8.encode "summary".toList) "summary" :=
    Text.spells_plain (by decide +kernel)
  have hname : Text.Spells (Utf8.encode "a".toList) "a" := Text.spells_plain (by decide +kernel)
  obtain ⟨hhalf, hnone⟩ := Member.formed_half
  have hkeys : Keyed [Member.plain "message_type" "\"summary\"",
      Member.plain "snapshot_id" "\"a\""] ["message_type", "snapshot_id"] :=
    .cons hkind (.cons hsnapshot .nil)
  -- the keys that are texts come first, and the last one belongs to no field
  have hmissing : ∀ name ∉ ["message_type", "snapshot_id"], Holds [Member.plain "message_type"
      "\"summary\"", Member.plain "snapshot_id" "\"a\"", Member.plain "\\ud800" "0"] name none :=
    fun name hname => .missing (List.forall_mem_append.2
      ⟨hkeys.not_spells hname, List.forall_mem_singleton.2 (hnone name)⟩)
  have hapart : [Member.plain "message_type" "\"summary\"", Member.plain "snapshot_id" "\"a\"",
      Member.plain "\\ud800" "0"].Pairwise (Apart (Message.fields.map Field.name)) := by
    refine List.pairwise_append.2 ⟨hkeys.apart (by decide), List.pairwise_singleton _ _, ?_⟩
    intro m _ m' hm' name _ _
    rw [List.mem_singleton.1 hm']
    exact hnone name
  have hx : Summarizes [Member.plain "message_type" "\"summary\"",
      Member.plain "snapshot_id" "\"a\"", Member.plain "\\ud800" "0"]
        ⟨none, none, none, none, none, none, "a"⟩ := {
    formed := List.forall_mem_cons.2 ⟨⟨hkind.body, .string hsummary.body⟩,
      List.forall_mem_cons.2 ⟨⟨hsnapshot.body, .string hname.body⟩,
        List.forall_mem_singleton.2 hhalf⟩⟩
    once := hapart
    kind := ⟨_, .head _, hkind, _, hsummary, rfl⟩
    filesNew := hmissing _ (by decide)
    filesChanged := hmissing _ (by decide)
    filesUnmodified := hmissing _ (by decide)
    dataAdded := hmissing _ (by decide)
    filesProcessed := hmissing _ (by decide)
    bytesProcessed := hmissing _ (by decide)
    duration := hmissing _ (by decide)
    snapshot := ⟨_, .tail _ (.head _), hsnapshot, _, hname, rfl⟩ }
  have hgap : Gap [] := List.forall_mem_nil _
  have ho : ObjectText [Member.plain "message_type" "\"summary\"",
      Member.plain "snapshot_id" "\"a\"", Member.plain "\\ud800" "0"] (Utf8.encode
        "\x7b\"message_type\":\"summary\",\"snapshot_id\":\"a\",\"\\ud800\":0\x7d".toList) :=
    .of_compact (by decide +kernel)
  have hrefused := undecodable_key_refused hx.formed ho hgap (.tail _ (.tail _ (.head _))) hnone
    "/p" []
  rw [List.append_nil] at hrefused
  refine ⟨hx, ?_, ho, hrefused⟩
  constructor <;> simp [Summary.FitsCounter, Summary.FitsBytes]

end Reading

end BackupReport
