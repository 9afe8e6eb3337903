import Mathlib.Data.List.Nodup
import BackupReport.Proofs.Grammar.Series
import BackupReport.Proofs.RoundTrip.Strings

/-!
# Written lists and records

A list is written with one entry on a line, and is read entry by entry (`Reads.list`).  A record is
written with one member on a line, of those fields that do not have their default, in the order of
the fields; `Fills` says how such members change a record.  They are read member by member, whatever
fields are left out (`reads_record`).
-/

namespace BackupReport.Json

open Decoder

variable {α ρ : Type}

/-! ## Lines -/

/-- The start of a line is a gap. -/
theorem line_gaps (level : Nat) : ∀ b ∈ Utf8.encode (Pretty.line level), isGap b = true := by
  intro b hb
  obtain ⟨x, hx, hb⟩ := List.mem_flatMap.1 hb
  have hblank : x = '\n' ∨ x = ' ' := by
    rcases List.mem_cons.1 hx with hx | hx
    · exact .inl hx
    · exact .inr (List.eq_of_mem_replicate hx)
  rcases hblank with rfl | rfl
  · rw [List.mem_singleton.1 (show b ∈ [(0x0A : UInt8)] from hb)]
    rfl
  · rw [List.mem_singleton.1 (show b ∈ [(0x20 : UInt8)] from hb)]
    rfl

theorem ends_line (level : Nat) (rest : List UInt8) :
    Ends (Utf8.encode (Pretty.line level) ++ rest) := ⟨0x0A, _, rfl, .inr rfl⟩

theorem ends_comma (rest : List UInt8) : Ends (0x2C :: rest) := ⟨0x2C, rest, rfl, .inl rfl⟩

/-! ## Lists -/

section Lists

variable {decode : Decoder α} {c : Cursor} {gaps rest later : List UInt8}

/-- The comma before an entry or a member that is not the first. -/
def separator (first : Bool) : List UInt8 := if first then [] else [0x2C]

/-- A line stands before an entry or a member, behind a comma if it is not the first. -/
theorem separator_line (first : Bool) (level : Nat) :
    Separator first (separator first ++ Utf8.encode (Pretty.line level)) := by
  cases first with
  | true => exact .first (line_gaps level)
  | false => exact .later (List.forall_mem_nil _) (line_gaps level)

/-- The entries of a list, behind others or at the start. -/
def entriesText (first : Bool) (level : Nat) : List Tree → List UInt8
  | [] => []
  | entry :: later => separator first ++ (Utf8.encode (Pretty.line level) ++
      (Utf8.encode (Pretty.value level entry) ++ entriesText false level later))

theorem entriesText_false (level : Nat) (entries : List Tree) :
    entriesText false level entries = Utf8.encode (Pretty.entries level entries) := by
  induction entries with
  | nil => rfl
  | cons entry later ih =>
    rw [Pretty.entries, List.cons_append, List.cons_append, encode_ascii (by decide),
      List.append_assoc, encode_append, encode_append, ← ih]
    rfl

/-- The entries of a list are read one after the other. -/
theorem iterate_entry {level : Nat} {toTree : α → Tree} (hconsumes : Consumes decode)
    (as sofar : List α) (h : ∀ a ∈ as, Reads decode (Pretty.value level (toTree a)) a)
    (hgaps : ∀ b ∈ gaps, isGap b = true) (hends : as ≠ [] → Ends (gaps ++ 0x5D :: rest))
    (hc : c.rest = entriesText sofar.isEmpty level (as.map toTree) ++ (gaps ++ 0x5D :: rest)) :
    ∃ c', iterate (entry decode) sofar c = .ok (sofar.reverse ++ as, c') ∧ c'.rest = rest := by
  induction as generalizing sofar c with
  | nil =>
    obtain ⟨c₁, hn, hr₁⟩ := nextEntry_close sofar.isEmpty hgaps hc
    refine ⟨c₁.pass [0x5D] rest, ?_, rfl⟩
    have hentry : entry decode sofar c = .ok (.done sofar.reverse, c₁.pass [0x5D] rest) := by
      unfold entry
      rw [bind_of_ok hn, if_neg Bool.false_ne_true, bind_of_ok (eat_cons hr₁)]
      rfl
    rw [iterate_eq (progresses_entry hconsumes), bind_of_ok hentry, List.append_nil]
    rfl
  | cons a as ih =>
    have ha := h a List.mem_cons_self
    obtain ⟨b, text, htext, -, hb⟩ := ha.lead
    -- what stands behind the entry: the later ones, or the end of the list
    have hlater : Ends (entriesText false level (as.map toTree) ++ (gaps ++ 0x5D :: rest)) := by
      cases as with
      | nil => exact hends (List.cons_ne_nil _ _)
      | cons a' as => exact ends_comma _
    simp only [List.map_cons, entriesText, htext, List.append_assoc, List.cons_append] at hc
    rw [← List.append_assoc] at hc
    obtain ⟨c₁, hn, hr₁⟩ := nextEntry_more (separator_line sofar.isEmpty level) hb hc
    have hr₁' : c₁.rest = [] ++ Utf8.encode (Pretty.value level (toTree a)) ++
        (entriesText false level (as.map toTree) ++ (gaps ++ 0x5D :: rest)) := by
      rw [hr₁, htext, List.nil_append, List.cons_append]
    obtain ⟨c₂, hd, hr₂⟩ := ha.run (List.forall_mem_nil _) hr₁' hlater
    have hentry : entry decode sofar c = .ok (.more (a :: sofar), c₂) := by
      unfold entry
      rw [bind_of_ok hn, if_pos rfl, bind_of_ok hd]
      rfl
    obtain ⟨c', hrun, hr'⟩ := ih (a :: sofar) (fun x hx => h x (List.mem_cons_of_mem _ hx))
      (fun _ => hends (List.cons_ne_nil _ _)) hr₂
    refine ⟨c', ?_, hr'⟩
    rw [iterate_eq (progresses_entry hconsumes), bind_of_ok hentry]
    rw [List.reverse_cons, List.append_assoc] at hrun
    exact hrun

/-- A list stands between brackets; behind entries the closing one has a line of its own. -/
theorem encode_list (level : Nat) (entries : List Tree) : ∃ closing : List UInt8,
    (∀ b ∈ closing, isGap b = true) ∧
    (∀ rest, entries ≠ [] → Ends (closing ++ 0x5D :: rest)) ∧
    Utf8.encode (Pretty.value level (.list entries)) =
      0x5B :: (entriesText true (level + 1) entries ++ (closing ++ [0x5D])) := by
  cases entries with
  | nil => exact ⟨[], List.forall_mem_nil _, fun _ hne => absurd rfl hne, rfl⟩
  | cons entry later =>
    refine ⟨Utf8.encode (Pretty.line level), line_gaps level, fun _ _ => ends_line _ _, ?_⟩
    rw [Pretty.value]
    simp only [List.cons_append, encode_ascii (show ('[').toNat < 0x80 by decide),
      encode_append, entriesText, separator, if_true, List.nil_append, entriesText_false,
      List.append_assoc]
    rfl

/-- A list is read entry by entry. -/
theorem Reads.list {level : Nat} {toTree : α → Tree} (hconsumes : Consumes decode) (as : List α)
    (h : ∀ a ∈ as, Reads decode (Pretty.value (level + 1) (toTree a)) a) :
    Reads (Json.list decode) (Pretty.value level (.list (as.map toTree))) as := by
  obtain ⟨closing, hgaps, hends, htext⟩ := encode_list level (as.map toTree)
  refine .behind_lead htext (by decide) (by decide) rfl fun {c rest} hc _ => ?_
  rw [List.append_assoc, List.append_assoc] at hc
  exact iterate_entry hconsumes as [] h hgaps (fun hne => hends rest (by simpa using hne)) hc

end Lists

/-! ## Records -/

section Records

variable {c : Cursor} {gaps rest later : List UInt8}

variable {level : Nat}

/-- How the written members of a record change it: they belong to fields in the order of the fields,
of which any may be left out. -/
inductive Fills (level : Nat) : List (Field ρ) → List (String × Tree) → ρ → ρ → Prop
  | nil (r : ρ) : Fills level [] [] r r
  | skip {field : Field ρ} {fields : List (Field ρ)} {members : List (String × Tree)} {r r' : ρ} :
      Fills level fields members r r' → Fills level (field :: fields) members r r'
  | take {field : Field ρ} {fields : List (Field ρ)} {members : List (String × Tree)} {r r' : ρ}
      {value : Tree} {change : ρ → ρ} :
      Reads field.decode (Pretty.value level value) change →
      Fills level fields members (change r) r' →
        Fills level (field :: fields) ((field.name, value) :: members) r r'

theorem encode_colon (cs : List Char) :
    Utf8.encode (':' :: ' ' :: cs) = 0x3A :: 0x20 :: Utf8.encode cs := rfl

/-- The members of an object, behind others or at the start. -/
def membersText (first : Bool) (level : Nat) : List (String × Tree) → List UInt8
  | [] => []
  | (key, value) :: later => separator first ++ (Utf8.encode (Pretty.line level) ++
      (Utf8.encode (Pretty.string key) ++ 0x3A :: 0x20 ::
        (Utf8.encode (Pretty.value level value) ++ membersText false level later)))

theorem membersText_false (level : Nat) (members : List (String × Tree)) :
    membersText false level members = Utf8.encode (Pretty.members level members) := by
  induction members with
  | nil => rfl
  | cons m later ih =>
    obtain ⟨key, value⟩ := m
    rw [Pretty.members]
    simp only [List.cons_append, List.nil_append, List.append_assoc,
      encode_ascii (show (',').toNat < 0x80 by decide), encode_append, encode_colon, ← ih]
    rfl

/-- A member is read up to the colon behind its key. -/
theorem member_written {fields : List (Field ρ)} {p : Progress ρ} {key : String}
    (h : c.rest = separator p.first ++ (Utf8.encode (Pretty.line level) ++
      (Utf8.encode (Pretty.string key) ++ 0x3A :: rest))) :
    ∃ c', c'.rest = 0x3A :: rest ∧ member fields p c = behindKey fields p key c' := by
  rw [encode_string, List.cons_append, List.append_assoc] at h
  rw [← List.append_assoc] at h
  obtain ⟨c₁, hn, hr₁⟩ := nextMember_more (separator_line p.first level) h
  obtain ⟨c₂, htext, hr₂⟩ := Text.decode_written key hr₁
  refine ⟨c₂, hr₂, ?_⟩
  unfold member
  rw [bind_of_ok hn, if_pos rfl, bind_of_ok htext]
  rfl

/-- A member of a field that has not occurred is read, and its value set. -/
theorem member_field {fields : List (Field ρ)} {field : Field ρ} {first : Bool}
    {seen : List String} {r : ρ} {value : Tree} {change : ρ → ρ}
    (hfind : fields.find? (·.name == field.name) = some field) (hseen : field.name ∉ seen)
    (hreads : Reads field.decode (Pretty.value level value) change) (hends : Ends rest)
    (h : c.rest = separator first ++ (Utf8.encode (Pretty.line level) ++
      (Utf8.encode (Pretty.string field.name) ++ 0x3A :: 0x20 ::
        (Utf8.encode (Pretty.value level value) ++ rest)))) :
    ∃ c', member fields ⟨first, seen, r⟩ c = .ok (.more ⟨false, field.name :: seen, change r⟩, c') ∧
      c'.rest = rest := by
  obtain ⟨c₁, hr₁, hmember⟩ := member_written (p := ⟨first, seen, r⟩) h
  obtain ⟨c₂, hcolon, hr₂⟩ := colon_cons (g := []) (List.forall_mem_nil _) hr₁
  have hr₂' : c₂.rest = [0x20] ++ Utf8.encode (Pretty.value level value) ++ rest := hr₂
  obtain ⟨c₃, hdecode, hr₃⟩ := hreads.run (by simp [isGap]) hr₂' hends
  refine ⟨c₃, ?_, hr₃⟩
  rw [hmember]
  unfold behindKey
  simp only [hfind]
  rw [if_neg (by simpa using hseen), bind_of_ok hcolon, bind_of_ok hdecode]
  rfl

/-- A member that is no field is passed over behind the colon. -/
theorem behindKey_skip {fields : List (Field ρ)} {p : Progress ρ} {key : String} {c₁ c' : Cursor}
    (hfind : fields.find? (·.name == key) = none) (hcolon : colon c = .ok ((), c₁))
    (hskip : skipValue c₁ = .ok ((), c')) :
    behindKey fields p key c = .ok (.more ⟨false, p.seen, p.record⟩, c') := by
  unfold behindKey
  simp only [hfind]
  rw [bind_of_ok hcolon, bind_of_ok hskip]
  rfl

/-- Where the closing brace is next, no member is read. -/
theorem member_close (fields : List (Field ρ)) (p : Progress ρ)
    (hgaps : ∀ b ∈ gaps, isGap b = true) (h : c.rest = gaps ++ 0x7D :: rest) :
    ∃ c', member fields p c = .ok (.done p.record, c') ∧ c'.rest = rest := by
  obtain ⟨c₁, hn, hr₁⟩ := nextMember_close p.first hgaps h
  refine ⟨c₁.pass [0x7D] rest, ?_, rfl⟩
  unfold member
  rw [bind_of_ok hn, if_neg Bool.false_ne_true, bind_of_ok (eat_cons hr₁)]
  rfl

/-- A field is found by its name, which no other field has. -/
theorem find?_of_mem {fields : List (Field ρ)} (hnames : (fields.map Field.name).Nodup)
    {field : Field ρ} (h : field ∈ fields) :
    fields.find? (·.name == field.name) = some field := by
  cases hfind : fields.find? (·.name == field.name) with
  | none => exact absurd (beq_self_eq_true field.name) (List.find?_eq_none.1 hfind field h)
  | some found =>
    have hname : found.name = field.name := by simpa using List.find?_some hfind
    rw [List.inj_on_of_nodup_map hnames (List.mem_of_find?_eq_some hfind) h hname]

/-- The members of an object are read one after the other. -/
theorem iterate_member {fields later : List (Field ρ)} {members : List (String × Tree)} {r r' : ρ}
    (hbuilt : ∀ field ∈ fields, Built field.decode)
    (hfind : ∀ field ∈ later, fields.find? (·.name == field.name) = some field)
    (hfills : Fills level later members r r') (hnames : (later.map Field.name).Nodup)
    (first : Bool) (seen : List String) (hfresh : ∀ field ∈ later, field.name ∉ seen)
    (hgaps : ∀ b ∈ gaps, isGap b = true) (hends : members ≠ [] → Ends (gaps ++ 0x7D :: rest))
    (hc : c.rest = membersText first level members ++ (gaps ++ 0x7D :: rest)) :
    ∃ c', iterate (member fields) ⟨first, seen, r⟩ c = .ok (r', c') ∧ c'.rest = rest := by
  induction hfills generalizing first seen c with
  | nil r =>
    obtain ⟨c', hmember, hr'⟩ := member_close fields ⟨first, seen, r⟩ hgaps hc
    exact ⟨c', iterate_done (progresses_member hbuilt) hmember, hr'⟩
  | skip _ ih =>
    exact ih (fun f hf => hfind f (List.mem_cons_of_mem _ hf)) (List.nodup_cons.1 hnames).2 first
      seen (fun f hf => hfresh f (List.mem_cons_of_mem _ hf)) hends hc
  | @take field later members r r' value change hreads _ ih =>
    rw [List.map_cons, List.nodup_cons] at hnames
    have hfresh' : ∀ f ∈ later, f.name ∉ field.name :: seen := by
      intro f hf hmem
      rcases List.mem_cons.1 hmem with hname | hmem
      · exact hnames.1 (hname ▸ List.mem_map_of_mem hf)
      · exact hfresh f (List.mem_cons_of_mem _ hf) hmem
    -- what stands behind the value: the later members, or the end of the object
    have hlater : Ends (membersText false level members ++ (gaps ++ 0x7D :: rest)) := by
      cases members with
      | nil => exact hends (List.cons_ne_nil _ _)
      | cons m members => exact ends_comma _
    simp only [membersText, List.append_assoc, List.cons_append] at hc
    obtain ⟨c₁, hmember, hr₁⟩ := member_field (hfind field List.mem_cons_self)
      (hfresh field List.mem_cons_self) hreads hlater hc
    obtain ⟨c', hrun, hr'⟩ := ih (fun f hf => hfind f (List.mem_cons_of_mem _ hf)) hnames.2 false
      (field.name :: seen) hfresh' (fun _ => hends (List.cons_ne_nil _ _)) hr₁
    refine ⟨c', ?_, hr'⟩
    rw [iterate_more (progresses_member hbuilt) hmember, hrun]

/-- An object stands between braces, of which the closing one has a line of its own behind
members. -/
theorem encode_object (level : Nat) (members : List (String × Tree)) : ∃ closing : List UInt8,
    (∀ b ∈ closing, isGap b = true) ∧
    (∀ rest, members ≠ [] → Ends (closing ++ 0x7D :: rest)) ∧
    Utf8.encode (Pretty.value level (.object members)) =
      0x7B :: (membersText true (level + 1) members ++ (closing ++ [0x7D])) := by
  cases members with
  | nil => exact ⟨[], List.forall_mem_nil _, fun _ hne => absurd rfl hne, rfl⟩
  | cons m members =>
    obtain ⟨key, value⟩ := m
    refine ⟨Utf8.encode (Pretty.line level), line_gaps level, fun _ _ => ends_line _ _, ?_⟩
    rw [Pretty.value]
    simp only [List.cons_append, encode_ascii (show ('\x7b').toNat < 0x80 by decide),
      encode_append, encode_colon, membersText, separator, if_true, List.nil_append,
      membersText_false, List.append_assoc]
    rfl

/-- A record is read from the members that it is written as. -/
theorem reads_record (name : String) {fields : List (Field ρ)} {members : List (String × Tree)}
    {r r' : ρ} (hbuilt : ∀ field ∈ fields, Built field.decode)
    (hnames : (fields.map Field.name).Nodup) (hfills : Fills (level + 1) fields members r r') :
    Reads (record name fields r) (Pretty.value level (.object members)) r' := by
  obtain ⟨closing, hgaps, hends, htext⟩ := encode_object level members
  refine .behind_lead htext (by decide) (by decide) rfl fun {c rest} hc _ => ?_
  rw [List.append_assoc, List.append_assoc] at hc
  exact iterate_member hbuilt (fun field hfield => find?_of_mem hnames hfield) hfills hnames true []
    (fun _ _ => List.not_mem_nil) hgaps (hends rest) hc

end Records

end BackupReport.Json
