import BackupReport.Proofs.Decoder.Transfer
import BackupReport.Proofs.Documents.Kinds
import BackupReport.Proofs.Grammar.Values

/-!
# What a decoder makes of a value

A value may stand behind any gap and before anything that stops it.  A decoder is `Steady` if none
of this matters: of each value it makes the same wherever the value stands (`Takes`), or it declines
the value everywhere (`Declines`).  Numbers, strings, lists and values that may be `null` are steady
by their form; so is whatever begins with a gap and shows its own end (`steady_of_closes`).
-/

namespace BackupReport.Json

open Decoder

variable {α β ρ : Type} {d : Decoder α} {w : List UInt8} {a a' : α}

/-! ## Judgements -/

/-- A decoder makes this of a value, wherever the value stands. -/
def Takes (d : Decoder α) (w : List UInt8) (a : α) : Prop :=
  ∀ ⦃c : Cursor⦄ ⦃g rest : List UInt8⦄, Gap g → Stops rest → c.rest = g ++ (w ++ rest) →
    ∃ c', d c = .ok (a, c') ∧ c'.rest = rest

/-- A decoder makes nothing of a value, wherever the value stands. -/
def Declines (d : Decoder α) (w : List UInt8) : Prop :=
  ∀ ⦃c : Cursor⦄ ⦃g rest : List UInt8⦄, Gap g → Stops rest → c.rest = g ++ (w ++ rest) →
    ∃ fault, d c = .error fault

/-- A decoder makes the same of a value wherever the value stands. -/
def Steady (d : Decoder α) : Prop := ∀ w, IsValue w → (∃ a, Takes d w a) ∨ Declines d w

theorem stops_comma (rest : List UInt8) : Stops (0x2C :: rest) := ⟨0x2C, rest, rfl, .inr (.inl rfl)⟩

/-- What a decoder takes, it takes before a comma. -/
theorem Takes.before_comma (h : Takes d w a) : ∃ c', d (.ofText (w ++ [0x2C])) = .ok (a, c') := by
  obtain ⟨c', hrun, -⟩ :=
    h (c := .ofText (w ++ [0x2C])) (List.forall_mem_nil _) (stops_comma []) rfl
  exact ⟨c', hrun⟩

/-- A decoder makes one thing of a value at most. -/
theorem Takes.unique (h : Takes d w a) (h' : Takes d w a') : a = a' := by
  obtain ⟨c₁, hrun⟩ := h.before_comma
  obtain ⟨c₂, hrun'⟩ := h'.before_comma
  rw [hrun] at hrun'
  cases hrun'
  rfl

/-- What is taken is not declined. -/
theorem Takes.not_declines (h : Takes d w a) : ¬ Declines d w := by
  intro h'
  obtain ⟨c', hrun⟩ := h.before_comma
  obtain ⟨fault, hfault⟩ :=
    h' (c := .ofText (w ++ [0x2C])) (List.forall_mem_nil _) (stops_comma []) rfl
  rw [hrun] at hfault
  cases hfault

/-- What a steady decoder makes of a value at one place it makes of it everywhere. -/
theorem Steady.takes_of_ok (hd : Steady d) (hw : IsValue w) {c c' : Cursor} {g rest : List UInt8}
    (hg : Gap g) (hstops : Stops rest) (h : c.rest = g ++ (w ++ rest)) (hrun : d c = .ok (a, c')) :
    Takes d w a ∧ c'.rest = rest := by
  rcases hd w hw with ⟨a', htakes⟩ | hdeclines
  · obtain ⟨c₁, hrun₁, hr₁⟩ := htakes hg hstops h
    rw [hrun] at hrun₁
    cases hrun₁
    exact ⟨htakes, hr₁⟩
  · obtain ⟨fault, hfault⟩ := hdeclines hg hstops h
    rw [hrun] at hfault
    cases hfault

theorem Takes.map (h : Takes d w a) (f : α → β) : Takes (f <$> d) w (f a) := by
  intro c g rest hg hstops hc
  obtain ⟨c', hrun, hr⟩ := h hg hstops hc
  exact ⟨c', map_of_ok hrun, hr⟩

theorem Declines.map (h : Declines d w) (f : α → β) : Declines (f <$> d) w := by
  intro c g rest hg hstops hc
  obtain ⟨fault, hrun⟩ := h hg hstops hc
  refine ⟨fault, ?_⟩
  rw [← bind_pure_comp]
  exact bind_of_error hrun

theorem Steady.map (hd : Steady d) (f : α → β) : Steady (f <$> d) := by
  intro w hw
  rcases hd w hw with ⟨a, htakes⟩ | hdeclines
  · exact .inl ⟨f a, htakes.map f⟩
  · exact .inr (hdeclines.map f)

/-- Two runs of a decoder that come to the same: both read the same value and leave the same bytes,
or both are refused. -/
def Alike (d : Decoder α) (c c' : Cursor) : Prop :=
  (∃ a c₁ c₁', d c = .ok (a, c₁) ∧ d c' = .ok (a, c₁') ∧ c₁.rest = c₁'.rest) ∨
    (∀ r, d c ≠ .ok r) ∧ ∀ r, d c' ≠ .ok r

/-- Two runs come to the same if they read the same values, up to the same bytes. -/
theorem alike_of_exact (P : α → Prop) (rest : List UInt8) {c c' : Cursor}
    (hreads : ∀ a, P a → ∃ c₁, d c = .ok (a, c₁) ∧ c₁.rest = rest)
    (hreads' : ∀ a, P a → ∃ c₁, d c' = .ok (a, c₁) ∧ c₁.rest = rest)
    (honly : ∀ a c₁, d c = .ok (a, c₁) → P a) (honly' : ∀ a c₁, d c' = .ok (a, c₁) → P a) :
    Alike d c c' := by
  by_cases hsome : ∃ a, P a
  · obtain ⟨a, ha⟩ := hsome
    obtain ⟨c₁, hrun, hr⟩ := hreads a ha
    obtain ⟨c₁', hrun', hr'⟩ := hreads' a ha
    exact .inl ⟨a, c₁, c₁', hrun, hrun', hr.trans hr'.symm⟩
  · exact .inr ⟨fun r hrun => hsome ⟨r.1, honly r.1 r.2 hrun⟩,
      fun r hrun => hsome ⟨r.1, honly' r.1 r.2 hrun⟩⟩

/-! ## Values by their first byte -/

/-- A decoder that is refused by the first byte of a value declines it. -/
theorem declines_of_lead {decode : Lead → Decoder α} {b : UInt8} {inner : List UInt8}
    (hb : Lead.of b ≠ .other) (h : Refuses (decode (Lead.of b))) :
    Declines (onLead decode) (b :: inner) := by
  intro c g rest hg _ hc
  obtain ⟨c', -, hlead⟩ := onLead_eq hg hc hb
  rw [hlead]
  cases hrun : decode (Lead.of b) c' with
  | error fault => exact ⟨fault, rfl⟩
  | ok r => exact absurd hrun (h c' r.1 r.2)

theorem declines_of_written {decode : Lead → Decoder α} {m : Numeral} (hm : m.Written w)
    (hminus : Refuses (decode .minus)) (hdigit : Refuses (decode .digit)) :
    Declines (onLead decode) w := by
  obtain ⟨b, inner, rfl, hb⟩ := hm.lead
  rcases hb with hb | hb
  · exact declines_of_lead (by simp [hb]) (hb ▸ hminus)
  · exact declines_of_lead (by simp [hb]) (hb ▸ hdigit)

/-- A value is `null`, or it shows by its first byte that it is not. -/
theorem IsValue.null_or (hw : IsValue w) : w = 0x6E :: restOfNull ∨
    ∃ b inner, w = b :: inner ∧ Lead.of b ≠ .null ∧ Lead.of b ≠ .other := by
  cases hw with
  | null => exact .inl rfl
  | number hm =>
    obtain ⟨b, inner, rfl, hb⟩ := hm.lead
    exact .inr ⟨b, inner, rfl, ne_of_lead_number hb⟩
  | _ => exact .inr ⟨_, _, rfl, by decide, by decide⟩

/-! ## Scalars -/

/-- A number is read as what is made of its value, or it is refused: it has no value, or one that is
not accepted. -/
theorem number_cases (wanted : Wanted) (accept : Number → Except Cause α) {m : Numeral}
    (hm : m.Written w) {c : Cursor} {g rest : List UInt8} (hg : Gap g) (hstops : Stops rest)
    (h : c.rest = g ++ (w ++ rest)) :
    (∃ x ∈ m.value?, ∃ a c', accept x = .ok a ∧ number wanted accept c = .ok (a, c') ∧
      c'.rest = rest) ∨
    (∀ x ∈ m.value?, ∀ a, accept x ≠ .ok a) ∧ ∃ fault, number wanted accept c = .error fault := by
  obtain ⟨b, inner, rfl, hb⟩ := hm.lead
  obtain ⟨c₁, hr₁, hlead⟩ := onLead_eq hg h (ne_of_lead_number hb).2
  unfold number
  rw [hlead]
  obtain ⟨x, c', hx, hrun, hr'⟩ | ⟨hnone, fault, hrun⟩ := Number.decode_cases hm hstops hr₁
  · cases ha : accept x with
    | ok a =>
      refine .inl ⟨x, hx, a, c', ha, ?_, hr'⟩
      rcases hb with hb | hb <;>
        · simp only [hb]
          rw [bind_of_ok hrun]
          simp only [ha]
          rfl
    | error cause =>
      refine .inr ⟨?_, .refused cause c'.taken, ?_⟩
      · intro y hy a
        rw [Option.mem_unique hy hx, ha]
        nofun
      · rcases hb with hb | hb <;>
          · simp only [hb]
            rw [bind_of_ok hrun]
            simp only [ha]
            rfl
  · refine .inr ⟨?_, fault, ?_⟩
    · rw [hnone]
      nofun
    · rcases hb with hb | hb <;>
        · simp only [hb]
          exact bind_of_error hrun

/-- A number is taken if it has a value and this value is accepted. -/
theorem takes_number (wanted : Wanted) {accept : Number → Except Cause α} {m : Numeral}
    (hm : m.Written w) {x : Number} (hx : m.value? = some x) (ha : accept x = .ok a) :
    Takes (number wanted accept) w a := by
  intro c g rest hg hstops hc
  obtain ⟨y, hy, a', c', ha', hrun, hr'⟩ | ⟨hnone, -⟩ := number_cases wanted accept hm hg hstops hc
  · rw [Option.mem_unique hy hx, ha] at ha'
    cases ha'
    exact ⟨c', hrun, hr'⟩
  · exact absurd ha (hnone x hx a)

/-- A number is declined if it has no value, or a value that is not accepted. -/
theorem declines_number (wanted : Wanted) {accept : Number → Except Cause α} {m : Numeral}
    (hm : m.Written w) (hx : ∀ x ∈ m.value?, ∀ a, accept x ≠ .ok a) :
    Declines (number wanted accept) w := by
  intro c g rest hg hstops hc
  obtain ⟨x, hvalue, a, c', ha, -⟩ | ⟨-, hfault⟩ := number_cases wanted accept hm hg hstops hc
  · exact absurd ha (hx x hvalue a)
  · exact hfault

theorem steady_number (wanted : Wanted) (accept : Number → Except Cause α) :
    Steady (number wanted accept) := by
  intro w hw
  cases hw with
  | @number m _ hm =>
    by_cases haccepted : ∃ x ∈ m.value?, ∃ a, accept x = .ok a
    · obtain ⟨x, hx, a, ha⟩ := haccepted
      exact .inl ⟨a, takes_number wanted hm hx ha⟩
    · push Not at haccepted
      exact .inr (declines_number wanted hm haccepted)
  | _ => exact .inr (declines_of_lead (by decide) (refuses_refuseValue _))

/-- A string is read behind its opening quote. -/
theorem string_eq {c : Cursor} {g text rest : List UInt8} (hg : Gap g)
    (h : c.rest = g ++ (0x22 :: (text ++ [0x22]) ++ rest)) :
    ∃ c₁, c₁.rest = text ++ 0x22 :: rest ∧ Json.string c = Text.decode c₁ := by
  have h' : c.rest = g ++ 0x22 :: (text ++ 0x22 :: rest) := by
    rw [h]
    simp
  obtain ⟨c₁, hr₁, hlead⟩ := onLead_eq hg h' (by decide)
  refine ⟨c₁.pass [0x22] (text ++ 0x22 :: rest), rfl, ?_⟩
  unfold Json.string
  rw [hlead]
  exact bind_of_ok (eat_cons hr₁)

/-- A string is taken as the text that it spells. -/
theorem takes_string {text : List UInt8} {s : String} (h : Text.Spells text s) :
    Takes Json.string (0x22 :: (text ++ [0x22])) s := by
  intro c g rest hg _ hc
  obtain ⟨c₁, hr₁, heq⟩ := string_eq hg hc
  rw [heq]
  exact Text.decode_ok h hr₁

theorem steady_string : Steady Json.string := by
  intro w hw
  cases hw with
  | number hm =>
    exact .inr (declines_of_written hm (refuses_refuseValue _) (refuses_refuseValue _))
  | @string text htext =>
    by_cases hspells : ∃ s, Text.Spells text s
    · obtain ⟨s, hspells⟩ := hspells
      exact .inl ⟨s, takes_string hspells⟩
    · refine .inr ?_
      intro c g rest hg _ hc
      obtain ⟨c₁, hr₁, heq⟩ := string_eq hg hc
      rw [heq]
      cases hrun : Text.decode c₁ with
      | error fault => exact ⟨fault, rfl⟩
      | ok r => exact absurd ⟨r.1, (Text.spells_of_decode htext hr₁ hrun).1⟩ hspells
  | _ => exact .inr (declines_of_lead (by decide) (refuses_refuseValue _))

theorem takes_skipValue (hw : IsValue w) : Takes skipValue w () := by
  intro c g rest hg hstops hc
  obtain ⟨c', hwalks, hr'⟩ := hw.passed [] hg hstops hc
  exact ⟨c', Skip.skipValue_of_walks hwalks, hr'⟩

/-! ## Values that may be null -/

/-- The value `null` is none where a value may be missing. -/
theorem takes_null (d : Decoder α) : Takes (optional d) (0x6E :: restOfNull) none := by
  intro c g rest hg _ hc
  obtain ⟨c₁, hgap, hr₁⟩ := gap_lead (by decide) hg hc
  obtain ⟨c', hword, hr'⟩ := word_run restOfNull (c := c₁.pass [0x6E] (restOfNull ++ rest)) rfl
  refine ⟨c', ?_, hr'⟩
  unfold optional
  rw [bind_of_ok hgap, if_pos (by decide), bind_of_ok (eat_cons hr₁), bind_of_ok hword]
  rfl

/-- A value that is not `null` is judged as itself where it may be missing. -/
theorem optional_eq {b : UInt8} {inner : List UInt8} (hnull : Lead.of b ≠ .null)
    (hother : Lead.of b ≠ .other) {c : Cursor} {g rest : List UInt8} (hg : Gap g)
    (h : c.rest = g ++ (b :: inner ++ rest)) :
    ∃ c₁, c₁.rest = [] ++ (b :: inner ++ rest) ∧ optional d c = (some <$> d) c₁ := by
  obtain ⟨c₁, hgap, hr₁⟩ := gap_lead hother hg h
  refine ⟨c₁, hr₁, ?_⟩
  unfold optional
  rw [bind_of_ok hgap, if_neg (by simpa using hnull)]

theorem Takes.optional {b : UInt8} {inner : List UInt8} (hnull : Lead.of b ≠ .null)
    (hother : Lead.of b ≠ .other) (h : Takes d (b :: inner) a) :
    Takes (optional d) (b :: inner) (some a) := by
  intro c g rest hg hstops hc
  obtain ⟨c₁, hr₁, heq⟩ := optional_eq hnull hother hg hc
  rw [heq]
  exact h.map some (List.forall_mem_nil _) hstops hr₁

theorem Declines.optional {b : UInt8} {inner : List UInt8} (hnull : Lead.of b ≠ .null)
    (hother : Lead.of b ≠ .other) (h : Declines d (b :: inner)) :
    Declines (optional d) (b :: inner) := by
  intro c g rest hg hstops hc
  obtain ⟨c₁, hr₁, heq⟩ := optional_eq hnull hother hg hc
  rw [heq]
  exact h.map some (List.forall_mem_nil _) hstops hr₁

theorem Steady.optional (hd : Steady d) : Steady (optional d) := by
  intro w hw
  rcases hw.null_or with rfl | ⟨b, inner, rfl, hnull, hother⟩
  · exact .inl ⟨none, takes_null d⟩
  · rcases hd _ hw with ⟨a, htakes⟩ | hdeclines
    · exact .inl ⟨some a, htakes.optional hnull hother⟩
    · exact .inr (hdeclines.optional hnull hother)

theorem Steady.nullAsDefault [Inhabited α] (hd : Steady d) : Steady (nullAsDefault d) :=
  hd.optional.map _

/-- The value `null` stands for the default. -/
theorem takes_null_default [Inhabited α] (d : Decoder α) :
    Takes (nullAsDefault d) (0x6E :: restOfNull) default := (takes_null d).map _

/-! ## Values that show their own end -/

/-- What begins with a gap begins anew behind it. -/
theorem onLead_gap {decode : Lead → Decoder α} {c c₁ : Cursor} {r : Option UInt8}
    (h : gap c = .ok (r, c₁)) : onLead decode c = onLead decode c₁ := by
  unfold onLead
  rw [bind_of_ok h, bind_of_ok (gap_again h)]

/-- What shows its own end is taken at one place as at any other: there the bytes behind it may be
taken away, and here others put in their place. -/
theorem steady_of_closes (hbuilt : Built d) (hspanned : Spanned d) (hcloses : Closes d)
    (hgap : ∀ {c c₁ : Cursor} {r : Option UInt8}, gap c = .ok (r, c₁) → d c = d c₁) :
    Steady d := by
  intro w hw
  obtain ⟨b, inner, rfl, hb⟩ := hw.lead
  by_cases htaken : ∃ (c c' : Cursor) (g rest : List UInt8) (a : α), Gap g ∧ Stops rest ∧
      c.rest = g ++ (b :: inner ++ rest) ∧ d c = .ok (a, c')
  · obtain ⟨c, c', g, rest, a, hg, hstops, h, hrun⟩ := htaken
    have hend : c'.rest = rest := hw.end_eq hspanned hg hstops h hrun
    obtain ⟨c₁, hgap₁, hr₁⟩ := gap_lead hb hg h
    rw [hgap hgap₁] at hrun
    -- the value alone, with nothing behind it
    obtain ⟨alone, halone, hc₁⟩ : ∃ alone : Cursor, alone.rest = b :: inner ∧
        c₁ = alone.extend rest c₁.ending := by
      refine ⟨{ c₁ with rest := b :: inner }, rfl, ?_⟩
      rw [Cursor.extend, List.cons_append, ← hr₁]
    rw [hc₁] at hrun
    obtain ⟨last, hlast, hc'⟩ := hcloses.restrict_ok hrun (hend ▸ Nat.le_refl _)
    have hnil : last.rest = [] := by
      rw [hc'] at hend
      exact List.append_left_eq_self.1 hend
    refine .inl ⟨a, ?_⟩
    intro c₂ g₂ rest₂ hg₂ _ h₂
    obtain ⟨c₃, hgap₃, hr₃⟩ := gap_lead hb hg₂ h₂
    have hextended := hcloses.extend_ok hlast rest₂ c₃.ending
    have hr₃' : c₃.rest = (alone.extend rest₂ c₃.ending).rest := by
      rw [hr₃, Cursor.extend_rest, halone, List.cons_append]
    obtain ⟨c₄, hrun₄, hr₄⟩ := hbuilt.transfer_ok hextended hr₃' rfl
    refine ⟨c₄, by rw [hgap hgap₃, hrun₄], ?_⟩
    rw [hr₄, Cursor.extend_rest, hnil, List.nil_append]
  · refine .inr ?_
    intro c g rest hg hstops h
    cases hrun : d c with
    | error fault => exact ⟨fault, rfl⟩
    | ok r => exact absurd ⟨c, r.2, g, rest, r.1, hg, hstops, h, hrun⟩ htaken

theorem steady_list (hd : Value d) (hconsumes : Consumes d) : Steady (list d) :=
  have hkind := kind_list hd hconsumes
  steady_of_closes hkind.built hkind.spanned hkind.closes onLead_gap

theorem steady_record (name : String) {fields : List (Field ρ)}
    (h : ∀ field ∈ fields, Value field.decode) (r : ρ) : Steady (record name fields r) :=
  have hkind := kind_record name h r
  steady_of_closes hkind.built hkind.spanned hkind.closes onLead_gap

/-! ## Lists -/

/-- Where the closing bracket is next, no entry is read. -/
theorem entry_close (sofar : List α) {c : Cursor} {g rest : List UInt8} (hg : Gap g)
    (h : c.rest = g ++ 0x5D :: rest) :
    ∃ c', entry d sofar c = .ok (.done sofar.reverse, c') ∧ c'.rest = rest := by
  obtain ⟨c₁, hnext, hr₁⟩ := nextEntry_close sofar.isEmpty hg h
  refine ⟨c₁.pass [0x5D] rest, ?_, rfl⟩
  unfold entry
  rw [bind_of_ok hnext, if_neg Bool.false_ne_true, bind_of_ok (eat_cons hr₁)]
  rfl

/-- Where another entry is next, it is read behind what stands before it. -/
theorem entry_more {sofar : List α} {c : Cursor} {sep e rest : List UInt8}
    (hsep : Separator sofar.isEmpty sep) (he : IsValue e) (h : c.rest = sep ++ (e ++ rest)) :
    ∃ c₁, c₁.rest = [] ++ (e ++ rest) ∧ entry d sofar c = (do
      let a ← d
      pure (.more (a :: sofar)) : Decoder (Step (List α) (List α))) c₁ := by
  obtain ⟨b, inner, rfl, hb⟩ := he.lead
  obtain ⟨c₁, hnext, hr₁⟩ := nextEntry_more hsep hb h
  refine ⟨c₁, hr₁, ?_⟩
  unfold entry
  rw [bind_of_ok hnext, if_pos rfl]

/-- The entries of a list are taken one after the other. -/
theorem entries_ok (hconsumes : Consumes d) {first : Bool} {es : List (List UInt8)}
    {text rest : List UInt8} {as sofar : List α} (hseries : Series Eq 0x5D first es text)
    (hvalues : ∀ e ∈ es, IsValue e) (htakes : List.Forall₂ (Takes d) es as)
    (hfirst : first = sofar.isEmpty) {c : Cursor} (h : c.rest = text ++ rest) :
    ∃ c', iterate (entry d) sofar c = .ok (sofar.reverse ++ as, c') ∧ c'.rest = rest := by
  induction hseries generalizing as sofar c with
  | close hg =>
    cases htakes
    rw [List.append_assoc] at h
    obtain ⟨c', hentry, hr'⟩ := entry_close (d := d) sofar hg h
    rw [iterate_done (progresses_entry hconsumes) hentry, List.append_nil]
    exact ⟨c', rfl, hr'⟩
  | @entry first e es sep _ later hsep heq hlater ih =>
    subst heq hfirst
    obtain ⟨he, hes⟩ := List.forall_mem_cons.1 hvalues
    cases htakes with
    | @cons _ a _ as ha htakes =>
      rw [List.append_assoc, List.append_assoc] at h
      obtain ⟨c₁, hr₁, hentry⟩ := entry_more (d := d) hsep he h
      obtain ⟨c₂, hrun, hr₂⟩ := ha (List.forall_mem_nil _) (hlater.stops (.inl rfl) rest) hr₁
      rw [bind_of_ok hrun] at hentry
      obtain ⟨c', hlast, hr'⟩ := ih hes htakes (show false = (a :: sofar).isEmpty from rfl) hr₂
      refine ⟨c', ?_, hr'⟩
      rw [iterate_more (progresses_entry hconsumes) hentry, hlast, List.reverse_cons,
        List.append_assoc]
      rfl

/-- Where the entries of a list are read, each of them is taken. -/
theorem entries_takes (hconsumes : Consumes d) (hsteady : Steady d) {first : Bool}
    {es : List (List UInt8)} {text rest : List UInt8} {as sofar : List α}
    (hseries : Series Eq 0x5D first es text) (hvalues : ∀ e ∈ es, IsValue e)
    (hfirst : first = sofar.isEmpty) {c c' : Cursor} (h : c.rest = text ++ rest)
    (hrun : iterate (entry d) sofar c = .ok (as, c')) :
    ∃ later, List.Forall₂ (Takes d) es later ∧ as = sofar.reverse ++ later := by
  induction hseries generalizing sofar c with
  | close hg =>
    rw [List.append_assoc] at h
    obtain ⟨c₁, hentry, -⟩ := entry_close (d := d) sofar hg h
    rw [iterate_done (progresses_entry hconsumes) hentry] at hrun
    cases hrun
    exact ⟨[], .nil, (List.append_nil _).symm⟩
  | @entry first e es sep _ later hsep heq hlater ih =>
    subst heq hfirst
    obtain ⟨he, hes⟩ := List.forall_mem_cons.1 hvalues
    rw [List.append_assoc, List.append_assoc] at h
    obtain ⟨c₁, hr₁, hentry⟩ := entry_more (d := d) hsep he h
    rcases iterate_ok (progresses_entry hconsumes) hrun with hdone | ⟨sofar', c₂, hmore, hrun⟩
    · rw [hentry] at hdone
      obtain ⟨a, c₂, -, hdone⟩ := bind_ok hdone
      cases (pure_ok hdone).1
    · rw [hentry] at hmore
      obtain ⟨a, c₃, ha, hmore⟩ := bind_ok hmore
      obtain ⟨hsofar, rfl⟩ := pure_ok hmore
      cases hsofar
      obtain ⟨htakes, hr₂⟩ := hsteady.takes_of_ok he (List.forall_mem_nil _)
        (hlater.stops (.inl rfl) rest) hr₁ ha
      obtain ⟨as', htail, rfl⟩ := ih hes (show false = (a :: sofar).isEmpty from rfl) hr₂ hrun
      refine ⟨a :: as', .cons htakes htail, ?_⟩
      simp

/-- A list is read behind its opening bracket. -/
theorem list_eq {c : Cursor} {g text rest : List UInt8} (hg : Gap g)
    (h : c.rest = g ++ (0x5B :: text ++ rest)) :
    ∃ c₁, c₁.rest = text ++ rest ∧ list d c = entries d c₁ := by
  obtain ⟨c₁, hr₁, hlead⟩ := onLead_eq hg h (by decide)
  refine ⟨c₁.pass [0x5B] (text ++ rest), rfl, ?_⟩
  unfold list
  rw [hlead]
  exact bind_of_ok (eat_cons hr₁)

/-- A list is read if each of its entries is taken. -/
theorem list_ok (hconsumes : Consumes d) {es : List (List UInt8)} {g text rest : List UInt8}
    {as : List α} (hseries : Series Eq 0x5D true es text) (hvalues : ∀ e ∈ es, IsValue e)
    (htakes : List.Forall₂ (Takes d) es as) (hg : Gap g) {c : Cursor}
    (h : c.rest = g ++ (0x5B :: text ++ rest)) :
    ∃ c', list d c = .ok (as, c') ∧ c'.rest = rest := by
  obtain ⟨c₁, hr₁, heq⟩ := list_eq hg h
  rw [heq]
  exact entries_ok hconsumes hseries hvalues htakes (show true = ([] : List α).isEmpty from rfl) hr₁

/-- Where a list is read, each of its entries is taken. -/
theorem list_takes (hconsumes : Consumes d) (hsteady : Steady d) {es : List (List UInt8)}
    {g text rest : List UInt8} {as : List α} (hseries : Series Eq 0x5D true es text)
    (hvalues : ∀ e ∈ es, IsValue e) (hg : Gap g) {c c' : Cursor}
    (h : c.rest = g ++ (0x5B :: text ++ rest)) (hrun : list d c = .ok (as, c')) :
    List.Forall₂ (Takes d) es as := by
  obtain ⟨c₁, hr₁, heq⟩ := list_eq (d := d) hg h
  rw [heq] at hrun
  obtain ⟨later, htakes, rfl⟩ :=
    entries_takes hconsumes hsteady hseries hvalues (show true = ([] : List α).isEmpty from rfl)
      hr₁ hrun
  exact htakes

end BackupReport.Json
