import BackupReport.Proofs.Decoder.Extension
import BackupReport.Proofs.Decoder.Targets

/-!
# Values that show their own end

A record ends with the byte that closes it.  Once that byte has been taken nothing behind it can
change what was read: neither more bytes (`Closes.extend_ok`) nor fewer (`Closes.restrict_ok`) nor
another ending make a difference (`closes_record`).  A number has no such byte, and reads on for as
long as digits follow.
-/

namespace BackupReport.Json.Decoder

variable {α β ρ σ : Type}

/-! ## Up to the last byte -/

/-- A comparison that lasts while more than `kept` bytes are left over, and over the step that
leaves no more than these. -/
structure Lasting extends Simulation where
  kept : Nat
  lasts : ∀ {c : Cursor}, spent c → c.rest.length ≤ kept
  eat : ∀ {c c' : Cursor} {b : UInt8} {rest : List UInt8}, near c c' → c.rest = b :: rest →
    kept ≤ rest.length → ∃ rest', c'.rest = b :: rest' ∧ near (c.pass [b] rest) (c'.pass [b] rest')

/-- A success is the same in every other run for as long as the comparison of the two lasts, the
last byte included. -/
def Closes (d : Decoder α) : Prop :=
  ∀ (L : Lasting) (c c' : Cursor), L.near c c' → ∀ a c₁, d c = .ok (a, c₁) →
    L.kept ≤ c₁.rest.length → ∃ c₁', d c' = .ok (a, c₁') ∧ L.near c₁ c₁'

namespace Lasting

variable (L : Lasting)

/-- Every success that leaves bytes over is the same in the other run. -/
theorem open_ok {d : Decoder α} (hd : Built d) {c c' c₁ : Cursor} {a : α} (hnear : L.near c c')
    (h : d c = .ok (a, c₁)) (hopen : L.kept < c₁.rest.length) :
    ∃ c₁', d c' = .ok (a, c₁') ∧ L.near c₁ c₁' := by
  have hagrees := L.holds hd c c' hnear
  rw [h] at hagrees
  rcases hagrees with hspent | hsame
  · exact absurd hopen (Nat.not_lt.2 (L.lasts hspent))
  · exact hsame

/-- The step that takes the closing byte is the same in the other run. -/
theorem eat_ok {c c' : Cursor} {b : UInt8} {rest : List UInt8} (hnear : L.near c c')
    (hr : c.rest = b :: rest) (hkept : L.kept ≤ rest.length) :
    ∃ c₁', Decoder.eat c' = .ok ((), c₁') ∧ L.near (c.pass [b] rest) c₁' := by
  obtain ⟨rest', hr', hnear'⟩ := L.eat hnear hr hkept
  exact ⟨_, eat_cons hr', hnear'⟩

end Lasting

/-! ## More bytes and fewer -/

/-- More bytes behind a text. -/
def lastingExtension (start e : Ending) (more : List UInt8) : Lasting where
  toSimulation := extension start e more
  kept := 0
  lasts h := by rw [h.2]; exact Nat.le_refl 0
  eat := by
    rintro c c' b rest ⟨he, rfl⟩ hr -
    exact ⟨rest ++ more, by simp [hr], he, rfl⟩

/-- Fewer bytes behind a text. -/
def lastingRestriction (cut : List UInt8) (e : Ending) : Lasting where
  toSimulation := restriction cut e
  kept := cut.length
  lasts h := h
  eat := by
    rintro _ c b rest rfl hr hkept
    cases hc : c.rest with
    | nil =>
      simp only [Cursor.extend_rest, hc, List.nil_append] at hr
      rw [hr, List.length_cons] at hkept
      exact absurd hkept (Nat.not_succ_le_self _)
    | cons b' rest' =>
      simp only [Cursor.extend_rest, hc, List.cons_append] at hr
      obtain ⟨rfl, rfl⟩ := List.cons.inj hr
      exact ⟨rest', rfl, Cursor.extend_pass [b'] rest'⟩

/-- More bytes behind a value that has been read do not change it. -/
theorem Closes.extend_ok {d : Decoder α} (hd : Closes d) {c c' : Cursor} {a : α}
    (h : d c = .ok (a, c')) (more : List UInt8) (e : Ending) :
    d (c.extend more e) = .ok (a, c'.extend more e) := by
  obtain ⟨c₁, hc₁, -, rfl⟩ :=
    hd (lastingExtension c.ending e more) c _ ⟨rfl, rfl⟩ a c' h (Nat.zero_le _)
  exact hc₁

/-- Bytes behind a value that has been read may be missing. -/
theorem Closes.restrict_ok {d : Decoder α} (hd : Closes d) {c c' : Cursor} {a : α}
    {cut : List UInt8} {e : Ending} (h : d (c.extend cut e) = .ok (a, c'))
    (hcut : cut.length ≤ c'.rest.length) :
    ∃ c₁, d c = .ok (a, c₁) ∧ c' = c₁.extend cut e :=
  hd (lastingRestriction cut e) _ c rfl a c' h hcut

/-! ## Repetition -/

/-- The last step of an object or a list: it takes the closing byte where no member or entry
follows, and stops there only. -/
theorem closes_last {next : Decoder Bool} {k : Decoder (Step σ α)} {last : α} (hn : Built next)
    (hfalse : ∀ c c', next c = .ok (false, c') → ∃ b rest, c'.rest = b :: rest)
    (hk : ∀ c c' a, k c ≠ .ok (.done a, c')) {c c₂ : Cursor} {a : α}
    (h : (next >>= fun another => if another then k else (eat >>= fun _ => pure (.done last))) c =
      .ok (.done a, c₂)) :
    c₂.rest.length < c.rest.length ∧
      ∀ (L : Lasting) (c' : Cursor), L.near c c' → L.kept ≤ c₂.rest.length →
        ∃ c₂', (next >>= fun another =>
          if another then k else (eat >>= fun _ => pure (.done last))) c' = .ok (.done a, c₂') ∧
          L.near c₂ c₂' := by
  obtain ⟨another, c₁, hn₁, h⟩ := bind_ok h
  cases another with
  | true => exact absurd h (hk c₁ c₂ a)
  | false =>
    obtain ⟨b, rest, hrest⟩ := hfalse c c₁ hn₁
    simp only [Bool.false_eq_true, if_false] at h
    rw [bind_of_ok (eat_cons hrest)] at h
    obtain ⟨hlast, rfl⟩ := pure_ok h
    cases hlast
    have hlt : rest.length < c₁.rest.length := by
      rw [hrest, List.length_cons]
      exact Nat.lt_succ_self _
    refine ⟨Nat.lt_of_lt_of_le hlt (hn.length_le hn₁), fun L c' hnear hkept => ?_⟩
    obtain ⟨c₁', hn₁', hnear₁⟩ := L.open_ok hn hnear hn₁ (Nat.lt_of_le_of_lt hkept hlt)
    obtain ⟨c₂', he', hnear₂⟩ := L.eat_ok hnear₁ hrest hkept
    rw [bind_of_ok hn₁']
    simp only [Bool.false_eq_true, if_false]
    rw [bind_of_ok he']
    exact ⟨c₂', rfl, hnear₂⟩

/-- A repetition closes if its last round does: every other round is followed by one that needs a
byte, and so leaves some. -/
theorem closes_iterate {step : σ → Decoder (Step σ α)} (hstep : Progresses step)
    (hb : ∀ s, Built (step s))
    (hdone : ∀ s c a c₁, step s c = .ok (.done a, c₁) → c₁.rest.length < c.rest.length ∧
      ∀ (L : Lasting) (c' : Cursor), L.near c c' → L.kept ≤ c₁.rest.length →
        ∃ c₁', step s c' = .ok (.done a, c₁') ∧ L.near c₁ c₁') (s : σ) :
    Closes (iterate step s) := by
  have hlt : ∀ s c a c₂, iterate step s c = .ok (a, c₂) → c₂.rest.length < c.rest.length := by
    intro s c a c₂
    induction s, c using iterate_induction hstep with
    | _ s c ih =>
      intro h
      rcases iterate_ok hstep h with hlast | ⟨s', c₁, hmore, h⟩
      · exact (hdone s c a c₂ hlast).1
      · exact Nat.lt_trans (ih s' c₁ hmore h) (hstep s c s' c₁ hmore)
  intro L c
  induction s, c using iterate_induction hstep with
  | _ s c ih =>
    intro c' hnear a c₂ h hkept
    rw [iterate_eq hstep]
    rcases iterate_ok hstep h with hlast | ⟨s', c₁, hmore, h⟩
    · obtain ⟨c₂', hlast', hnear₂⟩ := (hdone s c a c₂ hlast).2 L c' hnear hkept
      rw [bind_of_ok hlast']
      exact ⟨c₂', rfl, hnear₂⟩
    · obtain ⟨c₁', hmore', hnear₁⟩ :=
        L.open_ok (hb s) hnear hmore (Nat.lt_of_le_of_lt hkept (hlt s' c₁ a c₂ h))
      rw [bind_of_ok hmore']
      exact ih s' c₁ hmore c₁' hnear₁ a c₂ h hkept

/-! ## Lists -/

theorem closes_entries {decode : Decoder α} (h : Built decode) (h' : Consumes decode) :
    Closes (entries decode) := by
  refine closes_iterate (progresses_entry h') (built_entry h) (fun sofar c as c' hdone => ?_) _
  refine closes_last (built_nextEntry _) (fun c c' hn => ⟨0x5D, nextEntry_false hn⟩)
    (fun c c' as hok => ?_) hdone
  obtain ⟨a, c₁, -, hok⟩ := bind_ok hok
  cases (pure_ok hok).1

/-! ## Records -/

section Records

variable {fields : List (Field ρ)}

/-- Behind a key comes another round, or a refusal. -/
theorem behindKey_ne_done (p : Progress ρ) {c c' : Cursor} {r : ρ} :
    (Text.decode >>= behindKey fields p) c ≠ .ok (.done r, c') := by
  intro h
  obtain ⟨key, c₁, -, h⟩ := bind_ok h
  unfold behindKey at h
  cases hf : fields.find? (·.name == key) with
  | none =>
    simp only [hf] at h
    obtain ⟨_, c₂, -, h⟩ := bind_ok h
    obtain ⟨_, c₃, -, h⟩ := bind_ok h
    cases (pure_ok h).1
  | some field =>
    simp only [hf] at h
    split at h
    · exact refuses_refuseRepeated key c₁ _ c' h
    · obtain ⟨_, c₂, -, h⟩ := bind_ok h
      obtain ⟨change, c₃, -, h⟩ := bind_ok h
      cases (pure_ok h).1

theorem closes_byName (h : ∀ field ∈ fields, Built field.decode) (r : ρ) :
    Closes (byName fields r) := by
  refine closes_iterate (progresses_member h) (built_member h) (fun p c r' c' hdone => ?_) _
  exact closes_last (built_nextMember p.first)
    (fun c c' hn => ⟨0x7D, nextMember_ok hn⟩) (fun c c' r => behindKey_ne_done p) hdone

theorem closes_closeList : Closes closeList := by
  intro L c c' hnear u c₂ h hkept
  obtain ⟨r, c₁, hg, h⟩ := bind_ok h
  cases r with
  | none => cases h
  | some b =>
    obtain ⟨rest, hrest⟩ := announces_gap c b c₁ hg
    dsimp only at h
    split at h
    · rename_i hb
      rw [eat_cons hrest] at h
      cases h
      obtain ⟨c₁', hg', hnear₁⟩ := L.open_ok built_gap hnear hg
        (by rw [hrest]; exact Nat.lt_succ_of_le hkept)
      simp only [closeList]
      rw [bind_of_ok hg']
      dsimp only
      rw [if_pos hb]
      exact L.eat_ok hnear₁ hrest hkept
    · split at h
      · obtain ⟨_, c₂, -, h⟩ := bind_ok h
        exact absurd h (refuses_refuseSurplus c₂ u _)
      · cases h

theorem consumes_closeList : Consumes closeList := by
  refine announces_gap.bind_consumes built_gap (refuses_refuseNext _).consumes fun b => ?_
  dsimp only
  split
  · exact advances_eat
  · split
    · exact (Refuses.after fun _ => refuses_refuseSurplus).advances
    · exact (refuses_refuseNext _).advances

theorem consumes_byPlace (h : ∀ field ∈ fields, Built field.decode) (first : Bool) (r : ρ) :
    Consumes (byPlace fields first r) := by
  induction fields generalizing first r with
  | nil => exact consumes_closeList.bind fun _ => .pure r
  | cons field later ih =>
    intro c r' c'' hok
    obtain ⟨another, c₁, hn, hok⟩ := bind_ok hok
    refine Nat.lt_of_lt_of_le ?_ ((built_nextEntry first).length_le hn)
    cases another with
    | true =>
      exact ((h field List.mem_cons_self).bind_consumes fun change =>
        ih (fun f hf => h f (List.mem_cons_of_mem _ hf)) _ _) c₁ r' c'' hok
    | false =>
      obtain ⟨rest, hrest⟩ := nextEntry_false hn
      exact (advances_eat.bind fun _ => .pure r) c₁ r' c'' (by simp [hrest]) hok

theorem closes_byPlace (h : ∀ field ∈ fields, Built field.decode) (first : Bool) (r : ρ) :
    Closes (byPlace fields first r) := by
  induction fields generalizing first r with
  | nil =>
    intro L c c' hnear r' c₂ hok hkept
    obtain ⟨u, c₁, hc, hok⟩ := bind_ok hok
    obtain ⟨rfl, rfl⟩ := pure_ok hok
    obtain ⟨c₁', hc', hnear₁⟩ := closes_closeList L c c' hnear u c₁ hc hkept
    simp only [byPlace]
    rw [bind_of_ok hc']
    exact ⟨c₁', rfl, hnear₁⟩
  | cons field later ih =>
    intro L c c' hnear r' c₃ hok hkept
    have hlater : ∀ f ∈ later, Built f.decode := fun f hf => h f (List.mem_cons_of_mem _ hf)
    obtain ⟨another, c₁, hn, hok⟩ := bind_ok hok
    simp only [byPlace]
    cases another with
    | true =>
      obtain ⟨change, c₂, hf, hok⟩ := bind_ok hok
      -- the field leaves a byte, for what comes after it takes one
      have hlt := consumes_byPlace hlater false (change r) c₂ r' c₃ hok
      have hlt₁ := (h field List.mem_cons_self).length_le hf
      obtain ⟨c₁', hn', hnear₁⟩ := L.open_ok (built_nextEntry first) hnear hn (by omega)
      obtain ⟨c₂', hf', hnear₂⟩ := L.open_ok (h field List.mem_cons_self) hnear₁ hf (by omega)
      rw [bind_of_ok hn']
      simp only [if_true]
      rw [bind_of_ok hf']
      exact ih hlater false (change r) L c₂ c₂' hnear₂ r' c₃ hok hkept
    | false =>
      obtain ⟨rest, hrest⟩ := nextEntry_false hn
      simp only [Bool.false_eq_true, if_false] at hok ⊢
      rw [bind_of_ok (eat_cons hrest)] at hok
      obtain ⟨rfl, rfl⟩ := pure_ok hok
      obtain ⟨c₁', hn', hnear₁⟩ := L.open_ok (built_nextEntry first) hnear hn
        (by rw [hrest]; exact Nat.lt_succ_of_le hkept)
      obtain ⟨c₂', he', hnear₂⟩ := L.eat_ok hnear₁ hrest hkept
      rw [bind_of_ok hn']
      simp only [Bool.false_eq_true, if_false]
      rw [bind_of_ok he']
      exact ⟨c₂', rfl, hnear₂⟩

/-- What closes also closes behind the byte that announces it. -/
theorem Closes.behind_lead {d : Decoder α} (hb : Built d) (hd : Closes d) (L : Lasting)
    {c c' c₁ c₂ : Cursor} {b : UInt8} {rest : List UInt8} {a : α} (hnear : L.near c c')
    (hg : gap c = .ok (some b, c₁)) (hrest : c₁.rest = b :: rest)
    (h : d (c₁.pass [b] rest) = .ok (a, c₂)) (hkept : L.kept ≤ c₂.rest.length) :
    ∃ c₁' c₂' c₃', gap c' = .ok (some b, c₁') ∧ eat c₁' = .ok ((), c₂') ∧
      d c₂' = .ok (a, c₃') ∧ L.near c₂ c₃' := by
  have hle : L.kept ≤ rest.length := Nat.le_trans hkept (hb.length_le h)
  obtain ⟨c₁', hg', hnear₁⟩ := L.open_ok built_gap hnear hg
    (by rw [hrest]; exact Nat.lt_succ_of_le hle)
  obtain ⟨c₂', he', hnear₂⟩ := L.eat_ok hnear₁ hrest hle
  obtain ⟨c₃', h', hnear₃⟩ := hd L _ c₂' hnear₂ a c₂ h hkept
  exact ⟨c₁', c₂', c₃', hg', he', h', hnear₃⟩

/-- A record shows its own end. -/
theorem closes_record (name : String) (h : ∀ field ∈ fields, Built field.decode) (r : ρ) :
    Closes (record name fields r) := by
  intro L c c' hnear r' c₂ hok hkept
  obtain ⟨l, c₁, hg, hok⟩ := bind_ok hok
  cases l with
  | none => cases hok
  | some b =>
    obtain ⟨rest, hrest⟩ := announces_gap c b c₁ hg
    dsimp only at hok
    simp only [record, onLead]
    cases hl : Lead.of b with
    | object =>
      simp only [hl] at hok
      rw [bind_of_ok (eat_cons hrest)] at hok
      obtain ⟨c₁', c₂', c₃', hg', he', hok', hnear'⟩ :=
        (closes_byName h r).behind_lead (built_byName h r) L hnear hg hrest hok hkept
      rw [bind_of_ok hg']
      simp only [hl]
      rw [bind_of_ok he']
      exact ⟨c₃', hok', hnear'⟩
    | list =>
      simp only [hl] at hok
      rw [bind_of_ok (eat_cons hrest)] at hok
      obtain ⟨c₁', c₂', c₃', hg', he', hok', hnear'⟩ :=
        (closes_byPlace h true r).behind_lead (built_byPlace h true r) L hnear hg hrest hok hkept
      rw [bind_of_ok hg']
      simp only [hl]
      rw [bind_of_ok he']
      exact ⟨c₃', hok', hnear'⟩
    | _ =>
      simp only [hl] at hok
      exact absurd hok (refuses_refuseValue _ c₁ r' c₂)

end Records

/-- A list shows its own end. -/
theorem closes_list {decode : Decoder α} (h : Built decode) (h' : Consumes decode) :
    Closes (list decode) := by
  intro L c c' hnear as c₂ hok hkept
  obtain ⟨l, c₁, hg, hok⟩ := bind_ok hok
  cases l with
  | none => cases hok
  | some b =>
    obtain ⟨rest, hrest⟩ := announces_gap c b c₁ hg
    dsimp only at hok
    simp only [list, onLead]
    cases hl : Lead.of b with
    | list =>
      simp only [hl] at hok
      rw [bind_of_ok (eat_cons hrest)] at hok
      obtain ⟨c₁', c₂', c₃', hg', he', hok', hnear'⟩ :=
        (closes_entries h h').behind_lead (built_entries h h') L hnear hg hrest hok hkept
      rw [bind_of_ok hg']
      simp only [hl]
      rw [bind_of_ok he']
      exact ⟨c₃', hok', hnear'⟩
    | _ =>
      simp only [hl] at hok
      exact absurd hok (refuses_refuseValue _ c₁ as c₂)

end BackupReport.Json.Decoder
