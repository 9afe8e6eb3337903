import BackupReport.Proofs.Decoder.Built

/-!
# Decoders that take a byte

A step that is repeated must take a byte each time it goes on.  Whether it does is read off its
parts: `Consumes` says that every success takes a byte, `Advances` that it does so where a byte is
left.  A look at a source that finds a byte is what leads from the second to the first.
-/

namespace BackupReport.Json.Decoder

variable {α β σ : Type}

/-- Every success takes a byte. -/
def Consumes (d : Decoder α) : Prop :=
  ∀ c a c', d c = .ok (a, c') → c'.rest.length < c.rest.length

/-- Every success takes a byte if one is left. -/
def Advances (d : Decoder α) : Prop :=
  ∀ c a c', c.rest ≠ [] → d c = .ok (a, c') → c'.rest.length < c.rest.length

theorem Consumes.advances {d : Decoder α} (h : Consumes d) : Advances d :=
  fun c a c' _ hd => h c a c' hd

theorem Consumes.progresses {step : σ → Decoder (Step σ α)} (h : ∀ s, Consumes (step s)) :
    Progresses step :=
  fun s c _ c' hd => h s c _ c' hd

theorem Refuses.consumes {d : Decoder α} (h : Refuses d) : Consumes d :=
  fun c a c' hd => absurd hd (h c a c')

theorem Refuses.advances {d : Decoder α} (h : Refuses d) : Advances d := h.consumes.advances

/-! ## Sequences -/

theorem Consumes.bind {d : Decoder α} {k : α → Decoder β} (hd : Consumes d)
    (hk : ∀ a, Built (k a)) : Consumes (d >>= k) := by
  intro c b c'' h
  obtain ⟨a, c', h₁, h₂⟩ := bind_ok h
  exact Nat.lt_of_le_of_lt ((hk a).length_le h₂) (hd c a c' h₁)

theorem Advances.bind {d : Decoder α} {k : α → Decoder β} (hd : Advances d)
    (hk : ∀ a, Built (k a)) : Advances (d >>= k) := by
  intro c b c'' hc h
  obtain ⟨a, c', h₁, h₂⟩ := bind_ok h
  exact Nat.lt_of_le_of_lt ((hk a).length_le h₂) (hd c a c' hc h₁)

theorem Built.bind_consumes {d : Decoder α} {k : α → Decoder β} (hd : Built d)
    (hk : ∀ a, Consumes (k a)) : Consumes (d >>= k) := by
  intro c b c'' h
  obtain ⟨a, c', h₁, h₂⟩ := bind_ok h
  exact Nat.lt_of_lt_of_le (hk a c' b c'' h₂) (hd.length_le h₁)

theorem Consumes.map {d : Decoder α} (hd : Consumes d) (g : α → β) : Consumes (g <$> d) := by
  intro c b c' h
  obtain ⟨a, h, -⟩ := map_ok h
  exact hd c a c' h

/-! ## Looks -/

/-- A decoder that finds the byte it speaks of at the cursor. -/
def Announces (d : Decoder (Option UInt8)) : Prop :=
  ∀ c b c', d c = .ok (some b, c') → ∃ rest, c'.rest = b :: rest

theorem announces_peek : Announces peek := by
  intro c b c' h
  rcases peek_ok h with ⟨b', rest, hr, hb, rfl⟩ | ⟨-, -, hb, -⟩
  · cases hb
    exact ⟨rest, by rw [Cursor.look_rest, hr]⟩
  · cases hb

theorem announces_gap : Announces gap := by
  intro c b c' h
  obtain ⟨_, c₁, -, hp⟩ := bind_ok h
  exact announces_peek c₁ b c' hp

theorem Announces.bind_consumes {d : Decoder (Option UInt8)} (hd : Announces d) (hb : Built d)
    {k : Option UInt8 → Decoder α} (hnone : Consumes (k none))
    (hsome : ∀ b, Advances (k (some b))) : Consumes (d >>= k) := by
  intro c a c'' h
  obtain ⟨r, c', h₁, h₂⟩ := bind_ok h
  have hle := hb.length_le h₁
  cases r with
  | none => exact Nat.lt_of_lt_of_le (hnone c' a c'' h₂) hle
  | some b =>
    obtain ⟨rest, hrest⟩ := hd c b c' h₁
    exact Nat.lt_of_lt_of_le (hsome b c' a c'' (by simp [hrest]) h₂) hle

/-! ## Taking a byte -/

theorem eat_cons {c : Cursor} {b : UInt8} {rest : List UInt8} (h : c.rest = b :: rest) :
    eat c = .ok ((), c.pass [b] rest) := by
  have hn : next c = .ok (some b, c.pass [b] rest) := by simp only [next, h]
  exact bind_of_ok hn

theorem advances_next : Advances next := by
  intro c r c' hc h
  rcases next_ok h with ⟨b, rest, hr, -, rfl⟩ | ⟨hr, -, -, -⟩
  · rw [hr]; exact Nat.lt_succ_self _
  · exact absurd hr hc

theorem advances_eat : Advances eat := advances_next.bind fun _ => .pure _

theorem consumes_byte : Consumes Text.byte := by
  intro c a c' h
  obtain ⟨r, c₁, hn, h⟩ := bind_ok h
  rcases next_ok hn with ⟨b, rest, hr, rfl, rfl⟩ | ⟨-, -, rfl, -⟩
  · obtain ⟨-, rfl⟩ := pure_ok h
    rw [hr]; exact Nat.lt_succ_self _
  · cases h

end BackupReport.Json.Decoder
