import BackupReport.Proofs.Grammar.Numerals

/-!
# The grammar of lists and objects

The entries of a list and the members of an object are a series: commas stand between them, a
closing byte behind the last one, and gaps around all of them (`Series`).  What stands before an
entry or a member, or before the closing byte, is read as such (`nextEntry_more`,
`nextMember_more`), whatever the gaps are.
-/

namespace BackupReport.Json

open Decoder

variable {ι : Type} {c : Cursor} {g sep rest : List UInt8} {first : Bool}

/-! ## Series -/

/-- A gap. -/
def Gap (g : List UInt8) : Prop := ∀ b ∈ g, isGap b = true

/-- What stands before an entry of a series: a gap, and a comma with a gap before it if the entry is
not the first one. -/
inductive Separator : Bool → List UInt8 → Prop
  | first {g : List UInt8} : Gap g → Separator true g
  | later {g g' : List UInt8} : Gap g → Gap g' → Separator false (g ++ 0x2C :: g')

/-- The entries of a series up to its closing byte. -/
inductive Series (writes : ι → List UInt8 → Prop) (closing : UInt8) :
    Bool → List ι → List UInt8 → Prop
  | close {first : Bool} {g : List UInt8} : Gap g → Series writes closing first [] (g ++ [closing])
  | entry {first : Bool} {e : ι} {es : List ι} {sep text later : List UInt8} :
      Separator first sep → writes e text → Series writes closing false es later →
      Series writes closing first (e :: es) (sep ++ (text ++ later))

/-- The text of a series without any gaps. -/
def compact (text : ι → List UInt8) (closing : UInt8) : Bool → List ι → List UInt8
  | _, [] => [closing]
  | true, e :: es => text e ++ compact text closing false es
  | false, e :: es => 0x2C :: (text e ++ compact text closing false es)

theorem Series.of_compact {writes : ι → List UInt8 → Prop} {closing : UInt8}
    {text : ι → List UInt8} (h : ∀ e, writes e (text e)) (first : Bool) (es : List ι) :
    Series writes closing first es (compact text closing first es) := by
  have hgap : Gap [] := List.forall_mem_nil _
  induction es generalizing first with
  | nil =>
    cases first with
    | true => exact .close hgap
    | false => exact .close hgap
  | cons e es ih =>
    cases first with
    | true => exact .entry (.first hgap) (h e) (ih false)
    | false => exact .entry (.later hgap hgap) (h e) (ih false)

/-- A gap stops a value if something stands behind it that does. -/
theorem Gap.stops (hg : Gap g) (hrest : Stops rest) : Stops (g ++ rest) := by
  cases g with
  | nil => exact hrest
  | cons b later => exact ⟨b, _, rfl, .inl (hg b List.mem_cons_self)⟩

/-- Behind an entry of a series stands a comma, a closing byte, or a gap. -/
theorem Series.stops {writes : ι → List UInt8 → Prop} {closing : UInt8} {es : List ι}
    {text : List UInt8} (h : Series writes closing false es text)
    (hclosing : closing = 0x5D ∨ closing = 0x7D) (rest : List UInt8) : Stops (text ++ rest) := by
  cases h with
  | close hg =>
    rw [List.append_assoc]
    refine hg.stops ⟨closing, _, rfl, ?_⟩
    rcases hclosing with rfl | rfl
    · exact .inr (.inr (.inl rfl))
    · exact .inr (.inr (.inr rfl))
  | entry hsep =>
    cases hsep with
    | later hg =>
      rw [List.append_assoc, List.append_assoc]
      exact hg.stops ⟨0x2C, _, rfl, .inr (.inl rfl)⟩

/-! ## Lists -/

/-- The next entry of a list is found behind what stands before it. -/
theorem nextEntry_more {b : UInt8} (hsep : Separator first sep) (hb : Lead.of b ≠ .other)
    (h : c.rest = sep ++ b :: rest) :
    ∃ c', nextEntry first c = .ok (true, c') ∧ c'.rest = b :: rest := by
  have hclose : b ≠ 0x5D := by
    rintro rfl
    exact hb (by decide)
  cases hsep with
  | first hg =>
    obtain ⟨c', hgap, hr, -⟩ := gap_cons h hg (isGap_of_lead hb)
    refine ⟨c', ?_, hr⟩
    unfold nextEntry
    rw [bind_of_ok hgap]
    dsimp only
    rw [if_neg hclose, if_pos rfl]
    rfl
  | @later g g' hg hg' =>
    rw [List.append_assoc, List.cons_append] at h
    obtain ⟨c₁, hgap₁, hr₁, -⟩ := gap_cons h hg (by decide)
    obtain ⟨c', hgap', hr', -⟩ := gap_cons (c := c₁.pass [0x2C] (g' ++ b :: rest)) rfl hg'
      (isGap_of_lead hb)
    refine ⟨c', ?_, hr'⟩
    unfold nextEntry
    rw [bind_of_ok hgap₁]
    dsimp only
    rw [if_neg (by decide), if_neg (by decide), if_pos rfl, bind_of_ok (eat_cons hr₁),
      bind_of_ok hgap']
    dsimp only
    rw [if_neg hclose]
    rfl

theorem nextEntry_close (first : Bool) (hg : Gap g) (h : c.rest = g ++ 0x5D :: rest) :
    ∃ c', nextEntry first c = .ok (false, c') ∧ c'.rest = 0x5D :: rest := by
  obtain ⟨c', hgap, hr, -⟩ := gap_cons h hg (by decide)
  refine ⟨c', ?_, hr⟩
  unfold nextEntry
  rw [bind_of_ok hgap]
  rfl

/-! ## Objects -/

/-- The next member of an object is found behind what stands before it, up to its key. -/
theorem nextMember_more (hsep : Separator first sep) (h : c.rest = sep ++ 0x22 :: rest) :
    ∃ c', nextMember first c = .ok (true, c') ∧ c'.rest = rest := by
  cases hsep with
  | first hg =>
    obtain ⟨c', hgap, hr, -⟩ := gap_cons h hg (by decide)
    refine ⟨c'.pass [0x22] rest, ?_, rfl⟩
    unfold nextMember
    rw [bind_of_ok hgap]
    dsimp only
    rw [if_neg (by decide), if_pos rfl, if_pos rfl, bind_of_ok (eat_cons hr)]
    rfl
  | @later g g' hg hg' =>
    rw [List.append_assoc, List.cons_append] at h
    obtain ⟨c₁, hgap₁, hr₁, -⟩ := gap_cons h hg (by decide)
    obtain ⟨c', hgap', hr', -⟩ := gap_cons (c := c₁.pass [0x2C] (g' ++ 0x22 :: rest)) rfl hg'
      (by decide)
    refine ⟨c'.pass [0x22] rest, ?_, rfl⟩
    unfold nextMember
    rw [bind_of_ok hgap₁]
    dsimp only
    rw [if_neg (by decide), if_neg (by decide), if_pos rfl, bind_of_ok (eat_cons hr₁),
      bind_of_ok hgap']
    dsimp only
    rw [if_pos rfl, bind_of_ok (eat_cons hr')]
    rfl

theorem nextMember_close (first : Bool) (hg : Gap g) (h : c.rest = g ++ 0x7D :: rest) :
    ∃ c', nextMember first c = .ok (false, c') ∧ c'.rest = 0x7D :: rest := by
  obtain ⟨c', hgap, hr, -⟩ := gap_cons h hg (by decide)
  refine ⟨c', ?_, hr⟩
  unfold nextMember
  rw [bind_of_ok hgap]
  rfl

theorem colon_cons (hg : Gap g) (h : c.rest = g ++ 0x3A :: rest) :
    ∃ c', colon c = .ok ((), c') ∧ c'.rest = rest := by
  obtain ⟨c₁, hgap, hr, -⟩ := gap_cons h hg (by decide)
  refine ⟨c₁.pass [0x3A] rest, ?_, rfl⟩
  unfold colon
  rw [bind_of_ok hgap]
  dsimp only
  rw [if_pos rfl]
  exact eat_cons hr

end BackupReport.Json
