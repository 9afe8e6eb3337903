import BackupReport.Capture.Backup
import BackupReport.Json.Tree
import BackupReport.Proofs.Decoder.Progress
import BackupReport.Record.Json

/-!
# All decoders are built from the steps

One walk through each decoder of the library, from its first step to its last.  Where a step is
repeated, the walk also shows that it takes a byte.  The main statements are `built_record`, that a
record is built if its fields are, and its instances for the records of this library.
-/

namespace BackupReport.Json.Decoder

variable {α β ρ : Type}

/-! ## Small parts -/

theorem Built.map {d : Decoder α} (hd : Built d) (g : α → β) : Built (g <$> d) := by
  rw [← bind_pure_comp]
  exact hd.bind fun _ => .pure _

theorem built_eat : Built eat := .bind .next fun _ => .pure _

theorem built_gap : Built gap := by
  rw [gap_eq]
  exact (Built.passing isGap).map _

/-- A run of bytes may be passed where the byte behind it is looked at next. -/
theorem built_run {p : UInt8 → Bool} {k : List UInt8 → Option UInt8 → Decoder α}
    (hk : ∀ run following, Built (k run following)) :
    Built (span p >>= fun run => peek >>= fun following => k run following) := by
  have h : (span p >>= fun run => peek >>= fun following => k run following) =
      passing p >>= fun r => k r.1 r.2 := by
    simp only [passing, bind_assoc, pure_bind]
  rw [h]
  exact .bind (.passing p) fun _ => hk _ _

theorem built_word (letters : List UInt8) : Built (word letters) := by
  induction letters with
  | nil => exact .pure ()
  | cons b later ih =>
    refine .bind .next fun r => ?_
    cases r with
    | none => exact .refuseHere _
    | some found =>
      dsimp only
      split
      · exact ih
      · exact .refuseHere _

/-! ## Strings -/

theorem built_byte : Built Text.byte := by
  refine .bind .next fun r => ?_
  cases r with
  | none => exact .refuseHere _
  | some b => exact .pure b

theorem built_codeUnit : Built Text.codeUnit := by
  refine .bind built_byte fun a => .bind built_byte fun b => .bind built_byte fun c =>
    .bind built_byte fun d => ?_
  cases Text.unitOfHex? a b c d with
  | none => exact .refuseHere _
  | some unit => exact .pure unit

theorem built_secondHalf (high : Nat) : Built (Text.secondHalf high) := by
  refine .bind built_byte fun b => ?_
  split
  · refine .bind built_byte fun b' => ?_
    split
    · refine .bind built_codeUnit fun low => ?_
      split
      · exact .pure _
      · exact .refuseHere _
    · exact .refuseHere _
  · exact .refuseHere _

theorem built_numbered : Built Text.numbered := by
  refine .bind built_codeUnit fun unit => ?_
  split
  · exact .refuseHere _
  · split
    · exact built_secondHalf unit
    · exact .pure _

theorem built_escape : Built Text.escape := by
  refine .bind built_byte fun b => ?_
  cases Text.lettered? b with
  | some c => exact .pure _
  | none =>
    dsimp only
    split
    · exact built_numbered.map _
    · exact .refuseHere _

theorem built_skipEscape : Built Text.skipEscape := by
  refine .bind built_byte fun b => ?_
  split
  · exact .pure _
  · split
    · exact .bind built_codeUnit fun _ => .pure _
    · exact .refuseHere _

theorem built_piece (sofar : List UInt8) : Built (Text.piece sofar) := by
  refine .bind built_byte fun b => ?_
  split
  · exact .pure _
  · split
    · exact .bind built_escape fun _ => .pure _
    · split
      · exact .refuseHere _
      · exact .pure _

theorem consumes_piece (sofar : List UInt8) : Consumes (Text.piece sofar) := by
  refine consumes_byte.bind fun b => ?_
  split
  · exact .pure _
  · split
    · exact .bind built_escape fun _ => .pure _
    · split
      · exact .refuseHere _
      · exact .pure _

theorem built_bytes : Built Text.bytes :=
  .iterate [] (Consumes.progresses consumes_piece) built_piece

theorem built_text : Built Text.decode := .string built_bytes

theorem built_skipPiece (u : Unit) : Built (Text.skipPiece u) := by
  refine .bind .peek fun r => ?_
  cases r with
  | none => exact .refuseHere _
  | some b =>
    dsimp only
    split
    · exact .bind built_eat fun _ => .pure _
    · split
      · exact .bind built_eat fun _ => .bind built_skipEscape fun _ => .pure _
      · split
        · exact .refuseHere _
        · exact .bind built_eat fun _ => .pure _

theorem consumes_skipPiece (u : Unit) : Consumes (Text.skipPiece u) := by
  refine announces_peek.bind_consumes .peek (refuses_refuseHere _).consumes fun b => ?_
  dsimp only
  split
  · exact advances_eat.bind fun _ => .pure _
  · split
    · exact advances_eat.bind fun _ => .bind built_skipEscape fun _ => .pure _
    · split
      · exact (refuses_refuseHere _).advances
      · exact advances_eat.bind fun _ => .pure _

theorem built_skipText : Built Text.skip :=
  .iterate () (Consumes.progresses consumes_skipPiece) built_skipPiece

/-! ## Numbers -/

/-- The digits before the point are passed together with a look at what ends them, which is where
the rest of a numeral starts. -/
theorem built_wholeDigits_bind (use : Use) {k : List UInt8 → Option UInt8 → Decoder α}
    (hk : ∀ whole following, Built (k whole following)) :
    Built (Numeral.wholeDigits use >>= fun whole =>
      peek >>= fun following => k whole following) := by
  rw [Numeral.wholeDigits, bind_assoc]
  refine .bind .next fun r => ?_
  cases r with
  | none => exact .bind (.refuseHere _) fun _ => .bind .peek fun _ => hk _ _
  | some b =>
    dsimp only
    split
    · refine .bind (.bind .peek fun d => ?_) fun _ => .bind .peek fun _ => hk _ _
      cases d with
      | none => exact .pure _
      | some d =>
        dsimp only
        split
        · exact .refuseNext _
        · exact .pure _
    · split
      · rw [bind_assoc]
        simp only [pure_bind]
        exact built_run fun _ _ => hk _ _
      · exact .bind (.refuseHere _) fun _ => .bind .peek fun _ => hk _ _

theorem built_exponentDigit (bounded : Bool) (n : Nat) :
    Built (Numeral.exponentDigit bounded n) := by
  refine .bind .peek fun r => ?_
  cases r with
  | none => exact .pure _
  | some b =>
    dsimp only
    split
    · refine .bind built_eat fun _ => ?_
      split
      · exact .refuseHere _
      · exact .pure _
    · exact .pure _

theorem progresses_exponentDigit (bounded : Bool) :
    Progresses (Numeral.exponentDigit bounded) := by
  intro n c n' c'' h
  obtain ⟨r, c', hp, h⟩ := bind_ok h
  rcases peek_ok hp with ⟨b, rest, hr, rfl, rfl⟩ | ⟨-, -, rfl, -⟩
  · dsimp only at h
    split at h
    · have hadv : Advances (eat >>= fun _ => if bounded = true ∧ Numeral.exponentLimit <
          n * 10 + digitValue b then refuseHere .numberOutOfRange
          else pure (Step.more (n * 10 + digitValue b)) : Decoder (Step Nat Nat)) := by
        refine advances_eat.bind fun _ => ?_
        split
        · exact .refuseHere _
        · exact .pure _
      have := hadv _ _ _ (by simp [hr]) h
      simpa using this
    · cases (pure_ok h).1
  · cases (pure_ok h).1

theorem built_exponentSign : Built Numeral.exponentSign := by
  refine .bind .peek fun r => ?_
  cases r with
  | none => exact .pure _
  | some b =>
    dsimp only
    split
    · exact .bind built_eat fun _ => .pure _
    · split
      · exact .bind built_eat fun _ => .pure _
      · exact .pure _

theorem built_exponentPart (use : Use) (nonzero : Bool) :
    Built (Numeral.exponentPart use nonzero) := by
  refine .bind .peek fun r => ?_
  cases r with
  | none => exact .pure _
  | some b =>
    dsimp only
    split
    · refine .bind built_eat fun _ => .bind built_exponentSign fun negative =>
        .bind .next fun d => ?_
      cases d with
      | none => exact .refuseHere _
      | some d =>
        dsimp only
        split
        · exact .bind (.iterate _ (progresses_exponentDigit _) (built_exponentDigit _))
            fun _ => .pure _
        · exact .refuseHere _
    · exact .pure _

theorem built_scan (use : Use) (negative : Bool) : Built (Numeral.scan use negative) := by
  unfold Numeral.scan Numeral.fractionDigits
  simp only [bind_assoc]
  refine built_wholeDigits_bind use fun whole following => ?_
  refine .bind ?_ fun fraction => .bind (built_exponentPart _ _) fun _ => .pure _
  split
  · refine .bind built_eat fun _ => built_run fun digits following => ?_
    split
    · cases following with
      | none => exact .refuseNext _
      | some _ => exact .refuseNext _
    · exact .pure _
  · exact .pure _

theorem built_skipNumeral : Built Numeral.skip := by
  refine .bind .peek fun r => ?_
  dsimp only
  split
  · exact .bind built_eat fun _ => .bind (built_scan _ _) fun _ => .pure _
  · exact .bind (built_scan _ _) fun _ => .pure _

theorem built_decodeUnsigned (negative : Bool) : Built (Number.decodeUnsigned negative) := by
  refine .bind (built_scan _ _) fun m => ?_
  cases m.number? with
  | none => exact .refuseHere _
  | some n => exact .pure n

theorem built_number : Built Number.decode := by
  refine .bind .peek fun r => ?_
  split
  · exact .bind built_eat fun _ => built_decodeUnsigned true
  · exact built_decodeUnsigned false

/-- The first digit of a numeral is taken before anything else is looked at. -/
theorem consumes_wholeDigits (use : Use) : Consumes (Numeral.wholeDigits use) := by
  intro c whole c' h
  obtain ⟨r, c₁, hn, h⟩ := bind_ok h
  rcases next_ok hn with ⟨b, rest, hr, rfl, rfl⟩ | ⟨-, -, rfl, -⟩
  · have hle : c'.rest.length ≤ rest.length := by
      dsimp only at h
      split at h
      · obtain ⟨d, c₂, hp, h⟩ := bind_ok h
        have hpass := (peek_passes hp).length_le
        cases d with
        | none => rwa [(pure_ok h).2] at hpass
        | some d =>
          dsimp only at h
          split at h
          · cases h
          · rwa [(pure_ok h).2] at hpass
      · split at h
        · obtain ⟨more, c₂, hs, h⟩ := bind_ok h
          obtain ⟨-, rfl⟩ := pure_ok h
          cases hs
          exact (List.dropWhile_sublist _).length_le
        · cases h
    rw [hr, List.length_cons]
    omega
  · cases h

theorem built_fractionDigits (use : Use) : Built (Numeral.fractionDigits use) := by
  refine .bind .peek fun r => ?_
  split
  · refine .bind built_eat fun _ => built_run fun digits following => ?_
    split
    · cases following with
      | none => exact .refuseNext _
      | some _ => exact .refuseNext _
    · exact .pure _
  · exact .pure _

theorem consumes_scan (use : Use) (negative : Bool) : Consumes (Numeral.scan use negative) :=
  (consumes_wholeDigits use).bind fun _ => .bind (built_fractionDigits use) fun _ =>
    .bind (built_exponentPart _ _) fun _ => .pure _

theorem consumes_skipNumeral : Consumes Numeral.skip := by
  refine Built.bind_consumes .peek fun r => ?_
  dsimp only
  split
  · exact built_eat.bind_consumes fun _ => (consumes_scan _ _).bind fun _ => .pure _
  · exact (consumes_scan _ _).bind fun _ => .pure _

/-! ## Values that are passed over -/

theorem built_enterValue (frames : List Skip.Frame) : Built (Skip.enterValue frames) := by
  refine .bind built_gap fun r => ?_
  cases r with
  | none => exact .refuseNext _
  | some b =>
    dsimp only
    split
    · exact .bind built_eat fun _ => .bind (built_word _) fun _ => .pure _
    · exact .bind built_eat fun _ => .bind (built_word _) fun _ => .pure _
    · exact .bind built_eat fun _ => .bind (built_word _) fun _ => .pure _
    · exact .bind built_skipNumeral fun _ => .pure _
    · exact .bind built_skipNumeral fun _ => .pure _
    · exact .bind built_eat fun _ => .bind built_skipText fun _ => .pure _
    · exact .bind built_eat fun _ => .pure _
    · exact .bind built_eat fun _ => .pure _
    · exact .refuseNext _

theorem consumes_enterValue (frames : List Skip.Frame) : Consumes (Skip.enterValue frames) := by
  refine announces_gap.bind_consumes built_gap (refuses_refuseNext _).consumes fun b => ?_
  dsimp only
  split
  · exact advances_eat.bind fun _ => .bind (built_word _) fun _ => .pure _
  · exact advances_eat.bind fun _ => .bind (built_word _) fun _ => .pure _
  · exact advances_eat.bind fun _ => .bind (built_word _) fun _ => .pure _
  · exact consumes_skipNumeral.advances.bind fun _ => .pure _
  · exact consumes_skipNumeral.advances.bind fun _ => .pure _
  · exact advances_eat.bind fun _ => .bind built_skipText fun _ => .pure _
  · exact advances_eat.bind fun _ => .pure _
  · exact advances_eat.bind fun _ => .pure _
  · exact (refuses_refuseNext _).advances

theorem built_memberKey : Built Skip.memberKey := by
  refine .bind built_gap fun r => ?_
  cases r with
  | none => exact .refuseNext _
  | some b =>
    dsimp only
    split
    · refine .bind built_eat fun _ => .bind built_skipText fun _ => .bind built_gap fun r => ?_
      cases r with
      | none => exact .refuseNext _
      | some c =>
        dsimp only
        split
        · exact built_eat
        · exact .refuseNext _
    · exact .refuseNext _

theorem built_enterEntry (frame : Skip.Frame) (frames : List Skip.Frame) :
    Built (Skip.enterEntry frame frames) := by
  cases frame with
  | list => exact built_enterValue _
  | object => exact .bind built_memberKey fun _ => built_enterValue _

theorem consumes_enterEntry (frame : Skip.Frame) (frames : List Skip.Frame) :
    Consumes (Skip.enterEntry frame frames) := by
  cases frame with
  | list => exact consumes_enterValue _
  | object => exact built_memberKey.bind_consumes fun _ => consumes_enterValue _

theorem built_skipStep (s : Skip.State) : Built (Skip.step s) := by
  obtain ⟨place, frames⟩ := s
  cases place with
  | value => exact (built_enterValue frames).map _
  | opened =>
    cases frames with
    | nil => exact .pure _
    | cons frame frames =>
      refine .bind built_gap fun r => ?_
      cases r with
      | none => exact .refuseNext _
      | some b =>
        dsimp only
        split
        · exact .bind built_eat fun _ => .pure _
        · exact (built_enterEntry frame frames).map _
  | after =>
    cases frames with
    | nil => exact .pure _
    | cons frame frames =>
      refine .bind built_gap fun r => ?_
      cases r with
      | none => exact .refuseNext _
      | some b =>
        dsimp only
        split
        · exact .bind built_eat fun _ => .pure _
        · split
          · exact .bind built_eat fun _ => (built_enterEntry frame frames).map _
          · exact .refuseNext _

/-- Passing over a value goes on only behind a byte that it has taken. -/
theorem progresses_skipStep : Progresses Skip.step := by
  rintro ⟨place, frames⟩ c s' c' h
  have hframes : ∀ (place : Skip.Place), place ≠ .value → frames ≠ [] →
      Consumes (Skip.step ⟨place, frames⟩) := by
    intro place hplace hne
    obtain ⟨frame, frames, rfl⟩ := List.exists_cons_of_ne_nil hne
    cases place with
    | value => exact absurd rfl hplace
    | opened =>
      refine announces_gap.bind_consumes built_gap (refuses_refuseNext _).consumes fun b => ?_
      dsimp only
      split
      · exact advances_eat.bind fun _ => .pure _
      · exact ((consumes_enterEntry frame frames).map _).advances
    | after =>
      refine announces_gap.bind_consumes built_gap (refuses_refuseNext _).consumes fun b => ?_
      dsimp only
      split
      · exact advances_eat.bind fun _ => .pure _
      · split
        · exact advances_eat.bind fun _ => (built_enterEntry frame frames).map _
        · exact (refuses_refuseNext _).advances
  by_cases hvalue : place = .value
  · subst hvalue
    exact (consumes_enterValue frames).map _ c _ c' h
  · by_cases hnil : frames = []
    · subst hnil
      cases place with
      | value => exact absurd rfl hvalue
      | opened => cases (pure_ok h).1
      | after => cases (pure_ok h).1
    · exact hframes place hvalue hnil c _ c' h

theorem built_skipValue : Built skipValue :=
  .iterate _ progresses_skipStep built_skipStep

end BackupReport.Json.Decoder
