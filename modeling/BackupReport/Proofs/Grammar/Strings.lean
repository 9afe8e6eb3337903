import BackupReport.Proofs.Grammar.Unicode
import BackupReport.Proofs.RoundTrip.Strings
import BackupReport.Proofs.Skipping.Tokens

/-!
# The grammar of strings

What may stand between the quotes of a string (`Body`), and which bytes it stands for (`Unescapes`),
apart from how it is read.  A string is passed over whatever it stands for (`skip_ok`).  It is
decoded exactly if it stands for the bytes of a text, and then as that text (`decode_ok`,
`spells_of_decode`).
-/

namespace BackupReport.Json.Text

open Decoder

variable {c c' : Cursor} {rest text found : List UInt8}

/-! ## How a string is written -/

/-- What may stand between the quotes of a string: bytes that need no escape, escapes by letter, and
escapes by number. -/
inductive Body : List UInt8 → Prop
  | nil : Body []
  | plain {b : UInt8} {text : List UInt8} : Plain b → Body text → Body (b :: text)
  | letter {l b : UInt8} {text : List UInt8} : lettered? l = some b → Body text →
      Body (0x5C :: l :: text)
  | number {b₁ b₂ b₃ b₄ : UInt8} {unit : Nat} {text : List UInt8} :
      unitOfHex? b₁ b₂ b₃ b₄ = some unit → Body text →
      Body (0x5C :: 0x75 :: b₁ :: b₂ :: b₃ :: b₄ :: text)

/-- The bytes that a string stands for.  A number above U+FFFF takes two escapes, and half of such a
pair stands for nothing. -/
inductive Unescapes : List UInt8 → List UInt8 → Prop
  | nil : Unescapes [] []
  | plain {b : UInt8} {text found : List UInt8} : Plain b → Unescapes text found →
      Unescapes (b :: text) (b :: found)
  | letter {l b : UInt8} {text found : List UInt8} : lettered? l = some b → Unescapes text found →
      Unescapes (0x5C :: l :: text) (b :: found)
  | number {b₁ b₂ b₃ b₄ : UInt8} {unit : Nat} {text found : List UInt8} :
      unitOfHex? b₁ b₂ b₃ b₄ = some unit → isLowSurrogate unit = false →
      isHighSurrogate unit = false → Unescapes text found →
      Unescapes (0x5C :: 0x75 :: b₁ :: b₂ :: b₃ :: b₄ :: text)
        (Utf8.encodeChar (Char.ofNat unit) ++ found)
  | pair {b₁ b₂ b₃ b₄ d₁ d₂ d₃ d₄ : UInt8} {high low : Nat} {text found : List UInt8} :
      unitOfHex? b₁ b₂ b₃ b₄ = some high → isHighSurrogate high = true →
      unitOfHex? d₁ d₂ d₃ d₄ = some low → isLowSurrogate low = true → Unescapes text found →
      Unescapes
        (0x5C :: 0x75 :: b₁ :: b₂ :: b₃ :: b₄ :: 0x5C :: 0x75 :: d₁ :: d₂ :: d₃ :: d₄ :: text)
        (Utf8.encodeChar (pairCharacter high low) ++ found)

/-- A string is written as some bytes between its quotes. -/
def Spells (text : List UInt8) (s : String) : Prop := Unescapes text (Utf8.encode s.toList)

theorem Unescapes.body (h : Unescapes text found) : Body text := by
  induction h with
  | nil => exact .nil
  | plain hb _ ih => exact .plain hb ih
  | letter hl _ ih => exact .letter hl ih
  | number hunit _ _ _ ih => exact .number hunit ih
  | pair hhigh _ hlow _ _ ih => exact .number hhigh (.number hlow ih)

/-- Bytes that need no escape stand for themselves. -/
theorem unescapes_plain {bytes : List UInt8} (h : ∀ b ∈ bytes, Plain b) :
    Unescapes bytes bytes := by
  induction bytes with
  | nil => exact .nil
  | cons b bytes ih =>
    obtain ⟨hb, hbytes⟩ := List.forall_mem_cons.1 h
    exact .plain hb (ih hbytes)

/-- A text that needs no escape is spelled by its own bytes. -/
theorem spells_plain {s : String} (h : ∀ b ∈ Utf8.encode s.toList, Plain b) :
    Spells (Utf8.encode s.toList) s := unescapes_plain h

/-- Half of a pair that stands alone spells no text. -/
theorem not_spells_half {b₁ b₂ b₃ b₄ : UInt8} {unit : Nat}
    (hunit : unitOfHex? b₁ b₂ b₃ b₄ = some unit) (hhigh : isHighSurrogate unit = true)
    (s : String) : ¬ Spells [0x5C, 0x75, b₁, b₂, b₃, b₄] s := by
  intro hspells
  unfold Spells at hspells
  generalize Utf8.encode s.toList = found at hspells
  cases hspells with
  | plain hb => exact hb.2.2 rfl
  | letter hl => cases hl
  | number hunit' _ hhigh' =>
    cases hunit.symm.trans hunit'
    cases hhigh.symm.trans hhigh'

/-! ## Passing over a string -/

theorem skipPiece_plain {b : UInt8} (hb : Plain b) (h : c.rest = b :: rest) :
    skipPiece () c = .ok (.more (), c.pass [b] rest) := by
  obtain ⟨hcontrol, hquote, hslash⟩ := hb
  have hlt : ¬ b < 0x20 := by
    rw [UInt8.lt_iff_toNat_lt]
    exact Nat.not_lt.mpr hcontrol
  obtain ⟨hpeek, heat⟩ := peek_eat_of_byte (byte_cons h)
  unfold skipPiece
  rw [bind_of_ok hpeek]
  dsimp only
  rw [if_neg (by rintro rfl; exact hquote rfl), if_neg (by rintro rfl; exact hslash rfl),
    if_neg hlt, bind_of_ok heat]
  rfl

/-- A string is passed over up to its closing quote. -/
theorem skip_ok (hbody : Body text) (h : c.rest = text ++ 0x22 :: rest) :
    ∃ c', skip c = .ok ((), c') ∧ c'.rest = rest := by
  have hprogress : Progresses skipPiece := Consumes.progresses consumes_skipPiece
  unfold skip
  induction hbody generalizing c with
  | nil =>
    obtain ⟨hpeek, heat⟩ := peek_eat_of_byte (byte_cons h)
    refine ⟨c.pass [0x22] rest, iterate_done hprogress ?_, rfl⟩
    unfold skipPiece
    rw [bind_of_ok hpeek]
    dsimp only
    rw [if_pos rfl, bind_of_ok heat]
    rfl
  | @plain b text hb _ ih =>
    rw [iterate_more hprogress (skipPiece_plain hb h)]
    exact ih rfl
  | @letter l b text hl _ ih =>
    have hescape : skipEscape (c.pass [0x5C] (l :: text ++ 0x22 :: rest)) =
        .ok ((), (c.pass [0x5C] (l :: text ++ 0x22 :: rest)).pass [l] (text ++ 0x22 :: rest)) := by
      unfold skipEscape
      rw [bind_of_ok (byte_cons rfl), if_pos (by rw [hl]; rfl)]
      rfl
    rw [iterate_more hprogress (skipPiece_escape (byte_cons h) hescape)]
    exact ih rfl
  | @number b₁ b₂ b₃ b₄ unit text hunit _ ih =>
    obtain ⟨c₁, hrun, hr₁⟩ := codeUnit_run hunit
      (c := (c.pass [0x5C] (0x75 :: b₁ :: b₂ :: b₃ :: b₄ :: text ++ 0x22 :: rest)).pass [0x75]
        (b₁ :: b₂ :: b₃ :: b₄ :: text ++ 0x22 :: rest)) rfl
    rw [iterate_more hprogress
      (skipPiece_escape (byte_cons h) (skipEscape_numbered (byte_cons rfl) hrun))]
    exact ih hr₁

/-! ## Decoding a string -/

/-- A unit that is no half of a pair is a character. -/
theorem iterate_number {b₁ b₂ b₃ b₄ : UInt8} {unit : Nat} (sofar : List UInt8)
    (hunit : unitOfHex? b₁ b₂ b₃ b₄ = some unit) (hlow : isLowSurrogate unit = false)
    (hhigh : isHighSurrogate unit = false)
    (h : c.rest = 0x5C :: 0x75 :: b₁ :: b₂ :: b₃ :: b₄ :: rest) :
    ∃ c', iterate piece sofar c =
      iterate piece ((Utf8.encodeChar (Char.ofNat unit)).reverse ++ sofar) c' ∧ c'.rest = rest := by
  obtain ⟨c', hrun, hr⟩ := codeUnit_run hunit
    (c := (c.pass [0x5C] (0x75 :: b₁ :: b₂ :: b₃ :: b₄ :: rest)).pass [0x75]
      (b₁ :: b₂ :: b₃ :: b₄ :: rest)) rfl
  refine ⟨c', iterate_escaped h (escape_numbered rfl ?_), hr⟩
  unfold numbered
  rw [bind_of_ok hrun]
  simp only [hlow, hhigh, Bool.false_eq_true, if_false]
  rfl

/-- No unit is a first half and a second half at once. -/
theorem not_low_of_high {unit : Nat} (h : isHighSurrogate unit = true) :
    isLowSurrogate unit = false := by
  simp only [isHighSurrogate, isLowSurrogate, Bool.and_eq_true, decide_eq_true_eq,
    Bool.and_eq_false_iff, decide_eq_false_iff_not] at h ⊢
  omega

/-- Two halves of a pair are a character. -/
theorem iterate_pair {b₁ b₂ b₃ b₄ d₁ d₂ d₃ d₄ : UInt8} {high low : Nat} (sofar : List UInt8)
    (hhigh : unitOfHex? b₁ b₂ b₃ b₄ = some high) (hfirst : isHighSurrogate high = true)
    (hlow : unitOfHex? d₁ d₂ d₃ d₄ = some low) (hsecond : isLowSurrogate low = true)
    (h : c.rest =
      0x5C :: 0x75 :: b₁ :: b₂ :: b₃ :: b₄ :: 0x5C :: 0x75 :: d₁ :: d₂ :: d₃ :: d₄ :: rest) :
    ∃ c', iterate piece sofar c =
      iterate piece ((Utf8.encodeChar (pairCharacter high low)).reverse ++ sofar) c' ∧
        c'.rest = rest := by
  obtain ⟨c₁, hrun₁, hr₁⟩ := codeUnit_run hhigh (c := (c.pass [0x5C] _).pass [0x75]
    (b₁ :: b₂ :: b₃ :: b₄ :: 0x5C :: 0x75 :: d₁ :: d₂ :: d₃ :: d₄ :: rest)) rfl
  obtain ⟨c', hrun₂, hr'⟩ := codeUnit_run hlow (c := (c₁.pass [0x5C] _).pass [0x75]
    (d₁ :: d₂ :: d₃ :: d₄ :: rest)) rfl
  refine ⟨c', iterate_escaped h (escape_numbered rfl ?_), hr'⟩
  unfold numbered
  rw [bind_of_ok hrun₁]
  simp only [not_low_of_high hfirst, hfirst, Bool.false_eq_true, if_false, if_true]
  unfold secondHalf
  rw [bind_of_ok (byte_cons hr₁), if_pos rfl, bind_of_ok (byte_cons rfl), if_pos rfl,
    bind_of_ok hrun₂, if_pos hsecond]
  rfl

/-- A string is read as the bytes that it stands for. -/
theorem iterate_unescapes (hunescapes : Unescapes text found) (sofar : List UInt8)
    (h : c.rest = text ++ 0x22 :: rest) :
    ∃ c', iterate piece sofar c = .ok (sofar.reverse ++ found, c') ∧ c'.rest = rest := by
  induction hunescapes generalizing sofar c with
  | nil =>
    rw [iterate_closed sofar h, List.append_nil]
    exact ⟨_, rfl, rfl⟩
  | @plain b text found hb _ ih =>
    rw [List.cons_append] at h
    obtain ⟨c', hrun, hr⟩ := ih (b :: sofar) (c := c.pass [b] (text ++ 0x22 :: rest)) rfl
    refine ⟨c', ?_, hr⟩
    rw [iterate_piece (piece_plain hb h), hrun, List.reverse_cons, List.append_assoc]
    rfl
  | @letter l b text found hl _ ih =>
    obtain ⟨c₁, hpiece, hr₁⟩ := iterate_lettered sofar hl h
    obtain ⟨c', hrun, hr⟩ := ih (b :: sofar) hr₁
    refine ⟨c', ?_, hr⟩
    rw [hpiece, hrun, List.reverse_cons, List.append_assoc]
    rfl
  | number hunit hlow hhigh _ ih =>
    obtain ⟨c₁, hpiece, hr₁⟩ := iterate_number sofar hunit hlow hhigh h
    obtain ⟨c', hrun, hr⟩ := ih _ hr₁
    refine ⟨c', ?_, hr⟩
    rw [hpiece, hrun, List.reverse_append, List.reverse_reverse, List.append_assoc]
  | pair hhigh hfirst hlow hsecond _ ih =>
    obtain ⟨c₁, hpiece, hr₁⟩ := iterate_pair sofar hhigh hfirst hlow hsecond h
    obtain ⟨c', hrun, hr⟩ := ih _ hr₁
    refine ⟨c', ?_, hr⟩
    rw [hpiece, hrun, List.reverse_append, List.reverse_reverse, List.append_assoc]

/-! ## Strings that decode -/

/-- A unit is read in one way only. -/
theorem codeUnit_unique {b₁ b₂ b₃ b₄ : UInt8} {unit unit' : Nat}
    (hrun : codeUnit c = .ok (unit', c')) (hunit : unitOfHex? b₁ b₂ b₃ b₄ = some unit)
    (h : c.rest = b₁ :: b₂ :: b₃ :: b₄ :: rest) : unit' = unit ∧ c'.rest = rest := by
  obtain ⟨c₁, hrun', hr⟩ := codeUnit_run hunit h
  rw [hrun] at hrun'
  cases hrun'
  exact ⟨rfl, hr⟩

/-- Where an escape by number is read, its number is a character. -/
theorem numbered_of_iterate {sofar : List UInt8} (h : c.rest = 0x5C :: 0x75 :: rest)
    (hrun : iterate piece sofar c = .ok (found, c')) :
    ∃ x c₁, numbered ((c.pass [0x5C] (0x75 :: rest)).pass [0x75] rest) = .ok (x, c₁) := by
  have hpiece : ∀ {r c₁}, piece sofar c = .ok (r, c₁) →
      ∃ x c₁, numbered ((c.pass [0x5C] (0x75 :: rest)).pass [0x75] rest) = .ok (x, c₁) := by
    intro r c₁ hpiece
    unfold piece at hpiece
    rw [bind_of_ok (byte_cons h), if_neg (by decide), if_pos rfl] at hpiece
    obtain ⟨_, c₂, hescape, -⟩ := bind_ok hpiece
    unfold escape at hescape
    rw [bind_of_ok (byte_cons rfl)] at hescape
    simp only [show lettered? 0x75 = none by decide, if_true] at hescape
    obtain ⟨x, hx, -⟩ := map_ok hescape
    exact ⟨x, c₂, hx⟩
  rcases iterate_ok (Consumes.progresses consumes_piece) hrun with hdone | ⟨_, _, hmore, -⟩
  · exact hpiece hdone
  · exact hpiece hmore

/-- Behind the first half of a pair stands the second one. -/
theorem pair_of_secondHalf {high : Nat} {x : Char} (hbody : Body text)
    (h : c.rest = text ++ 0x22 :: rest) (hrun : secondHalf high c = .ok (x, c')) :
    ∃ d₁ d₂ d₃ d₄ low later, text = 0x5C :: 0x75 :: d₁ :: d₂ :: d₃ :: d₄ :: later ∧
      unitOfHex? d₁ d₂ d₃ d₄ = some low ∧ isLowSurrogate low = true ∧ Body later := by
  unfold secondHalf at hrun
  cases hbody with
  | nil =>
    rw [bind_of_ok (byte_cons h), if_neg (by decide)] at hrun
    cases hrun
  | @plain b text hb _ =>
    obtain ⟨-, -, hslash⟩ := hb
    rw [bind_of_ok (byte_cons h), if_neg (by rintro rfl; exact hslash rfl)] at hrun
    cases hrun
  | @letter l b text hl _ =>
    have hne : l ≠ 0x75 := by
      rintro rfl
      cases hl
    rw [bind_of_ok (byte_cons h), if_pos rfl, bind_of_ok (byte_cons rfl), if_neg hne] at hrun
    cases hrun
  | @number d₁ d₂ d₃ d₄ low later hlow hlater =>
    rw [bind_of_ok (byte_cons h), if_pos rfl, bind_of_ok (byte_cons rfl), if_pos rfl] at hrun
    obtain ⟨low', c₁, hunit, hrun⟩ := bind_ok hrun
    obtain ⟨rfl, -⟩ := codeUnit_unique hunit hlow rfl
    refine ⟨d₁, d₂, d₃, d₄, low', later, rfl, hlow, ?_, hlater⟩
    cases hsecond : isLowSurrogate low' with
    | true => rfl
    | false =>
      simp only [hsecond, Bool.false_eq_true, if_false] at hrun
      cases hrun

/-- A string that is read stands for some bytes. -/
theorem unescapes_of_iterate (hbody : Body text) {sofar : List UInt8}
    (h : c.rest = text ++ 0x22 :: rest) (hrun : iterate piece sofar c = .ok (found, c')) :
    ∃ stands, Unescapes text stands := by
  -- a pair is two escapes, so that the induction is on the length
  induction hn : text.length using Nat.strongRecOn generalizing text sofar c with
  | ind n ih =>
    cases hbody with
    | nil => exact ⟨[], .nil⟩
    | @plain b text hb hbody =>
      rw [List.cons_append] at h
      rw [iterate_piece (piece_plain hb h)] at hrun
      obtain ⟨stands, hstands⟩ := ih text.length (by simp [← hn]) hbody rfl hrun rfl
      exact ⟨_, .plain hb hstands⟩
    | @letter l b text hl hbody =>
      obtain ⟨c₁, hpiece, hr₁⟩ := iterate_lettered sofar hl h
      rw [hpiece] at hrun
      have hlt : text.length < n := by
        simp only [← hn, List.length_cons]
        omega
      obtain ⟨stands, hstands⟩ := ih text.length hlt hbody hr₁ hrun rfl
      exact ⟨_, .letter hl hstands⟩
    | @number b₁ b₂ b₃ b₄ unit text hunit hbody =>
      obtain ⟨x, c₁, hnumbered⟩ := numbered_of_iterate h hrun
      obtain ⟨unit', c₂, hcode, hnumbered⟩ := bind_ok hnumbered
      obtain ⟨rfl, hr₂⟩ := codeUnit_unique hcode hunit rfl
      cases hlow : isLowSurrogate unit' with
      | true =>
        simp only [hlow, if_true] at hnumbered
        cases hnumbered
      | false =>
        cases hhigh : isHighSurrogate unit' with
        | false =>
          obtain ⟨c₃, hpiece, hr₃⟩ := iterate_number sofar hunit hlow hhigh h
          rw [hpiece] at hrun
          have hlt : text.length < n := by
            simp only [← hn, List.length_cons]
            omega
          obtain ⟨stands, hstands⟩ := ih text.length hlt hbody hr₃ hrun rfl
          exact ⟨_, .number hunit hlow hhigh hstands⟩
        | true =>
          simp only [hlow, hhigh, Bool.false_eq_true, if_false, if_true] at hnumbered
          obtain ⟨d₁, d₂, d₃, d₄, low, later, rfl, hunit₂, hsecond, hlater⟩ :=
            pair_of_secondHalf hbody hr₂ hnumbered
          obtain ⟨c₃, hpiece, hr₃⟩ := iterate_pair sofar hunit hhigh hunit₂ hsecond h
          rw [hpiece] at hrun
          have hlt : later.length < n := by
            simp only [← hn, List.length_cons]
            omega
          obtain ⟨stands, hstands⟩ := ih later.length hlt hlater hr₃ hrun rfl
          exact ⟨_, .pair hunit hhigh hunit₂ hsecond hstands⟩

/-- A string that spells a text is decoded as this text. -/
theorem decode_ok {s : String} (hspells : Spells text s) (h : c.rest = text ++ 0x22 :: rest) :
    ∃ c', decode c = .ok (s, c') ∧ c'.rest = rest := by
  obtain ⟨c', hrun, hr⟩ := iterate_unescapes hspells [] h
  have hbytes : bytes c = .ok (Utf8.encode s.toList, c') := hrun
  refine ⟨c', ?_, hr⟩
  unfold decode
  rw [bind_of_ok hbytes]
  simp only [Utf8.decode?_encode, String.ofList_toList]
  rfl

/-- A string that decodes spells the text that it is decoded as. -/
theorem spells_of_decode {s : String} (hbody : Body text) (h : c.rest = text ++ 0x22 :: rest)
    (hdecode : decode c = .ok (s, c')) : Spells text s ∧ c'.rest = rest := by
  obtain ⟨found, cs, hbytes, hcs, rfl⟩ := string_ok hdecode
  obtain ⟨stands, hstands⟩ := unescapes_of_iterate hbody h hbytes
  obtain ⟨c₁, hrun, hr⟩ := iterate_unescapes hstands [] h
  have heq : (Except.ok (stands, c₁) : Except Fault _) = .ok (found, c') := hrun.symm.trans hbytes
  cases heq
  refine ⟨?_, hr⟩
  unfold Spells
  rw [String.toList_ofList, Utf8.encode_of_decode? hcs]
  exact hstands

/-- A string spells one text at most. -/
theorem Spells.unique {s s' : String} (h : Spells text s) (h' : Spells text s') : s = s' := by
  obtain ⟨c₁, hrun, -⟩ := decode_ok (c := .ofText (text ++ [0x22])) h rfl
  obtain ⟨c₂, hrun', -⟩ := decode_ok (c := .ofText (text ++ [0x22])) h' rfl
  rw [hrun] at hrun'
  cases hrun'
  rfl

end BackupReport.Json.Text
