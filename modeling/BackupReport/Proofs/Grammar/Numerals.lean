import BackupReport.Proofs.RoundTrip.Scalars

/-!
# The grammar of numbers

How a number is written, apart from how it is read: a sign, digits without a leading zero, and a
point or an exponent with at least one digit each.  Every text of this form is read as the numeral
that it writes, whatever stands behind it inside another value (`scan_ok`).  Only an exponent that
is out of all bounds is refused, and only where the value is wanted (`scan_error`).
-/

namespace BackupReport.Json

open Decoder

/-! ## What stands behind a value -/

/-- What stands behind a value inside another one: a gap, a comma or a closing byte. -/
def Stops (rest : List UInt8) : Prop :=
  ∃ b later, rest = b :: later ∧ (isGap b = true ∨ b = 0x2C ∨ b = 0x5D ∨ b = 0x7D)

theorem Ends.stops {rest : List UInt8} (h : Ends rest) : Stops rest := by
  obtain ⟨b, later, rfl, rfl | rfl⟩ := h
  · exact ⟨_, later, rfl, .inr (.inl rfl)⟩
  · exact ⟨_, later, rfl, .inl (by decide)⟩

/-- A byte that does not continue a number. -/
structure NotNumber (b : UInt8) : Prop where
  digit : isDigit b = false
  point : b ≠ 0x2E
  exponent : ¬ (b = 0x65 ∨ b = 0x45)

/-- What stands behind a value cannot continue a number. -/
theorem Stops.not_number {rest : List UInt8} (h : Stops rest) :
    ∃ b later, rest = b :: later ∧ NotNumber b := by
  obtain ⟨b, later, rfl, hb⟩ := h
  refine ⟨b, later, rfl, ?_⟩
  rcases hb with hgap | rfl | rfl | rfl
  · simp only [isGap, Bool.or_eq_true, beq_iff_eq] at hgap
    rcases hgap with ((rfl | rfl) | rfl) | rfl <;>
      exact ⟨by decide, by decide, by decide⟩
  all_goals exact ⟨by decide, by decide, by decide⟩

namespace Numeral

/-! ## How a number is written -/

/-- A row of digits. -/
def Digits (ds : List UInt8) : Prop := ∀ b ∈ ds, isDigit b = true

/-- The digits before the point: a zero alone, or a row that starts with another digit. -/
inductive Whole : List UInt8 → Prop
  | zero : Whole [0x30]
  | row {d : UInt8} {ds : List UInt8} : isDigit d = true → d ≠ 0x30 → Digits ds → Whole (d :: ds)

/-- The point with the digits after it, if there is a point. -/
inductive Fraction : Option (List UInt8) → List UInt8 → Prop
  | absent : Fraction none []
  | present {d : UInt8} {ds : List UInt8} : isDigit d = true → Digits ds →
      Fraction (some (d :: ds)) (0x2E :: d :: ds)

/-- The sign of an exponent: whether it is a minus. -/
inductive ExponentSign : Bool → List UInt8 → Prop
  | absent : ExponentSign false []
  | plus : ExponentSign false [0x2B]
  | minus : ExponentSign true [0x2D]

/-- The exponent, if there is one. -/
inductive Exponent : Option Int → List UInt8 → Prop
  | absent : Exponent none []
  | present {letter d : UInt8} {negative : Bool} {sign ds : List UInt8} :
      letter = 0x65 ∨ letter = 0x45 → ExponentSign negative sign → isDigit d = true → Digits ds →
      Exponent (some (if negative then -(digitsValue (d :: ds) : Int) else digitsValue (d :: ds)))
        (letter :: (sign ++ d :: ds))

/-- A numeral as it is written behind its sign. -/
inductive Unsigned : Numeral → List UInt8 → Prop
  | intro {negative : Bool} {whole : List UInt8} {fraction : Option (List UInt8)}
      {exponent : Option Int} {f e : List UInt8} :
      Whole whole → Fraction fraction f → Exponent exponent e →
      Unsigned ⟨negative, whole, fraction, exponent⟩ (whole ++ (f ++ e))

/-- A numeral as it is written. -/
inductive Written : Numeral → List UInt8 → Prop
  | plain {m : Numeral} {text : List UInt8} : m.negative = false → Unsigned m text →
      Written m text
  | minus {m : Numeral} {text : List UInt8} : m.negative = true → Unsigned m text →
      Written m (0x2D :: text)

/-- Whether the exponent of a numeral can be counted.  That of a zero always can, and so can one
below zero. -/
def countable (m : Numeral) : Bool :=
  match m.exponent with
  | none => true
  | some e => !(m.whole ++ m.fraction.getD []).any (· != 0x30) || e ≤ exponentLimit

/-- The value of a numeral, unless it is too large. -/
def value? (m : Numeral) : Option Number := if m.countable then m.number? else none

/-! ## Reading the parts -/

variable {c : Cursor} {rest : List UInt8} {b : UInt8}

/-- A row of digits is passed up to the first byte that is none. -/
theorem span_digits {ds : List UInt8} (hds : Digits ds) (hb : isDigit b = false)
    (h : c.rest = ds ++ b :: rest) : span isDigit c = .ok (ds, c.pass ds (b :: rest)) := by
  have htake : (ds ++ b :: rest).takeWhile isDigit = ds := by
    rw [List.takeWhile_append_of_pos hds, List.takeWhile_cons_of_neg (by simp [hb]),
      List.append_nil]
  have hdrop : (ds ++ b :: rest).dropWhile isDigit = b :: rest := by
    rw [List.dropWhile_append_of_pos hds, List.dropWhile_cons_of_neg (by simp [hb])]
  simp only [span, h, htake, hdrop]

theorem wholeDigits_ok {whole : List UInt8} (hwhole : Whole whole) (use : Use)
    (hb : isDigit b = false) (h : c.rest = whole ++ b :: rest) :
    ∃ c', wholeDigits use c = .ok (whole, c') ∧ c'.rest = b :: rest := by
  unfold wholeDigits
  cases hwhole with
  | zero =>
    obtain ⟨c', hpeek, hr⟩ := peek_cons (c := c.pass [0x30] (b :: rest)) rfl
    refine ⟨c', ?_, hr⟩
    rw [bind_of_ok (next_cons h)]
    dsimp only
    rw [if_pos rfl]
    refine (bind_of_ok hpeek).trans ?_
    simp only [hb, Bool.false_eq_true, if_false]
    rfl
  | @row d ds hd hzero hds =>
    have hspan := span_digits (c := c.pass [d] (ds ++ b :: rest)) hds hb rfl
    refine ⟨(c.pass [d] (ds ++ b :: rest)).pass ds (b :: rest), ?_, rfl⟩
    rw [bind_of_ok (next_cons h)]
    dsimp only
    rw [if_neg hzero, if_pos hd]
    exact bind_of_ok hspan

theorem fractionDigits_ok {fraction : Option (List UInt8)} {f : List UInt8}
    (hfraction : Fraction fraction f) (use : Use) (hb : isDigit b = false) (hpoint : b ≠ 0x2E)
    (h : c.rest = f ++ b :: rest) :
    ∃ c', fractionDigits use c = .ok (fraction, c') ∧ c'.rest = b :: rest := by
  unfold fractionDigits
  cases hfraction with
  | absent =>
    obtain ⟨c', hpeek, hr⟩ := peek_cons h
    refine ⟨c', ?_, hr⟩
    rw [bind_of_ok hpeek, if_neg (by simpa using hpoint)]
    rfl
  | @present d ds hd hds =>
    obtain ⟨c₁, hpeek, hr₁⟩ := peek_cons h
    have hall : Digits (d :: ds) := List.forall_mem_cons.mpr ⟨hd, hds⟩
    have hspan := span_digits (c := c₁.pass [0x2E] (d :: ds ++ b :: rest)) hall hb rfl
    obtain ⟨c', hpeek', hr'⟩ := peek_cons
      (c := (c₁.pass [0x2E] (d :: ds ++ b :: rest)).pass (d :: ds) (b :: rest)) rfl
    refine ⟨c', ?_, hr'⟩
    rw [bind_of_ok hpeek, if_pos rfl, bind_of_ok (eat_cons hr₁)]
    refine (bind_of_ok hspan).trans ?_
    refine (bind_of_ok hpeek').trans ?_
    rfl

/-! ## Reading the exponent -/

/-- A row of digits adds to what has been counted. -/
def countOn (n : Nat) (ds : List UInt8) : Nat := ds.foldl (fun n b => n * 10 + digitValue b) n

theorem le_countOn (n : Nat) (ds : List UInt8) : n ≤ countOn n ds := by
  induction ds generalizing n with
  | nil => exact Nat.le_refl n
  | cons d ds ih => exact Nat.le_trans (by omega) (ih (n * 10 + digitValue d))

/-- The digits of an exponent are counted, unless there is a limit to it that they pass. -/
theorem exponentDigits_ok {bounded : Bool} {ds : List UInt8} {n : Nat} (hds : Digits ds)
    (hb : isDigit b = false) (hlimit : bounded = true → countOn n ds ≤ exponentLimit)
    (h : c.rest = ds ++ b :: rest) :
    ∃ c', iterate (exponentDigit bounded) n c = .ok (countOn n ds, c') ∧ c'.rest = b :: rest := by
  induction ds generalizing n c with
  | nil =>
    obtain ⟨c', hpeek, hr⟩ := peek_cons h
    refine ⟨c', iterate_done (progresses_exponentDigit bounded) ?_, hr⟩
    unfold exponentDigit
    rw [bind_of_ok hpeek]
    simp only [hb, Bool.false_eq_true, if_false]
    rfl
  | cons d ds ih =>
    obtain ⟨hd, hds⟩ := List.forall_mem_cons.mp hds
    obtain ⟨c₁, hpeek, hr₁⟩ := peek_cons h
    obtain ⟨c', hlater, hr'⟩ := ih hds hlimit (c := c₁.pass [d] (ds ++ b :: rest)) rfl
    refine ⟨c', ?_, hr'⟩
    have hle := le_countOn (n * 10 + digitValue d) ds
    have hwithin : ¬ (bounded = true ∧ exponentLimit < n * 10 + digitValue d) := by
      rintro ⟨hbounded, hlt⟩
      have := hlimit hbounded
      exact absurd (Nat.lt_of_lt_of_le hlt hle) (Nat.not_lt.mpr this)
    have hstep : exponentDigit bounded n c =
        .ok (.more (n * 10 + digitValue d), c₁.pass [d] (ds ++ b :: rest)) := by
      unfold exponentDigit
      rw [bind_of_ok hpeek]
      dsimp only
      rw [if_pos hd, bind_of_ok (eat_cons hr₁), if_neg hwithin]
      rfl
    rw [iterate_more (progresses_exponentDigit bounded) hstep]
    exact hlater

/-- Digits that pass the limit are refused. -/
theorem exponentDigits_error {ds : List UInt8} {n : Nat} (hds : Digits ds) (hn : n ≤ exponentLimit)
    (hlimit : exponentLimit < countOn n ds) (h : c.rest = ds ++ b :: rest) :
    ∃ fault, iterate (exponentDigit true) n c = .error fault := by
  induction ds generalizing n c with
  | nil => exact absurd hlimit (Nat.not_lt.mpr hn)
  | cons d ds ih =>
    obtain ⟨hd, hds⟩ := List.forall_mem_cons.mp hds
    obtain ⟨c₁, hpeek, hr₁⟩ := peek_cons h
    rw [iterate_eq (progresses_exponentDigit true)]
    by_cases hpassed : exponentLimit < n * 10 + digitValue d
    · have hstep : exponentDigit true n c =
          .error (.refused .numberOutOfRange (c₁.pass [d] (ds ++ b :: rest)).taken) := by
        unfold exponentDigit
        rw [bind_of_ok hpeek]
        dsimp only
        rw [if_pos hd, bind_of_ok (eat_cons hr₁), if_pos ⟨rfl, hpassed⟩]
        rfl
      exact ⟨_, bind_of_error hstep⟩
    · have hstep : exponentDigit true n c =
          .ok (.more (n * 10 + digitValue d), c₁.pass [d] (ds ++ b :: rest)) := by
        unfold exponentDigit
        rw [bind_of_ok hpeek]
        dsimp only
        rw [if_pos hd, bind_of_ok (eat_cons hr₁), if_neg fun h => hpassed h.2]
        rfl
      rw [bind_of_ok hstep]
      exact ih hds (Nat.not_lt.mp hpassed) hlimit (c := c₁.pass [d] (ds ++ b :: rest)) rfl

theorem exponentSign_ok {negative : Bool} {sign : List UInt8} {d : UInt8}
    (hsign : ExponentSign negative sign) (hd : isDigit d = true) (h : c.rest = sign ++ d :: rest) :
    ∃ c', exponentSign c = .ok (negative, c') ∧ c'.rest = d :: rest := by
  obtain ⟨c₁, hpeek, hr₁⟩ : ∃ c₁, peek c = .ok ((sign ++ d :: rest).head?, c₁) ∧
      c₁.rest = sign ++ d :: rest := by
    cases hsign <;> exact peek_cons h
  unfold exponentSign
  rw [bind_of_ok hpeek]
  cases hsign with
  | absent =>
    have hplus : d ≠ 0x2B := by
      rintro rfl
      exact absurd hd (by decide)
    have hminus : d ≠ 0x2D := by
      rintro rfl
      exact absurd hd (by decide)
    refine ⟨c₁, ?_, hr₁⟩
    simp only [List.nil_append, List.head?_cons, if_neg hplus, if_neg hminus]
    rfl
  | plus => exact ⟨_, bind_of_ok (eat_cons hr₁), rfl⟩
  | minus => exact ⟨_, bind_of_ok (eat_cons hr₁), rfl⟩

/-- The exponent of a numeral that is passed over, or has a limit that it keeps. -/
theorem exponentPart_ok {exponent : Option Int} {e : List UInt8} (hexponent : Exponent exponent e)
    {use : Use} {nonzero : Bool} (hb : NotNumber b)
    (hlimit : use = .decoded → nonzero = true → ∀ x ∈ exponent, x ≤ exponentLimit)
    (h : c.rest = e ++ b :: rest) :
    ∃ c', exponentPart use nonzero c = .ok (exponent, c') ∧ c'.rest = b :: rest := by
  unfold exponentPart
  cases hexponent with
  | absent =>
    obtain ⟨c', hpeek, hr⟩ := peek_cons h
    refine ⟨c', ?_, hr⟩
    rw [bind_of_ok hpeek]
    dsimp only
    rw [if_neg hb.exponent]
    rfl
  | @present letter d negative sign ds hletter hsign hd hds =>
    rw [List.cons_append, List.append_assoc, List.cons_append] at h
    obtain ⟨c₁, hpeek, hr₁⟩ := peek_cons h
    obtain ⟨c₂, hs, hr₂⟩ := exponentSign_ok hsign hd
      (c := c₁.pass [letter] (sign ++ d :: (ds ++ b :: rest))) rfl
    have hbounded : (use == .decoded && nonzero && !negative) = true →
        countOn (digitValue d) ds ≤ exponentLimit := by
      intro hbounded
      simp only [Bool.and_eq_true, beq_iff_eq, Bool.not_eq_true'] at hbounded
      obtain ⟨⟨huse, hnonzero⟩, rfl⟩ := hbounded
      have hle := hlimit huse hnonzero _ rfl
      have hvalue : digitsValue (d :: ds) = countOn (digitValue d) ds := by
        simp [digitsValue, countOn]
      simp only [Bool.false_eq_true, if_false, hvalue] at hle
      exact Int.ofNat_le.mp hle
    obtain ⟨c', hcount, hr'⟩ := exponentDigits_ok hds hb.digit hbounded
      (c := c₂.pass [d] (ds ++ b :: rest)) rfl
    refine ⟨c', ?_, hr'⟩
    rw [bind_of_ok hpeek]
    dsimp only
    rw [if_pos hletter, bind_of_ok (eat_cons hr₁), bind_of_ok hs, bind_of_ok (next_cons hr₂)]
    dsimp only
    rw [if_pos hd]
    refine (bind_of_ok hcount).trans ?_
    simp [digitsValue, countOn]
    rfl

/-- An exponent above the limit is refused where it is wanted. -/
theorem exponentPart_error {exponent : Option Int} {e : List UInt8}
    (hexponent : Exponent exponent e) {x : Int} (hx : x ∈ exponent) (hlimit : exponentLimit < x)
    (h : c.rest = e ++ b :: rest) : ∃ fault, exponentPart .decoded true c = .error fault := by
  unfold exponentPart
  cases hexponent with
  | absent => cases hx
  | @present letter d negative sign ds hletter hsign hd hds =>
    rw [List.cons_append, List.append_assoc, List.cons_append] at h
    obtain ⟨c₁, hpeek, hr₁⟩ := peek_cons h
    obtain ⟨c₂, hs, hr₂⟩ := exponentSign_ok hsign hd
      (c := c₁.pass [letter] (sign ++ d :: (ds ++ b :: rest))) rfl
    have hvalue : digitsValue (d :: ds) = countOn (digitValue d) ds := by
      simp [digitsValue, countOn]
    rw [Option.mem_some_iff, hvalue] at hx
    obtain rfl : negative = false := by
      cases negative with
      | false => rfl
      | true =>
        simp only [if_true] at hx
        omega
    simp only [Bool.false_eq_true, if_false] at hx
    have hd' : digitValue d ≤ exponentLimit := by
      have := d.toNat_lt
      unfold digitValue exponentLimit
      omega
    obtain ⟨fault, hcount⟩ := exponentDigits_error hds hd' (by omega)
      (c := c₂.pass [d] (ds ++ b :: rest)) rfl
    refine ⟨fault, ?_⟩
    rw [bind_of_ok hpeek]
    dsimp only
    rw [if_pos hletter, bind_of_ok (eat_cons hr₁), bind_of_ok hs, bind_of_ok (next_cons hr₂)]
    dsimp only
    rw [if_pos hd]
    exact bind_of_error hcount

/-! ## Reading numerals -/

/-- What follows the digits before the point does not start with a digit. -/
theorem after_whole {fraction : Option (List UInt8)} {exponent : Option Int} {f e : List UInt8}
    (hfraction : Fraction fraction f) (hexponent : Exponent exponent e) (hstops : Stops rest) :
    ∃ b later, f ++ (e ++ rest) = b :: later ∧ isDigit b = false := by
  cases hfraction with
  | present => exact ⟨_, _, rfl, by decide⟩
  | absent =>
    cases hexponent with
    | present hletter =>
      refine ⟨_, _, rfl, ?_⟩
      rcases hletter with rfl | rfl <;> decide
    | absent =>
      obtain ⟨b, later, rfl, hb⟩ := hstops.not_number
      exact ⟨b, later, rfl, hb.digit⟩

/-- What follows the digits after the point starts with neither a digit nor a point. -/
theorem after_fraction {exponent : Option Int} {e : List UInt8} (hexponent : Exponent exponent e)
    (hstops : Stops rest) :
    ∃ b later, e ++ rest = b :: later ∧ isDigit b = false ∧ b ≠ 0x2E := by
  cases hexponent with
  | present hletter =>
    refine ⟨_, _, rfl, ?_⟩
    rcases hletter with rfl | rfl <;> exact ⟨by decide, by decide⟩
  | absent =>
    obtain ⟨b, later, rfl, hb⟩ := hstops.not_number
    exact ⟨b, later, rfl, hb.digit, hb.point⟩

/-- The parts of a numeral up to the exponent are read in any case. -/
theorem scan_eq {m : Numeral} {text : List UInt8} (hm : Unsigned m text) (use : Use)
    (negative : Bool) (hstops : Stops rest) (h : c.rest = text ++ rest) :
    ∃ e c₁, Exponent m.exponent e ∧ c₁.rest = e ++ rest ∧
      scan use negative c = (do
        let exponent ← exponentPart use ((m.whole ++ m.fraction.getD []).any (· != 0x30))
        pure ⟨negative, m.whole, m.fraction, exponent⟩ : Decoder Numeral) c₁ := by
  obtain ⟨hwhole, hfraction, hexponent⟩ := hm
  rename_i f e
  rw [List.append_assoc, List.append_assoc] at h
  obtain ⟨b, later, hb, hdigit⟩ := after_whole hfraction hexponent hstops
  rw [hb] at h
  obtain ⟨c₁, hw, hr₁⟩ := wholeDigits_ok hwhole use hdigit h
  rw [← hb] at hr₁
  obtain ⟨b', later', hb', hdigit', hpoint'⟩ := after_fraction hexponent hstops
  rw [hb'] at hr₁
  obtain ⟨c₂, hf, hr₂⟩ := fractionDigits_ok hfraction use hdigit' hpoint' hr₁
  rw [← hb'] at hr₂
  refine ⟨e, c₂, hexponent, hr₂, ?_⟩
  unfold scan
  rw [bind_of_ok hw, bind_of_ok hf]

/-- A numeral is read as it is written, if it is passed over or its exponent can be counted. -/
theorem scan_ok {m : Numeral} {text : List UInt8} (hm : Unsigned m text) (use : Use)
    (negative : Bool) (huse : use = .decoded → m.countable = true) (hstops : Stops rest)
    (h : c.rest = text ++ rest) :
    ∃ c', scan use negative c = .ok (⟨negative, m.whole, m.fraction, m.exponent⟩, c') ∧
      c'.rest = rest := by
  obtain ⟨e, c₁, hexponent, hr₁, hscan⟩ := scan_eq hm use negative hstops h
  obtain ⟨b, later, rfl, hb⟩ := hstops.not_number
  have hlimit : use = .decoded → (m.whole ++ m.fraction.getD []).any (· != 0x30) = true →
      ∀ x ∈ m.exponent, x ≤ exponentLimit := fun hdecoded hnonzero x hx => by
    have hcountable := huse hdecoded
    rw [Option.mem_def] at hx
    simpa only [countable, hx, hnonzero, Bool.not_true, Bool.false_or, decide_eq_true_eq]
      using hcountable
  obtain ⟨c', hpart, hr'⟩ := exponentPart_ok hexponent hb hlimit hr₁
  refine ⟨c', ?_, hr'⟩
  rw [hscan]
  exact bind_of_ok hpart

/-- A numeral whose exponent cannot be counted is refused where it is wanted. -/
theorem scan_error {m : Numeral} {text : List UInt8} (hm : Unsigned m text) (negative : Bool)
    (hcountable : m.countable = false) (hstops : Stops rest) (h : c.rest = text ++ rest) :
    ∃ fault, scan .decoded negative c = .error fault := by
  obtain ⟨e, c₁, hexponent, hr₁, hscan⟩ := scan_eq hm .decoded negative hstops h
  obtain ⟨b, later, rfl, -⟩ := hstops
  unfold countable at hcountable
  cases hx : m.exponent with
  | none =>
    rw [hx] at hcountable
    cases hcountable
  | some x =>
    simp only [hx, Bool.or_eq_false_iff, Bool.not_eq_false', decide_eq_false_iff_not,
      Int.not_le] at hcountable
    obtain ⟨hnonzero, hlimit⟩ := hcountable
    obtain ⟨fault, hpart⟩ := exponentPart_error hexponent (Option.mem_def.mpr hx) hlimit hr₁
    refine ⟨fault, ?_⟩
    rw [hscan, hnonzero]
    exact bind_of_error hpart

/-- A numeral is written with a first byte that announces a number. -/
theorem Unsigned.lead {m : Numeral} {text : List UInt8} (hm : Unsigned m text) :
    ∃ d later, text = d :: later ∧ isDigit d = true := by
  obtain ⟨hwhole, -, -⟩ := hm
  cases hwhole with
  | zero => exact ⟨_, _, rfl, by decide⟩
  | row hd => exact ⟨_, _, rfl, hd⟩

end Numeral

/-! ## Reading numbers -/

/-- The lead of a row of digits. -/
theorem lead_digit {b : UInt8} (h : isDigit b = true) : Lead.of b = .digit := by
  simp only [isDigit, Bool.and_eq_true, decide_eq_true_eq, UInt8.le_iff_toNat_le] at h
  have hne : ∀ k : UInt8, k.toNat < 0x30 ∨ 0x39 < k.toNat → b ≠ k := by
    rintro k hk rfl
    have hlow : 0x30 ≤ b.toNat := h.1
    have hhigh : b.toNat ≤ 0x39 := h.2
    omega
  unfold Lead.of
  rw [if_neg (hne _ (.inr (by decide))), if_neg (hne _ (.inr (by decide))),
    if_neg (hne _ (.inr (by decide))), if_neg (hne _ (.inl (by decide))), if_pos]
  simp only [isDigit, Bool.and_eq_true, decide_eq_true_eq, UInt8.le_iff_toNat_le]
  exact h

variable {c : Cursor} {m : Numeral} {text rest : List UInt8}

/-- The first byte of a number is that of a value, and not of `null`. -/
theorem ne_of_lead_number {b : UInt8} (hb : Lead.of b = .minus ∨ Lead.of b = .digit) :
    Lead.of b ≠ .null ∧ Lead.of b ≠ .other := by
  rcases hb with hb | hb <;> simp [hb]

/-- A numeral shows that it is a number. -/
theorem Numeral.Written.lead (hm : m.Written text) :
    ∃ b later, text = b :: later ∧ (Lead.of b = .minus ∨ Lead.of b = .digit) := by
  cases hm with
  | plain _ hm =>
    obtain ⟨d, later, rfl, hd⟩ := hm.lead
    exact ⟨d, later, rfl, .inr (lead_digit hd)⟩
  | minus _ hm => exact ⟨0x2D, _, rfl, .inl (by decide)⟩

/-- A numeral without a sign does not start with one. -/
theorem Numeral.Unsigned.peek_eq (hm : m.Unsigned text) (h : c.rest = text ++ rest) :
    ∃ d c', peek c = .ok (some d, c') ∧ d ≠ 0x2D ∧ c'.rest = text ++ rest := by
  obtain ⟨d, later, rfl, hd⟩ := hm.lead
  obtain ⟨c', hpeek, hr⟩ := peek_cons h
  refine ⟨d, c', hpeek, ?_, hr⟩
  rintro rfl
  exact absurd hd (by decide)

/-- A numeral is passed over, however large it is. -/
theorem Numeral.skip_ok (hm : m.Written text) (hstops : Stops rest) (h : c.rest = text ++ rest) :
    ∃ c', Numeral.skip c = .ok ((), c') ∧ c'.rest = rest := by
  unfold Numeral.skip
  cases hm with
  | plain _ hm =>
    obtain ⟨d, c₁, hpeek, hminus, hr₁⟩ := hm.peek_eq h
    obtain ⟨c', hscan, hr'⟩ := Numeral.scan_ok hm .skipped false (fun h => by cases h)
      hstops hr₁
    refine ⟨c', ?_, hr'⟩
    rw [bind_of_ok hpeek, if_neg (by simpa using hminus)]
    exact bind_of_ok hscan
  | @minus text _ hm =>
    obtain ⟨c₁, hpeek, hr₁⟩ := peek_cons h
    obtain ⟨c', hscan, hr'⟩ := Numeral.scan_ok hm .skipped false (fun h => by cases h)
      hstops (c := c₁.pass [0x2D] (text ++ rest)) rfl
    refine ⟨c', ?_, hr'⟩
    rw [bind_of_ok hpeek, if_pos rfl, bind_of_ok (eat_cons hr₁)]
    exact bind_of_ok hscan

namespace Number

/-- A number is read behind its sign, or refused, by its value. -/
theorem decodeUnsigned_cases (hm : m.Unsigned text) (hstops : Stops rest)
    (h : c.rest = text ++ rest) :
    (∃ x c', m.value? = some x ∧ decodeUnsigned m.negative c = .ok (x, c') ∧ c'.rest = rest) ∨
      m.value? = none ∧ ∃ fault, decodeUnsigned m.negative c = .error fault := by
  unfold decodeUnsigned Numeral.value?
  cases hcountable : m.countable with
  | false =>
    obtain ⟨fault, hscan⟩ := Numeral.scan_error hm m.negative hcountable hstops h
    exact .inr ⟨rfl, fault, bind_of_error hscan⟩
  | true =>
    obtain ⟨c', hscan, hr'⟩ := Numeral.scan_ok hm .decoded m.negative
      (fun _ => hcountable) hstops h
    rw [bind_of_ok hscan]
    cases hnumber : m.number? with
    | some x => exact .inl ⟨x, c', rfl, rfl, hr'⟩
    | none => exact .inr ⟨rfl, _, rfl⟩

/-- A number is read or refused, by its value. -/
theorem decode_cases (hm : m.Written text) (hstops : Stops rest) (h : c.rest = text ++ rest) :
    (∃ x c', m.value? = some x ∧ decode c = .ok (x, c') ∧ c'.rest = rest) ∨
      m.value? = none ∧ ∃ fault, decode c = .error fault := by
  unfold decode
  cases hm with
  | plain hnegative hm =>
    obtain ⟨d, c₁, hpeek, hminus, hr₁⟩ := hm.peek_eq h
    rw [bind_of_ok hpeek, if_neg (by simpa using hminus), ← hnegative]
    exact decodeUnsigned_cases hm hstops hr₁
  | @minus text hnegative hm =>
    obtain ⟨c₁, hpeek, hr₁⟩ := peek_cons h
    rw [bind_of_ok hpeek, if_pos rfl, bind_of_ok (eat_cons hr₁), ← hnegative]
    exact decodeUnsigned_cases hm hstops (c := c₁.pass [0x2D] (text ++ rest)) rfl

end Number

end BackupReport.Json
