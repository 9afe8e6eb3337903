import Mathlib.Data.List.Forall2
import BackupReport.Proofs.Arguments.Values
import BackupReport.Proofs.Files.Writing

/-!
# Options on a command line

A command line is read two arguments at a time, a flag and the value behind it, and each of these
pairs changes the options that were read before it.  Whether a pair can be read does not depend on
what was read before, and what a row of pairs says follows pair by pair (`Steps`); from that the
whole command line is known (`Steps.read_iff`), and so is the command (`Steps.understands`).
-/

namespace BackupReport

/-- An option on a command line: a flag, and the value behind it, whatever that looks like. -/
structure Given where
  flag : String
  value : String
deriving DecidableEq

namespace Given

/-- The arguments that give some options. -/
def spelled (given : List Given) : List String := given.flatMap fun g => [g.flag, g.value]

/-- The values that are given to a flag, in order. -/
def valuesOf (flag : String) (given : List Given) : List String :=
  given.filterMap fun g => if g.flag = flag then some g.value else none

/-- The value that is given to a flag last. -/
def lastOf (flag : String) (given : List Given) : Option String := (valuesOf flag given).getLast?

/-- An option with a flag of the given names, and a value that its flag can take. -/
structure Readable (names : List String) (g : Given) : Prop where
  known : g.flag ∈ names
  snapshot : g.flag = "--snapshot" → ∃ capture, PartsInto g.value capture
  duration : g.flag = "--duration" → ∃ n, Denotes g.value n

/-- Options with different flags may change places. -/
inductive Reordered : List Given → List Given → Prop
  | refl (given : List Given) : Reordered given given
  | swap (before after : List Given) {g g' : Given} : g.flag ≠ g'.flag →
      Reordered (before ++ g :: g' :: after) (before ++ g' :: g :: after)
  | trans {a b c : List Given} : Reordered a b → Reordered b c → Reordered a c

variable {given given' : List Given} {flag : String} {g : Given}

@[simp]
theorem spelled_cons (g : Given) (given : List Given) :
    spelled (g :: given) = g.flag :: g.value :: spelled given := rfl

theorem spelled_injective (h : spelled given = spelled given') : given = given' := by
  induction given generalizing given' with
  | nil =>
    cases given' with
    | nil => rfl
    | cons g' given' => cases h
  | cons g given ih =>
    cases given' with
    | nil => cases h
    | cons g' given' =>
      simp only [spelled_cons, List.cons.injEq] at h
      obtain ⟨hflag, hvalue, h⟩ := h
      rw [ih h]
      cases g
      cases g'
      cases hflag
      cases hvalue
      rfl

@[simp]
theorem valuesOf_nil (flag : String) : valuesOf flag [] = [] := rfl

@[simp]
theorem valuesOf_append (flag : String) (given given' : List Given) :
    valuesOf flag (given ++ given') = valuesOf flag given ++ valuesOf flag given' :=
  List.filterMap_append

@[simp]
theorem valuesOf_cons (flag : String) (g : Given) (given : List Given) :
    valuesOf flag (g :: given) =
      if g.flag = flag then g.value :: valuesOf flag given else valuesOf flag given := by
  rw [valuesOf, List.filterMap_cons]
  by_cases h : g.flag = flag
  · rw [if_pos h, if_pos h]
    rfl
  · rw [if_neg h, if_neg h]
    rfl

@[simp]
theorem lastOf_concat (flag : String) (given : List Given) (g : Given) :
    lastOf flag (given ++ [g]) = if g.flag = flag then some g.value else lastOf flag given := by
  rw [lastOf, valuesOf_append, valuesOf_cons, valuesOf_nil]
  split
  · exact List.getLast?_concat
  · rw [List.append_nil]
    rfl

theorem lastOf_congr (h : ∀ flag, valuesOf flag given = valuesOf flag given') (flag : String) :
    lastOf flag given = lastOf flag given' :=
  congrArg List.getLast? (h flag)

theorem mem_valuesOf {value : String} :
    value ∈ valuesOf flag given ↔ ⟨flag, value⟩ ∈ given := by
  rw [valuesOf, List.mem_filterMap]
  constructor
  · rintro ⟨⟨flag', value'⟩, hg, h⟩
    dsimp only at h
    split at h
    · rename_i hflag
      cases hflag
      cases h
      exact hg
    · cases h
  · intro h
    exact ⟨_, h, if_pos rfl⟩

/-- Each flag has the same values in the same order after options with other flags have moved. -/
theorem Reordered.valuesOf_eq (h : Reordered given given') (flag : String) :
    valuesOf flag given = valuesOf flag given' := by
  induction h with
  | refl => rfl
  | @swap before after g g' hne =>
    have hone : ¬ (g.flag = flag ∧ g'.flag = flag) := fun h => hne (h.1.trans h.2.symm)
    simp only [valuesOf_append, valuesOf_cons]
    split <;> split <;> simp_all
  | trans _ _ ih ih' => exact ih.trans ih'

theorem Reordered.mem_iff (h : Reordered given given') : g ∈ given ↔ g ∈ given' := by
  rw [← mem_valuesOf, h.valuesOf_eq, mem_valuesOf]

end Given

open Given

theorem toOption_congr {ε α : Type} {x y : Except ε α} (h : ∀ a, x = .ok a ↔ y = .ok a) :
    x.toOption = y.toOption := by
  cases x with
  | ok a => rw [(h a).1 rfl]
  | error e =>
    cases y with
    | ok a => cases (h a).2 rfl
    | error _ => rfl

variable {ρ : Type} {flags : Flags ρ}

/-! ## Reading one option after the other -/

/-- What an option makes of the options that were read before it. -/
def Flags.apply (flags : Flags ρ) (o : ρ) (g : Given) : Except UsageError ρ :=
  match flags g.flag with
  | some set => set g.value o
  | none => .error (.ofArgument g.flag)

theorem readOptions_spelled (given : List Given) (o : ρ) :
    readOptions flags (spelled given) o = given.foldlM flags.apply o := by
  induction given generalizing o with
  | nil => rfl
  | cons g given ih =>
    rw [spelled_cons, readOptions, List.foldlM_cons, Flags.apply]
    cases flags g.flag with
    | none => rfl
    | some set =>
      dsimp only
      congr 1
      funext o
      exact ih o

/-- Arguments that can be read come in pairs. -/
theorem spelled_of_readOptions {tokens : List String} {o o' : ρ}
    (h : readOptions flags tokens o = .ok o') : ∃ given, tokens = spelled given := by
  fun_induction readOptions flags tokens o with
  | case1 => exact ⟨[], rfl⟩
  | case2 | case3 | case5 => cases h
  | case4 flag value later o set hset ih =>
    obtain ⟨_, -, h⟩ := bind_eq_ok h
    obtain ⟨given, rfl⟩ := ih _ h
    exact ⟨⟨flag, value⟩ :: given, rfl⟩

/-- How options are read one at a time: which can be read, whatever was read before, and what the
options that were read say. -/
structure Steps (flags : Flags ρ) (start : ρ) (Readable : Given → Prop)
    (Describes : List Given → ρ → Prop) : Prop where
  readable : ∀ g o, (∃ o', flags.apply o g = .ok o') ↔ Readable g
  start : Describes [] start
  step : ∀ {given g o o'}, Describes given o → flags.apply o g = .ok o' →
    Describes (given ++ [g]) o'
  unique : ∀ {given o o'}, Describes given o → Describes given o' → o = o'

namespace Steps

variable {start o o' : ρ} {Readable : Given → Prop} {Describes : List Given → ρ → Prop}
  {given given' : List Given}

theorem exists_run (s : Steps flags start Readable Describes) :
    (∃ o', given.foldlM flags.apply o = .ok o') ↔ ∀ g ∈ given, Readable g := by
  induction given generalizing o with
  | nil => simp [pure, Except.pure]
  | cons g given ih =>
    rw [List.forall_mem_cons, ← s.readable g o]
    constructor
    · rintro ⟨o', h⟩
      obtain ⟨o₁, hg, h⟩ := bind_eq_ok h
      exact ⟨⟨o₁, hg⟩, ih.1 ⟨o', h⟩⟩
    · rintro ⟨⟨o₁, hg⟩, h⟩
      rw [List.foldlM_cons, hg]
      exact ih.2 h

theorem describes_run (s : Steps flags start Readable Describes) {before : List Given}
    (hbefore : Describes before o) (h : given.foldlM flags.apply o = .ok o') :
    Describes (before ++ given) o' := by
  induction given generalizing before o with
  | nil =>
    cases h
    rwa [List.append_nil]
  | cons g given ih =>
    obtain ⟨o₁, hg, h⟩ := bind_eq_ok h
    rw [← List.singleton_append, ← List.append_assoc]
    exact ih (s.step hbefore hg) h

/-- Arguments are read as some options exactly if they give, in pairs, options that can be read and
say this. -/
theorem read_iff (s : Steps flags start Readable Describes) {tokens : List String} :
    readOptions flags tokens start = .ok o ↔
      ∃ given, tokens = spelled given ∧ (∀ g ∈ given, Readable g) ∧ Describes given o := by
  constructor
  · intro h
    obtain ⟨given, rfl⟩ := spelled_of_readOptions h
    rw [readOptions_spelled] at h
    exact ⟨given, rfl, s.exists_run.1 ⟨o, h⟩, s.describes_run s.start h⟩
  · rintro ⟨given, rfl, hreadable, ho⟩
    obtain ⟨o', h⟩ := s.exists_run.2 hreadable
    rw [readOptions_spelled, h, s.unique ho (s.describes_run s.start h)]

end Steps

/-! ## Commands -/

/-- How a command understands its arguments.  `Allowed` says which options it accepts, `Describes`
what they say, `Complete` which records of options can be asked for, and `print` how. -/
structure Understands (name : String) (make : ρ → Command) (Allowed : List Given → Prop)
    (Describes : List Given → ρ → Prop) (Complete : ρ → Prop) (print : ρ → List Given) : Prop where
  /-- Arguments are accepted if they give, in pairs, allowed options, and else not. -/
  accepts : ∀ tokens, (∃ c, Command.ofArguments (name :: tokens) = .ok c) ↔
    ∃ given, tokens = spelled given ∧ Allowed given
  /-- What is accepted is the record of what the options say. -/
  result : ∀ given c, Command.ofArguments (name :: spelled given) = .ok c →
    ∃ o, c = make o ∧ Describes given o
  /-- Options with different flags may change places. -/
  reorder : ∀ given given', Reordered given given' →
    (Command.ofArguments (name :: spelled given)).toOption =
      (Command.ofArguments (name :: spelled given')).toOption
  /-- A record can be asked for by the options that it is printed as if it is complete, and else
  not. -/
  prints : ∀ o, Complete o ↔ Command.ofArguments (name :: spelled (print o)) = .ok (make o)

namespace Steps

variable {start o o' : ρ} {Readable : Given → Prop} {Describes : List Given → ρ → Prop}
  {Allowed : List Given → Prop} {Complete Final : ρ → Prop} {print : ρ → List Given}
  {name : String} {make : ρ → Command}

/-- A command whose options are read one at a time and then checked as a whole. -/
theorem understands (s : Steps flags start Readable Describes)
    (hcommand : ∀ tokens c, Command.ofArguments (name :: tokens) = .ok c ↔
      ∃ o, c = make o ∧ readOptions flags tokens start = .ok o ∧ Final o)
    (hmake : ∀ {o o'}, make o = make o' → o = o')
    (hreadable : ∀ {given}, Allowed given → ∀ g ∈ given, Readable g)
    (hallowed : ∀ {given o}, (∀ g ∈ given, Readable g) → Describes given o →
      (Allowed given ↔ Final o))
    (hvalues : ∀ {given given' o}, (∀ flag, valuesOf flag given = valuesOf flag given') →
      Describes given o → Describes given' o)
    (hcomplete : ∀ o, Complete o ↔
      (∀ g ∈ print o, Readable g) ∧ Describes (print o) o ∧ Final o) :
    Understands name make Allowed Describes Complete print := by
  have hok : ∀ given c, Command.ofArguments (name :: spelled given) = .ok c ↔
      ∃ o, c = make o ∧ (∀ g ∈ given, Readable g) ∧ Describes given o ∧ Final o := by
    intro given c
    rw [hcommand]
    refine exists_congr fun o => and_congr_right fun _ => ?_
    rw [s.read_iff]
    constructor
    · rintro ⟨⟨given', hspelled, hreadable, ho⟩, hfinal⟩
      rw [spelled_injective hspelled]
      exact ⟨hreadable, ho, hfinal⟩
    · rintro ⟨hreadable, ho, hfinal⟩
      exact ⟨⟨given, rfl, hreadable, ho⟩, hfinal⟩
  refine ⟨fun tokens => ⟨?_, ?_⟩, ?_, ?_, ?_⟩
  · rintro ⟨c, h⟩
    obtain ⟨o, rfl, hread, hfinal⟩ := (hcommand _ _).1 h
    obtain ⟨given, rfl, hgiven, ho⟩ := s.read_iff.1 hread
    exact ⟨given, rfl, (hallowed hgiven ho).2 hfinal⟩
  · rintro ⟨given, rfl, h⟩
    obtain ⟨o, hrun⟩ := s.exists_run.2 (hreadable h)
    have ho : Describes given o := s.describes_run s.start hrun
    exact ⟨make o, (hok _ _).2 ⟨o, rfl, hreadable h, ho, (hallowed (hreadable h) ho).1 h⟩⟩
  · intro given c h
    obtain ⟨o, hc, -, ho, -⟩ := (hok _ _).1 h
    exact ⟨o, hc, ho⟩
  · intro given given' h
    have hiff : ∀ c, Command.ofArguments (name :: spelled given) = .ok c ↔
        Command.ofArguments (name :: spelled given') = .ok c := by
      intro c
      rw [hok, hok]
      refine exists_congr fun o => and_congr_right fun _ =>
        and_congr ?_ (and_congr_left fun _ => ?_)
      · exact forall_congr' fun g => imp_congr_left h.mem_iff
      · exact ⟨hvalues h.valuesOf_eq, hvalues fun flag => (h.valuesOf_eq flag).symm⟩
    exact toOption_congr hiff
  · intro o
    rw [hok, hcomplete]
    constructor
    · exact fun h => ⟨o, rfl, h⟩
    · rintro ⟨o', ho, h⟩
      cases hmake ho
      exact h

end Steps

end BackupReport
