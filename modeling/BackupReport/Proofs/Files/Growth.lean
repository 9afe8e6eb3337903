import BackupReport.Proofs.Files.Writing

/-!
# What writing leaves alone

Creating directories only ever adds directories where nothing was (`Grown`), whether it succeeds or
not.  So a file that is written is the only one whose content changes, and one that cannot be
written changes nothing but missing directories on the way to it (`grown_write`).  A plain path,
which is relative and has no dots, leads to one and the same place in all trees that start alike
(`place_plain`).
-/

namespace BackupReport.Files

variable {t t' : FileTree} {p : Path} {bytes : List UInt8} {new : Place → Prop}

/-! ## Growing trees -/

/-- A tree holds what another one holds, and more directories at most, at some places. -/
structure Grown (new : Place → Prop) (t t' : FileTree) : Prop where
  start : t'.start = t.start
  entry : ∀ q, t'.entry? q = t.entry? q ∨
    new q ∧ t.entry? q = none ∧ t'.entry? q = some .directory

namespace Grown

theorem refl (new : Place → Prop) (t : FileTree) : Grown new t t := ⟨rfl, fun _ => .inl rfl⟩

theorem trans {t₁ : FileTree} (h : Grown new t t₁) (h' : Grown new t₁ t') : Grown new t t' where
  start := h'.start.trans h.start
  entry q := by
    rcases h.entry q with hsame | ⟨hnew, hnone, hdir⟩
    · rcases h'.entry q with hsame' | ⟨hnew, hnone, hdir⟩
      · exact .inl (hsame'.trans hsame)
      · exact .inr ⟨hnew, hsame ▸ hnone, hdir⟩
    · rcases h'.entry q with hsame' | ⟨-, hnone', -⟩
      · exact .inr ⟨hnew, hnone, hsame'.trans hdir⟩
      · rw [hdir] at hnone'
        cases hnone'

/-- What is there stays. -/
theorem entry_eq (h : Grown new t t') {q : Place} {e : Entry} (he : t.entry? q = some e) :
    t'.entry? q = some e := by
  rcases h.entry q with hsame | ⟨-, hnone, -⟩
  · rw [hsame, he]
  · rw [he] at hnone
    cases hnone

end Grown

/-! ## Creating directories -/

namespace FileTree

/-- A new directory stands where nothing was. -/
theorem createDirectory_ok (h : t.createDirectory p = .ok t') :
    ∃ place, t.place p = .ok place ∧ t.entry? place = none ∧ t' = t.put place .directory := by
  unfold createDirectory at h
  obtain ⟨place, hplace, h⟩ := bind_eq_ok h
  split at h
  · cases h
  · rename_i hentry
    cases h
    exact ⟨place, hplace, hentry, rfl⟩

theorem grown_put {place : Place} (hentry : t.entry? place = none) (hnew : new place) :
    Grown new t (t.put place .directory) where
  start := rfl
  entry q := by
    by_cases hq : q = place
    · subst hq
      have hroot : q ≠ [] := ne_root_of_not_directory (by rw [hentry]; nofun)
      exact .inr ⟨hnew, hentry, entry?_put_self hroot _⟩
    · exact .inl (entry?_put_of_ne hq _)

theorem grown_createDirectory (hnew : ∀ q, t.place p = .ok q → new q) :
    Grown new t (access.createDirectory p t).2 := by
  cases h : t.createDirectory p with
  | error e =>
    simp only [access, h]
    exact .refl new t
  | ok t' =>
    obtain ⟨place, hplace, hentry, rfl⟩ := createDirectory_ok h
    simp only [access, h]
    exact grown_put hentry (hnew place hplace)

/-- To look whether a directory is there changes nothing. -/
theorem orPresent_tree (p : Path) (e : FileError) (t : FileTree) :
    (access.orPresent p e t).2 = t := by
  change ((if t.isDirectory p then pure (.ok ()) else pure (.error e) :
    StateM FileTree (Except FileError Unit)) t).2 = t
  split <;> rfl

/-- The places where directories may be missing: those that the outer paths of a path lead to, in
any tree with the same start. -/
def Leads (t : FileTree) (absolute : Bool) (names : List String) (new : Place → Prop) : Prop :=
  ∀ outer, outer <:+ names → ∀ t' : FileTree, t'.start = t.start →
    ∀ q, t'.place ⟨absolute, outer.reverse, false⟩ = .ok q → new q

theorem grown_createAll {absolute : Bool} {names : List String}
    (hnew : Leads t absolute names new) :
    Grown new t (access.createAll absolute names t).2 := by
  induction names generalizing t with
  | nil => exact .refl new t
  | cons name outer ih =>
    have hhere : ∀ t₁ : FileTree, t₁.start = t.start →
        Grown new t₁ (access.createDirectory ⟨absolute, (name :: outer).reverse, false⟩ t₁).2 :=
      fun t₁ hstart => grown_createDirectory (hnew _ (List.suffix_refl _) t₁ hstart)
    have hfirst := hhere t rfl
    unfold Access.createAll
    rw [bind_run]
    generalize access.createDirectory ⟨absolute, (name :: outer).reverse, false⟩ t = created
      at hfirst ⊢
    obtain ⟨result, t₁⟩ := created
    have hpresent : ∀ e, Grown new t
        (access.orPresent ⟨absolute, (name :: outer).reverse, false⟩ e t₁).2 := fun e => by
      rw [orPresent_tree]
      exact hfirst
    cases result with
    | ok u => exact hfirst
    | error e =>
      cases e with
      | notFound =>
        -- the outer directories first, then this one once more
        have houter : Leads t₁ absolute outer new := fun outer' hsuffix t' hstart q hq =>
          hnew outer' (hsuffix.trans (List.suffix_cons _ _)) t' (hstart.trans hfirst.start) q hq
        have hall := hfirst.trans (ih houter)
        dsimp only
        rw [bind_run]
        generalize access.createAll absolute outer t₁ = all at hall ⊢
        obtain ⟨result, t₂⟩ := all
        cases result with
        | error e => exact hall
        | ok u =>
          have hagain := hall.trans (hhere t₂ hall.start)
          dsimp only
          rw [bind_run]
          generalize access.createDirectory ⟨absolute, (name :: outer).reverse, false⟩ t₂ = created
            at hagain ⊢
          obtain ⟨result, t₃⟩ := created
          cases result with
          | ok u => exact hagain
          | error e =>
            dsimp only
            rw [orPresent_tree]
            exact hagain
      | _ => exact hpresent _

/-- The places on the way to what a path names. -/
def LeadsTo (t : FileTree) (p : Path) (new : Place → Prop) : Prop :=
  ∀ parent, p.parent? = some parent → t.Leads parent.absolute parent.names.reverse new

/-- Wherever the directories on the way may be. -/
theorem leadsTo_any (p : Path) (t : FileTree) : t.LeadsTo p fun _ => True :=
  fun _ _ _ _ _ _ _ _ => trivial

theorem grown_createParents (hnew : t.LeadsTo p new) :
    Grown new t (access.createParents p t).2 := by
  unfold Access.createParents
  cases hparent : p.parent? with
  | none => exact .refl new t
  | some parent => exact grown_createAll (hnew parent hparent)

/-! ## Writing files -/

/-- A file that is written is put at its place in a tree that has grown. -/
theorem write_put (hnew : t.LeadsTo p new) (h : access.write p bytes t = (.ok (), t')) :
    ∃ t₁ place, Grown new t t₁ ∧ t₁.place p = .ok place ∧ p.slashEnded = false ∧
      t₁.entry? place ≠ some .directory ∧ t' = t₁.put place (.file bytes) := by
  obtain ⟨t₁, hcreate, ho⟩ := write_ok h
  obtain ⟨place, hplace, hslash, hentry, rfl⟩ := overwrite_ok ho
  have hgrown := grown_createParents hnew
  rw [hcreate] at hgrown
  exact ⟨t₁, place, hgrown, hplace, hslash, hentry, rfl⟩

/-- A file that cannot be written leaves a tree that has grown at most. -/
theorem grown_write {e : FileError} (hnew : t.LeadsTo p new)
    (h : access.write p bytes t = (.error e, t')) : Grown new t t' := by
  have hgrown := grown_createParents hnew
  unfold Access.write at h
  rw [bind_run] at h
  generalize access.createParents p t = created at h hgrown
  obtain ⟨result, t₁⟩ := created
  cases result with
  | error e =>
    cases h
    exact hgrown
  | ok u =>
    dsimp only at h
    cases ho : t₁.overwrite p bytes with
    | error e =>
      rw [access_overwrite_error ho] at h
      cases h
      exact hgrown
    | ok t₂ =>
      rw [access_overwrite_ok ho] at h
      cases h

end FileTree

/-! ## Plain paths -/

/-- A path is relative and none of its names is a dot or two dots. -/
structure Path.Plain (p : Path) : Prop where
  relative : p.absolute = false
  names : ∀ name ∈ p.names, name ≠ "." ∧ name ≠ ".."

instance (p : Path) : Decidable p.Plain :=
  decidable_of_iff (p.absolute = false ∧ ∀ name ∈ p.names, name ≠ "." ∧ name ≠ "..")
    ⟨fun h => ⟨h.1, h.2⟩, fun h => ⟨h.relative, h.names⟩⟩

/-- The place that a plain path leads to. -/
def FileTree.target (t : FileTree) (p : Path) : Place := p.names.reverse ++ t.start

/-- A place is around another one. -/
def Around (q place : Place) : Prop := q <:+ place ∧ q ≠ place

namespace FileTree

theorem follow_plain {place found : Place} {names : List String}
    (hnames : ∀ name ∈ names, name ≠ "." ∧ name ≠ "..") (h : t.follow place names = .ok found) :
    found = names.reverse ++ place := by
  induction names generalizing place with
  | nil =>
    cases h
    rfl
  | cons name later ih =>
    obtain ⟨⟨hdot, hdots⟩, hlater⟩ := List.forall_mem_cons.mp hnames
    rw [follow] at h
    split at h
    · cases h
    · cases h
    · rw [if_neg hdot, if_neg hdots] at h
      split at h
      · cases h
      · rw [ih hlater h, List.reverse_cons, List.append_assoc]
        rfl

/-- A plain path leads to one place only. -/
theorem place_plain (hp : p.Plain) {found : Place} (h : t.place p = .ok found) :
    found = t.target p := by
  obtain ⟨-, -, h⟩ := bind_eq_ok h
  rw [hp.relative] at h
  exact follow_plain hp.names h

theorem steps_plain (hp : p.Plain) : p.steps = p.names := by
  have hfilter : p.names.filter (· ≠ ".") = p.names :=
    List.filter_eq_self.mpr fun name hname => by simpa using (hp.names name hname).1
  unfold Path.steps
  split
  · rename_i later hnames
    exact absurd rfl (hp.names "." (hnames ▸ List.mem_cons_self)).1
  · exact hfilter

/-- The directories on the way to what a plain path names are around it. -/
theorem leadsTo_plain (hp : p.Plain) (t : FileTree) : t.LeadsTo p (Around · (t.target p)) := by
  intro parent hparent outer houter t' hstart q hq
  unfold Path.parent? at hparent
  split at hparent
  · cases hparent
  · rename_i hne
    rw [steps_plain hp] at hparent hne
    cases hparent
    dsimp only at houter hq
    rw [← List.tail_reverse] at houter
    obtain ⟨name, inner, hnames⟩ : ∃ name inner, p.names.reverse = name :: inner := by
      cases hcases : p.names.reverse with
      | nil =>
        rw [List.reverse_eq_nil_iff] at hcases
        exact absurd (by rw [hcases]; rfl) hne
      | cons name inner => exact ⟨name, inner, rfl⟩
    rw [hnames, List.tail_cons] at houter
    -- the outer path is plain as well, being a part of a plain one
    have hplain : Path.Plain ⟨p.absolute, outer.reverse, false⟩ := by
      refine ⟨hp.relative, fun name' hname => hp.names name' ?_⟩
      rw [← List.mem_reverse, hnames]
      exact List.mem_cons_of_mem _ (houter.mem (List.mem_reverse.mp hname))
    obtain ⟨between, rfl⟩ := houter
    rw [place_plain hplain hq, target, target, List.reverse_reverse, hstart, hnames]
    refine ⟨⟨name :: between, by simp⟩, fun heq => ?_⟩
    have hlength := congrArg List.length heq
    simp only [List.length_append, List.length_cons] at hlength
    omega

end FileTree

end BackupReport.Files
