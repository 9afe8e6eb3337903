import Mathlib.Logic.Function.Iterate
import BackupReport.Proofs.Stream.Items

/-!
# Calls on a stream

A stream is called for one item after the other, and may be called again behind the last of them.
The calls return the items in order and then nothing, however often the stream is called
(`call_drainOver`): a message takes a byte, so that there are never more items than bytes and one
more, and where nothing or a fault was returned nothing comes any more (`Spent`).

All that is asked of the decoder is that it takes a byte.  The messages may be values of any kind,
also those that do not show their own end (`consumes_tree`).
-/

namespace BackupReport.Json

open Decoder

variable {α : Type} {decode : Decoder α}

/-! ## Values of any kind -/

theorem consumes_decodeUnsigned (negative : Bool) : Consumes (Number.decodeUnsigned negative) := by
  refine (consumes_scan _ _).bind fun m => ?_
  cases m.number? with
  | none => exact .refuseHere _
  | some n => exact .pure n

theorem consumes_number : Consumes Number.decode := by
  refine Built.bind_consumes .peek fun r => ?_
  split
  · exact built_eat.bind_consumes fun _ => consumes_decodeUnsigned true
  · exact consumes_decodeUnsigned false

namespace Tree

/-- What stands behind the key of a member. -/
theorem built_behindKey {inner : Decoder Tree} (h : Built inner) (sofar : List (String × Tree)) :
    Built (Text.decode >>= fun key => colon >>= fun _ => inner >>= fun value =>
      pure (.more ((key, value) :: sofar)) :
      Decoder (Step (List (String × Tree)) (List (String × Tree)))) :=
  .bind built_text fun _ => .bind built_colon fun _ => .bind h fun _ => .pure _

theorem built_member {inner : Decoder Tree} (h : Built inner) (sofar : List (String × Tree)) :
    Built (member inner sofar) := by
  refine .bind (built_nextMember _) fun another => ?_
  split
  · exact built_behindKey h sofar
  · exact .bind built_eat fun _ => .pure _

theorem progresses_member {inner : Decoder Tree} (h : Built inner) : Progresses (member inner) :=
  Consumes.progresses fun sofar => consumes_nextMember_bind (built_behindKey h sofar)
    (advances_eat.bind fun _ => .pure _)

section Levels

variable {inner : Option (Decoder Tree)}

theorem built_decodeWith (h : ∀ d ∈ inner, Built d ∧ Consumes d) : Built (decodeWith inner) := by
  refine built_onLead fun lead => ?_
  cases lead with
  | null | yes | no => exact .bind built_eat fun _ => .bind (built_word _) fun _ => .pure _
  | minus | digit => exact built_number.map _
  | quote => exact .bind built_eat fun _ => built_text.map _
  | list =>
    cases inner with
    | none => exact .refuseNext _
    | some d =>
      obtain ⟨hbuilt, hconsumes⟩ := h d rfl
      exact .bind built_eat fun _ => (built_entries hbuilt hconsumes).map _
  | object =>
    cases inner with
    | none => exact .refuseNext _
    | some d =>
      have hbuilt := (h d rfl).1
      exact .bind built_eat fun _ =>
        Built.map (.iterate _ (progresses_member hbuilt) (built_member hbuilt)) _
  | other => exact .refuseNext _

theorem consumes_decodeWith (h : ∀ d ∈ inner, Built d ∧ Consumes d) :
    Consumes (decodeWith inner) := by
  refine consumes_onLead fun lead => ?_
  cases lead with
  | null | yes | no => exact advances_eat.bind fun _ => .bind (built_word _) fun _ => .pure _
  | minus | digit => exact (consumes_number.map _).advances
  | quote => exact advances_eat.bind fun _ => built_text.map _
  | list =>
    cases inner with
    | none => exact (refuses_refuseNext _).advances
    | some d =>
      obtain ⟨hbuilt, hconsumes⟩ := h d rfl
      exact advances_eat.bind fun _ => (built_entries hbuilt hconsumes).map _
  | object =>
    cases inner with
    | none => exact (refuses_refuseNext _).advances
    | some d =>
      have hbuilt := (h d rfl).1
      exact advances_eat.bind fun _ =>
        Built.map (.iterate _ (progresses_member hbuilt) (built_member hbuilt)) _
  | other => exact (refuses_refuseNext _).advances

end Levels

/-- A value that is nested to any depth takes a byte. -/
theorem consumes_decodeWithin (depth : Nat) :
    Built (decodeWithin depth) ∧ Consumes (decodeWithin depth) := by
  induction depth with
  | zero => exact ⟨built_decodeWith nofun, consumes_decodeWith nofun⟩
  | succ depth ih =>
    have h : ∀ d ∈ some (decodeWithin depth), Built d ∧ Consumes d := by
      rintro d hd
      cases hd
      exact ih
    exact ⟨built_decodeWith h, consumes_decodeWith h⟩

end Tree

theorem consumes_tree : Consumes Tree.decode := (Tree.consumes_decodeWithin _).2

/-! ## One call -/

namespace Messages

variable {m m' : Messages} {r : Option (Except Fault α)} {item : Except Fault α}

/-- A stream that returns nothing and stays as it is. -/
def Spent (decode : Decoder α) (m : Messages) : Prop := m.next decode = (none, m)

/-- How a call on a stream ends: it returns a message, which takes a byte, or else it is the last
that returns anything. -/
inductive Next (decode : Decoder α) (m : Messages) :
    Option (Except Fault α) → Messages → Prop
  | message {m' : Messages} (a : α) : m'.cursor.rest.length < m.cursor.rest.length →
      Next decode m (some (.ok a)) m'
  | last {m' : Messages} (r : Option (Except Fault α)) : (∀ a, r ≠ some (.ok a)) →
      Spent decode m' → Next decode m r m'

theorem spent_failed (c : Cursor) : Spent decode ⟨c, true⟩ := rfl

/-- Behind the gap at the end of a stream there is only its end. -/
theorem spent_end {c c' : Cursor} (h : message? decode c = .ok (none, c')) :
    Spent decode ⟨c', false⟩ := by
  obtain ⟨l, c₁, hg, h⟩ := bind_ok h
  cases l with
  | none =>
    obtain ⟨-, rfl⟩ := pure_ok h
    have hend : (message? decode).run c₁ = .ok (none, c₁) := message?_end (gap_again hg)
    simp only [Spent, next, hend, Bool.false_eq_true, if_false]
  | some b =>
    obtain ⟨a, c₂, -, h⟩ := bind_ok h
    split at h
    · cases (pure_ok h).1
    · obtain ⟨_, c₃, -, h⟩ := bind_ok h
      cases (pure_ok h).1

theorem next_cases (hd : Consumes decode) (m : Messages) :
    ∃ r m', m.next decode = (r, m') ∧ Next decode m r m' := by
  obtain ⟨c, failed⟩ := m
  cases failed with
  | true => exact ⟨none, _, rfl, .last none (by simp) (spent_failed c)⟩
  | false =>
    simp only [next, Bool.false_eq_true, if_false]
    cases hm : (message? decode).run c with
    | error f => exact ⟨_, _, rfl, .last _ (by simp) (spent_failed c)⟩
    | ok r =>
      obtain ⟨_ | a, c'⟩ := r
      · exact ⟨_, _, rfl, .last none (by simp) (spent_end hm)⟩
      · exact ⟨_, _, rfl, .message a (message?_length hd hm)⟩

/-! ## All calls -/

/-- The stream behind some calls. -/
def after (decode : Decoder α) (n : Nat) (m : Messages) : Messages :=
  (fun m => (m.next decode).2)^[n] m

/-- What a call returns behind some others. -/
def call (decode : Decoder α) (n : Nat) (m : Messages) : Option (Except Fault α) :=
  ((m.after decode n).next decode).1

theorem call_zero (h : m.next decode = (r, m')) : m.call decode 0 = r := congrArg Prod.fst h

theorem call_succ (h : m.next decode = (r, m')) (n : Nat) :
    m.call decode (n + 1) = m'.call decode n :=
  congrArg (fun m => call decode n m) (congrArg Prod.snd h)

/-- A spent stream returns nothing, however often it is called. -/
theorem call_spent (h : Spent decode m) (n : Nat) : m.call decode n = none := by
  induction n with
  | zero => exact call_zero h
  | succ n ih => rw [call_succ h, ih]

theorem call_last (h : m.next decode = (r, m')) (hm' : Spent decode m') (n : Nat) :
    m.call decode n = r.toList[n]? := by
  cases n with
  | zero =>
    rw [call_zero h]
    cases r <;> rfl
  | succ n =>
    rw [call_succ h, call_spent hm']
    cases r <;> rfl

theorem drainOver_spent (h : Spent decode m) (bound : List UInt8) :
    (drainOver decode bound m).1 = [] := by
  cases bound <;> rw [drainOver, h]

theorem drainOver_last (h : m.next decode = (r, m')) (hm' : Spent decode m')
    (bound : List UInt8) : (drainOver decode bound m).1 = r.toList := by
  cases r with
  | none => cases bound <;> rw [drainOver, h] <;> rfl
  | some item =>
    cases bound with
    | nil => rw [drainOver, h]; rfl
    | cons b bound =>
      rw [drainOver, h]
      exact congrArg (item :: ·) (drainOver_spent hm' bound)

/-- Calls return the items in order and then nothing: the bound on their number is never in the way,
for a message takes a byte, and what is no message is the last. -/
theorem call_drainOver (hd : Consumes decode) (bound : List UInt8) (n : Nat) (m : Messages)
    (h : m.cursor.rest.length ≤ bound.length) :
    m.call decode n = (drainOver decode bound m).1[n]? := by
  induction bound generalizing m n with
  | nil =>
    obtain ⟨r, m', hnext, hcases⟩ := next_cases hd m
    cases hcases with
    | message a hlt => exact absurd (Nat.lt_of_lt_of_le hlt h) (Nat.not_lt_zero _)
    | last r _ hspent => rw [call_last hnext hspent, drainOver_last hnext hspent]
  | cons b bound ih =>
    obtain ⟨r, m', hnext, hcases⟩ := next_cases hd m
    cases hcases with
    | message a hlt =>
      rw [drainOver, hnext]
      cases n with
      | zero => exact call_zero hnext
      | succ n =>
        rw [call_succ hnext]
        exact ih n m' (by simp only [List.length_cons] at h; omega)
    | last r _ hspent => rw [call_last hnext hspent, drainOver_last hnext hspent]

theorem length_drainOver_le (bound : List UInt8) (m : Messages) :
    (drainOver decode bound m).1.length ≤ bound.length + 1 := by
  induction bound generalizing m with
  | nil => rw [drainOver]; split <;> simp
  | cons b bound ih =>
    rw [drainOver]
    split
    · exact Nat.succ_le_succ (ih _)
    · exact Nat.zero_le _

theorem after_succ (n : Nat) (m : Messages) :
    m.after decode (n + 1) = ((m.after decode n).next decode).2 :=
  Function.iterate_succ_apply' _ n m

/-- A message takes a byte. -/
theorem call_message (hd : Consumes decode) {n : Nat} {a : α}
    (h : m.call decode n = some (.ok a)) :
    (m.after decode (n + 1)).cursor.rest.length < (m.after decode n).cursor.rest.length := by
  obtain ⟨r, m', hnext, hcases⟩ := next_cases hd (m.after decode n)
  rw [call, hnext] at h
  rw [after_succ, hnext]
  cases hcases with
  | message a' hlt => exact hlt
  | last r hr _ => exact absurd h (hr a)

/-- Behind a fault nothing is returned. -/
theorem call_fault (hd : Consumes decode) {n : Nat} {f : Fault}
    (h : m.call decode n = some (.error f)) : m.call decode (n + 1) = none := by
  obtain ⟨r, m', hnext, hcases⟩ := next_cases hd (m.after decode n)
  rw [call, hnext] at h
  rw [call, after_succ, hnext]
  cases hcases with
  | message a hlt => cases h
  | last r _ hspent => exact congrArg Prod.fst hspent

/-- How the calls on a stream go. -/
structure Drains (decode : Decoder α) (s : Source) : Prop where
  /-- There is at most one more item than bytes. -/
  length_le : ((ofSource s).items decode).length ≤ s.bytes.length + 1
  /-- The calls return the items in order, and nothing behind the last of them. -/
  call_eq : ∀ n, (ofSource s).call decode n = ((ofSource s).items decode)[n]?
  /-- Every item but the last is a message. -/
  message : ∀ {n}, n + 1 < ((ofSource s).items decode).length →
    ∃ a, ((ofSource s).items decode)[n]? = some (.ok a)
  /-- A fault is the last item. -/
  fault : ∀ {n f}, ((ofSource s).items decode)[n]? = some (.error f) →
    n + 1 = ((ofSource s).items decode).length
  /-- Every message takes a byte. -/
  takes : ∀ {n a}, ((ofSource s).items decode)[n]? = some (.ok a) →
    ((ofSource s).after decode (n + 1)).cursor.rest.length <
      ((ofSource s).after decode n).cursor.rest.length

theorem length_reachable_le (s : Source) : s.reachable.length ≤ s.bytes.length := by
  unfold Source.reachable
  split
  · exact List.length_take_le' _ _
  · exact Nat.le_refl _

theorem drains_of_consumes (hd : Consumes decode) (s : Source) : Drains decode s := by
  have hcall : ∀ n, (ofSource s).call decode n = ((ofSource s).items decode)[n]? :=
    fun n => call_drainOver hd _ n _ (Nat.le_refl _)
  have hfault : ∀ {n f}, ((ofSource s).items decode)[n]? = some (.error f) →
      n + 1 = ((ofSource s).items decode).length := by
    intro n f h
    obtain ⟨hlt, -⟩ := List.getElem?_eq_some_iff.1 h
    rw [← hcall] at h
    have hnone := call_fault hd h
    rw [hcall, List.getElem?_eq_none_iff] at hnone
    omega
  refine ⟨?_, hcall, fun {n} hn => ?_, hfault, fun h => call_message hd ((hcall _).trans h)⟩
  · have hbytes : (ofSource s).cursor.rest.length ≤ s.bytes.length := by
      rw [ofSource, Source.cursor_eq]
      exact length_reachable_le s
    exact Nat.le_trans (length_drainOver_le _ _) (Nat.succ_le_succ hbytes)
  · cases hitem : ((ofSource s).items decode)[n]? with
    | none =>
      rw [List.getElem?_eq_none_iff] at hitem
      omega
    | some item =>
      cases item with
      | ok a => exact ⟨a, rfl⟩
      | error f => exact absurd (hfault hitem) (Nat.ne_of_lt hn)

end Messages

/-- Whatever bytes a source has, however it hands them out and wherever it fails, the calls on a
stream of messages or of values of any kind return at most one item more than there are bytes: all
of them messages but the last, which may be a fault.  Behind the last item nothing is returned,
however often the stream is called. -/
theorem stream_drains (s : Source) :
    Messages.Drains Message.decode s ∧ Messages.Drains Tree.decode s :=
  ⟨Messages.drains_of_consumes delimited_message.consumes s,
    Messages.drains_of_consumes consumes_tree s⟩

/-- A number that goes on with a letter is a fault, and the last item. -/
example : ((Messages.ofSource (.ofBytes [0x31, 0x20, 0x32, 0x78, 0x33])).items Tree.decode).map
    Except.isOk = [true, false] := by decide +kernel

end BackupReport.Json
