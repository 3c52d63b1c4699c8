/-
# Concurrent registrations

`add` of `chat/src/config/users.rs`, called from the tasks of many connections at
once (`listen_client`, `chat/src/network/server/mod.rs`).  It counts the accounts,
then writes the password, the role and seven more fields of the new one, and
returns whether the count was zero.  Each access takes the lock of the file on its
own, so that the accesses of different calls interleave.

The count and the first write are two accesses.  Two calls that both count before
either writes are both the first: both return `true`, and both accounts are owners
(`two_owners`).  And a call for the name of the owner's account writes its role
again.  These are the only two ways to go wrong: when all calls have returned, one
has returned `true`, and its account is the one owner, exactly if no step of the run
was one of them (`first_registration_iff`).
-/

import Why2.Chat.AccountStore

namespace Why2

open Lib

/-! ### The calls -/

/-- One call of `add`: what it found of the number of accounts, once it has counted them,
and how many of its writes are done. -/
structure AddCall where
  username : String
  hash : String
  firstUser : Option Bool
  done : ℕ
deriving DecidableEq

/-- The write that is next. -/
def AddCall.next (call : AddCall) : Option Write :=
  call.firstUser.bind fun firstUser => (Write.add call.username call.hash firstUser)[call.done]?

/-- What the call has returned. -/
def AddCall.result (call : AddCall) : Option Bool := if call.next = none then call.firstUser else none

/-- A call begins, counts the accounts, or does its next write. -/
inductive AddAction
  | add (username hash : String)
  | len (i : ℕ)
  | write (i : ℕ)
deriving DecidableEq

/-- The file and the calls, in the order they began. -/
structure Registrations where
  users : Users
  calls : List AddCall

namespace Registrations

/-- No account and no call. -/
def start : Registrations := ⟨∅, []⟩

/-- One access to the file, or the begin of a call. -/
def step (s : Registrations) : AddAction → Option Registrations
  | .add username hash => some { s with calls := s.calls ++ [⟨username, hash, none, 0⟩] }
  | .len i =>
    (s.calls[i]?.filter fun call => call.firstUser = none).map fun call =>
      { s with calls := s.calls.set i { call with firstUser := some (s.users.len = 0) } }
  | .write i =>
    s.calls[i]?.bind fun call => call.next.map fun w =>
      ⟨s.users.apply w, s.calls.set i { call with done := call.done + 1 }⟩

/-- Every call has returned. -/
def Returned (s : Registrations) : Prop := ∀ call ∈ s.calls, call.result ≠ none

/-- Exactly one call has returned `true`, and the one owner is the account of that call. -/
def FirstWins (s : Registrations) : Prop :=
  ∃ (i : ℕ) (call : AddCall), s.calls[i]? = some call ∧ call.result = some true ∧
    (∀ (j : ℕ) (call' : AddCall), s.calls[j]? = some call' → call'.result = some true → j = i) ∧
    ∀ username, s.users.role username = some .owner ↔ username = call.username

/-- A count that finds no account finds no call that counted none before; and the role of
an account that is an owner's is not written again by a call that was not the first. -/
def Alone (s : Registrations) : AddAction → Prop
  | .add _ _ => True
  | .len _ => s.users.len = 0 → ∀ call ∈ s.calls, call.firstUser ≠ some true
  | .write i => ∀ call ∈ s.calls[i]?, call.next = some (.setRole call.username .user) →
    s.users.role call.username ≠ some .owner

instance (s : Registrations) (a : AddAction) : Decidable (s.Alone a) :=
  match a with
  | .add _ _ => .isTrue trivial
  | .len _ => inferInstanceAs (Decidable (_ → ∀ call ∈ s.calls, _))
  | .write i => inferInstanceAs (Decidable (∀ call ∈ s.calls[i]?, _))

/-! ### Two owners -/

/-- Two calls, that count before either writes. -/
def bothCount : List AddAction :=
  [.add "alice" "hash", .add "bob" "hash", .len 0, .len 1] ++ List.replicate 9 (.write 0) ++
    List.replicate 9 (.write 1)

/-- The run in which two registrations find no user. -/
theorem bothCount_run : (exec step start bothCount).map (fun s =>
    (s.calls.map AddCall.result, s.users.role "alice", s.users.role "bob")) =
      some ([some true, some true], some .owner, some .owner) := by
  decide +kernel

/-- The results of the calls tell whether all have returned. -/
theorem returned_of_results {s : Registrations} {results : List (Option Bool)}
    (h : s.calls.map AddCall.result = results) (hsome : none ∉ results) (hne : results ≠ []) :
    s.calls ≠ [] ∧ s.Returned := by
  refine ⟨fun hnil => hne ?_, fun call hcall hnone => hsome ?_⟩
  · rw [← h, hnil]
    rfl
  · rw [← h, ← hnone]
    exact List.mem_map_of_mem hcall

/-- **Two registrations make two owners**, and both calls return `true`. -/
theorem two_owners :
    ¬∀ (actions : List AddAction) (s : Registrations), exec step start actions = some s →
      s.calls ≠ [] → s.Returned → s.FirstWins := by
  intro h
  obtain ⟨s, hs, hfacts⟩ := Option.map_eq_some_iff.1 bothCount_run
  obtain ⟨hresults, halice, hbob⟩ : _ ∧ _ ∧ _ := by simpa only [Prod.mk.injEq] using hfacts
  obtain ⟨hcalls, hreturned⟩ := returned_of_results hresults (by decide) (by decide)
  obtain ⟨i, call, -, -, -, howner⟩ := h bothCount s hs hcalls hreturned
  exact absurd (((howner "alice").1 halice).trans ((howner "bob").1 hbob).symm) (by decide)

end Registrations

/-! ### One write -/

/-- A write that sets no role. -/
def Write.KeepsRole (w : Write) : Prop :=
  (∃ key value, w.change = .userField key value ∧ key ≠ "role") ∨ ∃ key value, w.change = .profileField key value

/-- What the writes of a registration are: the role is the second one. -/
theorem Write.getElem?_add {username hash : String} {firstUser : Bool} {d : ℕ} {w : Write}
    (h : (Write.add username hash firstUser)[d]? = some w) :
    w.account = username ∧
      if d = 1 then w = .setRole username (if firstUser then .owner else .user) else w.KeepsRole := by
  match d with
  | 0 =>
    obtain rfl := Option.some.inj h
    exact ⟨rfl, .inl ⟨"password", hash, rfl, by decide⟩⟩
  | 1 =>
    obtain rfl := Option.some.inj h
    exact ⟨rfl, rfl⟩
  | d + 2 =>
    rw [if_neg (by omega)]
    rw [Write.add, List.cons_append, List.cons_append, List.cons_append, List.cons_append,
      List.getElem?_cons_succ, List.getElem?_cons_succ] at h
    have hmem := List.mem_of_getElem? h
    rcases List.mem_append.1 hmem with hmem | hmem
    · rcases List.mem_append.1 hmem with hcolor | hprofile
      · obtain ⟨key, hkey, rfl⟩ := List.mem_map.1 hcolor
        refine ⟨rfl, .inl ⟨key, noColor, rfl, ?_⟩⟩
        rintro rfl
        revert hkey
        decide
      · obtain ⟨key, -, rfl⟩ := List.mem_map.1 hprofile
        exact ⟨rfl, .inr ⟨key, "", rfl⟩⟩
    · obtain rfl := List.mem_singleton.1 hmem
      exact ⟨rfl, .inr ⟨_, _, rfl⟩⟩

/-- The role after a write that sets none. -/
theorem Users.role_apply_keepsRole (users : Users) {w : Write} (h : w.KeepsRole) (username : String) :
    (users.apply w).role username = users.role username := by
  by_cases hname : username = w.account
  · subst hname
    have hnew : ∀ o : Option UserEntry, (o.getD .new).role = o.bind UserEntry.role := by
      rintro (_ | entry) <;> rfl
    rcases h with ⟨key, value, hchange, hkey⟩ | ⟨key, value, hchange⟩
    · rw [Users.role, Users.apply, hchange]
      simp only [writeUserField, AList.lookup_insert, Option.bind_some]
      rw [UserEntry.role_insert_ne rfl hkey, hnew]
      rfl
    · rw [Users.role, Users.apply, hchange]
      simp only [writeProfileField, AList.lookup_insert, Option.bind_some]
      exact hnew _
  · rw [Users.role, Users.lookup_apply_ne hname]
    rfl

/-- The roles after a role is written. -/
theorem Users.role_apply_setRole (users : Users) (account : String) (role : Role) (username : String) :
    (users.apply (.setRole account role)).role username =
      if username = account then some role else users.role username := by
  by_cases hname : username = account
  · subst hname
    rw [if_pos rfl, Users.role]
    simp only [Users.apply, Write.setRole, writeUserField, AList.lookup_insert, Option.bind_some]
    exact UserEntry.role_insert_role rfl
  · rw [if_neg hname, Users.role, Users.lookup_apply_ne hname]
    rfl

namespace AddCall

variable {call : AddCall} {w : Write}

/-- The role a call gives its account. -/
def givenRole (call : AddCall) : Role := if call.firstUser = some true then .owner else .user

/-- The owner is who found no user. -/
theorem givenRole_eq_owner_iff : call.givenRole = .owner ↔ call.firstUser = some true := by
  unfold givenRole
  split_ifs with h
  · exact iff_of_true rfl h
  · exact iff_of_false (by decide) h

/-- **What one write of a call does to the roles.** -/
theorem role_apply (h : call.next = some w) (users : Users) (username : String) :
    (users.apply w).role username =
      if call.done = 1 ∧ username = call.username then some call.givenRole else users.role username := by
  obtain ⟨firstUser, hfirst, hw⟩ := Option.bind_eq_some_iff.1 h
  obtain ⟨haccount, hrest⟩ := Write.getElem?_add hw
  by_cases hdone : call.done = 1
  · rw [if_pos hdone] at hrest
    have hgiven : (if firstUser = true then Role.owner else Role.user) = call.givenRole := by
      cases firstUser <;> simp [givenRole, hfirst]
    rw [hrest, hgiven, Users.role_apply_setRole]
    simp only [hdone, true_and]
  · rw [if_neg hdone] at hrest
    rw [Users.role_apply_keepsRole users hrest, if_neg fun hboth => hdone hboth.1]

/-- The second write is the role. -/
theorem next_eq_setRole_iff : call.next = some (.setRole call.username .user) ↔
    call.firstUser = some false ∧ call.done = 1 := by
  constructor
  · intro h
    obtain ⟨firstUser, hfirst, hw⟩ := Option.bind_eq_some_iff.1 h
    obtain ⟨-, hrest⟩ := Write.getElem?_add hw
    by_cases hdone : call.done = 1
    · rw [if_pos hdone] at hrest
      refine ⟨?_, hdone⟩
      cases firstUser with
      | false => exact hfirst
      | true => exact absurd (congrArg Write.change hrest) (by simp [Write.setRole, Role.name])
    · rw [if_neg hdone] at hrest
      rcases hrest with ⟨key, value, hchange, hkey⟩ | ⟨key, value, hchange⟩
      · exact absurd (Change.userField.inj hchange).1.symm hkey
      · cases hchange
  · rintro ⟨hfirst, hdone⟩
    rw [next, hfirst, hdone]
    rfl

/-- A call that has returned has written all, the role among it. -/
theorem result_spec {firstUser : Bool} (h : call.result = some firstUser) :
    call.firstUser = some firstUser ∧ 2 ≤ call.done := by
  unfold result at h
  split_ifs at h with hnext
  refine ⟨h, ?_⟩
  rw [next, h, Option.bind_some, List.getElem?_eq_none_iff] at hnext
  exact le_trans (Nat.le_add_left 2 7) hnext

end AddCall

namespace Registrations

variable {s s' : Registrations} {i j : ℕ} {call c : AddCall} {calls : List AddCall}

/-! ### The calls that counted no account -/

/-- The call found no account. -/
def IsFirst (calls : List AddCall) (i : ℕ) (call : AddCall) : Prop :=
  calls[i]? = some call ∧ call.firstUser = some true

/-- A call that has just begun is none of them. -/
theorem isFirst_append (username hash : String) :
    IsFirst (calls ++ [⟨username, hash, none, 0⟩]) j c ↔ IsFirst calls j c := by
  refine ⟨fun ⟨hj, hfirst⟩ => ⟨?_, hfirst⟩, fun ⟨hj, hfirst⟩ => ⟨?_, hfirst⟩⟩
  · rw [List.getElem?_append] at hj
    split_ifs at hj with hlt
    · exact hj
    · obtain rfl := List.mem_singleton.1 (List.mem_of_getElem? hj)
      cases hfirst
  · rw [List.getElem?_append_left (List.getElem?_eq_some_iff.1 hj).1]
    exact hj

/-- A call that moves on is the first one if it was. -/
theorem isFirst_set_self (hi : calls[i]? = some call) (call' : AddCall) :
    IsFirst (calls.set i call') i c ↔ c = call' ∧ call'.firstUser = some true := by
  rw [IsFirst, List.getElem?_set_self (List.getElem?_eq_some_iff.1 hi).1, Option.some_inj]
  refine ⟨fun ⟨heq, hfirst⟩ => ⟨heq.symm, heq ▸ hfirst⟩, fun ⟨heq, hfirst⟩ => ⟨heq.symm, heq ▸ hfirst⟩⟩

/-- The other calls are the first as before. -/
theorem isFirst_set_ne (hne : j ≠ i) (call' : AddCall) :
    IsFirst (calls.set i call') j c ↔ IsFirst calls j c := by
  rw [IsFirst, List.getElem?_set_ne hne.symm, IsFirst]

/-- A call that writes keeps being one of them. -/
theorem IsFirst.write (hi : calls[i]? = some call) (h : IsFirst calls j c) :
    ∃ c', IsFirst (calls.set i { call with done := call.done + 1 }) j c' ∧ c'.username = c.username ∧
      c.done ≤ c'.done := by
  by_cases hji : j = i
  · subst hji
    obtain rfl := Option.some.inj (hi.symm.trans h.1)
    exact ⟨_, (isFirst_set_self hi _).2 ⟨rfl, h.2⟩, rfl, Nat.le_succ _⟩
  · exact ⟨c, (isFirst_set_ne hji _).2 h, rfl, le_rfl⟩

/-- And it was one of them before. -/
theorem IsFirst.of_write (hi : calls[i]? = some call)
    (h : IsFirst (calls.set i { call with done := call.done + 1 }) j c) :
    ∃ c', IsFirst calls j c' ∧
      ((j = i ∧ c' = call ∧ c = { call with done := call.done + 1 }) ∨ (j ≠ i ∧ c' = c)) := by
  by_cases hji : j = i
  · subst hji
    obtain ⟨rfl, hread⟩ := (isFirst_set_self hi _).1 h
    exact ⟨call, ⟨hi, hread⟩, .inl ⟨rfl, rfl, rfl⟩⟩
  · exact ⟨c, (isFirst_set_ne hji _).1 h, .inr ⟨hji, rfl⟩⟩

/-- And a call that counts was none of them. -/
theorem IsFirst.ne_unread (hi : calls[i]? = some call) (hnone : call.firstUser = none)
    (h : IsFirst calls j c) : j ≠ i := by
  rintro rfl
  obtain rfl := Option.some.inj (hi.symm.trans h.1)
  exact absurd (hnone.symm.trans h.2) (by decide)

/-- What a step is. -/
theorem step_cases {a : AddAction} (h : s.step a = some s') :
    (∃ username hash, a = .add username hash ∧
      s' = { s with calls := s.calls ++ [⟨username, hash, none, 0⟩] }) ∨
    (∃ i call, a = .len i ∧ s.calls[i]? = some call ∧ call.firstUser = none ∧
      s' = { s with calls := s.calls.set i { call with firstUser := some (s.users.len = 0) } }) ∨
    ∃ i call w, a = .write i ∧ s.calls[i]? = some call ∧ call.next = some w ∧
      s' = ⟨s.users.apply w, s.calls.set i { call with done := call.done + 1 }⟩ := by
  cases a with
  | add username hash => exact .inl ⟨username, hash, rfl, (Option.some.inj h).symm⟩
  | len i =>
    obtain ⟨call, hcall, rfl⟩ := Option.map_eq_some_iff.1 h
    obtain ⟨hi, hnone⟩ := Option.filter_eq_some_iff.1 hcall
    exact .inr (.inl ⟨i, call, rfl, hi, of_decide_eq_true hnone, rfl⟩)
  | write i =>
    obtain ⟨call, hi, hwrite⟩ := Option.bind_eq_some_iff.1 h
    obtain ⟨w, hw, rfl⟩ := Option.map_eq_some_iff.1 hwrite
    exact .inr (.inr ⟨i, call, w, rfl, hi, hw, rfl⟩)

/-! ### What holds in every run -/

/-- A call that has not counted has not written; once one has counted or there is an account,
one has counted none; and an owner is the account of such a call, with the role written. -/
structure Base (s : Registrations) : Prop where
  unread : ∀ call ∈ s.calls, call.firstUser = none → call.done = 0
  first : (s.users.len ≠ 0 ∨ ∃ call ∈ s.calls, call.firstUser ≠ none) → ∃ i call, IsFirst s.calls i call
  owner : ∀ username, s.users.role username = some .owner →
    ∃ i call, IsFirst s.calls i call ∧ call.username = username ∧ 2 ≤ call.done

/-- Nobody has called. -/
theorem base_start : Base start := by
  refine ⟨by simp [start], fun h => ?_, fun username h => ?_⟩
  · rcases h with h | ⟨call, hcall, -⟩
    · exact absurd rfl h
    · cases hcall
  · cases h

/-- A new call has done nothing. -/
theorem Base.add (hbase : s.Base) (username hash : String) :
    Base { s with calls := s.calls ++ [⟨username, hash, none, 0⟩] } := by
  refine ⟨fun call hcall hnone => ?_, fun h => ?_, fun username' howner => ?_⟩
  · rcases List.mem_append.1 hcall with hcall | hcall
    · exact hbase.unread call hcall hnone
    · rw [List.mem_singleton.1 hcall]
  · obtain ⟨j, c, hfirst⟩ : ∃ j c, IsFirst s.calls j c := by
      refine hbase.first (h.imp_right ?_)
      rintro ⟨call, hcall, hread⟩
      rcases List.mem_append.1 hcall with hcall | hcall
      · exact ⟨call, hcall, hread⟩
      · rw [List.mem_singleton.1 hcall] at hread
        exact absurd rfl hread
    exact ⟨j, c, (isFirst_append username hash).2 hfirst⟩
  · obtain ⟨j, c, hfirst, hc⟩ := hbase.owner username' howner
    exact ⟨j, c, (isFirst_append username hash).2 hfirst, hc⟩

/-- A call that has counted the users has written nothing. -/
theorem Base.len (hbase : s.Base) (hi : s.calls[i]? = some call) (hnone : call.firstUser = none) :
    Base { s with calls := s.calls.set i { call with firstUser := some (s.users.len = 0) } } := by
  refine ⟨fun call' hcall' hnone' => ?_, fun _ => ?_, fun username howner => ?_⟩
  · rcases List.mem_or_eq_of_mem_set hcall' with hcall' | rfl
    · exact hbase.unread call' hcall' hnone'
    · cases hnone'
  · by_cases hlen : s.users.len = 0
    · exact ⟨i, _, (isFirst_set_self hi _).2 ⟨rfl, by simp [hlen]⟩⟩
    · obtain ⟨j, c, hfirst⟩ := hbase.first (.inl hlen)
      exact ⟨j, c, (isFirst_set_ne (hfirst.ne_unread hi hnone) _).2 hfirst⟩
  · obtain ⟨j, c, hfirst, hc⟩ := hbase.owner username howner
    exact ⟨j, c, (isFirst_set_ne (hfirst.ne_unread hi hnone) _).2 hfirst, hc⟩

/-- A write is the next one of its call. -/
theorem Base.write (hbase : s.Base) (hi : s.calls[i]? = some call) {w : Write} (hw : call.next = some w) :
    Base ⟨s.users.apply w, s.calls.set i { call with done := call.done + 1 }⟩ := by
  obtain ⟨firstUser, hfirstUser, -⟩ := Option.bind_eq_some_iff.1 hw
  have hread : call.firstUser ≠ none := by rw [hfirstUser]; exact Option.some_ne_none _
  refine ⟨fun call' hcall' hnone' => ?_, fun _ => ?_, fun username howner => ?_⟩
  · rcases List.mem_or_eq_of_mem_set hcall' with hcall' | rfl
    · exact hbase.unread call' hcall' hnone'
    · exact absurd hnone' hread
  · obtain ⟨j, c, hfirst⟩ := hbase.first (.inr ⟨call, List.mem_of_getElem? hi, hread⟩)
    obtain ⟨c', hc', -⟩ := hfirst.write hi
    exact ⟨j, c', hc'⟩
  · rw [AddCall.role_apply hw] at howner
    split_ifs at howner with hrole
    · obtain ⟨hdone, rfl⟩ := hrole
      have hgiven : call.firstUser = some true := AddCall.givenRole_eq_owner_iff.1 (Option.some.inj howner)
      exact ⟨i, _, (isFirst_set_self hi _).2 ⟨rfl, hgiven⟩, rfl, by simp [hdone]⟩
    · obtain ⟨j, c, hfirst, hname, hdone⟩ := hbase.owner username howner
      obtain ⟨c', hc', hname', hdone'⟩ := hfirst.write hi
      exact ⟨j, c', hc', hname'.trans hname, hdone.trans hdone'⟩

/-- Every access keeps the invariant. -/
theorem Base.step (hbase : s.Base) {a : AddAction} (h : s.step a = some s') : s'.Base := by
  obtain ⟨username, hash, -, rfl⟩ | ⟨i, call, -, hi, hnone, rfl⟩ | ⟨i, call, w, -, hi, hw, rfl⟩ :=
    step_cases h
  · exact hbase.add username hash
  · exact hbase.len hi hnone
  · exact hbase.write hi hw

/-! ### What the condition keeps -/

/-- One call at most has counted no account, and its account is an owner once it has written
the role. -/
structure Sound (s : Registrations) : Prop where
  one : ∀ {i j call call'}, IsFirst s.calls i call → IsFirst s.calls j call' → i = j
  owner : ∀ {i call}, IsFirst s.calls i call → 2 ≤ call.done → s.users.role call.username = some .owner

/-- Nobody is the first yet. -/
theorem sound_start : Sound start := ⟨fun h => (by cases h.1), fun h => (by cases h.1)⟩

/-- A new call is not the first yet. -/
theorem sound_add_iff (username hash : String) :
    Sound { s with calls := s.calls ++ [⟨username, hash, none, 0⟩] } ↔ s.Sound := by
  have hsame : ∀ {j c}, IsFirst (s.calls ++ [⟨username, hash, none, 0⟩]) j c ↔ IsFirst s.calls j c :=
    isFirst_append username hash
  exact ⟨fun h => ⟨fun hi hj => h.one (hsame.2 hi) (hsame.2 hj), fun hi => h.owner (hsame.2 hi)⟩,
    fun h => ⟨fun hi hj => h.one (hsame.1 hi) (hsame.1 hj), fun hi => h.owner (hsame.1 hi)⟩⟩

/-- A count keeps it exactly if it finds an account, or no call that found none. -/
theorem sound_len_iff (hbase : s.Base) (hi : s.calls[i]? = some call) (hnone : call.firstUser = none) :
    Sound { s with calls := s.calls.set i { call with firstUser := some (s.users.len = 0) } } ↔
      s.Sound ∧ s.Alone (.len i) := by
  have hold : ∀ {j c}, IsFirst s.calls j c →
      IsFirst (s.calls.set i { call with firstUser := some (s.users.len = 0) }) j c :=
    fun hfirst => (isFirst_set_ne (hfirst.ne_unread hi hnone) _).2 hfirst
  constructor
  · refine fun h => ⟨⟨fun hj hk => h.one (hold hj) (hold hk), fun hj => h.owner (hold hj)⟩, ?_⟩
    intro hlen c hc hfirst
    obtain ⟨j, hj⟩ := List.mem_iff_getElem?.1 hc
    have hself : IsFirst (s.calls.set i { call with firstUser := some (s.users.len = 0) }) i _ :=
      (isFirst_set_self hi _).2 ⟨rfl, by simp [hlen]⟩
    exact IsFirst.ne_unread hi hnone ⟨hj, hfirst⟩ (h.one (hold ⟨hj, hfirst⟩) hself)
  · rintro ⟨hsound, halone⟩
    have hfrom : ∀ {j c}, IsFirst (s.calls.set i { call with firstUser := some (s.users.len = 0) }) j c →
        (j = i ∧ c.done = 0 ∧ s.users.len = 0) ∨ IsFirst s.calls j c := by
      intro j c hfirst
      by_cases hji : j = i
      · subst hji
        obtain ⟨rfl, hread⟩ := (isFirst_set_self hi _).1 hfirst
        exact .inl ⟨rfl, hbase.unread call (List.mem_of_getElem? hi) hnone,
          of_decide_eq_true (Option.some.inj hread)⟩
      · exact .inr ((isFirst_set_ne hji _).1 hfirst)
    have hother : ∀ {j c}, s.users.len = 0 → ¬IsFirst s.calls j c :=
      fun hlen hfirst => halone hlen _ (List.mem_of_getElem? hfirst.1) hfirst.2
    refine ⟨fun hj hk => ?_, fun hj hdone => ?_⟩
    · rcases hfrom hj with ⟨rfl, -, hlen⟩ | hj
      · rcases hfrom hk with ⟨rfl, -⟩ | hk
        · rfl
        · exact absurd hk (hother hlen)
      · rcases hfrom hk with ⟨-, -, hlen⟩ | hk
        · exact absurd hj (hother hlen)
        · exact hsound.one hj hk
    · rcases hfrom hj with ⟨-, hzero, -⟩ | hj
      · omega
      · exact hsound.owner hj hdone

section write

variable {w : Write} (hi : s.calls[i]? = some call) (hw : call.next = some w)
include hi hw

/-- Where the calls are sound after a write, no call but the owner's own has written the role. -/
theorem Sound.of_write (hbase : s.Base)
    (h : Sound ⟨s.users.apply w, s.calls.set i { call with done := call.done + 1 }⟩) :
    s.Sound ∧ s.Alone (.write i) := by
  have hrole := AddCall.role_apply hw s.users
  have hone : ∀ {j k c c'}, IsFirst s.calls j c → IsFirst s.calls k c' → j = k := by
    intro j k c c' hj hk
    obtain ⟨_, hj', -⟩ := hj.write hi
    obtain ⟨_, hk', -⟩ := hk.write hi
    exact h.one hj' hk'
  have hkept : ∀ {j c}, IsFirst s.calls j c → 2 ≤ c.done →
      ¬(call.done = 1 ∧ c.username = call.username) := by
    rintro j c hj hdone ⟨hcall, hname⟩
    have hji : j ≠ i := by
      rintro rfl
      obtain rfl := Option.some.inj (hi.symm.trans hj.1)
      omega
    have howner := h.owner ((isFirst_set_ne hji _).2 hj) hdone
    rw [hrole, if_pos ⟨hcall, hname⟩, Option.some_inj, AddCall.givenRole_eq_owner_iff] at howner
    exact hji (hone hj ⟨hi, howner⟩)
  refine ⟨⟨hone, fun hj hdone => ?_⟩, ?_⟩
  · obtain ⟨c', hc', hname, hle⟩ := hj.write hi
    have howner := h.owner hc' (hdone.trans hle)
    rw [hname, hrole, if_neg (hkept hj hdone)] at howner
    exact howner
  · rintro c hc hnext howner
    obtain rfl := Option.some.inj (hi.symm.trans hc)
    obtain ⟨j, c', hfirst, hname, hdone⟩ := hbase.owner _ howner
    exact hkept hfirst hdone ⟨(AddCall.next_eq_setRole_iff.1 hnext).2, hname⟩

/-- A write that does not take the role of an owner keeps the calls sound. -/
theorem Sound.write (hsound : s.Sound) (halone : s.Alone (.write i)) :
    Sound ⟨s.users.apply w, s.calls.set i { call with done := call.done + 1 }⟩ := by
  refine ⟨fun hj hk => ?_, fun hj hdone => ?_⟩
  · obtain ⟨_, hj', -⟩ := hj.of_write hi
    obtain ⟨_, hk', -⟩ := hk.of_write hi
    exact hsound.one hj' hk'
  rw [AddCall.role_apply hw]
  obtain ⟨c, hfirst, ⟨rfl, rfl, rfl⟩ | ⟨hji, rfl⟩⟩ := hj.of_write hi
  · split_ifs with hwrite
    · exact congrArg some (AddCall.givenRole_eq_owner_iff.2 hfirst.2)
    · have hne : c.done ≠ 1 := fun hone => hwrite ⟨hone, rfl⟩
      change 2 ≤ c.done + 1 at hdone
      have howner := hsound.owner hfirst (by omega)
      exact howner
  · have howner := hsound.owner hfirst hdone
    split_ifs with hwrite
    · -- the role of an owner, written by a call that was not the first
      obtain ⟨hone, hname⟩ := hwrite
      obtain ⟨firstUser, hread, -⟩ := Option.bind_eq_some_iff.1 hw
      have hfalse : call.firstUser = some false := by
        cases firstUser with
        | false => exact hread
        | true => exact absurd (hsound.one hfirst ⟨hi, hread⟩) hji
      rw [hname] at howner
      exact absurd howner (halone call hi (AddCall.next_eq_setRole_iff.2 ⟨hfalse, hone⟩))
    · exact howner

end write

/-- **An access stays sound exactly if it counts alone.** -/
theorem sound_step_iff (hbase : s.Base) {a : AddAction} (h : s.step a = some s') :
    s'.Sound ↔ s.Sound ∧ s.Alone a := by
  obtain ⟨username, hash, rfl, rfl⟩ | ⟨i, call, rfl, hi, hnone, rfl⟩ | ⟨i, call, w, rfl, hi, hw, rfl⟩ :=
    step_cases h
  · rw [sound_add_iff]
    exact (and_iff_left trivial).symm
  · exact sound_len_iff hbase hi hnone
  · exact ⟨fun h => Sound.of_write hi hw hbase h, fun h => Sound.write hi hw h.1 h.2⟩

/-! ### All calls returned -/

/-- A call that found no account returns `true`. -/
theorem result_of_isFirst (hreturned : s.Returned) (h : IsFirst s.calls i call) : call.result = some true := by
  have hne := hreturned call (List.mem_of_getElem? h.1)
  unfold AddCall.result at hne ⊢
  split_ifs at hne ⊢ with hnext
  · exact h.2
  · exact absurd rfl hne

/-- Once all have returned, one is the owner exactly if the run is sound. -/
theorem firstWins_iff_sound (hbase : s.Base) (hcalls : s.calls ≠ []) (hreturned : s.Returned) :
    s.FirstWins ↔ s.Sound := by
  constructor
  · rintro ⟨i, call, hi, -, hunique, howner⟩
    have hindex : ∀ {j c}, IsFirst s.calls j c → j = i :=
      fun hj => hunique _ _ hj.1 (result_of_isFirst hreturned hj)
    refine ⟨fun hj hk => (hindex hj).trans (hindex hk).symm, fun hj _ => (howner _).2 ?_⟩
    obtain rfl := hindex hj
    rw [Option.some.inj (hj.1.symm.trans hi)]
  · intro hsound
    obtain ⟨call, hmem⟩ := List.exists_mem_of_ne_nil _ hcalls
    obtain ⟨firstUser, hresult⟩ := Option.ne_none_iff_exists'.1 (hreturned call hmem)
    have hread : call.firstUser ≠ none := by
      rw [(AddCall.result_spec hresult).1]
      exact Option.some_ne_none _
    obtain ⟨i, first, hfirst⟩ := hbase.first (.inr ⟨call, hmem, hread⟩)
    have htrue := result_of_isFirst hreturned hfirst
    refine ⟨i, first, hfirst.1, htrue, fun j c hj hc => ?_, fun username => ⟨fun howner => ?_, ?_⟩⟩
    · exact hsound.one ⟨hj, (AddCall.result_spec hc).1⟩ hfirst
    · obtain ⟨j, c, hj, rfl, -⟩ := hbase.owner username howner
      obtain rfl := hsound.one hj hfirst
      rw [Option.some.inj (hj.1.symm.trans hfirst.1)]
    · rintro rfl
      exact hsound.owner hfirst (AddCall.result_spec htrue).2

/-- **The first registration wins, and exactly when.**  After any interleaving of registrations
from an empty file in which all calls have returned, exactly one call has returned `true` and the
one owner is its account if and only if no count found the file empty after another had, and no
call took the role of an owner of its name. -/
theorem first_registration_iff {actions : List AddAction} (hexec : exec step start actions = some s)
    (hcalls : s.calls ≠ []) (hreturned : s.Returned) :
    s.FirstWins ↔ Meets step Alone start actions := by
  have hbase : s.Base := exec_induct (fun _ _ _ hinv _ hstep => hinv.step hstep) base_start
    (meets_true step start actions) hexec
  have hsound : s.Sound ↔ start.Sound ∧ Meets step Alone start actions :=
    exec_iff_meets (fun _ _ _ hinv hstep => hinv.step hstep)
      (fun _ _ _ hinv hstep => sound_step_iff hinv hstep) base_start hexec
  rw [firstWins_iff_sound hbase hcalls hreturned, hsound]
  exact and_iff_right sound_start

/-- The second call counts after the first has written. -/
def oneCounts : List AddAction :=
  [.add "alice" "hash", .add "bob" "hash", .len 0, .write 0, .len 1] ++ List.replicate 9 (.write 1) ++
    List.replicate 8 (.write 0)

/-- The run in which the second finds the first. -/
theorem oneCounts_run : (exec step start oneCounts).map (fun s => s.calls.map AddCall.result) =
    some [some true, some false] := by
  decide +kernel

/-- The theorem on two calls that interleave. -/
theorem first_registration_interleaved :
    ∃ s, exec step start oneCounts = some s ∧ s.calls ≠ [] ∧ s.Returned ∧ s.FirstWins := by
  obtain ⟨s, hs, hresults⟩ := Option.map_eq_some_iff.1 oneCounts_run
  obtain ⟨hcalls, hreturned⟩ := returned_of_results hresults (by decide) (by decide)
  exact ⟨s, hs, hcalls, hreturned, (first_registration_iff hs hcalls hreturned).2 (by decide +kernel)⟩

end Registrations

end Why2
