/-
# Bans

A ban by name (`ServerBan` and `ServerPardon` in `listen_client`,
`chat/src/network/server/mod.rs`, with `chat/src/config/bans.rs`) against the
tasks that log in.  The tasks are those of `Why2.Chat.Login`, here with what
they do between the name and the id: a name without an account registers, any
other gives a password, for which the task looks at the ban list and then waits
for the hash to be compared.

The handler of a ban finds the session of the user, writes the ban and removes
that session.  A task that has looked at the list before that, or that
registers and never looks, gets its session all the same (`ban_evaded`).  A ban
holds in every run in which no such task is on its way when the handler looks
for the session, none starts before the ban is written, and no banned name
registers (`ban_holds`).
-/

import Why2.Chat.Moderation

namespace Why2

open Lib

variable {Addr : Type} [DecidableEq Addr]

/-- Where a task is between the name and the id: before it looks for the account;
registering; waiting for the password; comparing its hash; done; refused. -/
inductive PasswordPhase
  | ask
  | register
  | login
  | verify
  | accepted
  | refused
deriving DecidableEq, Repr

/-- The phases of a task that registers, has passed the ban list or is done. -/
def PasswordPhase.admitted : PasswordPhase → Bool
  | .register | .verify | .accepted => true
  | .ask | .login | .refused => false

/-- Where the `ServerBan` handler of a task is.  `inForce` says that the user has not
been pardoned since the ban was written. -/
inductive BanPhase (Addr : Type)
  | idle
  | resolved (target : String)
  | found (target : String) (session : Option Addr)
  | banned (target : String) (session : Option Addr) (inForce : Bool)
deriving DecidableEq

/-- The target of a ban that is not written yet, of a handler that has looked for its
session. -/
def BanPhase.foundTarget : BanPhase Addr → Option String
  | .found target _ => some target
  | _ => none

/-- A pardon of the user. -/
def BanPhase.pardon (username : String) : BanPhase Addr → BanPhase Addr
  | .banned target session inForce => .banned target session (inForce && target ≠ username)
  | phase => phase

/-- `users::add`: the first user is an owner. -/
def Accounts.add (accounts : Accounts) (username : String) : Accounts :=
  accounts.insert username (some (if accounts.entries.isEmpty then .owner else .user))

/-- The tasks, the accounts, the ban list and the ban handlers.  `held` lists the users
whose ban is fully processed and who have not been pardoned since. -/
structure BanServer (Addr : Type) where
  login : LoginServer Addr
  accounts : Accounts
  bans : List String
  password : Addr → PasswordPhase
  handler : Addr → BanPhase Addr
  held : List String

/-- One access to the shared state. -/
inductive BanAction (Addr : Type)
  | login (action : LoginAction Addr)
  | ask (a : Addr) (allowRegister : Bool)
  | register (a : Addr)
  | password (a : Addr) (empty : Bool)
  | verify (a : Addr) (valid : Bool)
  | deleteAccount (a : Addr)
  | resolve (a : Addr) (target : String)
  | find (a : Addr)
  | ban (a : Addr)
  | disconnect (a : Addr)
  | pardon (a : Addr) (id : ℕ)

namespace BanServer

/-- The server as it starts, with the accounts and the bans of its files. -/
def start (accounts : Accounts) (bans : List String) : BanServer Addr where
  login := .empty
  accounts := accounts
  bans := bans
  password _ := .ask
  handler _ := .idle
  held := bans

/-- The name a task has recorded, before it has an id. -/
def recordedName (s : BanServer Addr) (a : Addr) : Option String :=
  match s.login.phase a with
  | .recorded username => some username
  | _ => none

/-- The session of a task that may ban: an owner's. -/
def owner (s : BanServer Addr) (a : Addr) : Option (Authenticated Addr) :=
  match s.login.phase a, s.login.table.lookup a with
  | .session, some (.authenticated conn) => if conn.role < .owner then none else some conn
  | _, _ => none

/-- `pick_id` comes after the password. -/
def mayLogin (s : BanServer Addr) : LoginAction Addr → Bool
  | .pickId a => s.password a = .accepted
  | _ => true

/-- A step of the login, with what it means here: a task that records a name has not
been asked for the password, and a task that ends leaves its handler. -/
def afterLogin (s : BanServer Addr) (action : LoginAction Addr) (login : LoginServer Addr) :
    BanServer Addr :=
  match action with
  | .recordName a => { s with login, password := Function.update s.password a .ask }
  | .finish a => { s with login, handler := Function.update s.handler a .idle }
  | _ => { s with login }

/-- The task of `a` is told the result of a password step. -/
def enter (s : BanServer Addr) (a : Addr) (phase : PasswordPhase) : BanServer Addr :=
  { s with password := Function.update s.password a phase }

/-- The handler of `a` moves on. -/
def handle (s : BanServer Addr) (a : Addr) (phase : BanPhase Addr) : BanServer Addr :=
  { s with handler := Function.update s.handler a phase }

/-- One action. -/
def step (s : BanServer Addr) : BanAction Addr → Option (BanServer Addr)
  | .login action =>
    if s.mayLogin action then (s.login.step action).map (s.afterLogin action) else none
  | .ask a allowRegister => do
    let username ← s.recordedName a
    if s.password a = .ask then
      some (s.enter a (if (s.accounts.lookup username).isNone && allowRegister then .register else .login))
    else none
  | .register a => do
    let username ← s.recordedName a
    if s.password a = .register then
      some ({ s with accounts := s.accounts.add username }.enter a .accepted)
    else none
  | .password a empty => do
    let username ← s.recordedName a
    if s.password a = .login then
      -- An unknown user is refused by `verify_password`.
      some (s.enter a (if empty || username ∈ s.bans || (s.accounts.lookup username).isNone then .refused
        else .verify))
    else none
  | .verify a valid =>
    if s.password a = .verify then some (s.enter a (if valid then .accepted else .refused)) else none
  | .deleteAccount a =>
    match s.login.table.sessionName a with
    | none => none
    | some username => some { s with accounts := s.accounts.erase username }
  | .resolve a target => do
    let conn ← s.owner a
    if s.handler a = .idle then
      match (s.login.table.resolveUser s.accounts target).filter (· ≠ conn.username) with
      | none => some s
      | some target => some (s.handle a (.resolved target))
    else none
  | .find a =>
    match s.handler a with
    | .resolved target => some (s.handle a (.found target (s.login.table.sessionOf target)))
    | _ => none
  | .ban a =>
    match s.handler a with
    | .found target session =>
      some ({ s with bans := setBan s.bans target }.handle a (.banned target session true))
    | _ => none
  | .disconnect a =>
    match s.handler a with
    | .banned target session inForce =>
      some ({ s with
        login := { s.login with table := s.login.table.removeAll session.toList }
        held := if inForce then target :: s.held else s.held }.handle a .idle)
    | _ => none
  | .pardon a id =>
    if (s.owner a).isNone then none
    else match s.bans[id]? with
      | none => some s
      | some username =>
        some { s with
          bans := s.bans.eraseIdx id
          handler := fun a => (s.handler a).pardon username
          held := s.held.filter (· ≠ username) }

/-- No user whose ban is processed has a session. -/
def BanHolds (s : BanServer Addr) : Prop :=
  ∀ username ∈ s.held, ∀ a, s.login.table.sessionName a ≠ some username

/-! ### Evading a ban -/

/-- An owner logs in.  Another user has given their password and passed the ban list when
the owner bans them; they have no session yet.  Then their password is found right. -/
def evasion : List (BanAction ℕ) :=
  [.login (.connect 1 1 1 (.replicate 32 0) 0), .login (.keyExchange 1 ([1], [1]) 0),
    .login (.checkName 1 ⟨1, 16, "server"⟩ "anna"), .login (.recordName 1), .ask 1 true,
    .password 1 false, .verify 1 true, .login (.pickId 1),
    .login (.authenticate 1 ⟨0, 5⟩ none .owner 1 0),
    .login (.connect 2 2 2 (.replicate 32 0) 0), .login (.keyExchange 2 ([2], [2]) 0),
    .login (.checkName 2 ⟨1, 16, "server"⟩ "ben"), .login (.recordName 2), .ask 2 true,
    .password 2 false,
    .resolve 1 "ben", .find 1, .ban 1, .disconnect 1,
    .verify 2 true, .login (.pickId 2), .login (.authenticate 2 ⟨0, 5⟩ none .user 2 0)]

/-- The accounts of the two. -/
def twoAccounts : Accounts := (AList.insert "anna" (some .owner) ∅).insert "ben" (some .user)

/-- **A login in progress gets past a ban.** -/
theorem ban_evaded :
    ¬∀ (accounts : Accounts) (bans : List String) (actions : List (BanAction ℕ)) (s : BanServer ℕ),
      exec step (start accounts bans) actions = some s → s.BanHolds := by
  intro h
  have hvalues : (exec step (start twoAccounts []) evasion).map (fun s =>
      (s.held, s.login.table.sessionName 2)) = some (["ben"], some "ben") := by decide
  obtain ⟨s, hs, hvalue⟩ := Option.map_eq_some_iff.1 hvalues
  obtain ⟨hheld, hname⟩ := Prod.mk.inj hvalue
  refine h twoAccounts [] evasion s hs "ben" ?_ 2 hname
  rw [hheld]
  exact List.mem_singleton_self _

/-! ### Without such a login -/

/-- The name of a task on its way to a session. -/
def admitted (s : BanServer Addr) (a : Addr) : Option String :=
  match s.login.phase a with
  | .numbered username _ => some username
  | .recorded username => if (s.password a).admitted then some username else none
  | _ => none

/-- No handler has looked for the session of the user and not written the ban yet. -/
def NotFound (s : BanServer Addr) (username : String) : Prop :=
  ∀ a, (s.handler a).foundTarget ≠ some username

/-- The condition: when a handler looks for the session of its target, the target has one
session at most and no task on its way to another; no task passes the ban list between
that look and the ban; and no banned name registers. -/
def Undisturbed (s : BanServer Addr) : BanAction Addr → Prop
  | .ask a allowRegister => ∀ username ∈ s.recordedName a, allowRegister = true →
      s.accounts.lookup username = none → username ∉ s.bans ∧ s.NotFound username
  | .password a _ => ∀ username ∈ s.recordedName a, username ∉ s.bans → s.NotFound username
  | .find a => ∀ target, s.handler a = .resolved target → (∀ b, s.admitted b ≠ some target) ∧
      ∀ b c, s.login.table.sessionName b = some target → s.login.table.sessionName c = some target →
        b = c
  | _ => True

instance [Fintype Addr] (s : BanServer Addr) (username : String) : Decidable (s.NotFound username) :=
  inferInstanceAs (Decidable (∀ a, (s.handler a).foundTarget ≠ some username))

instance [Fintype Addr] (s : BanServer Addr) (action : BanAction Addr) :
    Decidable (s.Undisturbed action) :=
  match action with
  | .ask a allowRegister =>
    match h : s.recordedName a with
    | none => .isTrue fun _ hname => by rw [h] at hname; cases hname
    | some username =>
      decidable_of_iff (allowRegister = true → s.accounts.lookup username = none →
        username ∉ s.bans ∧ s.NotFound username) (by simp [Undisturbed, h])
  | .password a _ =>
    match h : s.recordedName a with
    | none => .isTrue fun _ hname => by rw [h] at hname; cases hname
    | some username =>
      decidable_of_iff (username ∉ s.bans → s.NotFound username) (by simp [Undisturbed, h])
  | .find a =>
    match h : s.handler a with
    | .resolved target =>
      decidable_of_iff ((∀ b, s.admitted b ≠ some target) ∧
        ∀ b c, s.login.table.sessionName b = some target → s.login.table.sessionName c = some target →
          b = c) (by simp [Undisturbed, h])
    | .idle | .found .. | .banned .. => .isTrue fun _ htarget => by rw [h] at htarget; cases htarget
  | .login .. | .register .. | .verify .. | .deleteAccount .. | .resolve .. | .ban .. |
    .disconnect .. | .pardon .. => .isTrue trivial

/-- No task is on its way to a session of the user, who has none but perhaps this one. -/
structure Clear (s : BanServer Addr) (username : String) (session : Option Addr) : Prop where
  tasks : ∀ a, s.admitted a ≠ some username
  sessions : ∀ a, s.login.table.sessionName a = some username → session = some a

/-- The invariant: of a user whose ban is processed, and of one whose session a handler
has looked for. -/
structure Inv (s : BanServer Addr) : Prop where
  held : ∀ username ∈ s.held, username ∈ s.bans ∧ s.Clear username none
  found : ∀ a username session, s.handler a = .found username session → s.Clear username session
  banned : ∀ a username session, s.handler a = .banned username session true →
    username ∈ s.bans ∧ s.Clear username session

variable {s s' : BanServer Addr} {action : BanAction Addr}

omit [DecidableEq Addr] in
theorem recordedName_iff {a : Addr} {username : String} :
    s.recordedName a = some username ↔ s.login.phase a = .recorded username := by
  unfold recordedName
  cases s.login.phase a <;> simp

omit [DecidableEq Addr] in
theorem admitted_iff {a : Addr} {username : String} :
    s.admitted a = some username ↔ (∃ id, s.login.phase a = .numbered username id) ∨
      s.login.phase a = .recorded username ∧ (s.password a).admitted = true := by
  unfold admitted
  cases s.login.phase a <;> simp [and_comm]

/-- Only a task whose password phase is set to an admitting one is newly admitted. -/
theorem admitted_enter {a b : Addr} {phase : PasswordPhase} {username : String}
    (h : (s.enter a phase).admitted b = some username) :
    s.admitted b = some username ∨
      b = a ∧ phase.admitted = true ∧ s.recordedName b = some username := by
  rcases admitted_iff.1 h with hnumbered | ⟨hrecorded, hphase⟩
  · exact .inl (admitted_iff.2 (.inl hnumbered))
  · simp only [enter] at hphase hrecorded
    rcases eq_or_ne b a with rfl | hba
    · rw [Function.update_self] at hphase
      exact .inr ⟨rfl, hphase, recordedName_iff.2 hrecorded⟩
    · rw [Function.update_of_ne hba] at hphase
      exact .inl (admitted_iff.2 (.inr ⟨hrecorded, hphase⟩))

/-- A step of the login admits nobody. -/
theorem admitted_afterLogin {action : LoginAction Addr} {login : LoginServer Addr}
    (hmay : s.mayLogin action = true) (h : s.login.step action = some login) {b : Addr}
    {username : String} (hb : (s.afterLogin action login).admitted b = some username) :
    s.admitted b = some username := by
  have hlogin : (s.afterLogin action login).login = login := by cases action <;> rfl
  obtain ⟨hrec, hnum⟩ := LoginServer.step_phase h b
  rw [admitted_iff, hlogin] at hb
  rw [admitted_iff]
  rcases hb with ⟨id, hphase⟩ | ⟨hphase, hpassword⟩
  · rcases hnum username id hphase with hsame | ⟨rfl, hrecorded⟩
    · exact .inl ⟨id, hsame⟩
    · have haccepted : s.password b = .accepted := of_decide_eq_true hmay
      exact .inr ⟨hrecorded, by rw [haccepted]; rfl⟩
  · rcases hrec username hphase with hsame | rfl
    · refine .inr ⟨hsame, ?_⟩
      cases action with
      | recordName a =>
        simp only [afterLogin] at hpassword
        rcases eq_or_ne b a with rfl | hba
        · rw [Function.update_self] at hpassword
          cases hpassword
        · rwa [Function.update_of_ne hba] at hpassword
      | _ => exact hpassword
    · simp only [afterLogin, Function.update_self] at hpassword
      cases hpassword

/-- **A task is admitted only when it registers or passes the ban list.** -/
theorem step_admitted (h : s.step action = some s') {b : Addr} {username : String}
    (hb : s'.admitted b = some username) :
    s.admitted b = some username ∨
      s.recordedName b = some username ∧
        ((action = .ask b true ∧ s.accounts.lookup username = none) ∨
          ∃ empty, action = .password b empty ∧ username ∉ s.bans) := by
  cases action with
  | login action =>
    rw [step] at h
    split_ifs at h with hmay
    obtain ⟨login, hlogin, rfl⟩ := Option.map_eq_some_iff.1 h
    exact .inl (admitted_afterLogin hmay hlogin hb)
  | ask a allowRegister =>
    obtain ⟨name, hname, h⟩ := Option.bind_eq_some_iff.1 h
    split_ifs at h with hpassword hregister
    · obtain rfl := Option.some.inj h
      rw [Bool.and_eq_true, Option.isNone_iff_eq_none] at hregister
      rcases admitted_enter hb with hold | ⟨rfl, -, hrecorded⟩
      · exact .inl hold
      · obtain rfl := Option.some.inj (hname.symm.trans hrecorded)
        exact .inr ⟨hrecorded, .inl ⟨by rw [hregister.2], hregister.1⟩⟩
    · obtain rfl := Option.some.inj h
      rcases admitted_enter hb with hold | ⟨-, hphase, -⟩
      · exact .inl hold
      · cases hphase
  | register a =>
    obtain ⟨name, hname, h⟩ := Option.bind_eq_some_iff.1 h
    split_ifs at h with hpassword
    obtain rfl := Option.some.inj h
    rcases admitted_enter hb with hold | ⟨rfl, -, hrecorded⟩
    · exact .inl hold
    · exact .inl (admitted_iff.2 (.inr ⟨recordedName_iff.1 hrecorded, by rw [hpassword]; rfl⟩))
  | password a empty =>
    obtain ⟨name, hname, h⟩ := Option.bind_eq_some_iff.1 h
    split_ifs at h with hpassword hrefused
    · obtain rfl := Option.some.inj h
      rcases admitted_enter hb with hold | ⟨-, hphase, -⟩
      · exact .inl hold
      · cases hphase
    · obtain rfl := Option.some.inj h
      simp only [Bool.or_eq_true, decide_eq_true_eq, not_or] at hrefused
      rcases admitted_enter hb with hold | ⟨rfl, -, hrecorded⟩
      · exact .inl hold
      · obtain rfl := Option.some.inj (hname.symm.trans hrecorded)
        exact .inr ⟨hrecorded, .inr ⟨empty, rfl, hrefused.1.2⟩⟩
  | verify a valid =>
    rw [step] at h
    split_ifs at h with hpassword
    all_goals
      obtain rfl := Option.some.inj h
      rcases admitted_enter hb with hold | ⟨rfl, hphase, hrecorded⟩
    · exact .inl hold
    · exact .inl (admitted_iff.2 (.inr ⟨recordedName_iff.1 hrecorded, by rw [hpassword]; rfl⟩))
    · exact .inl hold
    · cases hphase
  | deleteAccount a =>
    rw [step] at h
    split at h <;> cases h
    exact .inl hb
  | resolve a target =>
    obtain ⟨conn, hconn, h⟩ := Option.bind_eq_some_iff.1 h
    split_ifs at h
    split at h <;> cases h <;> exact .inl hb
  | find a =>
    rw [step] at h
    split at h <;> cases h
    exact .inl hb
  | ban a =>
    rw [step] at h
    split at h <;> cases h
    exact .inl hb
  | disconnect a =>
    rw [step] at h
    split at h <;> cases h
    exact .inl hb
  | pardon a id =>
    rw [step] at h
    split_ifs at h
    split at h <;> cases h <;> exact .inl hb

/-- A session is new only where a task stores its id. -/
theorem step_sessionName (h : s.step action = some s') {b : Addr} {username : String}
    (hb : s'.login.table.sessionName b = some username) :
    s.login.table.sessionName b = some username ∨ ∃ id, s.login.phase b = .numbered username id := by
  cases action with
  | login action =>
    rw [step] at h
    split_ifs at h with hmay
    obtain ⟨login, hlogin, rfl⟩ := Option.map_eq_some_iff.1 h
    have heq : (s.afterLogin action login).login = login := by cases action <;> rfl
    rw [heq] at hb
    exact LoginServer.step_sessionName hlogin hb
  | disconnect a =>
    rw [step] at h
    split at h <;> cases h
    refine .inl ?_
    simp only [handle, Connections.sessionName, Connections.identity, Connections.lookup_removeAll] at hb
    split_ifs at hb
    · cases hb
    · exact hb
  | ask a allowRegister | register a | password a empty =>
    obtain ⟨name, hname, h⟩ := Option.bind_eq_some_iff.1 h
    split_ifs at h <;> obtain rfl := Option.some.inj h <;> exact .inl hb
  | verify a valid =>
    rw [step] at h
    split_ifs at h <;> obtain rfl := Option.some.inj h <;> exact .inl hb
  | deleteAccount a | find a | ban a =>
    rw [step] at h
    split at h <;> cases h
    exact .inl hb
  | resolve a target =>
    obtain ⟨conn, hconn, h⟩ := Option.bind_eq_some_iff.1 h
    split_ifs at h
    split at h <;> cases h <;> exact .inl hb
  | pardon a id =>
    rw [step] at h
    split_ifs at h
    split at h <;> cases h <;> exact .inl hb

/-- **What is clear stays clear while the ban is on.** -/
theorem Clear.step (hcond : s.Undisturbed action) (h : s.step action = some s') {username : String}
    {session : Option Addr} (hclear : s.Clear username session)
    (hon : username ∈ s.bans ∨ ∃ a, (s.handler a).foundTarget = some username) :
    s'.Clear username session := by
  constructor
  · intro b hb
    rcases step_admitted h hb with hold | ⟨hrecorded, ⟨rfl, hnone⟩ | ⟨empty, rfl, hban⟩⟩
    · exact hclear.tasks b hold
    · obtain ⟨hban, hfound⟩ := hcond username hrecorded rfl hnone
      rcases hon with hon | ⟨a, ha⟩
      · exact hban hon
      · exact hfound a ha
    · rcases hon with hon | ⟨a, ha⟩
      · exact hban hon
      · exact hcond username hrecorded hban a ha
  · intro b hb
    rcases step_sessionName h hb with hold | ⟨id, hnumbered⟩
    · exact hclear.sessions b hold
    · exact absurd (admitted_iff.2 (.inl ⟨id, hnumbered⟩)) (hclear.tasks b)

/-- The invariant after a step, from what is new in its three parts. -/
theorem Inv.next (hinv : s.Inv) (hcond : s.Undisturbed action) (h : s.step action = some s')
    (hheld : ∀ username ∈ s'.held, username ∈ s'.bans ∧ (username ∈ s.held ∨ s'.Clear username none))
    (hfound : ∀ a username session, s'.handler a = .found username session →
      s.handler a = .found username session ∨ s'.Clear username session)
    (hbanned : ∀ a username session, s'.handler a = .banned username session true →
      username ∈ s'.bans ∧ (s.handler a = .banned username session true ∨ s'.Clear username session)) :
    s'.Inv := by
  constructor
  · intro username hmem
    obtain ⟨hban, hold | hnew⟩ := hheld username hmem
    · obtain ⟨hon, hclear⟩ := hinv.held username hold
      exact ⟨hban, hclear.step hcond h (.inl hon)⟩
    · exact ⟨hban, hnew⟩
  · intro a username session ha
    rcases hfound a username session ha with hold | hnew
    · exact (hinv.found a _ _ hold).step hcond h (.inr ⟨a, by rw [hold]; rfl⟩)
    · exact hnew
  · intro a username session ha
    obtain ⟨hban, hold | hnew⟩ := hbanned a username session ha
    · obtain ⟨hon, hclear⟩ := hinv.banned a _ _ hold
      exact ⟨hban, hclear.step hcond h (.inl hon)⟩
    · exact ⟨hban, hnew⟩

/-- The invariant after a step that leaves the bans alone, where a handler at most
resolves a name or ends. -/
theorem Inv.frame (hinv : s.Inv) (hcond : s.Undisturbed action) (h : s.step action = some s')
    (hheld : s'.held = s.held) (hbans : s'.bans = s.bans)
    (hhandler : ∀ a phase, s'.handler a = phase → s.handler a = phase ∨ phase = .idle ∨
      ∃ target, phase = .resolved target) : s'.Inv := by
  refine hinv.next hcond h ?_ ?_ ?_
  · intro username hmem
    rw [hheld] at hmem
    rw [hbans]
    exact ⟨(hinv.held username hmem).1, .inl hmem⟩
  · intro a username session ha
    rcases hhandler a _ ha with hsame | hidle | ⟨target, hresolved⟩
    · exact .inl hsame
    · cases hidle
    · cases hresolved
  · intro a username session ha
    rcases hhandler a _ ha with hsame | hidle | ⟨target, hresolved⟩
    · rw [hbans]
      exact ⟨(hinv.banned a _ _ hsame).1, .inl hsame⟩
    · cases hidle
    · cases hresolved

theorem handler_update {a b : Addr} {phase other : BanPhase Addr}
    (h : Function.update s.handler a phase b = other) :
    s.handler b = other ∨ b = a ∧ phase = other := by
  rcases update_eq_cases h with hnew | ⟨-, hold⟩
  · exact .inr hnew
  · exact .inl hold

/-- The session a handler finds is the only one. -/
theorem Clear.find {a : Addr} (hcond : s.Undisturbed (.find a)) {target : String}
    (ha : s.handler a = .resolved target) : s.Clear target (s.login.table.sessionOf target) := by
  obtain ⟨htasks, hone⟩ := hcond target ha
  refine ⟨htasks, fun b hb => ?_⟩
  obtain ⟨c, hc⟩ := Connections.exists_sessionOf hb
  rw [hc, hone b c hb (Connections.sessionName_of_sessionOf hc)]

/-- A handler that has found the session of its target. -/
theorem Inv.find (hinv : s.Inv) {a : Addr} (hcond : s.Undisturbed (.find a))
    (h : s.step (.find a) = some s') : s'.Inv := by
  have hstep := h
  rw [BanServer.step] at h
  split at h <;> cases h
  rename_i target hhandler
  refine hinv.next hcond hstep (fun username hmem => ⟨(hinv.held username hmem).1, .inl hmem⟩) ?_ ?_
  · intro b username session hb
    rcases handler_update hb with hold | ⟨-, hnew⟩
    · exact .inl hold
    · obtain ⟨rfl, rfl⟩ := BanPhase.found.inj hnew
      exact .inr ⟨(Clear.find hcond hhandler).tasks, (Clear.find hcond hhandler).sessions⟩
  · intro b username session hb
    rcases handler_update hb with hold | ⟨-, hnew⟩
    · exact ⟨(hinv.banned b _ _ hold).1, .inl hold⟩
    · cases hnew

/-- A handler that has written the ban of its target. -/
theorem Inv.ban (hinv : s.Inv) {a : Addr} (hcond : s.Undisturbed (.ban a))
    (h : s.step (.ban a) = some s') : s'.Inv := by
  have hstep := h
  rw [BanServer.step] at h
  split at h <;> cases h
  rename_i target session hhandler
  refine hinv.next hcond hstep
    (fun username hmem => ⟨ModerationServer.mem_setBan.2 (.inl (hinv.held username hmem).1), .inl hmem⟩) ?_ ?_
  · intro b username session' hb
    rcases handler_update hb with hold | ⟨-, hnew⟩
    · exact .inl hold
    · cases hnew
  · intro b username session' hb
    rcases handler_update hb with hold | ⟨-, hnew⟩
    · exact ⟨ModerationServer.mem_setBan.2 (.inl (hinv.banned b _ _ hold).1), .inl hold⟩
    · obtain ⟨rfl, rfl, -⟩ := BanPhase.banned.inj hnew
      exact ⟨ModerationServer.mem_setBan.2 (.inr rfl), .inr ((hinv.found a _ _ hhandler).step hcond hstep
        (.inr ⟨a, by rw [hhandler]; rfl⟩))⟩

/-- A handler that has removed the session of its target. -/
theorem Inv.disconnect (hinv : s.Inv) {a : Addr} (hcond : s.Undisturbed (.disconnect a))
    (h : s.step (.disconnect a) = some s') : s'.Inv := by
  have hstep := h
  rw [BanServer.step] at h
  split at h <;> cases h
  rename_i target session inForce hhandler
  refine hinv.next hcond hstep ?_ ?_ ?_
  · intro username hmem
    have hcases : username ∈ s.held ∨ inForce = true ∧ username = target := by
      simp only [handle] at hmem
      split_ifs at hmem with hforce
      · exact (List.mem_cons.1 hmem).symm.imp_right fun heq => ⟨hforce, heq⟩
      · exact .inl hmem
    rcases hcases with hold | ⟨rfl, rfl⟩
    · exact ⟨(hinv.held username hold).1, .inl hold⟩
    · -- The session found is gone, and there was no other.
      obtain ⟨hban, hclear⟩ := hinv.banned a _ _ hhandler
      refine ⟨hban, .inr ⟨hclear.tasks, fun b hb => ?_⟩⟩
      simp only [handle, Connections.sessionName, Connections.identity, Connections.lookup_removeAll] at hb
      split_ifs at hb with hgone
      · cases hb
      · exact absurd (by rw [hclear.sessions b hb]; exact List.mem_singleton_self b) hgone
  · intro b username session' hb
    rcases handler_update hb with hold | ⟨-, hnew⟩
    · exact .inl hold
    · cases hnew
  · intro b username session' hb
    rcases handler_update hb with hold | ⟨-, hnew⟩
    · exact ⟨(hinv.banned b _ _ hold).1, .inl hold⟩
    · cases hnew

/-- A pardon takes one name off the list. -/
theorem Inv.pardon (hinv : s.Inv) {a : Addr} {id : ℕ} (hcond : s.Undisturbed (.pardon a id))
    (h : s.step (.pardon a id) = some s') : s'.Inv := by
  have hstep := h
  rw [BanServer.step] at h
  split_ifs at h
  split at h <;> cases h
  · exact hinv
  rename_i pardoned hpardoned
  -- The ban of anybody else stays on the list.
  have hkeep : ∀ username, username ∈ s.bans → username ≠ pardoned → username ∈ s.bans.eraseIdx id := by
    intro username hmem hne
    obtain ⟨i, hi⟩ := List.mem_iff_getElem?.1 hmem
    refine List.mem_eraseIdx_iff_getElem?.2 ⟨i, ?_, hi⟩
    rintro rfl
    exact hne (Option.some.inj (hi.symm.trans hpardoned))
  refine hinv.next hcond hstep ?_ ?_ ?_
  · intro username hmem
    obtain ⟨hold, hne⟩ := List.mem_filter.1 hmem
    exact ⟨hkeep username (hinv.held username hold).1 (of_decide_eq_true hne), .inl hold⟩
  · intro b username session hb
    refine .inl ?_
    cases hhandler : s.handler b <;> simp [hhandler, BanPhase.pardon] at hb ⊢
    exact hb
  · intro b username session hb
    cases hhandler : s.handler b <;> simp [hhandler, BanPhase.pardon] at hb
    obtain ⟨rfl, rfl, rfl, hne⟩ := hb
    exact ⟨hkeep _ (hinv.banned b _ _ hhandler).1 hne, .inl rfl⟩

/-- **Every undisturbed action keeps the invariant.** -/
theorem Inv.step (hinv : s.Inv) (hcond : s.Undisturbed action) (h : s.step action = some s') :
    s'.Inv := by
  have hstep := h
  cases action with
  | login action =>
    rw [BanServer.step] at h
    split_ifs at h with hmay
    obtain ⟨login, hlogin, rfl⟩ := Option.map_eq_some_iff.1 h
    refine hinv.frame hcond hstep (by cases action <;> rfl) (by cases action <;> rfl) fun b phase hb => ?_
    cases action with
    | finish a =>
      rcases handler_update hb with hold | ⟨-, hidle⟩
      · exact .inl hold
      · exact .inr (.inl hidle.symm)
    | _ => exact .inl hb
  | ask a allowRegister | register a | password a empty =>
    obtain ⟨name, hname, h⟩ := Option.bind_eq_some_iff.1 h
    split_ifs at h <;> obtain rfl := Option.some.inj h <;>
      exact hinv.frame hcond hstep rfl rfl fun _ _ hb => .inl hb
  | verify a valid =>
    rw [BanServer.step] at h
    split_ifs at h <;> obtain rfl := Option.some.inj h <;>
      exact hinv.frame hcond hstep rfl rfl fun _ _ hb => .inl hb
  | deleteAccount a =>
    rw [BanServer.step] at h
    split at h <;> cases h
    exact hinv.frame hcond hstep rfl rfl fun _ _ hb => .inl hb
  | resolve a target =>
    obtain ⟨conn, hconn, h⟩ := Option.bind_eq_some_iff.1 h
    split_ifs at h
    split at h <;> cases h
    · exact hinv
    · refine hinv.frame hcond hstep rfl rfl fun b phase hb => ?_
      rcases handler_update hb with hold | ⟨-, hnew⟩
      · exact .inl hold
      · exact .inr (.inr ⟨_, hnew.symm⟩)
  | find a => exact hinv.find hcond h
  | ban a => exact hinv.ban hcond h
  | disconnect a => exact hinv.disconnect hcond h
  | pardon a id => exact hinv.pardon hcond h

/-- No session yet, and no ban in progress. -/
theorem start_inv (accounts : Accounts) (bans : List String) : (start accounts bans : BanServer Addr).Inv := by
  refine ⟨fun username hmem => ⟨hmem, ?_, ?_⟩, ?_, ?_⟩
  · exact fun a ha => by cases ha
  · exact fun a ha => by cases ha
  · exact fun a username session ha => by cases ha
  · exact fun a username session ha => by cases ha

/-- **A ban holds, in every run in which no login gets past it.**  If, whenever a handler
looks for the session of its target, the target has one session at most and no task on
its way to another, no task passes the ban list between that look and the ban, and no
banned name registers, then in every state reached no user whose ban is processed and
not pardoned has a session. -/
theorem ban_holds (accounts : Accounts) (bans : List String) (actions : List (BanAction Addr))
    {s : BanServer Addr} (hmeets : Meets step Undisturbed (start accounts bans) actions)
    (hrun : exec step (start accounts bans) actions = some s) : s.BanHolds := by
  have hinv : s.Inv := exec_induct (fun _ _ _ => Inv.step) (start_inv accounts bans) hmeets hrun
  intro username hmem a ha
  cases (hinv.held username hmem).2.sessions a ha

/-- Both users log in; the owner bans the other, who tries again. -/
def eviction : List (BanAction (Fin 3)) :=
  [.login (.connect 0 1 1 (.replicate 32 0) 0), .login (.keyExchange 0 ([1], [1]) 0),
    .login (.checkName 0 ⟨1, 16, "server"⟩ "anna"), .login (.recordName 0), .ask 0 true,
    .password 0 false, .verify 0 true, .login (.pickId 0),
    .login (.authenticate 0 ⟨0, 5⟩ none .owner 1 0),
    .login (.connect 1 2 2 (.replicate 32 0) 0), .login (.keyExchange 1 ([2], [2]) 0),
    .login (.checkName 1 ⟨1, 16, "server"⟩ "ben"), .login (.recordName 1), .ask 1 true,
    .password 1 false, .verify 1 true, .login (.pickId 1),
    .login (.authenticate 1 ⟨0, 5⟩ none .user 2 0),
    .resolve 0 "ben", .find 0, .ban 0, .disconnect 0,
    .login (.connect 2 3 3 (.replicate 32 0) 0), .login (.keyExchange 2 ([3], [3]) 0),
    .login (.checkName 2 ⟨1, 16, "server"⟩ "ben"), .login (.recordName 2), .ask 2 true,
    .password 2 false]

/-- The ban holds on that run. -/
theorem ban_holds_eviction : ∃ s : BanServer (Fin 3),
    exec step (start twoAccounts []) eviction = some s ∧
      Meets step Undisturbed (start twoAccounts []) eviction ∧ s.BanHolds ∧ s.held = ["ben"] ∧
      s.password 2 = .refused := by
  have hvalues : (exec step (start twoAccounts []) eviction).map (fun s => (s.held, s.password 2)) =
      some (["ben"], .refused) := by decide
  obtain ⟨s, hs, hvalue⟩ := Option.map_eq_some_iff.1 hvalues
  obtain ⟨hheld, hrefused⟩ := Prod.mk.inj hvalue
  have hmeets : Meets step Undisturbed (start twoAccounts []) eviction := by decide
  exact ⟨s, hs, hmeets, ban_holds twoAccounts [] eviction hmeets hs, hheld, hrefused⟩

end BanServer

end Why2
