/-
# Logging in

The part of `listen_client` (`chat/src/network/server/mod.rs`) that gives a
session its identity, run by one task for each connected address over the
shared table `CONNECTIONS`.  A task checks that no connection has the name the
client asked for (`user_connected`), later records the name in its own entry,
asks for the password, picks the smallest session id not in use
(`get_latest_id`) and later stores it (`authenticate_client`).  Each access to
the table is one action; the tasks interleave freely.

The check and the record of a name are two actions, and so are the choice and
the store of an id.  Two tasks that are both between the two can take the same
name or the same id (`sessions_collide`); while no two tasks are, names and ids
stay distinct (`sessions_distinct`).
-/

import Why2.Chat.Connection
import Why2.Lib.Purge
import Why2.Lib.Runs
import Mathlib.Data.List.AList

namespace Why2

open Lib

variable {Addr : Type} [DecidableEq Addr]

/-- `CONNECTIONS`. -/
abbrev Connections (Addr : Type) := AList fun _ : Addr => Connection Addr

namespace Connections

/-- `DashMap::alter`: nothing happens to a missing entry. -/
def alter (f : Connection Addr → Connection Addr) (a : Addr) (table : Connections Addr) :
    Connections Addr :=
  match table.lookup a with
  | none => table
  | some conn => table.insert a (f conn)

/-- The id and the user of the session at this address. -/
def identity (table : Connections Addr) (a : Addr) : Option (ℕ × String) :=
  (table.lookup a).bind (·.identity)

/-- The user of the session at this address. -/
def sessionName (table : Connections Addr) (a : Addr) : Option String :=
  (table.identity a).map Prod.snd

/-- The session at this address. -/
def session (table : Connections Addr) (a : Addr) : Option (Authenticated Addr) :=
  match table.lookup a with
  | some (.authenticated conn) => some conn
  | _ => none

/-- `user_connected`. -/
def userConnected (username : String) (table : Connections Addr) : Bool :=
  table.entries.any fun entry => entry.2.username = some username

/-- The session ids in use. -/
def ids (table : Connections Addr) : List ℕ := table.entries.filterMap fun entry => entry.2.id

/-- `get_latest_id`.  One of the first `n + 1` numbers is not among `n` ids, so the
loop of the source ends there at the latest. -/
def getLatestId (table : Connections Addr) : ℕ :=
  ((List.range (table.ids.length + 1)).find? fun i => i ∉ table.ids).getD 0

/-! ### What the operations do -/

/-- An entry that is inserted. -/
theorem lookup_insert (conn : Connection Addr) (a : Addr) (table : Connections Addr) :
    (fun b => (table.insert a conn).lookup b) =
      Function.update (fun b => table.lookup b) a (some conn) := by
  funext b
  by_cases hba : b = a
  · rw [hba, AList.lookup_insert, Function.update_self]
  · rw [AList.lookup_insert_ne hba, Function.update_of_ne hba]

/-- An entry that is changed. -/
theorem lookup_alter (f : Connection Addr → Connection Addr) (a : Addr) (table : Connections Addr) :
    (fun b => (table.alter f a).lookup b) =
      Function.update (fun b => table.lookup b) a ((table.lookup a).map f) := by
  unfold alter
  split
  · rename_i hnone
    rw [hnone, Option.map_none, ← hnone, Function.update_eq_self a fun b => table.lookup b]
  · rename_i conn hconn
    rw [lookup_insert, hconn, Option.map_some]

/-- An entry that is erased. -/
theorem lookup_erase (a : Addr) (table : Connections Addr) :
    (fun b => (table.erase a).lookup b) = Function.update (fun b => table.lookup b) a none := by
  funext b
  by_cases hba : b = a
  · rw [hba, AList.lookup_erase, Function.update_self]
  · rw [AList.lookup_erase_ne hba, Function.update_of_ne hba]

/-- The identity of a session. -/
theorem identity_of_session {table : Connections Addr} {a : Addr} {conn : Authenticated Addr}
    (h : table.session a = some conn) : table.identity a = some (conn.id, conn.username) := by
  unfold session at h
  split at h
  · rename_i hlookup
    obtain rfl := Option.some.inj h
    rw [identity, hlookup]
    rfl
  · cases h

/-- A change that leaves the identity. -/
theorem identity_alter {f : Connection Addr → Connection Addr} {table : Connections Addr}
    (h : ∀ c, (f c).identity = c.identity) (a b : Addr) :
    (table.alter f a).identity b = table.identity b := by
  unfold identity
  rw [congrFun (lookup_alter f a table) b]
  rcases eq_or_ne b a with rfl | hba
  · rw [Function.update_self, Option.bind_map]
    exact congrArg _ (funext h)
  · rw [Function.update_of_ne hba]

/-- If a user is not connected, no entry has the name. -/
theorem userConnected_eq_false {username : String} {table : Connections Addr}
    (h : table.userConnected username = false) {a : Addr} {conn : Connection Addr}
    (hconn : table.lookup a = some conn) : conn.username ≠ some username := by
  intro hname
  have hmem : (⟨a, conn⟩ : Sigma _) ∈ table.entries := AList.mem_lookup_iff.1 hconn
  have := List.any_eq_false.1 h _ hmem
  simp [hname] at this

omit [DecidableEq Addr] in
/-- **The id picked is not in use.** -/
theorem getLatestId_notMem (table : Connections Addr) : table.getLatestId ∉ table.ids := by
  cases hfind : (List.range (table.ids.length + 1)).find? fun i => i ∉ table.ids with
  | none =>
    -- All of the `n + 1` numbers would be among the `n` ids.
    have hsub : List.range (table.ids.length + 1) ⊆ table.ids := fun i hi => by
      simpa using List.find?_eq_none.1 hfind i hi
    have hlen := (List.nodup_range.subperm hsub).length_le
    rw [List.length_range] at hlen
    omega
  | some i =>
    rw [getLatestId, hfind, Option.getD_some]
    simpa using List.find?_some hfind

/-- The latest id is new. -/
theorem getLatestId_ne {table : Connections Addr} {a : Addr} {conn : Connection Addr}
    (hconn : table.lookup a = some conn) : conn.id ≠ some table.getLatestId := by
  intro hid
  have hmem : (⟨a, conn⟩ : Sigma _) ∈ table.entries := AList.mem_lookup_iff.1 hconn
  exact table.getLatestId_notMem (List.mem_filterMap.2 ⟨_, hmem, hid⟩)

end Connections

/-! ### The tasks -/

/-- Where the task of an address is: not running; before a name is accepted; with a
name that passed the check; with the name recorded; with an id picked; in its
session. -/
inductive LoginPhase
  | idle
  | handshake
  | checked (username : String)
  | recorded (username : String)
  | numbered (username : String) (id : ℕ)
  | session
deriving DecidableEq, Repr

/-- The id a task has picked and not stored yet. -/
def LoginPhase.pickedId : LoginPhase → Option ℕ
  | .numbered _ id => some id
  | _ => none

/-- The table and every task. -/
structure LoginServer (Addr : Type) where
  table : Connections Addr
  phase : Addr → LoginPhase

/-- The settings the username loop reads. -/
structure NameRules where
  minLength : ℕ
  maxLength : ℕ
  serverUsername : String
deriving DecidableEq, Repr

/-- What the username loop asks of a name besides that it is not connected. -/
def NameRules.allows (rules : NameRules) (username : String) : Bool :=
  rules.minLength ≤ username.utf8ByteSize ∧ username.utf8ByteSize ≤ rules.maxLength ∧
    username.toList.all (fun c => c.isAlphanum || c = '_' || c = '-') ∧
    username ≠ rules.serverUsername ∧ username ≠ "everyone"

/-- One access to the table, or the end of a task. -/
inductive LoginAction (Addr : Type)
  | connect (a : Addr) (writeStream task : ℕ) (obfuscationKey : Vector U8 32) (now : Instant)
  | keyExchange (a : Addr) (keys : SharedKeys) (now : Instant)
  | checkName (a : Addr) (rules : NameRules) (username : String)
  | recordName (a : Addr)
  | pickId (a : Addr)
  | authenticate (a : Addr) (config : LoginConfig) (device : Option Device) (role : Role)
      (fileStreams : ℕ) (now : Instant)
  | channel (a : Addr) (channel : Option String) (now : Instant)
  | set (a : Addr) (update : Connection.FieldUpdate)
  | remove (a : Addr)
  | finish (a : Addr)

namespace LoginServer

/-- A server nobody has connected to. -/
def empty : LoginServer Addr := ⟨∅, fun _ => .idle⟩

/-- The task of `a` moves on. -/
def enter (s : LoginServer Addr) (a : Addr) (phase : LoginPhase) : LoginServer Addr :=
  { s with phase := Function.update s.phase a phase }

/-- One action.  A task asks for the password between recording the name and picking
the id; a refused password, a kick or a timeout is `remove`.  A task may end with its
entry in place, and an entry may be gone while its task still runs. -/
def step (s : LoginServer Addr) : LoginAction Addr → Option (LoginServer Addr)
  | .connect a writeStream task obfuscationKey now =>
    if s.phase a = .idle then
      some ({ s with table := s.table.insert a (.start writeStream task a obfuscationKey now) }.enter a
        .handshake)
    else none
  | .keyExchange a keys now =>
    if s.phase a = .handshake ∨ s.phase a = .session then
      some { s with table := s.table.alter (·.updateClientKeys keys now) a }
    else none
  | .checkName a rules username =>
    if s.phase a = .handshake then
      some (if rules.allows username && !s.table.userConnected username then s.enter a (.checked username)
        else s)
    else none
  | .recordName a =>
    match s.phase a with
    | .checked username =>
      some ({ s with table := s.table.alter (·.set (.username username)) a }.enter a (.recorded username))
    | _ => none
  | .pickId a =>
    match s.phase a with
    | .recorded username => some (s.enter a (.numbered username s.table.getLatestId))
    | _ => none
  | .authenticate a config device role fileStreams now =>
    match s.phase a with
    | .numbered username id =>
      match s.table.lookup a with
      | none => some (s.enter a .session)
      | some conn => (conn.authenticateClient config username device role id fileStreams now).map
          fun conn => { s with table := s.table.insert a conn }.enter a .session
    | _ => none
  | .channel a channel now =>
    if s.phase a = .session then
      match s.table.lookup a with
      | none => some s
      | some conn => (conn.updateClientChannel channel now).map
          fun conn => { s with table := s.table.insert a conn }
    else none
  | .set _ (.username _) => none
  | .set a update => some { s with table := s.table.alter (·.set update) a }
  | .remove a => some { s with table := s.table.erase a }
  | .finish a => some (s.enter a .idle)

/-- All authenticated connections have distinct session ids and usernames. -/
def Distinct (s : LoginServer Addr) : Prop :=
  ∀ a b conn conn', a ≠ b → s.table.lookup a = some (.authenticated conn) →
    s.table.lookup b = some (.authenticated conn') →
    conn.id ≠ conn'.id ∧ conn.username ≠ conn'.username

/-! ### The race -/

omit [DecidableEq Addr] in
/-- An entry that is authenticated is a session. -/
theorem authenticated_of_isAuthenticated {entry : Option (Connection Addr)}
    (h : entry.map (·.isAuthenticated) = some true) : ∃ conn, entry = some (.authenticated conn) := by
  obtain ⟨conn, rfl, hauth⟩ := Option.map_eq_some_iff.1 h
  cases conn with
  | authenticated conn => exact ⟨conn, rfl⟩
  | nonAuthenticated conn => cases hauth

/-- Two clients ask for one name at the same time: both tasks check before either
records, and both pick an id before either stores it. -/
def race : List (LoginAction ℕ) :=
  [.connect 1 1 1 (.replicate 32 0) 0, .connect 2 2 2 (.replicate 32 0) 0,
    .keyExchange 1 ([1], [1]) 0, .keyExchange 2 ([2], [2]) 0,
    .checkName 1 ⟨1, 16, "server"⟩ "anna", .checkName 2 ⟨1, 16, "server"⟩ "anna",
    .recordName 1, .recordName 2, .pickId 1, .pickId 2,
    .authenticate 1 ⟨0, 5⟩ none .user 1 0, .authenticate 2 ⟨0, 5⟩ none .user 2 0]

/-- **Two sessions can share a name and an id.** -/
theorem sessions_collide :
    ¬∀ (actions : List (LoginAction ℕ)) (s : LoginServer ℕ),
      exec step empty actions = some s → s.Distinct := by
  intro h
  have hvalues : (exec step empty race).map (fun s =>
      ((s.table.lookup 1).bind (·.username), (s.table.lookup 2).bind (·.username),
        (s.table.lookup 1).map (·.isAuthenticated), (s.table.lookup 2).map (·.isAuthenticated))) =
      some (some "anna", some "anna", some true, some true) := by decide
  obtain ⟨s, hs, hvalue⟩ := Option.map_eq_some_iff.1 hvalues
  simp only [Prod.mk.injEq] at hvalue
  obtain ⟨hname₁, hname₂, hauth₁, hauth₂⟩ := hvalue
  obtain ⟨conn₁, hconn₁⟩ := authenticated_of_isAuthenticated hauth₁
  obtain ⟨conn₂, hconn₂⟩ := authenticated_of_isAuthenticated hauth₂
  rw [hconn₁] at hname₁
  rw [hconn₂] at hname₂
  exact (h race s hs 1 2 conn₁ conn₂ (by decide) hconn₁ hconn₂).2
    (Option.some.inj (hname₁.trans hname₂.symm))

/-! ### Without the race -/

/-- No two tasks are between the check and the record of the same name, or between
the choice and the store of an id. -/
def NoOverlap (s : LoginServer Addr) : LoginAction Addr → Prop
  | .checkName a _ username => ∀ b, b ≠ a → s.phase b ≠ .checked username
  | .pickId a => ∀ b, b ≠ a → (s.phase b).pickedId = none
  | _ => True

instance [Fintype Addr] (s : LoginServer Addr) (action : LoginAction Addr) :
    Decidable (s.NoOverlap action) :=
  match action with
  | .checkName a _ username => inferInstanceAs (Decidable (∀ b, b ≠ a → s.phase b ≠ .checked username))
  | .pickId a => inferInstanceAs (Decidable (∀ b, b ≠ a → (s.phase b).pickedId = none))
  | .connect .. | .keyExchange .. | .recordName .. | .authenticate .. | .channel .. | .set .. |
    .remove .. | .finish .. => .isTrue trivial

/-- The invariant, of the entries and the phases of all addresses: names and ids in
the table are distinct; a name that passed the check is in no entry and no other task
holds it; a recorded name is in the entry, if that is still there; an id that was
picked is in no entry and no other task holds one; an entry is not logged in before
its name is recorded. -/
structure Inv (look : Addr → Option (Connection Addr)) (phase : Addr → LoginPhase) : Prop where
  names : ∀ a b conn conn', a ≠ b → look a = some conn → look b = some conn' →
    ∀ username, conn.username = some username → conn'.username ≠ some username
  ids : ∀ a b conn conn', a ≠ b → look a = some conn → look b = some conn' →
    ∀ id, conn.id = some id → conn'.id ≠ some id
  checked : ∀ a username, phase a = .checked username →
    (∀ b conn, look b = some conn → conn.username ≠ some username) ∧
      ∀ b, b ≠ a → phase b ≠ .checked username
  recorded : ∀ a username conn, (phase a = .recorded username ∨ ∃ id, phase a = .numbered username id) →
    look a = some conn → conn.username = some username
  numbered : ∀ a username id, phase a = .numbered username id →
    (∀ b conn, look b = some conn → conn.id ≠ some id) ∧
      ∀ b, b ≠ a → ∀ username' id', phase b ≠ .numbered username' id'
  unnamed : ∀ a conn, (phase a = .handshake ∨ ∃ username, phase a = .checked username) →
    look a = some conn → conn.isAuthenticated = false

/-- The invariant of a server. -/
def Invariant (s : LoginServer Addr) : Prop := Inv (fun b => s.table.lookup b) s.phase

variable {look : Addr → Option (Connection Addr)} {phase : Addr → LoginPhase}

/-- A value that no two entries have stays so when one entry changes, if the new entry
has none that another has. -/
theorem distinct_update {β : Type} {value : Connection Addr → Option β} {a : Addr}
    {entry : Option (Connection Addr)}
    (hold : ∀ a b conn conn', a ≠ b → look a = some conn → look b = some conn' →
      ∀ v, value conn = some v → value conn' ≠ some v)
    (hnew : ∀ conn v, entry = some conn → value conn = some v →
      ∀ b conn', b ≠ a → look b = some conn' → value conn' ≠ some v)
    (x y : Addr) (conn conn' : Connection Addr) (hxy : x ≠ y)
    (hx : Function.update look a entry x = some conn) (hy : Function.update look a entry y = some conn')
    (v : β) (hv : value conn = some v) : value conn' ≠ some v := by
  rcases eq_or_ne x a with rfl | hxa
  · rw [Function.update_self] at hx
    rw [Function.update_of_ne hxy.symm] at hy
    exact hnew conn v hx hv y conn' hxy.symm hy
  rw [Function.update_of_ne hxa] at hx
  rcases eq_or_ne y a with rfl | hya
  · rw [Function.update_self] at hy
    exact fun hv' => hnew conn' v hy hv' x conn hxa hx hv
  · rw [Function.update_of_ne hya] at hy
    exact hold x y conn conn' hxy hx hy v hv

omit [DecidableEq Addr] in
/-- A name that passed the check of another task is not the name of this one. -/
theorem Inv.name_ne (hinv : Inv look phase) {a x : Addr} (hxa : x ≠ a) {username : String}
    (hx : phase x = .checked username) {name : String}
    (hname : (∃ old, look a = some old ∧ old.username = some name) ∨ phase a = .checked name) :
    name ≠ username := by
  rintro rfl
  obtain ⟨hfree, hothers⟩ := hinv.checked x name hx
  rcases hname with ⟨old, hold, hname⟩ | hchecked
  · exact hfree a old hold hname
  · exact hothers a hxa.symm hchecked

omit [DecidableEq Addr] in
/-- An id that another task picked is not the id of this one. -/
theorem Inv.id_ne (hinv : Inv look phase) {a x : Addr} (hxa : x ≠ a) {username : String} {n : ℕ}
    (hx : phase x = .numbered username n) {id : ℕ}
    (hid : (∃ old, look a = some old ∧ old.id = some id) ∨ ∃ name, phase a = .numbered name id) :
    id ≠ n := by
  rintro rfl
  obtain ⟨hfree, hothers⟩ := hinv.numbered x username id hx
  rcases hid with ⟨old, hold, hid⟩ | ⟨name, hnumbered⟩
  · exact hfree a old hold hid
  · exact hothers a hxa.symm name id hnumbered

/-- **What an action at one address has to show.**  A name or id in the new entry was
in the old one or is the one its task holds, and what the new phase promises is so. -/
theorem Inv.update (hinv : Inv look phase) (a : Addr) (entry : Option (Connection Addr))
    (p : LoginPhase)
    (hname : ∀ conn username, entry = some conn → conn.username = some username →
      (∃ old, look a = some old ∧ old.username = some username) ∨ phase a = .checked username)
    (hid : ∀ conn id, entry = some conn → conn.id = some id →
      (∃ old, look a = some old ∧ old.id = some id) ∨ ∃ username, phase a = .numbered username id)
    (hchecked : ∀ username, p = .checked username →
      (∀ conn, entry = some conn → conn.username ≠ some username) ∧
        (∀ b conn, look b = some conn → conn.username ≠ some username) ∧
        ∀ b, b ≠ a → phase b ≠ .checked username)
    (hrecorded : ∀ username conn, (p = .recorded username ∨ ∃ id, p = .numbered username id) →
      entry = some conn → conn.username = some username)
    (hnumbered : ∀ username id, p = .numbered username id →
      (∀ conn, entry = some conn → conn.id ≠ some id) ∧
        (∀ b conn, look b = some conn → conn.id ≠ some id) ∧
        ∀ b, b ≠ a → ∀ username' id', phase b ≠ .numbered username' id')
    (hunnamed : ∀ conn, (p = .handshake ∨ ∃ username, p = .checked username) →
      entry = some conn → conn.isAuthenticated = false) :
    Inv (Function.update look a entry) (Function.update phase a p) := by
  constructor
  case names =>
    refine distinct_update hinv.names fun conn username hconn husername b conn' hb hlook => ?_
    rcases hname conn username hconn husername with ⟨old, hold, hou⟩ | hc
    · exact hinv.names a b old conn' hb.symm hold hlook username hou
    · exact (hinv.checked a username hc).1 b conn' hlook
  case ids =>
    refine distinct_update hinv.ids fun conn id hconn hconnId b conn' hb hlook => ?_
    rcases hid conn id hconn hconnId with ⟨old, hold, hoi⟩ | ⟨username, hn⟩
    · exact hinv.ids a b old conn' hb.symm hold hlook id hoi
    · exact (hinv.numbered a username id hn).1 b conn' hlook
  case checked =>
    intro x username hx
    rcases update_eq_cases hx with ⟨rfl, hp⟩ | ⟨hxa, hx⟩
    · obtain ⟨hentry, hfree, hothers⟩ := hchecked username hp
      refine ⟨fun b conn hb => ?_, fun b hb => by rw [Function.update_of_ne hb]; exact hothers b hb⟩
      rcases update_eq_cases hb with ⟨_, hb⟩ | ⟨_, hb⟩
      · exact hentry conn hb
      · exact hfree b conn hb
    · obtain ⟨hfree, hothers⟩ := hinv.checked x username hx
      refine ⟨fun b conn hb husername => ?_, fun b hbx hb => ?_⟩
      · rcases update_eq_cases hb with ⟨_, hb⟩ | ⟨_, hb⟩
        · exact hinv.name_ne hxa hx (hname conn username hb husername) rfl
        · exact hfree b conn hb husername
      · rcases update_eq_cases hb with ⟨_, hp⟩ | ⟨_, hb⟩
        · exact (hchecked username hp).2.2 x hxa hx
        · exact hothers b hbx hb
  case recorded =>
    intro x username conn hx hconn
    rcases eq_or_ne x a with rfl | hxa
    · rw [Function.update_self] at hx hconn
      exact hrecorded username conn hx hconn
    · rw [Function.update_of_ne hxa] at hx hconn
      exact hinv.recorded x username conn hx hconn
  case numbered =>
    intro x username id hx
    rcases update_eq_cases hx with ⟨rfl, hp⟩ | ⟨hxa, hx⟩
    · obtain ⟨hentry, hfree, hothers⟩ := hnumbered username id hp
      refine ⟨fun b conn hb => ?_, fun b hb => by rw [Function.update_of_ne hb]; exact hothers b hb⟩
      rcases update_eq_cases hb with ⟨_, hb⟩ | ⟨_, hb⟩
      · exact hentry conn hb
      · exact hfree b conn hb
    · obtain ⟨hfree, hothers⟩ := hinv.numbered x username id hx
      refine ⟨fun b conn hb hconnId => ?_, fun b hbx username' id' hb => ?_⟩
      · rcases update_eq_cases hb with ⟨_, hb⟩ | ⟨_, hb⟩
        · exact hinv.id_ne hxa hx (hid conn id hb hconnId) rfl
        · exact hfree b conn hb hconnId
      · rcases update_eq_cases hb with ⟨_, hp⟩ | ⟨_, hb⟩
        · exact (hnumbered username' id' hp).2.2 x hxa username id hx
        · exact hothers b hbx username' id' hb
  case unnamed =>
    intro x conn hx hconn
    rcases eq_or_ne x a with rfl | hxa
    · rw [Function.update_self] at hx hconn
      exact hunnamed conn hx hconn
    · rw [Function.update_of_ne hxa] at hx hconn
      exact hinv.unnamed x conn hx hconn

/-- Rebuilding an entry, or removing it, keeps the invariant while the name and the
id stay; a name may be lost where none is promised. -/
theorem Inv.alter (hinv : Inv look phase) (a : Addr) (entry : Option (Connection Addr))
    (hentry : ∀ conn, entry = some conn → ∃ old, look a = some old ∧ conn.id = old.id ∧
      conn.isAuthenticated = old.isAuthenticated ∧
      (conn.username = old.username ∨
        conn.username = none ∧ (phase a = .handshake ∨ phase a = .session))) :
    Inv (Function.update look a entry) phase := by
  have hname : ∀ conn username, entry = some conn → conn.username = some username →
      ∃ old, look a = some old ∧ old.username = some username := by
    intro conn username hconn husername
    obtain ⟨old, hold, _, _, hkept | ⟨hlost, _⟩⟩ := hentry conn hconn
    · exact ⟨old, hold, hkept ▸ husername⟩
    · rw [hlost] at husername
      cases husername
  have hid : ∀ conn id, entry = some conn → conn.id = some id →
      ∃ old, look a = some old ∧ old.id = some id := by
    intro conn id hconn hconnId
    obtain ⟨old, hold, hkept, _⟩ := hentry conn hconn
    exact ⟨old, hold, hkept ▸ hconnId⟩
  rw [← Function.update_eq_self a phase]
  refine hinv.update a entry (phase a) (fun conn username hconn h => .inl (hname conn username hconn h))
    (fun conn id hconn h => .inl (hid conn id hconn h)) ?_ ?_ ?_ ?_
  · intro username hp
    obtain ⟨hfree, hothers⟩ := hinv.checked a username hp
    refine ⟨fun conn hconn husername => ?_, hfree, hothers⟩
    obtain ⟨old, hold, hou⟩ := hname conn username hconn husername
    exact hfree a old hold hou
  · rintro username conn hp hconn
    obtain ⟨old, hold, _, _, hkept | ⟨_, hlost⟩⟩ := hentry conn hconn
    · rw [hkept]
      exact hinv.recorded a username old hp hold
    · -- A name is lost in the handshake or in the session, where none is recorded.
      rcases hp with hp | ⟨id, hp⟩
      all_goals
        rw [hp] at hlost
        rcases hlost with hlost | hlost <;> cases hlost
  · intro username id hp
    obtain ⟨hfree, hothers⟩ := hinv.numbered a username id hp
    refine ⟨fun conn hconn hconnId => ?_, hfree, hothers⟩
    obtain ⟨old, hold, hoi⟩ := hid conn id hconn hconnId
    exact hfree a old hold hoi
  · intro conn hp hconn
    obtain ⟨old, hold, _, hauth, _⟩ := hentry conn hconn
    rw [hauth]
    exact hinv.unnamed a old hp hold

/-- What a task that moves on has to show while the table stays as it is. -/
theorem Inv.enter (hinv : Inv look phase) (a : Addr) (p : LoginPhase)
    (hchecked : ∀ username, p = .checked username →
      (∀ b conn, look b = some conn → conn.username ≠ some username) ∧
        ∀ b, b ≠ a → phase b ≠ .checked username)
    (hrecorded : ∀ username conn, (p = .recorded username ∨ ∃ id, p = .numbered username id) →
      look a = some conn → conn.username = some username)
    (hnumbered : ∀ username id, p = .numbered username id →
      (∀ b conn, look b = some conn → conn.id ≠ some id) ∧
        ∀ b, b ≠ a → ∀ username' id', phase b ≠ .numbered username' id')
    (hunnamed : ∀ conn, (p = .handshake ∨ ∃ username, p = .checked username) →
      look a = some conn → conn.isAuthenticated = false) :
    Inv look (Function.update phase a p) := by
  rw [← Function.update_eq_self a look]
  apply hinv.update a (look a) p
  · exact fun conn username hconn hname => .inl ⟨conn, hconn, hname⟩
  · exact fun conn id hconn hid => .inl ⟨conn, hconn, hid⟩
  · intro username hp
    obtain ⟨hfree, hothers⟩ := hchecked username hp
    exact ⟨hfree a, hfree, hothers⟩
  · exact hrecorded
  · intro username id hp
    obtain ⟨hfree, hothers⟩ := hnumbered username id hp
    exact ⟨hfree a, hfree, hothers⟩
  · exact hunnamed

variable {s s' : LoginServer Addr}

/-- A setter changes the entry, and that of the username is not called from outside. -/
theorem step_set {a : Addr} {update : Connection.FieldUpdate} : s.step (.set a update) = some s' ↔
    (∀ name, update ≠ .username name) ∧ s' = { s with table := s.table.alter (·.set update) a } := by
  cases update <;> simp [LoginServer.step, eq_comm]

/-- A name that passes the test is nobody's, and no other task is about to record it. -/
theorem Inv.checkName (hinv : Inv (fun b => s.table.lookup b) s.phase) {a : Addr} {rules : NameRules}
    {username : String} (hcond : s.NoOverlap (.checkName a rules username))
    (h : s.step (.checkName a rules username) = some s') : Inv (fun b => s'.table.lookup b) s'.phase := by
  rw [LoginServer.step] at h
  split_ifs at h with hphase hok <;> obtain rfl := Option.some.inj h
  · rw [Bool.and_eq_true, Bool.not_eq_true'] at hok
    have hnew := fun b conn (hconn : s.table.lookup b = some conn) =>
      Connections.userConnected_eq_false hok.2 hconn
    simp only [NoOverlap] at hcond
    refine hinv.enter a (.checked username) ?_ ?_ ?_ ?_
    · rintro name hp
      obtain rfl := LoginPhase.checked.inj hp
      exact ⟨hnew, hcond⟩
    · rintro name conn (hp | ⟨id, hp⟩) <;> cases hp
    · rintro name id hp
      cases hp
    · exact fun conn _ => hinv.unnamed a conn (.inl hphase)
  · exact hinv

/-- The name is written to an entry that has none. -/
theorem Inv.recordName (hinv : Inv (fun b => s.table.lookup b) s.phase) {a : Addr}
    (h : s.step (.recordName a) = some s') : Inv (fun b => s'.table.lookup b) s'.phase := by
  rw [LoginServer.step] at h
  split at h <;> cases h
  rename_i username hphase
  simp only [LoginServer.enter, Connections.lookup_alter]
  have hentry : ∀ conn, (s.table.lookup a).map (·.set (.username username)) = some conn →
      conn.username = some username ∧ conn.id = none := by
    intro conn hconn
    obtain ⟨old, hold, rfl⟩ := Option.map_eq_some_iff.1 hconn
    have hauth := hinv.unnamed a old (.inr ⟨username, hphase⟩) hold
    exact ⟨old.set_username hauth username, (old.set_identity _).1.trans (old.id_eq_none hauth)⟩
  refine hinv.update a _ (.recorded username) ?_ ?_ (by simp) ?_ (by simp) (by simp)
  · intro conn name hconn hname
    rw [(hentry conn hconn).1] at hname
    exact .inr (Option.some.inj hname ▸ hphase)
  · intro conn id hconn hid
    rw [(hentry conn hconn).2] at hid
    cases hid
  · rintro name conn (hp | ⟨id, hp⟩) hconn
    · obtain rfl := LoginPhase.recorded.inj hp
      exact (hentry conn hconn).1
    · cases hp

/-- The id that is picked is nobody's, and no other task holds one. -/
theorem Inv.pickId (hinv : Inv (fun b => s.table.lookup b) s.phase) {a : Addr}
    (hcond : s.NoOverlap (.pickId a)) (h : s.step (.pickId a) = some s') :
    Inv (fun b => s'.table.lookup b) s'.phase := by
  rw [LoginServer.step] at h
  split at h <;> cases h
  rename_i username hphase
  have hnew := fun b conn (hconn : s.table.lookup b = some conn) => Connections.getLatestId_ne hconn
  simp only [NoOverlap] at hcond
  refine hinv.enter a (.numbered username s.table.getLatestId) ?_ ?_ ?_ ?_
  · rintro name hp
    cases hp
  · rintro name conn (hp | ⟨id, hp⟩)
    · cases hp
    · obtain ⟨rfl, -⟩ := LoginPhase.numbered.inj hp
      exact hinv.recorded a username conn (.inl hphase)
  · rintro name id hp
    obtain ⟨-, rfl⟩ := LoginPhase.numbered.inj hp
    refine ⟨hnew, fun b hb name' id' hphase' => ?_⟩
    have hnone := hcond b hb
    rw [hphase'] at hnone
    cases hnone
  · rintro conn (hp | ⟨name, hp⟩) <;> cases hp

/-- The session has the id that was picked and the name that was recorded. -/
theorem Inv.authenticate (hinv : Inv (fun b => s.table.lookup b) s.phase) {a : Addr}
    {config : LoginConfig} {device : Option Device} {role : Role} {fileStreams : ℕ} {now : Instant}
    (h : s.step (.authenticate a config device role fileStreams now) = some s') :
    Inv (fun b => s'.table.lookup b) s'.phase := by
  rw [LoginServer.step] at h
  split at h
  · rename_i username id hphase
    cases hlookup : s.table.lookup a with
    | none =>
      rw [hlookup] at h
      obtain rfl := Option.some.inj h
      exact hinv.enter a .session (by simp) (by simp) (by simp) (by simp)
    | some old =>
      rw [hlookup] at h
      obtain ⟨conn, hconn, rfl⟩ := Option.map_eq_some_iff.1 h
      obtain ⟨hid, hname⟩ := old.authenticateClient_identity hconn
      have hold := hinv.recorded a username old (.inr ⟨id, hphase⟩) hlookup
      simp only [LoginServer.enter, Connections.lookup_insert]
      refine hinv.update a _ .session ?_ ?_ (by simp) (by simp) (by simp) (by simp)
      · rintro c name ⟨⟩ hc
        exact .inl ⟨old, hlookup, by rw [hold, ← hname, hc]⟩
      · rintro c n ⟨⟩ hc
        rw [hid] at hc
        exact .inr ⟨username, Option.some.inj hc ▸ hphase⟩
  · cases h

/-- **Every action that does not overlap keeps the invariant.** -/
theorem Inv.step (hinv : Inv (fun b => s.table.lookup b) s.phase) {action : LoginAction Addr}
    (hcond : s.NoOverlap action) (h : s.step action = some s') :
    Inv (fun b => s'.table.lookup b) s'.phase := by
  cases action with
  | connect a writeStream task obfuscationKey now =>
    rw [LoginServer.step] at h
    split_ifs at h with hidle
    obtain rfl := Option.some.inj h
    simp only [LoginServer.enter, Connections.lookup_insert]
    refine hinv.update a _ .handshake ?_ ?_ (by simp) (by simp) (by simp) ?_
    · rintro conn name ⟨⟩ hname
      cases hname
    · rintro conn id ⟨⟩ hid
      cases hid
    · rintro conn _ ⟨⟩
      rfl
  | keyExchange a keys now =>
    rw [LoginServer.step] at h
    split_ifs at h with hphase
    obtain rfl := Option.some.inj h
    simp only [Connections.lookup_alter]
    refine hinv.alter a _ fun conn hconn => ?_
    obtain ⟨old, hold, rfl⟩ := Option.map_eq_some_iff.1 hconn
    obtain ⟨hid, hauth, hname⟩ := old.updateClientKeys_identity keys now
    exact ⟨old, hold, hid, hauth, hname.imp_right fun hnone => ⟨hnone, hphase⟩⟩
  | checkName a rules username => exact hinv.checkName hcond h
  | recordName a => exact hinv.recordName h
  | pickId a => exact hinv.pickId hcond h
  | authenticate a config device role fileStreams now => exact hinv.authenticate h
  | channel a channel now =>
    rw [LoginServer.step] at h
    split_ifs at h
    cases hlookup : s.table.lookup a with
    | none =>
      rw [hlookup] at h
      obtain rfl := Option.some.inj h
      exact hinv
    | some old =>
      rw [hlookup] at h
      obtain ⟨conn, hconn, rfl⟩ := Option.map_eq_some_iff.1 h
      obtain ⟨hid, hauth, hname⟩ := old.updateClientChannel_identity hconn
      simp only [Connections.lookup_insert]
      refine hinv.alter a _ fun c hc => ?_
      obtain rfl := Option.some.inj hc
      exact ⟨old, hlookup, hid, hauth, .inl hname⟩
  | set a update =>
    obtain ⟨hset, rfl⟩ := step_set.1 h
    simp only [Connections.lookup_alter]
    refine hinv.alter a _ fun conn hconn => ?_
    obtain ⟨old, hold, rfl⟩ := Option.map_eq_some_iff.1 hconn
    obtain ⟨hid, hauth, hname⟩ := old.set_identity update
    exact ⟨old, hold, hid, hauth, .inl (hname hset)⟩
  | remove a =>
    obtain rfl := Option.some.inj h
    simp only [Connections.lookup_erase]
    exact hinv.alter a none fun conn hconn => by cases hconn
  | finish a =>
    obtain rfl := Option.some.inj h
    exact hinv.enter a .idle (by simp) (by simp) (by simp) (by simp)

/-- Nobody has a name or an id yet. -/
theorem empty_inv : (empty : LoginServer Addr).Invariant := by
  constructor <;> simp [empty]

/-- **Sessions keep distinct identities while no two logins overlap.**  In every run in
which no task checks a name while another is between its own check and record of that
name, and no task picks an id while another is between picking and storing its own, all
authenticated connections have distinct session ids and distinct usernames in every
state reached. -/
theorem sessions_distinct (actions : List (LoginAction Addr)) {s : LoginServer Addr}
    (hmeets : Meets step NoOverlap empty actions) (hrun : exec step empty actions = some s) :
    s.Distinct := by
  have hstep : ∀ (s : LoginServer Addr) action s', s.Invariant → s.NoOverlap action →
      s.step action = some s' → s'.Invariant := fun _ _ _ hinv hcond h => Inv.step hinv hcond h
  have hinv : Inv (fun b => s.table.lookup b) s.phase := exec_induct hstep empty_inv hmeets hrun
  intro a b conn conn' hab ha hb
  constructor
  · intro hid
    exact hinv.ids a b _ _ hab ha hb conn.id rfl (congrArg some hid.symm)
  · intro hname
    exact hinv.names a b _ _ hab ha hb conn.username rfl (congrArg some hname.symm)

/-- Two clients log in at the same time, but one after the other at each of the two
places; the second asks for the name of the first and then for another. -/
def takingTurns : List (LoginAction (Fin 2)) :=
  [.connect 0 1 1 (.replicate 32 0) 0, .connect 1 2 2 (.replicate 32 0) 0,
    .keyExchange 0 ([1], [1]) 0, .keyExchange 1 ([2], [2]) 0,
    .checkName 0 ⟨1, 16, "server"⟩ "anna", .recordName 0,
    .checkName 1 ⟨1, 16, "server"⟩ "anna", .checkName 1 ⟨1, 16, "server"⟩ "otto", .recordName 1,
    .pickId 1, .authenticate 1 ⟨0, 5⟩ none .user 1 0,
    .pickId 0, .authenticate 0 ⟨0, 5⟩ none .user 2 0]

/-- The theorem on that run. -/
theorem sessions_distinct_taking_turns : ∃ s : LoginServer (Fin 2),
    exec step empty takingTurns = some s ∧ Meets step NoOverlap empty takingTurns ∧ s.Distinct ∧
      (s.table.lookup 0).bind (·.username) = some "anna" ∧
      (s.table.lookup 1).bind (·.username) = some "otto" := by
  have hvalues : (exec step empty takingTurns).map (fun s =>
      ((s.table.lookup 0).bind (·.username), (s.table.lookup 1).bind (·.username))) =
      some (some "anna", some "otto") := by decide
  obtain ⟨s, hs, hvalue⟩ := Option.map_eq_some_iff.1 hvalues
  obtain ⟨hanna, hotto⟩ := Prod.mk.inj hvalue
  have hmeets : Meets step NoOverlap empty takingTurns := by decide
  exact ⟨s, hs, hmeets, sessions_distinct takingTurns hmeets hs, hanna, hotto⟩

/-! ### Where sessions come from -/

variable {s s' : LoginServer Addr} {action : LoginAction Addr}

/-- The task stores the name and the id it has. -/
def StoresIdentity (s : LoginServer Addr) (action : LoginAction Addr) (a : Addr) (id : ℕ) (username : String) :
    Prop :=
  s.phase a = .numbered username id ∧
    ∃ config device role fileStreams now, action = .authenticate a config device role fileStreams now

/-- The identity of an entry is the one the address had, or the task there stores it. -/
def IdentityFrom (s : LoginServer Addr) (action : LoginAction Addr) (a : Addr)
    (entry : Option (Connection Addr)) : Prop :=
  ∀ id username, entry.bind (·.identity) = some (id, username) →
    s.table.identity a = some (id, username) ∨ s.StoresIdentity action a id username

/-- A change that leaves the identity gives none. -/
theorem identityFrom_alter (a : Addr) {f : Connection Addr → Connection Addr}
    (hf : ∀ c, (f c).identity = c.identity) : s.IdentityFrom action a ((s.table.lookup a).map f) := by
  intro id username hentry
  rw [Option.bind_map, show (·.identity) ∘ f = (·.identity) from funext hf] at hentry
  exact .inl hentry

/-- **A step changes one entry of the table at most**, and a new identity there is the one the
task stores. -/
theorem step_table (h : s.step action = some s') :
    s'.table = s.table ∨ ∃ a entry,
      (fun b => s'.table.lookup b) = Function.update (fun b => s.table.lookup b) a entry ∧
        s.IdentityFrom action a entry := by
  cases action with
  | connect a writeStream task obfuscationKey now =>
    rw [LoginServer.step] at h
    split_ifs at h
    obtain rfl := Option.some.inj h
    refine .inr ⟨a, _, Connections.lookup_insert _ a s.table, fun id username hentry => ?_⟩
    cases hentry
  | keyExchange a keys now =>
    rw [LoginServer.step] at h
    split_ifs at h
    obtain rfl := Option.some.inj h
    exact .inr ⟨a, _, Connections.lookup_alter _ a s.table,
      identityFrom_alter a (Connection.identity_updateClientKeys keys now)⟩
  | checkName a rules name =>
    rw [LoginServer.step] at h
    split_ifs at h <;> obtain rfl := Option.some.inj h <;> exact .inl rfl
  | recordName a =>
    rw [LoginServer.step] at h
    split at h <;> cases h
    exact .inr ⟨a, _, Connections.lookup_alter _ a s.table, identityFrom_alter a (Connection.identity_set _)⟩
  | pickId a =>
    rw [LoginServer.step] at h
    split at h <;> cases h
    exact .inl rfl
  | authenticate a config device role fileStreams now =>
    rw [LoginServer.step] at h
    split at h
    · rename_i name n hphase
      cases hlookup : s.table.lookup a with
      | none =>
        rw [hlookup] at h
        obtain rfl := Option.some.inj h
        exact .inl rfl
      | some old =>
        rw [hlookup] at h
        obtain ⟨conn, hconn, rfl⟩ := Option.map_eq_some_iff.1 h
        refine .inr ⟨a, _, Connections.lookup_insert conn a s.table, fun id username hentry => .inr ?_⟩
        rw [Option.bind_some, old.identity_authenticateClient hconn] at hentry
        obtain ⟨rfl, rfl⟩ := Prod.mk.inj (Option.some.inj hentry)
        exact ⟨hphase, _, _, _, _, _, rfl⟩
    · cases h
  | channel a channel now =>
    rw [LoginServer.step] at h
    split_ifs at h
    cases hlookup : s.table.lookup a with
    | none =>
      rw [hlookup] at h
      obtain rfl := Option.some.inj h
      exact .inl rfl
    | some old =>
      rw [hlookup] at h
      obtain ⟨conn, hconn, rfl⟩ := Option.map_eq_some_iff.1 h
      refine .inr ⟨a, _, Connections.lookup_insert conn a s.table, fun id username hentry => .inl ?_⟩
      rw [Option.bind_some, old.identity_updateClientChannel hconn] at hentry
      rw [Connections.identity, hlookup]
      exact hentry
  | set a update =>
    rw [(step_set.1 h).2]
    exact .inr ⟨a, _, Connections.lookup_alter _ a s.table, identityFrom_alter a (Connection.identity_set update)⟩
  | remove a =>
    obtain rfl := Option.some.inj h
    refine .inr ⟨a, none, Connections.lookup_erase a s.table, fun id username hentry => ?_⟩
    cases hentry
  | finish a =>
    obtain rfl := Option.some.inj h
    exact .inl rfl

/-- **A session is new only where a task stores the id it picked.** -/
theorem step_identity (h : s.step action = some s') {b : Addr} {id : ℕ} {username : String}
    (hb : s'.table.identity b = some (id, username)) :
    s.table.identity b = some (id, username) ∨ s.phase b = .numbered username id ∧
      ∃ config device role fileStreams now,
        action = .authenticate b config device role fileStreams now := by
  rcases step_table h with htable | ⟨a, entry, hlookup, hentry⟩
  · rw [htable] at hb
    exact .inl hb
  · unfold Connections.identity at hb
    rw [congrFun hlookup b] at hb
    rcases eq_or_ne b a with rfl | hba
    · rw [Function.update_self] at hb
      exact hentry id username hb
    · rw [Function.update_of_ne hba] at hb
      exact .inl hb

/-- The session of a task that has stored its id is the one it picked. -/
theorem identity_authenticate {a : Addr} {config : LoginConfig} {device : Option Device} {role : Role}
    {fileStreams : ℕ} {now : Instant} (h : s.step (.authenticate a config device role fileStreams now) = some s')
    {id : ℕ} {username : String} (ha : s'.table.identity a = some (id, username)) :
    s.phase a = .numbered username id := by
  rw [LoginServer.step] at h
  split at h
  · rename_i name n hphase
    cases hlookup : s.table.lookup a with
    | none =>
      rw [hlookup] at h
      obtain rfl := Option.some.inj h
      simp only [enter, Connections.identity, hlookup, Option.bind_none] at ha
      cases ha
    | some old =>
      rw [hlookup] at h
      obtain ⟨conn, hconn, rfl⟩ := Option.map_eq_some_iff.1 h
      simp only [enter, Connections.identity, AList.lookup_insert, Option.bind_some,
        old.identity_authenticateClient hconn, Option.some.injEq, Prod.mk.injEq] at ha
      rw [hphase, ha.1, ha.2]
  · cases h

/-- A session has its name from a login. -/
theorem step_sessionName (h : s.step action = some s') {b : Addr} {username : String}
    (hb : s'.table.sessionName b = some username) :
    s.table.sessionName b = some username ∨ ∃ id, s.phase b = .numbered username id := by
  obtain ⟨⟨id, name⟩, hidentity, rfl⟩ := Option.map_eq_some_iff.1 hb
  rcases step_identity h hidentity with hold | ⟨hphase, -⟩
  · exact .inl (by rw [Connections.sessionName, hold, Option.map_some])
  · exact .inr ⟨id, hphase⟩

/-- **A step changes the phase of one task at most**, to a recorded name or an id only where the
task takes that step. -/
theorem step_one_phase (h : s.step action = some s') :
    s'.phase = s.phase ∨ ∃ a p, s'.phase = Function.update s.phase a p ∧
      (∀ username, p = .recorded username → action = .recordName a) ∧
      ∀ username id, p = .numbered username id → action = .pickId a ∧ s.phase a = .recorded username := by
  cases action with
  | connect a writeStream task obfuscationKey now =>
    rw [LoginServer.step] at h
    split_ifs at h
    obtain rfl := Option.some.inj h
    exact .inr ⟨a, .handshake, rfl, by simp, by simp⟩
  | keyExchange a keys now =>
    rw [LoginServer.step] at h
    split_ifs at h
    obtain rfl := Option.some.inj h
    exact .inl rfl
  | checkName a rules name =>
    rw [LoginServer.step] at h
    split_ifs at h <;> obtain rfl := Option.some.inj h
    · exact .inr ⟨a, .checked name, rfl, by simp, by simp⟩
    · exact .inl rfl
  | recordName a =>
    rw [LoginServer.step] at h
    split at h <;> cases h
    exact .inr ⟨a, .recorded _, rfl, fun _ _ => rfl, by simp⟩
  | pickId a =>
    rw [LoginServer.step] at h
    split at h <;> cases h
    rename_i name hphase
    refine .inr ⟨a, .numbered name _, rfl, by simp, ?_⟩
    rintro username id ⟨⟩
    exact ⟨rfl, hphase⟩
  | authenticate a config device role fileStreams now =>
    rw [LoginServer.step] at h
    split at h
    · split at h
      · obtain rfl := Option.some.inj h
        exact .inr ⟨a, .session, rfl, by simp, by simp⟩
      · obtain ⟨conn, -, rfl⟩ := Option.map_eq_some_iff.1 h
        exact .inr ⟨a, .session, rfl, by simp, by simp⟩
    · cases h
  | channel a channel now =>
    rw [LoginServer.step] at h
    split_ifs at h
    split at h
    · obtain rfl := Option.some.inj h
      exact .inl rfl
    · obtain ⟨conn, -, rfl⟩ := Option.map_eq_some_iff.1 h
      exact .inl rfl
  | set a update =>
    rw [(step_set.1 h).2]
    exact .inl rfl
  | remove a =>
    obtain rfl := Option.some.inj h
    exact .inl rfl
  | finish a =>
    obtain rfl := Option.some.inj h
    exact .inr ⟨a, .idle, rfl, by simp, by simp⟩

/-- **A task has a recorded name, or an id, only where it took that step.** -/
theorem step_phase (h : s.step action = some s') (b : Addr) :
    (∀ username, s'.phase b = .recorded username →
      s.phase b = .recorded username ∨ action = .recordName b) ∧
    ∀ username id, s'.phase b = .numbered username id →
      s.phase b = .numbered username id ∨ action = .pickId b ∧ s.phase b = .recorded username := by
  rcases step_one_phase h with hphase | ⟨a, p, hphase, hrecorded, hnumbered⟩
  · rw [hphase]
    exact ⟨fun _ hb => .inl hb, fun _ _ hb => .inl hb⟩
  · rw [hphase]
    rcases eq_or_ne b a with rfl | hba
    · rw [Function.update_self]
      exact ⟨fun username hp => .inr (hrecorded username hp), fun username id hp => .inr (hnumbered username id hp)⟩
    · rw [Function.update_of_ne hba]
      exact ⟨fun _ hb => .inl hb, fun _ _ hb => .inl hb⟩

end LoginServer

end Why2
