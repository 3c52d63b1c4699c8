/-
# Tearing a session down

`remove_connection` (`chat/src/network/server/mod.rs`) takes the entry of a
connection out of the table first.  What belongs to its session is kept
elsewhere, under its id or its username: the viewers of its screen and the
`last_pm` values that name it in other entries, its slot in
`voice_server::CONNECTIONS`, its uploads in `ACTIVE_FILESHARES`, its list in
`AVAILABLE_FILES` and its upload directory.  These are cleaned up one after the
other, with suspension points between, while other tasks log in and work.

From the first step on the id and the name are free.  A session that takes one
of them before the cleanup is done loses what it has put under it
(`teardown_hits_session`).  In every run in which no session does, the
interleaved teardowns are as good as atomic ones (`teardown_atomic`).
-/

import Why2.Chat.Moderation
import Why2.Lib.Purge

namespace Why2

open Lib

variable {Addr : Type} [DecidableEq Addr]

/-- A slot of `voice_server::CONNECTIONS`, before its socket is bound. -/
structure VoiceSlot where
  username : String
  token : Vector U8 32
deriving DecidableEq

/-- An entry of `ACTIVE_FILESHARES`, as far as a teardown looks at it, with the name the
file gets. -/
structure RunningUpload where
  clientId : ℕ
  filename : String
deriving DecidableEq

/-- What `remove_connection` cleans up after the entry is gone. -/
inductive Cleanup
  | deattach
  | voice
  | directory
  | uploads
  | available
  | lastPm
deriving DecidableEq, Repr

/-- A teardown in progress: the id and the username of its session, and what it has still
to clean up, in order. -/
structure Closing where
  id : ℕ
  username : String
  todo : List Cleanup
deriving DecidableEq

/-- The cleanups of a session.  Its viewers are detached if it was sharing its screen. -/
def Closing.start {Addr : Type} (conn : Authenticated Addr) : Closing where
  id := conn.id
  username := conn.username
  todo := (if conn.screenStream.isSome then [.deattach] else []) ++
    [.voice, .directory, .uploads, .available, .lastPm]

/-- The table and the tasks, what belongs to the sessions, and the teardowns.  An upload
directory is the names of its files. -/
structure TeardownServer (Addr : Type) where
  login : LoginServer Addr
  voice : ℕ → Option VoiceSlot
  active : ℕ → Option RunningUpload
  available : String → Option (List String)
  directory : String → Option (List String)
  closing : List Closing

/-- One access to the shared state. -/
inductive TeardownAction (Addr : Type)
  | login (action : LoginAction Addr)
  | voiceRequest (a : Addr) (token : Vector U8 32)
  | startUpload (a : Addr) (uid : ℕ) (filename : String)
  | finishUpload (a : Addr) (uid : ℕ)
  | abortUpload (uid : ℕ)
  | privateMessage (a : Addr) (recipient : ℕ)
  | re (a : Addr)
  | attach (a : Addr) (attach : Attach)
  | deattachRequest (a : Addr)
  | remove (a : Addr)
  | cleanup (k : ℕ)

namespace Connection

/-- `deattach`, of one entry. -/
def deattachFrom (id : ℕ) : Connection Addr → Connection Addr
  | authenticated conn =>
    if conn.attachedScreen.any (·.targetId = id) then authenticated { conn with attachedScreen := none }
    else authenticated conn
  | nonAuthenticated conn => nonAuthenticated conn

/-- `unset_last_pm`, of an entry that names this session. -/
def unsetLastPm (id : ℕ) : Connection Addr → Connection Addr
  | authenticated conn =>
    if conn.lastPm = some id then authenticated { conn with lastPm := none } else authenticated conn
  | nonAuthenticated conn => nonAuthenticated conn

end Connection

namespace TeardownServer

/-- The server as it starts, with the upload directories there are. -/
def start (directory : String → Option (List String)) : TeardownServer Addr where
  login := .empty
  voice _ := none
  active _ := none
  available _ := none
  directory := directory
  closing := []

/-- The table changes. -/
def setTable (s : TeardownServer Addr) (table : Connections Addr) : TeardownServer Addr :=
  { s with login := { s.login with table } }

/-- The steps of a login that are not a case of another action. -/
def plain : LoginAction Addr → Bool
  | .remove _ | .set _ (.lastPm _) | .set _ (.attachedScreen _) => false
  | _ => true

/-- A step of the login; `authenticate_client` gives the user an empty list of files. -/
def afterLogin (s : TeardownServer Addr) (action : LoginAction Addr) (login : LoginServer Addr) :
    TeardownServer Addr :=
  match action with
  | .authenticate a .. =>
    match s.login.phase a with
    | .numbered username _ =>
      { s with login, available := Function.update s.available username (some []) }
    | _ => { s with login }
  | _ => { s with login }

/-- `VoiceRequest`: a session joins the voice chat, or leaves it. -/
def toggleVoice (s : TeardownServer Addr) (id : ℕ) (slot : VoiceSlot) : TeardownServer Addr :=
  { s with voice := Function.update s.voice id (if (s.voice id).isNone then some slot else none) }

/-- The session `conn` writes to the session with this id. -/
def sendPrivate (s : TeardownServer Addr) (conn : Authenticated Addr) (recipient : ℕ) :
    TeardownServer Addr :=
  match s.login.table.byId recipient with
  | none => s
  | some (b, _) =>
    if recipient = conn.id then s
    else s.setTable (s.login.table.alter (·.set (.lastPm (some conn.id))) b)

/-- The end of an upload: the file gets its name, and the user's list an entry unless the
name was taken.  The file to rename may be gone. -/
def publish (s : TeardownServer Addr) (username : String) (uid : ℕ) (filename : String) :
    TeardownServer Addr :=
  if toString uid ∈ (s.directory username).getD [] then
    { s with
      active := Function.update s.active uid none
      directory := Function.update s.directory username
        (some (((s.directory username).getD []).erase (toString uid) ++ [filename]))
      available := Function.update s.available username
        ((s.available username).map fun list =>
          if filename ∈ (s.directory username).getD [] then list else list ++ [filename]) }
  else { s with active := Function.update s.active uid none }

/-- One cleanup of the session with this id and username. -/
def clean (c : Cleanup) (id : ℕ) (username : String) (s : TeardownServer Addr) : TeardownServer Addr :=
  match c with
  | .deattach => s.setTable (s.login.table.mapAll (·.deattachFrom id))
  | .voice => { s with voice := Function.update s.voice id none }
  | .directory => { s with directory := Function.update s.directory username none }
  | .uploads => { s with active := fun uid => (s.active uid).filter (·.clientId ≠ id) }
  | .available => { s with available := Function.update s.available username none }
  | .lastPm => s.setTable (s.login.table.mapAll (·.unsetLastPm id))

/-- One action. -/
def step (s : TeardownServer Addr) : TeardownAction Addr → Option (TeardownServer Addr)
  | .login action =>
    if plain action then (s.login.step action).map (s.afterLogin action) else none
  | .voiceRequest a token => do
    let conn ← s.login.table.session a
    some (s.toggleVoice conn.id ⟨conn.username, token⟩)
  | .startUpload a uid filename => do
    let conn ← s.login.table.session a
    some { s with
      active := Function.update s.active uid (some ⟨conn.id, filename⟩)
      directory := Function.update s.directory conn.username
        (some (toString uid :: (s.directory conn.username).getD [])) }
  | .finishUpload a uid => do
    let conn ← s.login.table.session a
    let upload ← s.active uid
    if upload.clientId = conn.id then some (s.publish conn.username uid upload.filename) else none
  | .abortUpload uid => some { s with active := Function.update s.active uid none }
  | .privateMessage a recipient => do
    let conn ← s.login.table.session a
    some (s.sendPrivate conn recipient)
  | .re a => do
    let conn ← s.login.table.session a
    match conn.lastPm with
    | none => some s
    | some recipient => some (s.sendPrivate conn recipient)
  | .attach a attach => do
    let _ ← s.login.table.session a
    some (s.setTable (s.login.table.alter (·.set (.attachedScreen (some attach))) a))
  | .deattachRequest a => do
    let _ ← s.login.table.session a
    some (s.setTable (s.login.table.alter (·.set (.attachedScreen none)) a))
  | .remove a =>
    match s.login.table.lookup a with
    | none => some s
    | some (.nonAuthenticated _) => some (s.setTable (s.login.table.erase a))
    | some (.authenticated conn) =>
      some { s.setTable (s.login.table.erase a) with closing := .start conn :: s.closing }
  | .cleanup k =>
    match s.closing[k]? with
    | some ⟨id, username, c :: todo⟩ =>
      some { s.clean c id username with closing := s.closing.set k ⟨id, username, todo⟩ }
    | _ => none

/-- One action where a teardown is one step. -/
def atomicStep (s : TeardownServer Addr) : TeardownAction Addr → Option (TeardownServer Addr)
  | .remove a =>
    match s.login.table.lookup a with
    | none => some s
    | some (.nonAuthenticated _) => some (s.setTable (s.login.table.erase a))
    | some (.authenticated conn) =>
      let closing := Closing.start conn
      some (closing.todo.foldl (fun s c => s.clean c closing.id closing.username)
        (s.setTable (s.login.table.erase a)))
  | .cleanup _ => none
  | action => s.step action

/-- The actions of the atomic system. -/
def notCleanup : TeardownAction Addr → Bool
  | .cleanup _ => false
  | _ => true

/-- What belongs to the session with this id and username is the same in both states. -/
structure Same (s t : TeardownServer Addr) (id : ℕ) (username : String) : Prop where
  voice : s.voice id = t.voice id
  uploads : ∀ uid upload, upload.clientId = id → (s.active uid = some upload ↔ t.active uid = some upload)
  available : s.available username = t.available username
  directory : s.directory username = t.directory username
  viewers : ∀ a, ((s.login.table.session a).bind (·.attachedScreen)).any (·.targetId = id) =
    ((t.login.table.session a).bind (·.attachedScreen)).any (·.targetId = id)
  lastPm : ∀ a, (s.login.table.session a).bind (·.lastPm) = some id ↔
    (t.login.table.session a).bind (·.lastPm) = some id

/-! ### A session that comes too early -/

/-- A user leaves, logs in again before the voice slot of the old session is closed, and
joins the voice chat.  Then the old session is cleaned up. -/
def earlyReturn : List (TeardownAction ℕ) :=
  [.login (.connect 1 1 1 (.replicate 32 0) 0), .login (.keyExchange 1 ([1], [1]) 0),
    .login (.checkName 1 ⟨1, 16, "server"⟩ "anna"), .login (.recordName 1), .login (.pickId 1),
    .login (.authenticate 1 ⟨0, 5⟩ none .user 1 0),
    .remove 1,
    .login (.connect 2 2 2 (.replicate 32 0) 0), .login (.keyExchange 2 ([2], [2]) 0),
    .login (.checkName 2 ⟨1, 16, "server"⟩ "anna"), .login (.recordName 2), .login (.pickId 2),
    .login (.authenticate 2 ⟨0, 5⟩ none .user 2 0), .voiceRequest 2 (.replicate 32 0),
    .cleanup 0, .cleanup 0, .cleanup 0, .cleanup 0, .cleanup 0]

/-- **A teardown closes the voice slot of another session.** -/
theorem teardown_hits_session :
    ¬∀ (directory : String → Option (List String)) (actions : List (TeardownAction ℕ))
      (s t : TeardownServer ℕ), exec step (start directory) actions = some s →
      exec atomicStep (start directory) (actions.filter notCleanup) = some t →
      ∀ b conn, s.login.table.session b = some conn → Same s t conn.id conn.username := by
  intro h
  have hreal : (exec step (start fun _ => none) earlyReturn).map (fun s =>
      (s.voice 0, (s.login.table.session 2).map (·.id))) = some (none, some 0) := by decide
  have hatomic : (exec atomicStep (start fun _ => none) (earlyReturn.filter notCleanup)).map (fun t =>
      (t.voice 0).isSome) = some true := by decide
  obtain ⟨s, hs, hvalue⟩ := Option.map_eq_some_iff.1 hreal
  obtain ⟨t, ht, hslot⟩ := Option.map_eq_some_iff.1 hatomic
  obtain ⟨hvoice, hid⟩ := Prod.mk.inj hvalue
  obtain ⟨conn, hconn, hid⟩ := Option.map_eq_some_iff.1 hid
  have hsame := (h (fun _ => none) earlyReturn s t hs ht 2 conn hconn).voice
  rw [hid, hvoice] at hsame
  rw [← hsame] at hslot
  cases hslot

/-! ### What is still to be cleaned up -/

/-- The ids and the names that something is to be cleaned up for. -/
structure Marks where
  id : Cleanup → ℕ → Bool
  name : Cleanup → String → Bool

/-- One cleanup. -/
def Marks.one (c : Cleanup) (id : ℕ) (username : String) : Marks where
  id d i := d = c && i = id
  name d n := d = c && n = username

/-- Both. -/
def Marks.or (M N : Marks) : Marks where
  id c i := M.id c i || N.id c i
  name c n := M.name c n || N.name c n

/-- What the teardowns have still to clean up. -/
def Marks.of (closing : List Closing) : Marks where
  id c i := closing.any fun t => t.id = i && c ∈ t.todo
  name c n := closing.any fun t => t.username = n && c ∈ t.todo

end TeardownServer

/-- A session without the screen it watches and the `last_pm` value, if they are marked. -/
def Authenticated.forget (screen pm : ℕ → Bool) (conn : Authenticated Addr) : Authenticated Addr :=
  { conn with
    attachedScreen := conn.attachedScreen.filter fun attach => !screen attach.targetId
    lastPm := conn.lastPm.filter fun id => !pm id }

/-- The entry of that session. -/
def Connection.forget (screen pm : ℕ → Bool) : Connection Addr → Connection Addr
  | authenticated conn => authenticated (conn.forget screen pm)
  | nonAuthenticated conn => nonAuthenticated conn

namespace TeardownServer

/-- The state with all of it cleaned up. -/
def sweep (M : Marks) (s : TeardownServer Addr) : TeardownServer Addr where
  login := { s.login with table := s.login.table.mapAll (.forget (M.id .deattach) (M.id .lastPm)) }
  voice := purge (fun id _ => !M.id .voice id) s.voice
  active := purge (fun _ upload => !M.id .uploads upload.clientId) s.active
  available := purge (fun username _ => !M.name .available username) s.available
  directory := purge (fun username _ => !M.name .directory username) s.directory
  closing := s.closing

end TeardownServer

namespace Connection

variable (screen pm : ℕ → Bool) (c : Connection Addr)

omit [DecidableEq Addr]

/-- What is forgotten in two steps is forgotten in one. -/
theorem forget_forget (screen' pm' : ℕ → Bool) :
    (c.forget screen' pm').forget screen pm =
      c.forget (fun i => screen i || screen' i) (fun i => pm i || pm' i) := by
  cases c with
  | nonAuthenticated conn => rfl
  | authenticated conn => simp only [forget, Authenticated.forget, Option.filter_filter, Bool.not_or, Bool.and_comm]

/-- Forgetting nothing. -/
theorem forget_false : c.forget (fun _ => false) (fun _ => false) = c := by
  cases c with
  | nonAuthenticated conn => rfl
  | authenticated conn => simp only [forget, Authenticated.forget, Bool.not_false, filter_const_true]

/-- `deattach_from` forgets a screen. -/
theorem deattachFrom_eq (id : ℕ) : c.deattachFrom id = c.forget (fun i => i = id) (fun _ => false) := by
  cases c with
  | nonAuthenticated conn => rfl
  | authenticated conn =>
    simp only [forget, Authenticated.forget, deattachFrom, Bool.not_false, filter_const_true]
    cases hscreen : conn.attachedScreen with
    | none =>
      rw [Option.any_none, if_neg (by decide), Option.filter_none, ← hscreen]
    | some attach =>
      rw [Option.any_some, Option.filter_some]
      by_cases hid : attach.targetId = id
      · rw [decide_eq_true hid, if_pos rfl, if_neg (by decide)]
      · rw [decide_eq_false hid, if_neg (by decide), if_pos (by decide), ← hscreen]

/-- `unset_last_pm` forgets a partner. -/
theorem unsetLastPm_eq (id : ℕ) : c.unsetLastPm id = c.forget (fun _ => false) (fun i => i = id) := by
  cases c with
  | nonAuthenticated conn => rfl
  | authenticated conn =>
    simp only [forget, Authenticated.forget, unsetLastPm, Bool.not_false, filter_const_true]
    cases hpm : conn.lastPm with
    | none => rw [if_neg (by simp), Option.filter_none, ← hpm]
    | some i =>
      rw [Option.filter_some]
      by_cases hid : i = id
      · rw [decide_eq_true hid, if_pos (congrArg some hid), if_neg (by decide)]
      · rw [decide_eq_false hid, if_neg (by simpa using hid), if_pos (by decide), ← hpm]

/-- New keys do not depend on what is forgotten. -/
theorem forget_updateClientKeys (keys : SharedKeys) (now : Instant) :
    (c.updateClientKeys keys now).forget screen pm = (c.forget screen pm).updateClientKeys keys now := by
  cases c <;> rfl

/-- Nor does an update that does not bring it back. -/
theorem forget_set (update : FieldUpdate) (hpm : ∀ id, update = .lastPm (some id) → pm id = false)
    (hscreen : ∀ attach, update = .attachedScreen (some attach) → screen attach.targetId = false) :
    (c.set update).forget screen pm = (c.forget screen pm).set update := by
  cases c with
  | nonAuthenticated conn => cases update <;> rfl
  | authenticated conn =>
    cases update with
    | lastPm id =>
      cases id with
      | none => rfl
      | some id =>
        simp only [set, forget, Authenticated.forget, Option.filter_some, hpm id rfl, Bool.not_false, if_true]
    | attachedScreen attach =>
      cases attach with
      | none => rfl
      | some attach =>
        simp only [set, forget, Authenticated.forget, Option.filter_some, hscreen attach rfl, Bool.not_false,
          if_true]
    | _ => rfl

/-- Nor does a login. -/
theorem forget_authenticateClient (config : LoginConfig) (username : String) (device : Option Device)
    (role : Role) (id fileStreams : ℕ) (now : Instant) :
    (c.forget screen pm).authenticateClient config username device role id fileStreams now =
      (c.authenticateClient config username device role id fileStreams now).map (·.forget screen pm) := by
  cases c with
  | nonAuthenticated conn =>
    obtain ⟨writeStream, task, peerAddr, name, keys, obfuscationKey, lastActivity, seq, connect⟩ := conn
    cases keys <;> rfl
  | authenticated conn => rfl

/-- Nor does a change of the channel. -/
theorem forget_updateClientChannel (channel : Option String) (now : Instant) :
    (c.forget screen pm).updateClientChannel channel now =
      (c.updateClientChannel channel now).map (·.forget screen pm) := by
  cases c <;> rfl

/-- The name is not forgotten. -/
theorem username_forget : (c.forget screen pm).username = c.username := by cases c <;> rfl

/-- The id is not forgotten. -/
theorem id_forget : (c.forget screen pm).id = c.id := by cases c <;> rfl

/-- The identity is not forgotten. -/
theorem identity_forget : (c.forget screen pm).identity = c.identity := by cases c <;> rfl

end Connection

namespace Connections

variable (f g : Connection Addr → Connection Addr) (table : Connections Addr)

omit [DecidableEq Addr] in
/-- Two changes of every entry are one. -/
theorem mapAll_mapAll : (table.mapAll g).mapAll f = table.mapAll fun c => f (g c) := by
  refine AList.ext ?_
  simp only [mapAll, List.map_map]
  rfl

omit [DecidableEq Addr] in
/-- A change of nothing is none. -/
theorem mapAll_eq_self (h : ∀ c, f c = c) : table.mapAll f = table := by
  refine AList.ext (List.map_id'' (fun entry => ?_) table.entries)
  rw [Sigma.map, h]
  rfl

/-- Entries that are changed are erased by their address. -/
theorem kerase_map (a : Addr) (entries : List (Σ _ : Addr, Connection Addr)) :
    List.kerase a (entries.map (Sigma.map id fun _ => f : _ → Σ _ : Addr, Connection Addr)) =
      (List.kerase a entries).map (Sigma.map id fun _ => f) :=
  List.eraseP_map ..

/-- A change of every entry, before or after one is erased. -/
theorem mapAll_erase (a : Addr) : mapAll f (table.erase a) = (table.mapAll f).erase a :=
  AList.ext (kerase_map f a table.entries).symm

/-- A change of every entry, before or after one is inserted. -/
theorem mapAll_insert (a : Addr) (c : Connection Addr) :
    mapAll f (table.insert a c) = (table.mapAll f).insert a (f c) := by
  refine AList.ext ?_
  rw [AList.entries_insert]
  exact congrArg _ (kerase_map f a table.entries).symm

/-- A change of every entry, before or after another of one. -/
theorem mapAll_alter (a : Addr) (h : ∀ c, f (g c) = g (f c)) :
    (table.alter g a).mapAll f = (table.mapAll f).alter g a := by
  unfold alter
  rw [lookup_mapAll]
  cases table.lookup a with
  | none => rfl
  | some c =>
    simp only [Option.map_some]
    rw [mapAll_insert, h]

omit [DecidableEq Addr] in
/-- The ids stay, and so does the latest. -/
theorem getLatestId_mapAll (h : ∀ c, (f c).id = c.id) : (table.mapAll f).getLatestId = table.getLatestId := by
  have hids : (table.mapAll f).ids = table.ids := by
    unfold ids mapAll
    rw [List.filterMap_map]
    exact congrArg (fun p => List.filterMap p table.entries) (funext fun entry => h entry.2)
  rw [getLatestId, hids, getLatestId]

omit [DecidableEq Addr] in
/-- The names stay, and so do those that are connected. -/
theorem userConnected_mapAll (h : ∀ c, (f c).username = c.username) (username : String) :
    (table.mapAll f).userConnected username = table.userConnected username := by
  unfold userConnected mapAll
  rw [List.any_map]
  refine congrArg (fun p => List.any table.entries p) (funext fun entry => ?_)
  simp only [Function.comp, Sigma.map, h]

variable (screen pm : ℕ → Bool)

/-- The session of an address, without what is forgotten. -/
theorem session_mapAll (a : Addr) :
    (table.mapAll (·.forget screen pm)).session a = (table.session a).map (·.forget screen pm) := by
  unfold session
  rw [lookup_mapAll]
  rcases table.lookup a with _ | (conn | conn) <;> rfl

omit [DecidableEq Addr] in
/-- The session of an id, without what is forgotten. -/
theorem byId_mapAll (id : ℕ) :
    (table.mapAll (·.forget screen pm)).byId id =
      (table.byId id).map fun entry => (entry.1, entry.2.forget screen pm) := by
  unfold byId findSession mapAll
  rw [List.findSome?_map, List.map_findSome?]
  refine congrArg (fun p => List.findSome? p table.entries) (funext fun entry => ?_)
  obtain ⟨a, conn | conn⟩ := entry
  · simp only [Function.comp, Sigma.map, Connection.forget, Authenticated.forget]
    split <;> rfl
  · rfl

end Connections

/-! ### The other actions do not wait for a cleanup -/

/-- The login without what is marked in the table. -/
def LoginServer.forget (screen pm : ℕ → Bool) (s : LoginServer Addr) : LoginServer Addr :=
  { s with table := s.table.mapAll (·.forget screen pm) }

/-- **A login step does not depend on who watches whom and who wrote to whom.** -/
theorem LoginServer.step_forget (screen pm : ℕ → Bool) {s s' : LoginServer Addr}
    {action : LoginAction Addr} (hplain : TeardownServer.plain action = true)
    (h : s.step action = some s') : (s.forget screen pm).step action = some (s'.forget screen pm) := by
  cases action with
  | connect a writeStream task obfuscationKey now =>
    rw [step] at h
    split_ifs at h with hidle
    obtain rfl := Option.some.inj h
    refine (if_pos hidle).trans ?_
    simp only [forget, enter, Connections.mapAll_insert]
    rfl
  | keyExchange a keys now =>
    rw [step] at h
    split_ifs at h with hphase
    obtain rfl := Option.some.inj h
    refine (if_pos hphase).trans ?_
    simp only [forget, Connections.mapAll_alter _ _ _ _
      fun c => Connection.forget_updateClientKeys screen pm c keys now]
  | checkName a rules name =>
    rw [step] at h
    split_ifs at h with hphase hok <;> obtain rfl := Option.some.inj h <;> refine (if_pos hphase).trans ?_
    all_goals
      simp only [forget, Connections.userConnected_mapAll _ _ (Connection.username_forget screen pm), hok]
      rfl
  | recordName a =>
    rw [step] at h
    split at h <;> cases h
    rename_i name hphase
    have halter := Connections.mapAll_alter (·.forget screen pm) (·.set (.username name)) s.table a
      fun c => Connection.forget_set screen pm c (.username name) (by simp) (by simp)
    simp only [step, forget, hphase, enter, halter]
  | pickId a =>
    rw [step] at h
    split at h <;> cases h
    rename_i name hphase
    have hid := Connections.getLatestId_mapAll (·.forget screen pm) s.table (Connection.id_forget screen pm)
    simp only [step, forget, hphase, enter, hid]
  | authenticate a config device role fileStreams now =>
    rw [step] at h
    split at h
    · rename_i name n hphase
      cases hlookup : s.table.lookup a with
      | none =>
        rw [hlookup] at h
        obtain rfl := Option.some.inj h
        simp only [step, forget, hphase, Connections.lookup_mapAll, hlookup, Option.map_none, enter]
      | some old =>
        rw [hlookup] at h
        obtain ⟨conn, hconn, rfl⟩ := Option.map_eq_some_iff.1 h
        simp only [step, forget, hphase, Connections.lookup_mapAll, hlookup, Option.map_some,
          Connection.forget_authenticateClient, hconn, enter, Connections.mapAll_insert]
    · cases h
  | channel a channel now =>
    rw [step] at h
    split_ifs at h with hphase
    refine (if_pos hphase).trans ?_
    cases hlookup : s.table.lookup a with
    | none =>
      rw [hlookup] at h
      obtain rfl := Option.some.inj h
      simp only [forget, Connections.lookup_mapAll, hlookup, Option.map_none]
    | some old =>
      rw [hlookup] at h
      obtain ⟨conn, hconn, rfl⟩ := Option.map_eq_some_iff.1 h
      simp only [forget, Connections.lookup_mapAll, hlookup, Option.map_some,
        Connection.forget_updateClientChannel, hconn, Connections.mapAll_insert]
  | set a update =>
    have hcomm : ∀ c : Connection Addr,
        (c.set update).forget screen pm = (c.forget screen pm).set update := by
      refine fun c => Connection.forget_set screen pm c update ?_ ?_
      · rintro id rfl
        cases hplain
      · rintro attach rfl
        cases hplain
    obtain ⟨hname, rfl⟩ := step_set.1 h
    refine step_set.2 ⟨hname, ?_⟩
    simp only [forget, Connections.mapAll_alter _ _ _ _ hcomm]
  | remove a => cases hplain
  | finish a =>
    obtain rfl := Option.some.inj h
    rfl

namespace TeardownServer

/-- Nothing of the session with this id and username is marked. -/
structure Marks.Clear (M : Marks) (id : ℕ) (username : String) : Prop where
  deattach : M.id .deattach id = false
  voice : M.id .voice id = false
  uploads : M.id .uploads id = false
  lastPm : M.id .lastPm id = false
  available : M.name .available username = false
  directory : M.name .directory username = false

/-- The condition: a session takes no id and no name that a teardown has still to clean
up for; nobody starts watching such an id; and a session that is torn down shares its id
and its name with no other. -/
def Apart (s : TeardownServer Addr) : TeardownAction Addr → Prop
  | .login (.authenticate a ..) => ∀ username id, s.login.phase a = .numbered username id →
      (Marks.of s.closing).Clear id username
  | .attach _ attach => (Marks.of s.closing).id .deattach attach.targetId = false
  | .remove a => ∀ id username, s.login.table.identity a = some (id, username) →
      ∀ b id' username', b ≠ a → s.login.table.identity b = some (id', username') →
        id' ≠ id ∧ username' ≠ username
  | _ => True

instance (M : Marks) (id : ℕ) (username : String) : Decidable (M.Clear id username) :=
  decidable_of_iff (M.id .deattach id = false ∧ M.id .voice id = false ∧ M.id .uploads id = false ∧
      M.id .lastPm id = false ∧ M.name .available username = false ∧ M.name .directory username = false)
    ⟨fun ⟨h₁, h₂, h₃, h₄, h₅, h₆⟩ => ⟨h₁, h₂, h₃, h₄, h₅, h₆⟩,
      fun ⟨h₁, h₂, h₃, h₄, h₅, h₆⟩ => ⟨h₁, h₂, h₃, h₄, h₅, h₆⟩⟩

instance [Fintype Addr] (s : TeardownServer Addr) (action : TeardownAction Addr) :
    Decidable (s.Apart action) :=
  match action with
  | .login (.authenticate a ..) =>
    match h : s.login.phase a with
    | .numbered username id =>
      decidable_of_iff ((Marks.of s.closing).Clear id username) (by
        simp only [Apart, h, LoginPhase.numbered.injEq]
        exact ⟨by rintro hclear _ _ ⟨rfl, rfl⟩; exact hclear, fun hclear => hclear _ _ ⟨rfl, rfl⟩⟩)
    | .idle | .handshake | .checked _ | .recorded _ | .session =>
      .isTrue fun _ _ hphase => by rw [h] at hphase; cases hphase
  | .attach _ attach => inferInstanceAs (Decidable ((Marks.of s.closing).id .deattach attach.targetId = false))
  | .remove a =>
    decidable_of_iff (∀ b, b ≠ a → ∀ x ∈ s.login.table.identity a, ∀ y ∈ s.login.table.identity b,
        y.1 ≠ x.1 ∧ y.2 ≠ x.2)
      ⟨fun h id username ha b id' username' hba hb => h b hba _ ha _ hb,
        fun h b hba x hx y hy => h x.1 x.2 hx b y.1 y.2 hba hy⟩
  | .login (.connect ..) | .login (.keyExchange ..) | .login (.checkName ..) | .login (.recordName ..)
  | .login (.pickId ..) | .login (.channel ..) | .login (.set ..) | .login (.remove ..)
  | .login (.finish ..) | .voiceRequest .. | .startUpload .. | .finishUpload .. | .abortUpload ..
  | .privateMessage .. | .re .. | .deattachRequest .. | .cleanup .. => .isTrue trivial

/-- No session has anything that is still to be cleaned up. -/
def Inv (s : TeardownServer Addr) : Prop :=
  ∀ b id username, s.login.table.identity b = some (id, username) →
    (Marks.of s.closing).Clear id username

/-- The state without its teardowns. -/
def settled (s : TeardownServer Addr) : TeardownServer Addr := { s with closing := [] }

/-- The state with every teardown finished. -/
def finish (s : TeardownServer Addr) : TeardownServer Addr := (s.sweep (.of s.closing)).settled

variable {s s' : TeardownServer Addr} {action : TeardownAction Addr} {M N : Marks}

omit [DecidableEq Addr] in
/-- Two sweeps are one. -/
theorem sweep_sweep (M N : Marks) (s : TeardownServer Addr) : (s.sweep N).sweep M = s.sweep (M.or N) := by
  simp only [sweep, Connections.mapAll_mapAll, purge_purge, Connection.forget_forget, Marks.or,
    Bool.not_or]

omit [DecidableEq Addr] in
/-- A sweep of nothing is none. -/
theorem sweep_eq_self (hid : ∀ c i, M.id c i = false) (hname : ∀ c n, M.name c n = false) :
    s.sweep M = s := by
  have hforget : ∀ c : Connection Addr, c.forget (M.id .deattach) (M.id .lastPm) = c := by
    intro c
    rw [show M.id .deattach = fun _ => false from funext (hid _),
      show M.id .lastPm = fun _ => false from funext (hid _)]
    exact c.forget_false
  simp only [sweep, hid, hname, Bool.not_false, purge_true, Connections.mapAll_eq_self _ _ hforget]

omit [DecidableEq Addr] in
/-- **A cleanup is a sweep of one mark.** -/
theorem clean_eq (c : Cleanup) (id : ℕ) (username : String) (s : TeardownServer Addr) :
    s.clean c id username = s.sweep (.one c id username) := by
  have hself := Connections.mapAll_eq_self _ s.login.table Connection.forget_false
  cases c
  all_goals
    simp only [clean, setTable, sweep, Marks.one, reduceCtorEq, decide_true, decide_false, Bool.true_and,
      Bool.false_and, Bool.not_false, purge_true]
  case deattach => simp only [Connection.deattachFrom_eq]
  case lastPm => simp only [Connection.unsetLastPm_eq]
  case voice => rw [hself, update_none_eq_purge]
  case directory => rw [hself, update_none_eq_purge]
  case available => rw [hself, update_none_eq_purge]
  case uploads =>
    rw [hself]
    simp only [ne_eq, decide_not]
    rfl

/-- The marks of a teardown, with one cleanup more. -/
theorem Marks.of_cons (c : Cleanup) (id : ℕ) (username : String) (todo : List Cleanup)
    (before after : List Closing) :
    Marks.of (before ++ ⟨id, username, c :: todo⟩ :: after) =
      (Marks.of (before ++ ⟨id, username, todo⟩ :: after)).or (.one c id username) := by
  have hbool : ∀ (p q : Prop) [Decidable p] [Decidable q] (x : Bool) (A B : Bool),
      (A || (x && decide (p ∨ q) || B)) = (A || (x && decide q || B) || (decide p && x)) := by
    intro p q _ _ x A B
    by_cases hp : p <;> cases x <;> cases A <;> cases B <;> simp [hp]
  simp only [of, or, one, List.any_append, List.any_cons, List.mem_cons, Marks.mk.injEq, hbool]
  constructor
  · funext d i
    rw [decide_eq_decide.2 (eq_comm (a := i))]
  · funext d n
    rw [decide_eq_decide.2 (eq_comm (a := n))]

/-- What a new teardown has marked, and the others. -/
theorem Marks.of_start (t : Closing) (closing : List Closing) :
    Marks.of (t :: closing) = (Marks.of [t]).or (.of closing) := by
  simp only [of, or, List.any_cons, List.any_nil, Bool.or_false]

omit [DecidableEq Addr] in
/-- The cleanups of one teardown, one after the other. -/
theorem foldl_clean (id : ℕ) (username : String) (todo : List Cleanup) (s : TeardownServer Addr) :
    todo.foldl (fun s c => s.clean c id username) s = s.sweep (.of [⟨id, username, todo⟩]) := by
  induction todo generalizing s with
  | nil => exact (sweep_eq_self (by simp [Marks.of]) (by simp [Marks.of])).symm
  | cons c todo ih =>
    rw [List.foldl_cons, ih, clean_eq, sweep_sweep]
    exact congrArg (s.sweep ·) (Marks.of_cons c id username todo [] []).symm

omit [DecidableEq Addr] in
/-- The marks before a cleanup are those after it and the one it does. -/
theorem marks_cleanup {k : ℕ} {id : ℕ} {username : String} {c : Cleanup} {todo : List Cleanup}
    (hk : s.closing[k]? = some ⟨id, username, c :: todo⟩) :
    Marks.of s.closing = (Marks.of (s.closing.set k ⟨id, username, todo⟩)).or (.one c id username) := by
  obtain ⟨hlt, hget⟩ := List.getElem?_eq_some_iff.1 hk
  have hsplit : s.closing = s.closing.take k ++ ⟨id, username, c :: todo⟩ :: s.closing.drop (k + 1) := by
    rw [← hget, List.cons_getElem_drop_succ, List.take_append_drop]
  have hset : s.closing.set k ⟨id, username, todo⟩ =
      s.closing.take k ++ ⟨id, username, todo⟩ :: s.closing.drop (k + 1) :=
    List.set_eq_take_append_cons_drop.trans (if_pos hlt)
  rw [hset, ← Marks.of_cons, ← hsplit]

/-- **A cleanup brings a teardown no further than finishing it does.** -/
theorem finish_cleanup {k : ℕ} (h : s.step (.cleanup k) = some s') : s'.finish = s.finish := by
  rw [step] at h
  split at h
  · rename_i id username c todo hk
    obtain rfl := Option.some.inj h
    unfold finish
    rw [marks_cleanup hk, ← sweep_sweep, ← clean_eq]
    rfl
  · cases h

omit [DecidableEq Addr] in
/-- The table is swept apart from the rest. -/
theorem setTable_sweep (table : Connections Addr) :
    (s.setTable table).sweep M =
      (s.sweep M).setTable (table.mapAll (.forget (M.id .deattach) (M.id .lastPm))) :=
  rfl

/-- **The first step of a teardown, with those in progress finished, is an atomic teardown.** -/
theorem finish_remove {a : Addr} (h : s.step (.remove a) = some s') :
    s.finish.atomicStep (.remove a) = some s'.finish := by
  have hlookup : s.finish.login.table.lookup a = (s.login.table.lookup a).map
      (.forget ((Marks.of s.closing).id .deattach) ((Marks.of s.closing).id .lastPm)) :=
    Connections.lookup_mapAll ..
  have herase : ∀ M : Marks, (s.sweep M).setTable ((s.sweep M).login.table.erase a) =
      (s.setTable (s.login.table.erase a)).sweep M := by
    intro M
    rw [setTable_sweep, Connections.mapAll_erase]
    rfl
  unfold atomicStep
  rw [step] at h
  dsimp only
  rw [hlookup]
  split at h
  · rename_i hnone
    obtain rfl := Option.some.inj h
    rw [hnone]
    rfl
  · rename_i conn hconn
    obtain rfl := Option.some.inj h
    rw [hconn]
    exact congrArg (fun t : TeardownServer Addr => some t.settled) (herase _)
  · rename_i conn hconn
    obtain rfl := Option.some.inj h
    rw [hconn]
    have hfinish : finish { s.setTable (s.login.table.erase a) with closing := .start conn :: s.closing } =
        (((s.setTable (s.login.table.erase a)).sweep (.of s.closing)).sweep (.of [.start conn])).settled := by
      rw [sweep_sweep, ← Marks.of_start]
      rfl
    rw [hfinish, ← herase]
    -- `forget` changes none of the fields a teardown starts from.
    exact congrArg some (foldl_clean conn.id conn.username (Closing.start conn).todo _)

section Unmarked

variable {id : ℕ} {username : String} (hfree : M.Clear id username)

include hfree

omit [DecidableEq Addr]

/-- A sweep of others leaves a voice session. -/
theorem voice_sweep : (s.sweep M).settled.voice id = s.voice id := by
  refine purge_apply (p := fun id _ => !M.id .voice id) (f := s.voice) fun _ _ => ?_
  rw [hfree.voice, Bool.not_false]

/-- A sweep of others leaves an upload. -/
theorem active_sweep {uid : ℕ} {upload : RunningUpload} (hid : upload.clientId = id) :
    (s.sweep M).settled.active uid = some upload ↔ s.active uid = some upload := by
  refine (purge_eq_some (p := fun _ upload => !M.id .uploads upload.clientId) (f := s.active)).trans
    (and_iff_left ?_)
  rw [hid, hfree.uploads, Bool.not_false]

/-- A sweep of others leaves what was shared. -/
theorem available_sweep : (s.sweep M).settled.available username = s.available username := by
  refine purge_apply (p := fun username _ => !M.name .available username) (f := s.available) fun _ _ => ?_
  rw [hfree.available, Bool.not_false]

/-- A sweep of others leaves the directory. -/
theorem directory_sweep : (s.sweep M).settled.directory username = s.directory username := by
  refine purge_apply (p := fun username _ => !M.name .directory username) (f := s.directory) fun _ _ => ?_
  rw [hfree.directory, Bool.not_false]

end Unmarked

/-- What the other actions see of the swept state. -/
theorem session_sweep (a : Addr) : (s.sweep M).login.table.session a =
    (s.login.table.session a).map (.forget (M.id .deattach) (M.id .lastPm)) :=
  Connections.session_mapAll ..

/-- A private message does not depend on what is marked. -/
theorem sendPrivate_sweep {conn : Authenticated Addr} (hclear : M.Clear conn.id conn.username)
    (recipient : ℕ) :
    (s.sweep M).settled.sendPrivate (conn.forget (M.id .deattach) (M.id .lastPm)) recipient =
      ((s.sendPrivate conn recipient).sweep M).settled := by
  have hbyId : (s.sweep M).settled.login.table.byId recipient = (s.login.table.byId recipient).map
      fun entry => (entry.1, entry.2.forget (M.id .deattach) (M.id .lastPm)) :=
    Connections.byId_mapAll ..
  unfold sendPrivate
  rw [hbyId]
  cases s.login.table.byId recipient with
  | none => rfl
  | some entry =>
    obtain ⟨b, target⟩ := entry
    have halter := Connections.mapAll_alter (.forget (M.id .deattach) (M.id .lastPm))
      (·.set (.lastPm (some conn.id))) s.login.table b fun c => Connection.forget_set _ _ c _
        (fun id hid => by cases hid; exact hclear.lastPm) (by simp)
    simp only [Option.map_some]
    by_cases hself : recipient = conn.id
    · rw [if_pos hself]
      exact if_pos hself
    · rw [if_neg hself, setTable_sweep, halter]
      exact if_neg hself

omit [DecidableEq Addr] in
/-- Joining and leaving the voice chat does not depend on what is marked. -/
theorem toggleVoice_sweep {id : ℕ} {username : String} (hfree : M.Clear id username) (slot : VoiceSlot) :
    (s.sweep M).settled.toggleVoice id slot = ((s.toggleVoice id slot).sweep M).settled := by
  unfold toggleVoice
  rw [voice_sweep hfree]
  simp only [sweep, settled]
  rw [purge_update (by simp [hfree.voice])]

omit [DecidableEq Addr] in
/-- The end of an upload does not depend on what is marked. -/
theorem publish_sweep {id : ℕ} {username : String} (hfree : M.Clear id username) (uid : ℕ)
    (filename : String) :
    (s.sweep M).settled.publish username uid filename =
      ((s.publish username uid filename).sweep M).settled := by
  unfold publish
  rw [directory_sweep hfree, available_sweep hfree]
  split
  · simp only [sweep, settled]
    rw [purge_update (by simp), purge_update (by simp [hfree.available]),
      purge_update (by simp [hfree.directory])]
  · simp only [sweep, settled]
    rw [purge_update (by simp)]

omit [DecidableEq Addr] in
/-- The list of files of a user who is not marked. -/
theorem afterLogin_sweep {action : LoginAction Addr} (login : LoginServer Addr)
    (hlogin : ∀ a config device role fileStreams now, action =
        .authenticate a config device role fileStreams now →
      ∀ username id, s.login.phase a = .numbered username id → M.Clear id username) :
    (s.sweep M).settled.afterLogin action (login.forget (M.id .deattach) (M.id .lastPm)) =
      ((s.afterLogin action login).sweep M).settled := by
  cases action with
  | authenticate a config device role fileStreams now =>
    have hphase : (s.sweep M).settled.login.phase a = s.login.phase a := rfl
    unfold afterLogin
    dsimp only
    rw [hphase]
    cases hnumbered : s.login.phase a with
    | numbered username id =>
      have hfree := (hlogin a _ _ _ _ _ rfl username id hnumbered).available
      simp only [sweep, settled]
      rw [purge_update (by simp [hfree])]
      rfl
    | _ => rfl
  | _ => rfl

/-- A marked id is that of no session. -/
theorem byId_eq_none_of_marked (hclear : ∀ b id username, s.login.table.identity b = some (id, username) →
    M.Clear id username) {id : ℕ} (hmark : M.id .lastPm id = true) : s.login.table.byId id = none := by
  cases hbyId : s.login.table.byId id with
  | none => rfl
  | some entry =>
    obtain ⟨a, found⟩ := entry
    obtain ⟨hlookup, hid⟩ := Connections.findSession_spec hbyId
    have hidentity : s.login.table.identity a = some (found.id, found.username) := by
      rw [Connections.identity, hlookup]
      rfl
    have hnot := (hclear a _ _ hidentity).lastPm
    rw [of_decide_eq_true hid, hmark] at hnot
    cases hnot

/-- **Every other action commutes with the sweep**, if what it works on is not marked. -/
theorem step_sweep (hclear : ∀ b id username, s.login.table.identity b = some (id, username) →
      M.Clear id username)
    (hlogin : ∀ a config device role fileStreams now, action =
        .login (.authenticate a config device role fileStreams now) →
      ∀ username id, s.login.phase a = .numbered username id → M.Clear id username)
    (hattach : ∀ a attach, action = .attach a attach → M.id .deattach attach.targetId = false)
    (hremove : ∀ a, action ≠ .remove a) (hcleanup : notCleanup action = true)
    (h : s.step action = some s') : (s.sweep M).settled.step action = some (s'.sweep M).settled := by
  have hsession : ∀ {a conn}, s.login.table.session a = some conn →
      (s.sweep M).settled.login.table.session a = some (conn.forget (M.id .deattach) (M.id .lastPm)) := by
    intro a conn hconn
    exact (session_sweep a).trans (by rw [hconn, Option.map_some])
  cases action with
  | remove a => exact absurd rfl (hremove a)
  | cleanup k => cases hcleanup
  | login action =>
    rw [step] at h
    split_ifs at h with hplain
    obtain ⟨login, hstep, rfl⟩ := Option.map_eq_some_iff.1 h
    have hforget := LoginServer.step_forget (M.id .deattach) (M.id .lastPm) hplain hstep
    rw [step, if_pos hplain]
    refine (congrArg (Option.map _) hforget).trans (congrArg some (afterLogin_sweep login ?_))
    intro a config device role fileStreams now heq
    exact hlogin a config device role fileStreams now (congrArg _ heq)
  | voiceRequest a token =>
    obtain ⟨conn, hconn, h⟩ := Option.bind_eq_some_iff.1 h
    obtain rfl := Option.some.inj h
    have hfree := hclear a _ _ (Connections.identity_of_session hconn)
    rw [step, hsession hconn]
    exact congrArg some (toggleVoice_sweep hfree ⟨conn.username, token⟩)
  | startUpload a uid filename =>
    obtain ⟨conn, hconn, h⟩ := Option.bind_eq_some_iff.1 h
    obtain rfl := Option.some.inj h
    have hfree := hclear a _ _ (Connections.identity_of_session hconn)
    rw [step, hsession hconn]
    refine congrArg some ?_
    dsimp only [Authenticated.forget]
    rw [directory_sweep hfree]
    simp only [sweep, settled]
    rw [purge_update (by simp [hfree.uploads]), purge_update (by simp [hfree.directory])]
  | finishUpload a uid =>
    obtain ⟨conn, hconn, h⟩ := Option.bind_eq_some_iff.1 h
    obtain ⟨upload, hupload, h⟩ := Option.bind_eq_some_iff.1 h
    have hfree := hclear a _ _ (Connections.identity_of_session hconn)
    split_ifs at h with hid
    obtain rfl := Option.some.inj h
    rw [step, hsession hconn, Option.bind_eq_bind, Option.bind_some, (active_sweep hfree hid).2 hupload,
      Option.bind_eq_bind, Option.bind_some]
    refine (if_pos hid).trans (congrArg some ?_)
    exact publish_sweep hfree uid upload.filename
  | abortUpload uid =>
    obtain rfl := Option.some.inj h
    refine congrArg some ?_
    simp only [sweep, settled]
    rw [purge_update (by simp)]
  | privateMessage a recipient =>
    obtain ⟨conn, hconn, h⟩ := Option.bind_eq_some_iff.1 h
    obtain rfl := Option.some.inj h
    rw [step, hsession hconn]
    exact congrArg some (sendPrivate_sweep (hclear a _ _ (Connections.identity_of_session hconn)) recipient)
  | re a =>
    obtain ⟨conn, hconn, h⟩ := Option.bind_eq_some_iff.1 h
    have hfree := hclear a _ _ (Connections.identity_of_session hconn)
    rw [step, hsession hconn, Option.bind_eq_bind, Option.bind_some]
    cases hpm : conn.lastPm with
    | none =>
      rw [hpm] at h
      obtain rfl := Option.some.inj h
      simp only [Authenticated.forget, hpm, Option.filter_none]
    | some recipient =>
      rw [hpm] at h
      obtain rfl := Option.some.inj h
      rcases Bool.eq_false_or_eq_true (M.id .lastPm recipient) with hmark | hmark
      · -- Nobody has the id any more, so the reply goes nowhere.
        have hlost : (conn.forget (M.id .deattach) (M.id .lastPm)).lastPm = none := by
          simp only [Authenticated.forget, hpm, Option.filter_some, hmark, Bool.not_true, Bool.false_eq_true,
            if_false]
        rw [hlost, sendPrivate, byId_eq_none_of_marked hclear hmark]
      · have hkept : (conn.forget (M.id .deattach) (M.id .lastPm)).lastPm = some recipient := by
          simp only [Authenticated.forget, hpm, Option.filter_some, hmark, Bool.not_false, if_true]
        rw [hkept]
        exact congrArg some (sendPrivate_sweep hfree recipient)
  | attach a attach =>
    obtain ⟨conn, hconn, h⟩ := Option.bind_eq_some_iff.1 h
    obtain rfl := Option.some.inj h
    have halter := Connections.mapAll_alter (.forget (M.id .deattach) (M.id .lastPm))
      (·.set (.attachedScreen (some attach))) s.login.table a fun c => Connection.forget_set _ _ c _
        (by simp) fun attach' heq => by cases heq; exact hattach a attach rfl
    rw [step, hsession hconn, setTable_sweep, halter]
    rfl
  | deattachRequest a =>
    obtain ⟨conn, hconn, h⟩ := Option.bind_eq_some_iff.1 h
    obtain rfl := Option.some.inj h
    have halter := Connections.mapAll_alter (.forget (M.id .deattach) (M.id .lastPm))
      (·.set (.attachedScreen none)) s.login.table a fun c => Connection.forget_set _ _ c _
        (by simp) (by simp)
    rw [step, hsession hconn, setTable_sweep, halter]
    rfl

/-! ### Whole runs -/

/-- What is clear of both is clear of the first. -/
theorem Marks.Clear.of_or {id : ℕ} {username : String} (h : (M.or N).Clear id username) :
    M.Clear id username := by
  obtain ⟨h₁, h₂, h₃, h₄, h₅, h₆⟩ := h
  simp only [Marks.or, Bool.or_eq_false_iff] at h₁ h₂ h₃ h₄ h₅ h₆
  exact ⟨h₁.1, h₂.1, h₃.1, h₄.1, h₅.1, h₆.1⟩

/-- What is clear of each is clear of both. -/
theorem Marks.Clear.or {id : ℕ} {username : String} (hM : M.Clear id username)
    (hN : N.Clear id username) : (M.or N).Clear id username := by
  constructor <;> simp only [Marks.or, Bool.or_eq_false_iff]
  · exact ⟨hM.deattach, hN.deattach⟩
  · exact ⟨hM.voice, hN.voice⟩
  · exact ⟨hM.uploads, hN.uploads⟩
  · exact ⟨hM.lastPm, hN.lastPm⟩
  · exact ⟨hM.available, hN.available⟩
  · exact ⟨hM.directory, hN.directory⟩

/-- A teardown marks nothing of a session with another id and another name. -/
theorem Marks.clear_of_ne {t : Closing} {id : ℕ} {username : String} (hid : id ≠ t.id)
    (hname : username ≠ t.username) : (Marks.of [t]).Clear id username := by
  constructor <;> simp [Marks.of, hid.symm, hname.symm]

omit [DecidableEq Addr] in
/-- A login changes the login server as it does alone. -/
theorem login_afterLogin (action : LoginAction Addr) (login : LoginServer Addr) :
    (s.afterLogin action login).login = login := by
  unfold afterLogin
  split
  · split <;> rfl
  · rfl

omit [DecidableEq Addr] in
/-- A login closes nothing. -/
theorem closing_afterLogin (action : LoginAction Addr) (login : LoginServer Addr) :
    (s.afterLogin action login).closing = s.closing := by
  unfold afterLogin
  split
  · split <;> rfl
  · rfl

/-- A private message changes no teardown and no identity. -/
theorem sendPrivate_frame (conn : Authenticated Addr) (recipient : ℕ) :
    (s.sendPrivate conn recipient).closing = s.closing ∧
      ∀ b, (s.sendPrivate conn recipient).login.table.identity b = s.login.table.identity b := by
  unfold sendPrivate
  split
  · exact ⟨rfl, fun _ => rfl⟩
  · split
    · exact ⟨rfl, fun _ => rfl⟩
    · exact ⟨rfl, Connections.identity_alter (Connection.identity_set _) _⟩

/-- The other actions change no teardown and no identity. -/
theorem step_frame (hlogin : ∀ login, action ≠ .login login) (hremove : ∀ a, action ≠ .remove a)
    (hkeep : notCleanup action = true) (h : s.step action = some s') :
    s'.closing = s.closing ∧ ∀ b, s'.login.table.identity b = s.login.table.identity b := by
  cases action with
  | login action => exact absurd rfl (hlogin action)
  | remove a => exact absurd rfl (hremove a)
  | cleanup k => cases hkeep
  | abortUpload uid =>
    obtain rfl := Option.some.inj h
    exact ⟨rfl, fun _ => rfl⟩
  | voiceRequest a token | startUpload a uid filename =>
    obtain ⟨conn, hconn, h⟩ := Option.bind_eq_some_iff.1 h
    obtain rfl := Option.some.inj h
    exact ⟨rfl, fun _ => rfl⟩
  | finishUpload a uid =>
    obtain ⟨conn, hconn, h⟩ := Option.bind_eq_some_iff.1 h
    obtain ⟨upload, hupload, h⟩ := Option.bind_eq_some_iff.1 h
    split_ifs at h with hid
    obtain rfl := Option.some.inj h
    unfold publish
    split
    · exact ⟨rfl, fun _ => rfl⟩
    · exact ⟨rfl, fun _ => rfl⟩
  | privateMessage a recipient =>
    obtain ⟨conn, hconn, h⟩ := Option.bind_eq_some_iff.1 h
    obtain rfl := Option.some.inj h
    exact sendPrivate_frame conn recipient
  | re a =>
    obtain ⟨conn, hconn, h⟩ := Option.bind_eq_some_iff.1 h
    split at h <;> obtain rfl := Option.some.inj h
    · exact ⟨rfl, fun _ => rfl⟩
    · exact sendPrivate_frame conn _
  | attach a attach | deattachRequest a =>
    obtain ⟨conn, hconn, h⟩ := Option.bind_eq_some_iff.1 h
    obtain rfl := Option.some.inj h
    exact ⟨rfl, Connections.identity_alter (Connection.identity_set _) a⟩

/-- **The sessions stay apart from the teardowns.** -/
theorem Inv.step (hinv : s.Inv) (hcond : s.Apart action) (h : s.step action = some s') : s'.Inv := by
  cases action with
  | login action =>
    rw [TeardownServer.step] at h
    split_ifs at h with hplain
    obtain ⟨login, hstep, rfl⟩ := Option.map_eq_some_iff.1 h
    intro b id username hb
    rw [closing_afterLogin]
    rw [login_afterLogin] at hb
    rcases LoginServer.step_identity hstep hb with hold | ⟨hphase, config, device, role, fileStreams, now, rfl⟩
    · exact hinv b id username hold
    · exact hcond username id hphase
  | remove a =>
    have herase : ∀ b i name, Connections.identity (s.login.table.erase a) b = some (i, name) →
        b ≠ a ∧ s.login.table.identity b = some (i, name) := by
      intro b i name hb
      unfold Connections.identity at hb
      rw [congrFun (Connections.lookup_erase a s.login.table) b] at hb
      rcases eq_or_ne b a with rfl | hba
      · rw [Function.update_self] at hb
        cases hb
      · rw [Function.update_of_ne hba] at hb
        exact ⟨hba, hb⟩
    rw [TeardownServer.step] at h
    split at h <;> obtain rfl := Option.some.inj h
    · exact hinv
    · intro b i name hb
      exact hinv b i name (herase b i name hb).2
    · rename_i conn hconn
      intro b i name hb
      obtain ⟨hba, hold⟩ := herase b i name hb
      have hidentity : s.login.table.identity a = some (conn.id, conn.username) := by
        rw [Connections.identity, hconn]
        rfl
      obtain ⟨hid, hname⟩ := hcond conn.id conn.username hidentity b i name hba hold
      dsimp only
      rw [Marks.of_start]
      exact (Marks.clear_of_ne hid hname).or (hinv b i name hold)
  | cleanup k =>
    rw [TeardownServer.step] at h
    split at h
    · rename_i id username c todo hk
      obtain rfl := Option.some.inj h
      intro b i name hb
      have hsame : (s.clean c id username).login.table.identity b = s.login.table.identity b := by
        rw [clean_eq]
        exact Connections.identity_mapAll (Connection.identity_forget _ _) b
      have hclear := hinv b i name (hsame ▸ hb)
      rw [marks_cleanup hk] at hclear
      exact hclear.of_or
    · cases h
  | _ =>
    obtain ⟨hclosing, hidentity⟩ := step_frame (by simp) (by simp) rfl h
    intro b id username hb
    rw [hidentity] at hb
    rw [hclosing]
    exact hinv b id username hb

/-- **A kept action is one of the atomic system, on the finished states.** -/
theorem finish_step (hinv : s.Inv) (hcond : s.Apart action) (h : s.step action = some s')
    (hkeep : notCleanup action = true) : s.finish.atomicStep action = some s'.finish := by
  by_cases hremove : ∃ a, action = .remove a
  · obtain ⟨a, rfl⟩ := hremove
    exact finish_remove h
  have hne : ∀ a, action ≠ .remove a := fun a ha => hremove ⟨a, ha⟩
  have hclosing : s'.closing = s.closing := by
    by_cases hlogin : ∃ login, action = .login login
    · obtain ⟨login, rfl⟩ := hlogin
      rw [step] at h
      split_ifs at h
      obtain ⟨login', -, rfl⟩ := Option.map_eq_some_iff.1 h
      exact closing_afterLogin login login'
    · exact (step_frame (fun login heq => hlogin ⟨login, heq⟩) hne hkeep h).1
  have hatomic : s.finish.atomicStep action = s.finish.step action := by
    cases action with
    | remove a => exact absurd rfl (hne a)
    | cleanup k => cases hkeep
    | _ => rfl
  rw [hatomic, finish, finish, hclosing]
  refine step_sweep hinv ?_ ?_ hne hkeep h
  · rintro a config device role fileStreams now rfl
    exact hcond
  · rintro a attach rfl
    exact hcond

/-- A server that starts has the invariant. -/
theorem start_inv (directory : String → Option (List String)) :
    (start directory : TeardownServer Addr).Inv := by
  intro b id username hb
  cases hb

/-- What belongs to a session that is not marked is the same when the teardowns are finished. -/
theorem same_finish {id : ℕ} {username : String} (hfree : (Marks.of s.closing).Clear id username) :
    Same s s.finish id username := by
  constructor
  · exact (voice_sweep hfree).symm
  · exact fun uid upload hid => (active_sweep hfree hid).symm
  · exact (available_sweep hfree).symm
  · exact (directory_sweep hfree).symm
  · intro a
    have hsession : s.finish.login.table.session a = _ := session_sweep a
    rw [hsession]
    cases s.login.table.session a with
    | none => rfl
    | some conn =>
      simp only [Option.map_some, Option.bind_some, Authenticated.forget]
      cases conn.attachedScreen with
      | none => rfl
      | some attach =>
        by_cases hid : attach.targetId = id
        · simp only [Option.filter_some, hid, hfree.deattach, Bool.not_false, if_true]
        · rw [Option.filter_some]
          split <;> simp [hid]
  · intro a
    have hsession : s.finish.login.table.session a = _ := session_sweep a
    rw [hsession]
    cases s.login.table.session a with
    | none => exact Iff.rfl
    | some conn =>
      simp only [Option.map_some, Option.bind_some, Authenticated.forget]
      rw [Option.filter_eq_some_iff]
      exact (and_iff_left (by rw [hfree.lastPm, Bool.not_false])).symm

/-- The session is the same either way. -/
theorem Same.symm {t : TeardownServer Addr} {id : ℕ} {username : String} (h : Same s t id username) :
    Same t s id username :=
  ⟨h.voice.symm, fun uid upload hid => (h.uploads uid upload hid).symm, h.available.symm,
    h.directory.symm, fun a => (h.viewers a).symm, fun a => (h.lastPm a).symm⟩

/-- A session that is the same as the same is the same. -/
theorem Same.trans {t u : TeardownServer Addr} {id : ℕ} {username : String} (h : Same s t id username)
    (h' : Same t u id username) : Same s u id username :=
  ⟨h.voice.trans h'.voice, fun uid upload hid => (h.uploads uid upload hid).trans (h'.uploads uid upload hid),
    h.available.trans h'.available, h.directory.trans h'.directory,
    fun a => (h.viewers a).trans (h'.viewers a), fun a => (h.lastPm a).trans (h'.lastPm a)⟩

/-- No cleanup touches what belongs to a session. -/
theorem same_cleanup (hinv : s.Inv) {k : ℕ} (h : s.step (.cleanup k) = some s') {b : Addr} {id : ℕ}
    {username : String} (hb : s.login.table.identity b = some (id, username)) : Same s s' id username := by
  have hclear := hinv b id username hb
  have hfinish := finish_cleanup h
  rw [step] at h
  split at h
  · rename_i i name c todo hk
    obtain rfl := Option.some.inj h
    have hclear' := hclear
    rw [marks_cleanup hk] at hclear'
    have hafter := same_finish (s := { s.clean c i name with closing := s.closing.set k ⟨i, name, todo⟩ })
      hclear'.of_or
    rw [hfinish] at hafter
    exact (same_finish hclear).trans hafter.symm
  · cases h

/-- **Teardowns are as good as atomic, unless a session comes too early.**  In every run in
which no session takes an id or a name that a teardown has still to clean up for, nobody
starts watching such an id and a session that is torn down shares its id and its name with
no other, every session has what it has in the run where each teardown is one step, and
no cleanup takes anything from it. -/
theorem teardown_atomic (directory : String → Option (List String)) (actions : List (TeardownAction Addr))
    {s : TeardownServer Addr} (hmeets : Meets step Apart (start directory) actions)
    (hrun : exec step (start directory) actions = some s) :
    ∃ t, exec atomicStep (start directory) (actions.filter notCleanup) = some t ∧
      ∀ b conn, s.login.table.session b = some conn →
        t.login.table.identity b = some (conn.id, conn.username) ∧ Same s t conn.id conn.username ∧
        ∀ k s', s.step (.cleanup k) = some s' → Same s s' conn.id conn.username := by
  have hinv : s.Inv := exec_induct (fun _ _ _ => Inv.step) (start_inv directory) hmeets hrun
  have hfinish : (start directory : TeardownServer Addr).finish = start directory :=
    congrArg settled (sweep_eq_self (by simp [start, Marks.of]) (by simp [start, Marks.of]))
  have hatomic := exec_deferred (fun _ _ _ => Inv.step) (fun _ _ _ hinv hcond => finish_step hinv hcond)
    (fun _ a _ _ _ h hkeep => by
      cases a with
      | cleanup k => exact finish_cleanup h
      | _ => cases hkeep) (start_inv directory) hmeets hrun
  rw [hfinish] at hatomic
  refine ⟨s.finish, hatomic, fun b conn hconn => ?_⟩
  have hidentity := Connections.identity_of_session hconn
  refine ⟨?_, same_finish (hinv b _ _ hidentity), fun k s' h => same_cleanup hinv h hidentity⟩
  rw [← hidentity]
  exact Connections.identity_mapAll (Connection.identity_forget _ _) b

/-- One user leaves while the other joins the voice chat and writes to a third; the first
comes back when the old session is cleaned up. -/
def lateReturn : List (TeardownAction (Fin 5)) :=
  [.login (.connect 0 1 1 (.replicate 32 0) 0), .login (.keyExchange 0 ([1], [1]) 0),
    .login (.checkName 0 ⟨1, 16, "server"⟩ "anna"), .login (.recordName 0), .login (.pickId 0),
    .login (.authenticate 0 ⟨0, 5⟩ none .user 1 0),
    .login (.connect 1 2 2 (.replicate 32 0) 0), .login (.keyExchange 1 ([2], [2]) 0),
    .login (.checkName 1 ⟨1, 16, "server"⟩ "ben"), .login (.recordName 1), .login (.pickId 1),
    .login (.authenticate 1 ⟨0, 5⟩ none .user 2 0),
    .privateMessage 0 1, .remove 0, .voiceRequest 1 (.replicate 32 0), .cleanup 0, .re 1, .cleanup 0,
    .cleanup 0, .cleanup 0, .cleanup 0,
    .login (.connect 2 3 3 (.replicate 32 0) 0), .login (.keyExchange 2 ([3], [3]) 0),
    .login (.checkName 2 ⟨1, 16, "server"⟩ "anna"), .login (.recordName 2), .login (.pickId 2),
    .login (.authenticate 2 ⟨0, 5⟩ none .user 3 0), .voiceRequest 2 (.replicate 32 1)]

/-- The theorem on that run: the session that came back keeps its voice slot. -/
theorem teardown_atomic_late_return : ∃ s t : TeardownServer (Fin 5),
    exec step (start fun _ => none) lateReturn = some s ∧
      Meets step Apart (start fun _ => none) lateReturn ∧
      exec atomicStep (start fun _ => none) (lateReturn.filter notCleanup) = some t ∧
      Same s t 0 "anna" ∧ s.voice 0 = some ⟨"anna", .replicate 32 1⟩ := by
  have hvalues : (exec step (start fun _ => none) lateReturn).map (fun s =>
      (s.voice 0, (s.login.table.session 2).map fun conn => (conn.id, conn.username))) =
      some (some ⟨"anna", .replicate 32 1⟩, some (0, "anna")) := by decide
  obtain ⟨s, hs, hvalue⟩ := Option.map_eq_some_iff.1 hvalues
  obtain ⟨hvoice, hsession⟩ := Prod.mk.inj hvalue
  obtain ⟨conn, hconn, hidentity⟩ := Option.map_eq_some_iff.1 hsession
  obtain ⟨hid, hname⟩ := Prod.mk.inj hidentity
  have hmeets : Meets step Apart (start fun _ => none) lateReturn := by decide
  obtain ⟨t, ht, hsame⟩ := teardown_atomic (fun _ => none) lateReturn hmeets hs
  have hconnSame := (hsame 2 conn hconn).2.1
  rw [hid, hname] at hconnSame
  exact ⟨s, t, hs, hmeets, ht, hconnSame, hvoice⟩

end TeardownServer

end Why2
