/-
# Channels, on the server and on the clients

A channel exists while somebody is in it.  The server announces a channel when the
first client switches to it and when the last one switches away
(`update_client_channel`, `chat/src/network/server/mod.rs`).  A client that
disconnects is announced by a `Leave` alone.

A client keeps the set of channels and the list of users with the channel of each
(`chat/src/bin/client/tui/event.rs`).  The announcements change the set; the list
comes from a `List`, and after that only the client's own row follows a switch.
On a `Leave` the set is made from the list again, and so a channel that another
user went to meanwhile is forgotten, with the pane that was parked for it
(`channel_forgotten`).  If, whenever somebody leaves, the lists of the other clients
still name the channel of everybody who stays, every client has the channels the
server has, and no pane of an inhabited channel is dropped (`channels_agree`).

An action is one operation of the server, with all its packets delivered in order.
The order of a client's list plays no part, and is not kept.
-/

import Why2.Lib.Runs
import Mathlib.Data.Finset.Image
import Mathlib.Data.Finset.Dedup

namespace Why2

open Lib

/-- A row of the list of users. -/
structure OnlineUser where
  id : ℕ
  username : String
  channel : Option String
deriving DecidableEq

/-- The channels these users are in. -/
def inhabited (users : List OnlineUser) : Finset String := (users.filterMap (·.channel)).toFinset

/-- A line of a pane. -/
inductive PaneLine
  | joined (username : String)
  | left (username : String)
  | said (text : String)
deriving DecidableEq

/-- What a client knows: its list of users, the channels, the channel it is in (`""` is the
lobby) with the pane of it, and the panes it has parked. -/
structure ChannelView where
  username : String
  online : List OnlineUser
  channels : Finset String
  channel : String
  messages : List PaneLine
  panes : List (String × List PaneLine)
deriving DecidableEq

namespace ChannelView

/-- A client that has just logged in. -/
def new (username : String) : ChannelView := ⟨username, [], ∅, "", [], []⟩

variable (view : ChannelView)

/-- `push`. -/
def push (line : PaneLine) : ChannelView := { view with messages := view.messages ++ [line] }

/-- `prune_panes`. -/
def prunePanes : ChannelView :=
  { view with panes := view.panes.filter fun pane => pane.1 = "" ∨ pane.1 ∈ view.channels }

/-- `switch_channel`. -/
def switchChannel (channel : String) : ChannelView :=
  if channel = view.channel then view
  else
    let panes :=
      if view.messages = [] then view.panes
      else (view.channel, view.messages) :: view.panes.filter (·.1 ≠ view.channel)
    { view with
      messages := ((panes.find? (·.1 = channel)).map (·.2)).getD []
      panes := panes.filter (·.1 ≠ channel)
      channel }

/-- `ClientEvent::List`. -/
def list (users : List OnlineUser) : ChannelView :=
  { view with online := users, channels := inhabited users }.prunePanes

/-- `ClientEvent::Join`: everybody starts in the lobby. -/
def join (id : ℕ) (username : String) : ChannelView :=
  let view := view.push (.joined username)
  if view.online.any (·.id = id) then view else { view with online := view.online ++ [⟨id, username, none⟩] }

/-- `ClientEvent::Leave`: the set of channels is made from the list. -/
def leave (id : ℕ) (username : String) : ChannelView :=
  let view := view.push (.left username)
  let online := view.online.filter (·.id ≠ id)
  { view with online, channels := inhabited online }.prunePanes

/-- `ClientEvent::ChannelChanged`: the client's own row follows. -/
def channelChanged (channel : Option String) : ChannelView :=
  let view := view.switchChannel (channel.getD "")
  { view with
    channels := channel.elim view.channels (insert · view.channels)
    online := view.online.map fun user => if user.username = view.username then { user with channel } else user }

/-- `ClientEvent::ChannelCreated`. -/
def channelCreated (name : String) : ChannelView := { view with channels := insert name view.channels }

/-- `ClientEvent::ChannelDestroyed`. -/
def channelDestroyed (name : String) : ChannelView :=
  { view with channels := view.channels.erase name, panes := view.panes.filter (·.1 ≠ name) }

/-- The parked panes of inhabited channels that `prune_panes` would drop. -/
def losses (inhabited : Finset String) : List String :=
  (view.panes.map (·.1)).filter fun name => name ≠ "" ∧ name ∉ view.channels ∧ name ∈ inhabited

end ChannelView

/-- A connected client: its row on the server, and what it knows. -/
structure ChannelSession where
  user : OnlineUser
  view : ChannelView
deriving DecidableEq

/-- The clients, and the panes of inhabited channels that were dropped. -/
structure ChannelServer where
  sessions : List ChannelSession
  dropped : List (ℕ × String)

/-- One operation of the server. -/
inductive ChannelAction
  | login (id : ℕ) (username : String)
  /-- A `Channel` packet, with the setting `max_channel_length`. -/
  | switch (id : ℕ) (maxLength : ℕ) (channel : Option String)
  | disconnect (id : ℕ)
  | listRequest (id : ℕ)
  /-- A client shows a line. -/
  | show' (id : ℕ) (line : PaneLine)

namespace ChannelServer

/-- Nobody is there. -/
def start : ChannelServer := ⟨[], []⟩

variable (s : ChannelServer)

/-- The rows of the server. -/
def users : List OnlineUser := s.sessions.map (·.user)

/-- A packet goes to every client. -/
def toAll (event : ChannelView → ChannelView) : ChannelServer :=
  { s with sessions := s.sessions.map fun session => { session with view := event session.view } }

/-- A packet goes to one client. -/
def toOne (id : ℕ) (event : ChannelView → ChannelView) : ChannelServer :=
  { s with
    sessions := s.sessions.map fun session =>
      if session.user.id = id then { session with view := event session.view } else session }

/-- A packet goes to every client, after which some panes are dropped. -/
def toAllPruning (event : ChannelView → ChannelView) : ChannelServer :=
  { s.toAll event with
    dropped := s.dropped ++ s.sessions.flatMap fun session =>
      (({ event session.view with panes := session.view.panes } : ChannelView).losses (inhabited s.users)).map
        (session.user.id, ·) }

/-- `send_list`. -/
def sendList (id : ℕ) : ChannelServer := s.toOne id (·.list s.users)

/-- The test of a channel's name. -/
def validChannel (maxLength : ℕ) (name : String) : Bool :=
  name ≠ "" ∧ name.utf8ByteSize ≤ maxLength ∧ name.toList.all fun c => c.isAlphanum && c ≠ ' '

/-- The connection's channel is set. -/
def setChannel (id : ℕ) (channel : Option String) : ChannelServer :=
  { s with
    sessions := s.sessions.map fun session =>
      if session.user.id = id then { session with user := { session.user with channel } } else session }

/-- A channel that nobody is in any more is announced. -/
def announceDestroyed : Option String → ChannelServer
  | some name => if s.users.any (·.channel = some name) then s else s.toAll (·.channelDestroyed name)
  | none => s

/-- A channel that one client is in is announced. -/
def announceCreated : Option String → ChannelServer
  | some name => if s.users.countP (·.channel = some name) = 1 then s.toAll (·.channelCreated name) else s
  | none => s

/-- `update_client_channel`. -/
def updateClientChannel (id : ℕ) (channel : Option String) : ChannelServer :=
  let old := (s.users.find? (·.id = id)).bind (·.channel)
  let s := s.setChannel id channel
  if old = channel then s else (s.announceDestroyed old).announceCreated channel

/-- The client is told which channel it is in. -/
def switch (id : ℕ) (channel : Option String) : ChannelServer :=
  (s.updateClientChannel id channel).toOne id (·.channelChanged channel)

/-- The connection of a client that has logged in. -/
def connect (id : ℕ) (username : String) : ChannelServer :=
  { s with sessions := s.sessions ++ [⟨⟨id, username, none⟩, .new username⟩] }

/-- One action. -/
def step (s : ChannelServer) : ChannelAction → Option ChannelServer
  | .login id username =>
    if s.users.any fun user => user.id = id ∨ user.username = username then none
    else some (((s.connect id username).sendList id).toAll (·.join id username))
  | .switch id maxLength channel =>
    if s.users.any (·.id = id) then
      some (if channel.all (validChannel maxLength) then s.switch id channel else s)
    else none
  | .disconnect id => do
    let user ← s.users.find? (·.id = id)
    some ({ s with sessions := s.sessions.filter (·.user.id ≠ id) }.toAllPruning (·.leave id user.username))
  | .listRequest id =>
    if s.users.any (·.id = id) then
      some { s.sendList id with
        dropped := s.dropped ++ (s.sessions.filter (·.user.id = id)).flatMap fun session =>
          (({ session.view with channels := inhabited s.users } : ChannelView).losses (inhabited s.users)).map (id, ·) }
    else none
  | .show' id line => if s.users.any (·.id = id) then some (s.toOne id (·.push line)) else none

/-- Every client has the channels of the server, and none has dropped the pane of a channel
that somebody is in. -/
structure Agree (s : ChannelServer) : Prop where
  channels : ∀ session ∈ s.sessions, session.view.channels = inhabited s.users
  dropped : s.dropped = []

/-! ### A channel that is forgotten -/

/-- One of three clients goes to a channel, and another one leaves. -/
def forgotten : List ChannelAction :=
  [.login 0 "anna", .login 1 "ben", .login 2 "cleo", .switch 1 30 (some "den"), .disconnect 2]

/-- **A client forgets the channel that another one is in, when a third leaves.** -/
theorem channel_forgotten :
    ¬∀ (actions : List ChannelAction) (s : ChannelServer), exec step start actions = some s → s.Agree := by
  intro h
  have hvalues : (exec step start forgotten).map (fun s => (s.sessions.map (·.view.channels), inhabited s.users)) =
      some ([∅, {"den"}], {"den"}) := by decide +kernel
  obtain ⟨s, hs, hvalue⟩ := Option.map_eq_some_iff.1 hvalues
  obtain ⟨hviews, hinhabited⟩ := Prod.mk.inj hvalue
  have hagree := (h forgotten s hs).channels
  obtain ⟨session, hsession, hview⟩ := List.mem_map.1 (hviews ▸ List.mem_cons_self : ∅ ∈ s.sessions.map (·.view.channels))
  rw [hagree session hsession, hinhabited] at hview
  exact absurd hview (by decide)

end ChannelServer

/-! ### What a client knows -/

/-- A channel is inhabited if a user is in it. -/
theorem mem_inhabited {users : List OnlineUser} {name : String} :
    name ∈ inhabited users ↔ ∃ user ∈ users, user.channel = some name := by
  simp [inhabited]

/-- The client has the right channels, and its list has one row for each of some of the
users. -/
structure ChannelView.Knows (view : ChannelView) (users : List OnlineUser) : Prop where
  channels : view.channels = inhabited users
  nodup : (view.online.map (·.id)).Nodup
  rows : ∀ row ∈ view.online, ∃ user ∈ users, user.id = row.id

namespace ChannelView

variable {view : ChannelView} {users users' : List OnlineUser}

/-- A view knows the channels as long as they stay and no user goes. -/
theorem Knows.mono (h : view.Knows users) (hsame : inhabited users' = inhabited users)
    (hids : ∀ user ∈ users, ∃ user' ∈ users', user'.id = user.id) : view.Knows users' := by
  refine ⟨h.channels.trans hsame.symm, h.nodup, fun row hrow => ?_⟩
  obtain ⟨user, huser, hid⟩ := h.rows row hrow
  obtain ⟨user', huser', hid'⟩ := hids user huser
  exact ⟨user', huser', hid'.trans hid⟩

/-- The same rows, maybe with other channels. -/
theorem Knows.rows_of_ids (h : view.Knows users) {view' : ChannelView}
    (honline : view'.online.map (·.id) = view.online.map (·.id)) :
    ∀ row ∈ view'.online, ∃ user ∈ users, user.id = row.id := by
  intro row hrow
  have hmem : row.id ∈ view.online.map (·.id) := honline ▸ List.mem_map_of_mem hrow
  obtain ⟨old, hold, hid⟩ := List.mem_map.1 hmem
  obtain ⟨user, huser, huserid⟩ := h.rows old hold
  exact ⟨user, huser, huserid.trans hid⟩

/-- Switching changes neither the channels nor the users of a view. -/
theorem switchChannel_same (view : ChannelView) (channel : String) :
    (view.switchChannel channel).channels = view.channels ∧ (view.switchChannel channel).online = view.online := by
  unfold switchChannel
  split
  · exact ⟨rfl, rfl⟩
  · exact ⟨rfl, rfl⟩

/-- A list tells everything. -/
theorem knows_list (view : ChannelView) (hnodup : (users.map (·.id)).Nodup) : (view.list users).Knows users :=
  ⟨rfl, hnodup, fun row hrow => ⟨row, hrow, rfl⟩⟩

/-- A user who joins has no channel. -/
theorem Knows.join (h : view.Knows users) {id : ℕ} (username : String) (hid : ∃ user ∈ users, user.id = id) :
    (view.join id username).Knows users := by
  unfold ChannelView.join
  dsimp only
  split
  · exact ⟨h.channels, h.nodup, h.rows⟩
  · rename_i hnot
    refine ⟨h.channels, ?_, fun row hrow => ?_⟩
    · have hfresh : id ∉ view.online.map (·.id) := by
        intro hmem
        obtain ⟨row, hrow, hrowid⟩ := List.mem_map.1 hmem
        exact hnot (List.any_eq_true.2 ⟨row, hrow, decide_eq_true hrowid⟩)
      rw [List.map_append]
      exact h.nodup.append (List.nodup_singleton id) (List.disjoint_singleton.2 hfresh)
    · rcases List.mem_append.1 hrow with hrow | hrow
      · exact h.rows row hrow
      · rw [List.mem_singleton.1 hrow]
        exact hid

/-- The list of a client that names the channel of everybody who stays. -/
theorem Knows.leave (h : view.Knows users) {id : ℕ} (username : String)
    (hrows : ∀ user ∈ users, user.id ≠ id → user ∈ view.online) :
    (view.leave id username).Knows (users.filter (·.id ≠ id)) := by
  refine ⟨?_, h.nodup.sublist (List.filter_sublist.map _), fun row hrow => ?_⟩
  · ext name
    change name ∈ inhabited (view.online.filter (·.id ≠ id)) ↔ _
    rw [mem_inhabited, mem_inhabited]
    constructor
    · rintro ⟨row, hrow, hchannel⟩
      obtain ⟨hrow, hne⟩ := List.mem_filter.1 hrow
      obtain ⟨user, huser, hid⟩ := h.rows row hrow
      have hne' : user.id ≠ id := by
        rw [hid]
        exact of_decide_eq_true hne
      obtain rfl := List.inj_on_of_nodup_map h.nodup (hrows user huser hne') hrow hid
      exact ⟨user, List.mem_filter.2 ⟨huser, hne⟩, hchannel⟩
    · rintro ⟨user, huser, hchannel⟩
      obtain ⟨huser, hne⟩ := List.mem_filter.1 huser
      exact ⟨user, List.mem_filter.2 ⟨hrows user huser (of_decide_eq_true hne), hne⟩, hchannel⟩
  · obtain ⟨hrow, hne⟩ := List.mem_filter.1 hrow
    obtain ⟨user, huser, hid⟩ := h.rows row hrow
    refine ⟨user, List.mem_filter.2 ⟨huser, ?_⟩, hid⟩
    rw [hid]
    exact hne

/-- A client with the right channels drops the pane of no inhabited one. -/
theorem losses_eq_nil {inhabited : Finset String} (h : view.channels = inhabited) : view.losses inhabited = [] := by
  unfold losses
  refine List.filter_eq_nil_iff.2 fun name _ hname => ?_
  obtain ⟨_, hnot, hmem⟩ := of_decide_eq_true hname
  rw [h] at hnot
  exact hnot hmem

end ChannelView

namespace ChannelServer

/-- Whenever somebody leaves, the lists of the others name the channel of everybody who
stays. -/
def Listed (s : ChannelServer) : ChannelAction → Prop
  | .disconnect id =>
    ∀ session ∈ s.sessions, session.user.id ≠ id → ∀ user ∈ s.users, user.id ≠ id → user ∈ session.view.online
  | _ => True

instance (s : ChannelServer) (action : ChannelAction) : Decidable (s.Listed action) :=
  match action with
  | .disconnect id =>
    inferInstanceAs (Decidable (∀ session ∈ s.sessions, session.user.id ≠ id →
      ∀ user ∈ s.users, user.id ≠ id → user ∈ session.view.online))
  | .login .. | .switch .. | .listRequest _ | .show' .. => .isTrue trivial

/-- What holds after every action. -/
structure Inv (s : ChannelServer) : Prop where
  nodup : (s.users.map (·.id)).Nodup
  knows : ∀ session ∈ s.sessions, session.view.Knows s.users
  dropped : s.dropped = []

variable {s s' : ChannelServer} {id : ℕ}

/-- An event to all changes no user. -/
@[simp] theorem users_toAll (s : ChannelServer) (event : ChannelView → ChannelView) : (s.toAll event).users = s.users := by
  simp [users, toAll]

/-- An event to one changes no user. -/
@[simp] theorem users_toOne (s : ChannelServer) (id : ℕ) (event : ChannelView → ChannelView) :
    (s.toOne id event).users = s.users := by
  unfold users toOne
  rw [List.map_map]
  refine List.map_congr_left fun session _ => ?_
  dsimp only [Function.comp_apply]
  split
  · rfl
  · rfl

/-- An event to those who can be reached changes no user. -/
@[simp] theorem users_toAllPruning (s : ChannelServer) (event : ChannelView → ChannelView) :
    (s.toAllPruning event).users = s.users :=
  users_toAll s event

/-- A packet to every client. -/
theorem Inv.toAll (hinv : s.Inv) {event : ChannelView → ChannelView}
    (hevent : ∀ session ∈ s.sessions, (event session.view).Knows s.users) : (s.toAll event).Inv := by
  refine ⟨by rw [users_toAll]; exact hinv.nodup, fun session hsession => ?_, hinv.dropped⟩
  rw [users_toAll]
  obtain ⟨old, hold, rfl⟩ := List.mem_map.1 hsession
  exact hevent old hold

/-- A packet to one client. -/
theorem Inv.toOne (hinv : s.Inv) {event : ChannelView → ChannelView}
    (hevent : ∀ session ∈ s.sessions, (event session.view).Knows s.users) : (s.toOne id event).Inv := by
  refine ⟨by rw [users_toOne]; exact hinv.nodup, fun session hsession => ?_, hinv.dropped⟩
  rw [users_toOne]
  obtain ⟨old, hold, rfl⟩ := List.mem_map.1 hsession
  split
  · exact hevent old hold
  · exact hinv.knows old hold

/-- A user with the id. -/
theorem mem_users_of_any (h : s.users.any (·.id = id) = true) : ∃ user ∈ s.users, user.id = id := by
  obtain ⟨user, huser, hid⟩ := List.any_eq_true.1 h
  exact ⟨user, huser, of_decide_eq_true hid⟩

/-- A login keeps the invariant. -/
theorem Inv.login (hinv : s.Inv) {username : String} (h : s.step (.login id username) = some s') : s'.Inv := by
  simp only [step] at h
  split_ifs at h with hused
  obtain rfl := Option.some.inj h
  have hfresh : ∀ user ∈ s.users, user.id ≠ id := by
    intro user huser hid
    exact hused (List.any_eq_true.2 ⟨user, huser, decide_eq_true (.inl hid)⟩)
  have husers : (s.connect id username).users = s.users ++ [⟨id, username, none⟩] := by
    simp [users, connect]
  have hinhabited : inhabited (s.connect id username).users = inhabited s.users := by
    rw [husers]
    simp [inhabited]
  have hnodup : ((s.connect id username).users.map (·.id)).Nodup := by
    rw [husers, List.map_append]
    refine hinv.nodup.append (List.nodup_singleton id) (List.disjoint_singleton.2 fun hmem => ?_)
    obtain ⟨user, huser, hid⟩ := List.mem_map.1 hmem
    exact hfresh user huser hid
  have hhere : ∃ user ∈ (s.connect id username).users, user.id = id := by
    rw [husers]
    exact ⟨_, List.mem_append_right _ (List.mem_singleton_self _), rfl⟩
  -- The new client gets the list, and everybody its name.
  have hlist : ((s.connect id username).sendList id).Inv := by
    refine ⟨by rw [sendList, users_toOne]; exact hnodup, fun session hsession => ?_, hinv.dropped⟩
    rw [sendList, users_toOne]
    obtain ⟨old, hold, rfl⟩ := List.mem_map.1 hsession
    split
    · exact ChannelView.knows_list _ hnodup
    · rename_i hne
      rcases List.mem_append.1 hold with hold | hold
      · refine (hinv.knows old hold).mono hinhabited fun user huser => ⟨user, ?_, rfl⟩
        rw [husers]
        exact List.mem_append_left _ huser
      · rw [List.mem_singleton.1 hold] at hne
        exact absurd rfl hne
  refine hlist.toAll fun session hsession => (hlist.knows session hsession).join username ?_
  rw [sendList, users_toOne]
  exact hhere

/-- A disconnect keeps the invariant, if the channel stays or is announced. -/
theorem Inv.disconnect (hinv : s.Inv) (hcond : s.Listed (.disconnect id)) (h : s.step (.disconnect id) = some s') :
    s'.Inv := by
  obtain ⟨user, _, h⟩ := Option.bind_eq_some_iff.1 h
  obtain rfl := Option.some.inj h
  set t : ChannelServer := { s with sessions := s.sessions.filter (·.user.id ≠ id) } with ht
  have husers : t.users = s.users.filter (·.id ≠ id) := by
    unfold users
    rw [List.filter_map]
    rfl
  have hknows : ∀ session ∈ t.sessions, (session.view.leave id user.username).Knows t.users := by
    intro session hsession
    obtain ⟨hmem, hne⟩ := List.mem_filter.1 hsession
    rw [husers]
    exact (hinv.knows session hmem).leave user.username (hcond session hmem (of_decide_eq_true hne))
  refine ⟨?_, fun session hsession => ?_, ?_⟩
  · rw [users_toAllPruning, husers]
    exact hinv.nodup.sublist (List.filter_sublist.map _)
  · rw [users_toAllPruning]
    obtain ⟨old, hold, rfl⟩ := List.mem_map.1 hsession
    exact hknows old hold
  · change s.dropped ++ t.sessions.flatMap _ = []
    rw [hinv.dropped, List.nil_append, List.flatMap_eq_nil_iff]
    intro session hsession
    rw [List.map_eq_nil_iff]
    exact ChannelView.losses_eq_nil (hknows session hsession).channels

/-! ### A client goes to another channel -/

/-- One user has another channel. -/
theorem users_setChannel (s : ChannelServer) (id : ℕ) (channel : Option String) :
    (s.setChannel id channel).users = s.users.map fun user => if user.id = id then { user with channel } else user := by
  unfold users setChannel
  rw [List.map_map, List.map_map]
  refine List.map_congr_left fun session _ => ?_
  dsimp only [Function.comp_apply]
  split
  · rfl
  · rfl

/-- The users stay. -/
theorem ids_setChannel (s : ChannelServer) (id : ℕ) (channel : Option String) :
    (s.setChannel id channel).users.map (·.id) = s.users.map (·.id) := by
  rw [users_setChannel, List.map_map]
  refine List.map_congr_left fun user _ => ?_
  dsimp only [Function.comp_apply]
  split
  · rfl
  · rfl

/-- Somebody else is in the channel. -/
def Others (s : ChannelServer) (id : ℕ) (name : String) : Prop := ∃ user ∈ s.users, user.id ≠ id ∧ user.channel = some name

variable {user : OnlineUser} {channel : Option String} {name : String}

/-- The channels before the client goes. -/
theorem Inv.mem_before (hinv : s.Inv) (huser : user ∈ s.users) (hid : user.id = id) :
    name ∈ inhabited s.users ↔ s.Others id name ∨ user.channel = some name := by
  rw [mem_inhabited]
  constructor
  · rintro ⟨other, hother, hchannel⟩
    by_cases hne : other.id = id
    · obtain rfl := List.inj_on_of_nodup_map hinv.nodup hother huser (hne.trans hid.symm)
      exact .inr hchannel
    · exact .inl ⟨other, hother, hne, hchannel⟩
  · rintro (⟨other, hother, _, hchannel⟩ | hchannel)
    · exact ⟨other, hother, hchannel⟩
    · exact ⟨user, huser, hchannel⟩

/-- The channels after it. -/
theorem mem_after (huser : user ∈ s.users) (hid : user.id = id) :
    name ∈ inhabited (s.setChannel id channel).users ↔ s.Others id name ∨ channel = some name := by
  rw [mem_inhabited, users_setChannel]
  constructor
  · rintro ⟨other, hother, hchannel⟩
    obtain ⟨old, hold, rfl⟩ := List.mem_map.1 hother
    split at hchannel
    · exact .inr hchannel
    · rename_i hne
      exact .inl ⟨old, hold, hne, hchannel⟩
  · rintro (⟨other, hother, hne, hchannel⟩ | hchannel)
    · exact ⟨other, List.mem_map.2 ⟨other, hother, if_neg hne⟩, hchannel⟩
    · exact ⟨{ user with channel }, List.mem_map.2 ⟨user, huser, if_pos hid⟩, hchannel⟩

/-- A client that is alone in its channel is counted alone. -/
theorem Inv.others_of_count (hinv : s.Inv) (huser : user ∈ s.users) (hid : user.id = id)
    (hcount : (s.setChannel id (some name)).users.countP (·.channel = some name) ≠ 1) : s.Others id name := by
  by_contra hnone
  refine hcount ?_
  have hsame : (s.setChannel id (some name)).users.countP (·.channel = some name) =
      (s.setChannel id (some name)).users.countP (·.id == id) := by
    refine List.countP_congr fun other hother => ?_
    rw [users_setChannel] at hother
    obtain ⟨old, hold, rfl⟩ := List.mem_map.1 hother
    rw [decide_eq_true_iff, beq_iff_eq]
    split
    · rename_i hoid
      exact ⟨fun _ => hoid, fun _ => rfl⟩
    · rename_i hne
      exact ⟨fun hchannel => absurd ⟨old, hold, hne, hchannel⟩ hnone, fun h => absurd h hne⟩
  have hmem : id ∈ (s.setChannel id (some name)).users.map (·.id) := by
    rw [ids_setChannel]
    exact List.mem_map.2 ⟨user, huser, hid⟩
  have hone : ((s.setChannel id (some name)).users.map (·.id)).count id = 1 := by
    refine List.count_eq_one_of_mem ?_ hmem
    rw [ids_setChannel]
    exact hinv.nodup
  rw [hsame, ← hone, List.count, List.countP_map]
  rfl

/-- The rows of a client's list when some channels have changed. -/
theorem Inv.knows_of_channels (hinv : s.Inv) {session : ChannelSession} (hsession : session ∈ s.sessions)
    {view : ChannelView} (honline : view.online.map (·.id) = session.view.online.map (·.id))
    (hchannels : view.channels = inhabited (s.setChannel id channel).users) :
    view.Knows (s.setChannel id channel).users := by
  have hknows := hinv.knows session hsession
  refine ⟨hchannels, honline ▸ hknows.nodup, fun row hrow => ?_⟩
  obtain ⟨user, huser, huserid⟩ := hknows.rows_of_ids honline row hrow
  have hids : user.id ∈ (s.setChannel id channel).users.map (·.id) := by
    rw [ids_setChannel]
    exact List.mem_map_of_mem huser
  obtain ⟨user', huser', hid'⟩ := List.mem_map.1 hids
  exact ⟨user', huser', hid'.trans huserid⟩

/-- The announcement changes no user. -/
theorem announceDestroyed_same (s : ChannelServer) (old : Option String) :
    (s.announceDestroyed old).users = s.users ∧ (s.announceDestroyed old).dropped = s.dropped := by
  unfold announceDestroyed
  split
  · split
    · exact ⟨rfl, rfl⟩
    · exact ⟨users_toAll .., rfl⟩
  · exact ⟨rfl, rfl⟩

/-- The announcement changes no user. -/
theorem announceCreated_same (s : ChannelServer) (channel : Option String) :
    (s.announceCreated channel).users = s.users ∧ (s.announceCreated channel).dropped = s.dropped := by
  unfold announceCreated
  split
  · split
    · exact ⟨users_toAll .., rfl⟩
    · exact ⟨rfl, rfl⟩
  · exact ⟨rfl, rfl⟩

/-- Every client takes the abandoned channel out of its set. -/
theorem announceDestroyed_sessions {old : Option String} {session : ChannelSession}
    (h : session ∈ (s.announceDestroyed old).sessions) :
    ∃ before ∈ s.sessions, session.view.online = before.view.online ∧
      ∀ name, name ∈ session.view.channels ↔
        name ∈ before.view.channels ∧ (old = some name → name ∈ inhabited s.users) := by
  have hany : ∀ name, s.users.any (·.channel = some name) = true ↔ name ∈ inhabited s.users := by
    intro name
    rw [mem_inhabited]
    simp
  unfold announceDestroyed at h
  split at h
  · rename_i gone
    split at h
    · rename_i hmem
      refine ⟨session, h, rfl, fun name => ⟨fun hname => ⟨hname, ?_⟩, fun hname => hname.1⟩⟩
      rintro ⟨⟩
      exact (hany _).1 hmem
    · rename_i hnot
      obtain ⟨before, hbefore, rfl⟩ := List.mem_map.1 h
      refine ⟨before, hbefore, rfl, fun name => ?_⟩
      change name ∈ before.view.channels.erase gone ↔ _
      rw [Finset.mem_erase]
      constructor
      · rintro ⟨hne, hname⟩
        exact ⟨hname, fun heq => absurd (Option.some.inj heq).symm hne⟩
      · rintro ⟨hname, himp⟩
        refine ⟨?_, hname⟩
        rintro rfl
        exact hnot ((hany _).2 (himp rfl))
  · exact ⟨session, h, rfl, fun name => ⟨fun hname => ⟨hname, fun heq => by cases heq⟩, fun hname => hname.1⟩⟩

/-- Every client puts the new channel into its set. -/
theorem announceCreated_sessions {channel : Option String} {session : ChannelSession}
    (h : session ∈ (s.announceCreated channel).sessions) :
    ∃ before ∈ s.sessions, session.view.online = before.view.online ∧
      ∀ name, name ∈ session.view.channels ↔
        name ∈ before.view.channels ∨ channel = some name ∧ s.users.countP (·.channel = some name) = 1 := by
  unfold announceCreated at h
  split at h
  · rename_i new
    split at h
    · rename_i hcount
      obtain ⟨before, hbefore, rfl⟩ := List.mem_map.1 h
      refine ⟨before, hbefore, rfl, fun name => ?_⟩
      change name ∈ insert new before.view.channels ↔ _
      rw [Finset.mem_insert]
      constructor
      · rintro (rfl | hname)
        · exact .inr ⟨rfl, hcount⟩
        · exact .inl hname
      · rintro (hname | ⟨heq, _⟩)
        · exact .inr hname
        · exact .inl (Option.some.inj heq).symm
    · rename_i hcount
      refine ⟨session, h, rfl, fun name => ⟨.inl, ?_⟩⟩
      rintro (hname | ⟨heq, hcount'⟩)
      · exact hname
      · obtain rfl := Option.some.inj heq
        exact absurd hcount' hcount
  · refine ⟨session, h, rfl, fun name => ⟨.inl, ?_⟩⟩
    rintro (hname | ⟨heq, _⟩)
    · exact hname
    · cases heq

/-- Another channel changes no view. -/
theorem setChannel_sessions {session : ChannelSession} (h : session ∈ (s.setChannel id channel).sessions) :
    ∃ before ∈ s.sessions, session.view = before.view := by
  obtain ⟨before, hbefore, rfl⟩ := List.mem_map.1 h
  refine ⟨before, hbefore, ?_⟩
  split
  · rfl
  · rfl

/-- A user who moves keeps the invariant. -/
theorem Inv.updateClientChannel (hinv : s.Inv) (huser : user ∈ s.users) (hid : user.id = id) :
    (s.updateClientChannel id channel).Inv ∧
      (s.updateClientChannel id channel).users = (s.setChannel id channel).users := by
  have hfind : (s.users.find? (·.id = id)).bind (·.channel) = user.channel := by
    cases hfound : s.users.find? (·.id = id) with
    | none => exact absurd (decide_eq_true hid) (List.find?_eq_none.1 hfound user huser)
    | some other =>
      have hother : other.id = id := by simpa using List.find?_some hfound
      obtain rfl := List.inj_on_of_nodup_map hinv.nodup (List.mem_of_find?_eq_some hfound) huser (hother.trans hid.symm)
      rfl
  have hnodup : ((s.setChannel id channel).users.map (·.id)).Nodup := by
    rw [ids_setChannel]
    exact hinv.nodup
  unfold ChannelServer.updateClientChannel
  rw [hfind]
  dsimp only
  split
  · -- The client stays where it is.
    rename_i hsame
    refine ⟨⟨hnodup, fun session hsession => ?_, hinv.dropped⟩, rfl⟩
    obtain ⟨before, hbefore, hview⟩ := setChannel_sessions hsession
    refine hinv.knows_of_channels hbefore (by rw [hview]) ?_
    rw [hview, (hinv.knows before hbefore).channels]
    ext name
    rw [hinv.mem_before huser hid, mem_after huser hid, hsame]
  · rename_i hmoved
    have husers : (((s.setChannel id channel).announceDestroyed user.channel).announceCreated channel).users =
        (s.setChannel id channel).users := by
      rw [(announceCreated_same ..).1, (announceDestroyed_same ..).1]
    refine ⟨⟨by rw [husers]; exact hnodup, fun session hsession => ?_, ?_⟩, husers⟩
    · rw [husers]
      obtain ⟨second, hsecond, honline₂, hchannels₂⟩ := announceCreated_sessions hsession
      obtain ⟨first, hfirst, honline₁, hchannels₁⟩ := announceDestroyed_sessions hsecond
      obtain ⟨before, hbefore, hview⟩ := setChannel_sessions hfirst
      refine hinv.knows_of_channels hbefore (by rw [honline₂, honline₁, hview]) ?_
      ext name
      rw [hchannels₂, hchannels₁, hview, (hinv.knows before hbefore).channels, (announceDestroyed_same ..).1,
        hinv.mem_before huser hid, mem_after huser hid]
      constructor
      · rintro (⟨hothers | hold, himp⟩ | ⟨hnew, _⟩)
        · exact .inl hothers
        · exact himp hold
        · exact .inr hnew
      · rintro (hothers | hnew)
        · exact .inl ⟨.inl hothers, fun _ => .inl hothers⟩
        · -- The client is the first one there, or somebody was there before it.
          subst hnew
          by_cases hcount : (s.setChannel id (some name)).users.countP (·.channel = some name) = 1
          · exact .inr ⟨rfl, hcount⟩
          · have hothers := hinv.others_of_count huser hid hcount
            exact .inl ⟨.inl hothers, fun _ => .inl hothers⟩
    · rw [(announceCreated_same ..).2, (announceDestroyed_same ..).2]
      exact hinv.dropped

/-! ### Every run -/

/-- A switch keeps the invariant. -/
theorem Inv.switch (hinv : s.Inv) (huser : user ∈ s.users) (hid : user.id = id) : (s.switch id channel).Inv := by
  obtain ⟨hupdated, husers⟩ := hinv.updateClientChannel huser hid
  refine hupdated.toOne fun session hsession => ?_
  have hknows := hupdated.knows session hsession
  -- The client's own channel is in its set already.
  have hchannels : (session.view.channelChanged channel).channels = session.view.channels := by
    unfold ChannelView.channelChanged
    dsimp only
    rw [(ChannelView.switchChannel_same ..).1]
    cases channel with
    | none => rfl
    | some name =>
      refine Finset.insert_eq_of_mem ?_
      rw [hknows.channels, husers, mem_after huser hid]
      exact .inr rfl
  have honline : (session.view.channelChanged channel).online.map (·.id) = session.view.online.map (·.id) := by
    unfold ChannelView.channelChanged
    dsimp only
    rw [(ChannelView.switchChannel_same ..).2, List.map_map]
    refine List.map_congr_left fun row _ => ?_
    dsimp only [Function.comp_apply]
    split
    · rfl
    · rfl
  exact ⟨hchannels.trans hknows.channels, honline ▸ hknows.nodup, hknows.rows_of_ids honline⟩

/-- **Every action keeps the invariant.** -/
theorem Inv.step (hinv : s.Inv) {action : ChannelAction} (hcond : s.Listed action) (h : s.step action = some s') :
    s'.Inv := by
  cases action with
  | login id username => exact hinv.login h
  | switch id maxLength channel =>
    simp only [ChannelServer.step] at h
    split_ifs at h with hhere hvalid
    · obtain rfl := Option.some.inj h
      obtain ⟨user, huser, hid⟩ := mem_users_of_any hhere
      exact hinv.switch huser hid
    · obtain rfl := Option.some.inj h
      exact hinv
  | disconnect id => exact hinv.disconnect hcond h
  | listRequest id =>
    simp only [ChannelServer.step] at h
    split_ifs at h
    obtain rfl := Option.some.inj h
    have hlist : (s.sendList id).Inv := hinv.toOne fun _ _ => ChannelView.knows_list _ hinv.nodup
    refine ⟨hlist.nodup, hlist.knows, ?_⟩
    change s.dropped ++ _ = []
    rw [hinv.dropped, List.nil_append, List.flatMap_eq_nil_iff]
    intro session _
    rw [List.map_eq_nil_iff]
    exact ChannelView.losses_eq_nil rfl
  | show' id line =>
    simp only [ChannelServer.step] at h
    split_ifs at h
    obtain rfl := Option.some.inj h
    refine hinv.toOne fun session hsession => ?_
    have hknows := hinv.knows session hsession
    exact ⟨hknows.channels, hknows.nodup, hknows.rows⟩

/-- **Every client has the channels of the server**, and has dropped no pane of an inhabited
one, in every run in which, whenever somebody leaves, the lists of the others still name the
channel of everybody who stays. -/
theorem channels_agree (actions : List ChannelAction) {s : ChannelServer} (hmeets : Meets step Listed start actions)
    (hrun : exec step start actions = some s) : s.Agree := by
  have hstart : start.Inv := ⟨List.nodup_nil, fun _ h => (nomatch h), rfl⟩
  have hinv : s.Inv := exec_induct (fun _ _ _ hinv => hinv.step) hstart hmeets hrun
  exact ⟨fun session hsession => (hinv.knows session hsession).channels, hinv.dropped⟩

/-- The client that stays asks for the list before the other one leaves. -/
def remembered : List ChannelAction :=
  [.login 0 "anna", .login 1 "ben", .login 2 "cleo", .switch 0 30 (some "den"), .switch 1 30 (some "attic"),
    .switch 0 30 (some "attic"), .listRequest 0, .listRequest 1, .disconnect 2]

/-- The theorem on that run: the channel they went to is known, the one they left is not. -/
theorem channels_agree_remembered : ∃ s : ChannelServer,
    exec step start remembered = some s ∧ Meets step Listed start remembered ∧ s.Agree ∧
      s.sessions.map (·.view.channels) = [{"attic"}, {"attic"}] := by
  have hvalues : (exec step start remembered).map (·.sessions.map (·.view.channels)) =
      some [{"attic"}, {"attic"}] := by decide +kernel
  obtain ⟨s, hs, hvalue⟩ := Option.map_eq_some_iff.1 hvalues
  have hmeets : Meets step Listed start remembered := by decide +kernel
  exact ⟨s, hs, hmeets, channels_agree remembered hmeets hs, hvalue⟩

end ChannelServer

end Why2
