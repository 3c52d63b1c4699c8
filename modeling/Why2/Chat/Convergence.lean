/-
# The lobby on the clients

A request about a lobby message changes the history under its lock
(`chat/src/config/messages.rs`), and then `send_to_all` spawns one task for every
authenticated client that waits for the client's write lock and sends the change
(`chat/src/network/server/mod.rs`).  The tasks get the lock in any order.  A client
does what a packet says to the entry it holds at that moment
(`chat/src/bin/client/tui/state.rs`).

The clients here are those connected all the time, which every `send_to_all`
collects.  A client's tasks are kept in the order of the changes; since a task may
wait as long as it likes, they are there from the change on.

A `Deleted` that overtakes the message it names finds nothing to delete, and the
message stays (`deleted_message_shown`).  If a packet overtakes none about the same
message that it does not commute with, and messages do not overtake each other,
every client comes to show what the history holds (`clients_converge`).
-/

import Why2.Chat.Moderation
import Why2.Chat.Pane
import Why2.Chat.Text
import Why2.Lib.Replica

namespace Why2

open Lib

/-- The requests about messages of the lobby. -/
inductive LobbyRequest
  | message (text : String) (reply : Option U64)
  | edit (messageId : U64) (text : String)
  | delete (messageId : U64)
  | heart (messageId : U64)
  | pin (messageId : U64)
deriving DecidableEq

/-- The packets of `send_to_all` about messages. -/
inductive Update
  | message (text username : String) (id : ℕ) (messageId : U64) (channel : Option String)
      (timestamp reply : Option U64)
  | deleted (messageId : U64)
  | edited (messageId : U64) (text : String)
  | heart (messageId : U64) (hearts : List String)
  | pinned (messageId : U64) (pinned : Bool)
deriving DecidableEq

/-- What `listen_client` knows of the sender of a packet. -/
structure Sender where
  username : String
  id : ℕ
  role : Role
  muted : Bool
  channel : Option String
deriving DecidableEq

/-- What a request reads of the configuration, the clock and the accounts. -/
structure LobbyConfig where
  persistentMessages : Bool
  maxPersistentMessages : ℕ
  maxPinnedMessages : ℕ
  timestamp : Option U64
  role : String → Option Role

namespace LobbyConfig

/-- `MessageRequest`. -/
def messageRequest (config : LobbyConfig) (sender : Sender) (text : String) (reply : Option U64)
    (m : Messages) : Option Update × Messages :=
  if sender.muted then (none, m)
  else if reply.any fun reply => !m.exists' reply then (none, m)
  else
    let text := trim text
    -- Only the lobby has a history.
    let (messageId, m) :=
      if sender.channel.isNone && config.persistentMessages then
        let (messageId, _, m) :=
          m.store config.maxPersistentMessages sender.username text config.timestamp reply
        (messageId, m)
      else m.nextId
    (some (.message text sender.username sender.id messageId sender.channel config.timestamp reply), m)

/-- `EditRequest`. -/
def editRequest (sender : Sender) (messageId : U64) (text : String) (m : Messages) :
    Option Update × Messages :=
  if sender.muted then (none, m)
  else
    let text := trim text
    if text ≠ "" ∧ (m.edit messageId sender.username text).1 then
      (some (.edited messageId text), (m.edit messageId sender.username text).2)
    else (none, m)

/-- `DeleteRequest`: of the own message, or as a moderator of a lower rank's. -/
def deleteRequest (config : LobbyConfig) (sender : Sender) (messageId : U64) (m : Messages) :
    Option Update × Messages :=
  let author := m.author messageId
  let own := author = some sender.username
  let allowed := own ∨ author.any fun author =>
    sender.role ≥ .moderator && (config.role author).all fun authorRole => authorRole < sender.role
  if allowed ∧ (m.delete messageId).1 then (some (.deleted messageId), (m.delete messageId).2.2)
  else (none, m)

/-- `HeartRequest`. -/
def heartRequest (sender : Sender) (messageId : U64) (m : Messages) : Option Update × Messages :=
  if sender.muted then (none, m)
  else
    match m.heart messageId sender.username with
    | (none, _) => (none, m)
    | (some hearts, m) => (some (.heart messageId hearts), m)

/-- `PinRequest`. -/
def pinRequest (config : LobbyConfig) (sender : Sender) (messageId : U64) (m : Messages) :
    Option Update × Messages :=
  if sender.role < .moderator then (none, m)
  else
    match m.pin config.maxPinnedMessages messageId with
    | (none, _) => (none, m)
    | (some pinned, m) => (some (.pinned messageId pinned), m)

/-- What a request sends to everybody, if it is not refused, and the history after it. -/
def handle (config : LobbyConfig) (sender : Sender) (m : Messages) :
    LobbyRequest → Option Update × Messages
  | .message text reply => config.messageRequest sender text reply m
  | .edit messageId text => editRequest sender messageId text m
  | .delete messageId => config.deleteRequest sender messageId m
  | .heart messageId => heartRequest sender messageId m
  | .pin messageId => config.pinRequest sender messageId m

end LobbyConfig

/-- A client: its lobby pane, the sessions it does not listen to, and the packets whose
tasks still wait for its write lock, in the order of the changes. -/
structure Reader where
  pane : Pane
  muted : List ℕ
  missing : List Update
deriving DecidableEq

namespace Reader

/-- `toggle_mute`. -/
def toggleMute (id : ℕ) (r : Reader) : Reader :=
  { r with muted := if id ∈ r.muted then r.muted.filter (· ≠ id) else id :: r.muted }

/-- The client gets a packet.  A message of a channel goes to another pane. -/
def receive (r : Reader) : Update → Pane
  | .message text username id messageId channel timestamp reply =>
    if id ∈ r.muted ∨ channel.isSome then r.pane
    else r.pane.pushEntry
      (.message ⟨messageId, username, timestamp, [], false⟩ id text reply false)
  | .deleted messageId => r.pane.deleteMessage messageId
  | .edited messageId text => r.pane.editMessage messageId text
  | .heart messageId hearts => r.pane.setHearts messageId hearts
  | .pinned messageId pinned => r.pane.setPinned messageId pinned

end Reader

/-- The history, and the clients that are connected all the time. -/
structure Lobby (Client : Type) where
  messages : Messages
  readers : Client → Reader

/-- What happens: a request of some session, the task of a client's packet gets the
write lock, or a user stops or starts to listen to a session. -/
inductive LobbyAction (Client : Type)
  | request (config : LobbyConfig) (sender : Sender) (request : LobbyRequest)
  | deliver (client : Client) (index : ℕ)
  | mute (client : Client) (id : ℕ)

namespace Lobby

variable {Client : Type} [DecidableEq Client]

/-- `send_to_all`. -/
def sendToAll (update : Option Update) (readers : Client → Reader) : Client → Reader := fun client =>
  { readers client with missing := (readers client).missing ++ update.toList }

/-- One step. -/
def step (s : Lobby Client) : LobbyAction Client → Option (Lobby Client)
  | .request config sender request =>
    let (update, messages) := config.handle sender s.messages request
    some ⟨messages, sendToAll update s.readers⟩
  | .deliver client index => do
    let r := s.readers client
    let update ← r.missing[index]?
    let r' : Reader := { r with pane := r.receive update, missing := r.missing.eraseIdx index }
    return { s with readers := Function.update s.readers client r' }
  | .mute client id =>
    some { s with readers := Function.update s.readers client ((s.readers client).toggleMute id) }

/-- The clients with their panes, before the requests. -/
def start (messages : Messages) (panes : Client → Pane) (muted : Client → List ℕ) : Lobby Client :=
  ⟨messages, fun client => ⟨panes client, muted client, []⟩⟩

/-- Everything was delivered. -/
def Quiet (s : Lobby Client) : Prop := ∀ client, (s.readers client).missing = []

/-- A client shows the messages from `base` on that the history holds, as it holds them. -/
structure Converged (base : U64) (messages : Messages) (pane : Pane) : Prop where
  shown_iff : ∀ id, base ≤ id →
    ((∃ e ∈ pane, e.messageId = some id) ↔ ∃ r ∈ messages.history.records, r.id = id)
  recorded : ∀ e ∈ pane, ∀ r ∈ messages.history.records, base ≤ r.id → e.messageId = some r.id →
    e.view = some r.view
  increasing : (pane.recent base).Pairwise (· < ·)

/-- The history keeps a hundred messages. -/
def keepingConfig : LobbyConfig := ⟨true, 100, 10, none, fun _ => some .user⟩

/-- A user in the lobby. -/
def annaSender : Sender := ⟨"anna", 1, .user, false, none⟩

/-- Anna sends a message and deletes it; her own client gets the `Deleted` first. -/
def overtaken : List (LobbyAction Unit) :=
  [.request keepingConfig annaSender (.message "hi" none), .request keepingConfig annaSender (.delete 0),
    .deliver () 1, .deliver () 0]

/-- **A deleted message may stay on a client.** -/
theorem deleted_message_shown : ¬∀ (messages : Messages) (panes : Unit → Pane) (muted : Unit → List ℕ)
    (actions : List (LobbyAction Unit)) (s : Lobby Unit), messages.history.Ordered →
    (∀ client, ∀ e ∈ panes client, ∀ id, e.messageId = some id → id < messages.history.next) →
    exec step (start messages panes muted) actions = some s → s.Quiet →
    ∀ client, Converged messages.history.next s.messages (s.readers client).pane := by
  intro h
  have hruns : ((exec step (start (.start []) (fun _ => []) fun _ => []) overtaken).map fun s =>
      ((s.readers ()).missing, s.messages.history.records, (s.readers ()).pane.map (·.messageId))) =
      some ([], [], [some 0]) := by decide +kernel
  obtain ⟨s, hs, heq⟩ := Option.map_eq_some_iff.1 hruns
  obtain ⟨hmissing, hrest⟩ := Prod.mk.inj heq
  obtain ⟨hrecords, hpane⟩ := Prod.mk.inj hrest
  have hconverged := h (.start []) (fun _ => []) (fun _ => []) overtaken s
    ⟨.nil, fun r hr => (nomatch hr)⟩ (fun _ e he => (nomatch he)) hs (fun _ => hmissing) ()
  obtain ⟨e, he, hid⟩ := List.mem_map.1 (hpane ▸ List.mem_singleton_self (some (0 : U64)))
  obtain ⟨r, hr, -⟩ := (hconverged.shown_iff 0 (by decide)).1 ⟨e, he, hid⟩
  rw [hrecords] at hr
  cases hr

end Lobby

/-! ### What a packet does to one message -/

namespace Update

/-- What changes of a message. -/
inductive Part
  | whole
  | none
  | text
  | hearts
  | pin
deriving DecidableEq

/-- The message of the lobby that a packet names. -/
def names : Update → Option U64
  | .message _ _ _ messageId channel _ _ => if channel.isNone then some messageId else none
  | .deleted messageId | .edited messageId _ | .heart messageId _ | .pinned messageId _ => some messageId

/-- What of the message a packet sets. -/
def part : Update → Part
  | .message .. => .whole
  | .deleted _ => .none
  | .edited .. => .text
  | .heart .. => .hearts
  | .pinned .. => .pin

/-- The id of the lobby message that a packet brings. -/
def post (u : Update) : Option U64 := if u.part = .whole then u.names else none

/-- What two packets about one message may set in either order: any part once the message
is there, unless both set the same one. -/
def Part.Apart (part part' : Part) : Prop :=
  part ≠ .whole ∧ part' ≠ .whole ∧ (part = part' → part = .none)

instance (part part' : Part) : Decidable (part.Apart part') :=
  inferInstanceAs (Decidable (part ≠ .whole ∧ part' ≠ .whole ∧ (part = part' → part = .none)))

/-- A packet may overtake another: not both bring a message, and if they name the same
message they may come in either order. -/
def MayOvertake (u u' : Update) : Prop :=
  (u.post = none ∨ u'.post = none) ∧ (u.names = none ∨ u.names ≠ u'.names ∨ u.part.Apart u'.part)

instance (u u' : Update) : Decidable (u.MayOvertake u') :=
  inferInstanceAs (Decidable (_ ∧ _))

/-- What a packet makes of the message it names. -/
def set (u : Update) (v : Option View) : Option View :=
  match u with
  | .message text .. => some ⟨text, [], false, false⟩
  | .deleted _ => none
  | .edited _ text => v.map fun v => { v with text, edited := true }
  | .heart _ hearts => v.map fun v => { v with hearts }
  | .pinned _ pin => v.map fun v => { v with pinned := pin }

/-- What a packet makes of the message with an id. -/
def on (id : U64) (v : Option View) (u : Update) : Option View :=
  if u.names = some id then u.set v else v

variable {id : U64} {u u' : Update}

/-- An update sets the message it names. -/
theorem on_names (h : u.names = some id) (v : Option View) : u.on id v = u.set v := if_pos h

/-- An update leaves the other messages. -/
theorem on_other (h : u.names ≠ some id) (v : Option View) : u.on id v = v := if_neg h

/-- Packets that set different parts of a message, in either order. -/
theorem set_comm (h : u.part.Apart u'.part) (v : Option View) : u'.set (u.set v) = u.set (u'.set v) := by
  obtain ⟨hwhole, hwhole', hsame⟩ := h
  cases u with
  | message => exact absurd rfl hwhole
  | deleted => cases u' with
    | message => exact absurd rfl hwhole'
    | deleted | edited | heart | pinned => rfl
  | edited => cases u' with
    | message => exact absurd rfl hwhole'
    | deleted => rfl
    | edited => cases hsame rfl
    | heart | pinned => cases v <;> rfl
  | heart => cases u' with
    | message => exact absurd rfl hwhole'
    | deleted => rfl
    | heart => cases hsame rfl
    | edited | pinned => cases v <;> rfl
  | pinned => cases u' with
    | message => exact absurd rfl hwhole'
    | deleted => rfl
    | pinned => cases hsame rfl
    | edited | heart => cases v <;> rfl

/-- **Packets that may overtake each other commute.** -/
theorem MayOvertake.commutes (h : u.MayOvertake u') (id : U64) : Commutes (on id) u u' := by
  intro v
  by_cases hu : u.names = some id
  · by_cases hu' : u'.names = some id
    · have hapart : u.part.Apart u'.part := by
        rcases h.2 with hnone | hne | hapart
        · rw [hnone] at hu
          cases hu
        · exact absurd (hu.trans hu'.symm) hne
        · exact hapart
      rw [on_names hu', on_names hu, on_names hu, on_names hu', set_comm hapart]
    · rw [on_other hu', on_other hu']
  · rw [on_other hu, on_other hu]

end Update

/-! ### What a request does to one message -/

/-- A record is found by its id, and the others as if it were not there. -/
theorem find?_middle {before after : List Record} {r : Record} (hbefore : ∀ r' ∈ before, r'.id ≠ r.id)
    (id : U64) : (before ++ r :: after).find? (·.id = id) =
      if r.id = id then some r else (before ++ after).find? (·.id = id) := by
  rw [List.find?_append, List.find?_append, List.find?_cons]
  by_cases hid : r.id = id
  · have hnone : before.find? (·.id = id) = none :=
      List.find?_eq_none.2 fun r' hr' h => hbefore r' hr' ((of_decide_eq_true h).trans hid.symm)
    simp only [hid, decide_true, hnone, Option.none_or, if_true]
  · simp only [hid, decide_false, if_false]

namespace Messages

variable {m m' : Messages} {id : U64} {index : ℕ} {record : Record}

/-- What the history records of a message. -/
def view (m : Messages) (id : U64) : Option View := (m.history.records.find? (·.id = id)).map Record.view

/-- What is seen of a record. -/
theorem view_entry (hord : m.history.Ordered) (hentry : m.history.entry id = some (index, record)) :
    m.view id = some record.view := by
  rw [view, ← hord.entry_eq id, hentry]
  rfl

/-- One message is seen as it was rewritten, and the others as before. -/
theorem view_rewrite (hord : m.history.Ordered) (hentry : m.history.entry id = some (index, record))
    {f : Record → Record} (hf : (f record).id = record.id) (id' : U64) :
    (m.rewrite index f).save.view id' = if id = id' then some (f record).view else m.view id' := by
  obtain ⟨before, after, hat⟩ := hord.entryAt hentry
  have hmodify : m.history.records.modify index f = before ++ f record :: after := by
    rw [hat.records_eq, ← hat.length_eq, List.modify_eq_take_drop, List.take_left, List.drop_left]
    rfl
  have hbefore : ∀ r ∈ before, r.id ≠ record.id := fun r hr => hat.id_eq ▸ hat.before_ne r hr
  simp only [view, rewrite, save]
  rw [hmodify, hat.records_eq, find?_middle (hf ▸ hbefore), find?_middle hbefore, hf, hat.id_eq]
  split <;> rfl

/-- One message is not seen any more, and the others as before. -/
theorem view_delete (hord : m.history.Ordered) (hentry : m.history.entry id = some (index, record))
    (id' : U64) : (m.delete id).2.2.view id' = if id = id' then none else m.view id' := by
  obtain ⟨before, after, hat⟩ := hord.entryAt hentry
  have herase : m.history.records.eraseIdx index = before ++ after := by
    rw [hat.records_eq, ← hat.length_eq, List.eraseIdx_append_of_length_le le_rfl, Nat.sub_self]
    rfl
  have hbefore : ∀ r ∈ before, r.id ≠ record.id := fun r hr => hat.id_eq ▸ hat.before_ne r hr
  simp only [view, delete, hentry, save]
  rw [herase, hat.records_eq, find?_middle hbefore, hat.id_eq]
  split
  · rename_i hid
    subst hid
    have hnone : (before ++ after).find? (·.id = id) = none := by
      refine List.find?_eq_none.2 fun r hr h => ?_
      rcases List.mem_append.1 hr with hr | hr
      · exact hat.before_ne r hr (of_decide_eq_true h)
      · exact hat.after_ne r hr (of_decide_eq_true h)
    rw [hnone]
    rfl
  · rfl

/-- The records after a message is stored without trimming. -/
theorem records_store {limit : ℕ} (hlimit : m.history.records.length < limit) (username text : String)
    (timestamp reply : Option U64) :
    (m.store limit username text timestamp reply).2.2.history.records = m.history.records ++
      [⟨m.history.next, username, text, none, timestamp, reply, [], false, none, false⟩] := by
  have hpos : limit ≠ 0 := by omega
  have hover : m.history.records.length + 1 - limit = 0 := by omega
  simp only [store, push, History.takeId, if_neg hpos, save, List.length_append, List.length_singleton,
    hover, List.drop_zero]

/-- A stored message is seen under its id, and the others as before. -/
theorem view_store (hord : m.history.Ordered) {limit : ℕ} (hlimit : m.history.records.length < limit)
    (username text : String) (timestamp reply : Option U64) (id : U64) :
    (m.store limit username text timestamp reply).2.2.view id =
      if m.history.next = id then some ⟨text, [], false, false⟩ else m.view id := by
  have hbefore : ∀ r ∈ m.history.records, r.id ≠ m.history.next := by
    intro r hr heq
    have hlt := hord.below r hr
    rw [heq] at hlt
    exact BitVec.lt_irrefl _ hlt
  rw [view, records_store hlimit, find?_middle hbefore, List.append_nil]
  split <;> rfl

end Messages

/-- What a request does: to every message what the packet it sends does, and it brings a
message under the counter's id. -/
structure Handled (m : Messages) (out : Option Update) (m' : Messages) : Prop where
  ordered : m'.history.Ordered
  view_eq : ∀ id, m'.view id = out.elim (m.view id) (Update.on id (m.view id))
  le_next : m.history.next ≤ m'.history.next
  post_eq : ∀ u ∈ out, ∀ p, u.post = some p → p = m.history.next ∧ p < m'.history.next

/-- The history keeps the message of a request: the counter does not run over, and a
message of the lobby is stored without trimming the history. -/
def Keeps (m : Messages) (config : LobbyConfig) (sender : Sender) : LobbyRequest → Prop
  | .message .. => m.history.next ≠ BitVec.allOnes 64 ∧ (sender.channel = none →
      config.persistentMessages = true ∧ m.history.records.length < config.maxPersistentMessages)
  | .edit .. | .delete _ | .heart _ | .pin _ => True

instance (m : Messages) (config : LobbyConfig) (sender : Sender) (request : LobbyRequest) :
    Decidable (Keeps m config sender request) :=
  match request with
  | .message .. => inferInstanceAs (Decidable (_ ∧ _))
  | .edit .. | .delete _ | .heart _ | .pin _ => .isTrue trivial

namespace Handled

variable {m : Messages} {config : LobbyConfig} {sender : Sender} {messageId : U64}

/-- A refused request. -/
theorem refused (hord : m.history.Ordered) : Handled m none m where
  ordered := hord
  view_eq _ := rfl
  le_next := BitVec.le_refl _
  post_eq _ h := nomatch h

/-- A request that changes one message of the history. -/
theorem changed {m' : Messages} {u : Update} (hord : m'.history.Ordered)
    (hnext : m'.history.next = m.history.next) (hnames : u.names = some messageId)
    (hpost : u.post = none)
    (hview : ∀ id, m'.view id = if messageId = id then u.set (m.view id) else m.view id) :
    Handled m (some u) m' where
  ordered := hord
  view_eq id := by
    rw [hview, Option.elim_some]
    split
    · rename_i hid
      rw [Update.on_names (hid ▸ hnames)]
    · rename_i hid
      rw [Update.on_other fun h => hid (Option.some.inj (hnames.symm.trans h))]
  le_next := hnext ▸ BitVec.le_refl _
  post_eq u' hu' p hp := by
    obtain rfl := Option.some.inj hu'
    rw [hpost] at hp
    cases hp

/-- A request that rewrites one record as the packet says. -/
theorem rewritten (hord : m.history.Ordered) {index : ℕ} {record : Record}
    (hentry : m.history.entry messageId = some (index, record)) {f : Record → Record}
    (hf : ∀ r, Rewritten r (f r)) {u : Update} (hnames : u.names = some messageId)
    (hpost : u.post = none) (hset : u.set (some record.view) = some (f record).view) :
    Handled m (some u) (m.rewrite index f).save := by
  have heffect := Messages.rewrite_effect (m := m) index hf
  refine changed (heffect.ordered hord fun h => (nomatch h)) rfl hnames hpost fun id => ?_
  rw [Messages.view_rewrite hord hentry (hf record).id_eq]
  split
  · rename_i hid
    subst hid
    rw [Messages.view_entry hord hentry, hset]
  · rfl

/-- **A message is stored and sent to all.** -/
theorem messageRequest (hord : m.history.Ordered) (text : String) (reply : Option U64)
    (hkeeps : Keeps m config sender (.message text reply)) :
    Handled m (config.messageRequest sender text reply m).1
      (config.messageRequest sender text reply m).2 := by
  obtain ⟨hroom, hstored⟩ := hkeeps
  have hnext := Messages.lt_next_succ hroom
  unfold LobbyConfig.messageRequest
  split_ifs with hmuted hreply hlobby
  · exact refused hord
  · exact refused hord
  · obtain ⟨hnone, hpersistent⟩ := Bool.and_eq_true_iff.1 hlobby
    have hchannel : sender.channel = none := Option.isNone_iff_eq_none.1 hnone
    obtain ⟨-, hlimit⟩ := hstored hchannel
    have heffect := m.act_effect (.store config.maxPersistentMessages sender.username (trim text)
      config.timestamp reply)
    have hview := Messages.view_store hord hlimit sender.username (trim text) config.timestamp reply
    have hpos : config.maxPersistentMessages ≠ 0 := by omega
    have hid : (m.store config.maxPersistentMessages sender.username (trim text) config.timestamp
        reply).1 = m.history.next := by
      simp only [Messages.store, Messages.push, History.takeId, if_neg hpos]
    have hsucc : (m.store config.maxPersistentMessages sender.username (trim text) config.timestamp
        reply).2.2.history.next = m.history.next + 1 := by
      simp only [Messages.store, Messages.push, History.takeId, if_neg hpos, Messages.save]
    dsimp only
    rw [hchannel]
    refine ⟨heffect.ordered hord fun _ => hroom, fun id => ?_, ?_, ?_⟩
    · rw [hview, Option.elim_some, hid]
      by_cases heq : m.history.next = id
      · rw [if_pos heq, Update.on_names (by rw [heq]; rfl)]
        rfl
      · rw [if_neg heq]
        refine (Update.on_other (fun h => ?_) _).symm
        exact heq (Option.some.inj h)
    · rw [hsucc]
      exact BitVec.le_of_lt hnext.1
    · intro u hu p hp
      obtain rfl := Option.some.inj hu
      obtain rfl := Option.some.inj hp
      rw [hsucc, hid]
      exact ⟨rfl, hnext.1⟩
  · -- A message of a channel takes an id and leaves the records alone.
    have hsome : sender.channel ≠ none := fun hnone => hlobby (by rw [hnone, (hstored hnone).1]; rfl)
    obtain ⟨channel, hchannel⟩ := Option.ne_none_iff_exists'.1 hsome
    have heffect := m.act_effect .nextId
    rw [hchannel]
    refine ⟨heffect.ordered hord fun _ => hroom, fun id => rfl, BitVec.le_of_lt hnext.1, ?_⟩
    intro u hu p hp
    obtain rfl := Option.some.inj hu
    cases hp

/-- **So is an edit.** -/
theorem editRequest (hord : m.history.Ordered) (text : String) :
    Handled m (LobbyConfig.editRequest sender messageId text m).1
      (LobbyConfig.editRequest sender messageId text m).2 := by
  unfold LobbyConfig.editRequest
  dsimp only
  split_ifs with hmuted hedit
  · exact refused hord
  · obtain ⟨-, hdone⟩ := hedit
    simp only [Messages.edit] at hdone ⊢
    split at hdone
    · cases hdone
    · rename_i index record hentry
      split at hdone
      · cases hdone
      · rename_i hown
        simp only [if_neg hown]
        refine rewritten hord hentry (fun r => ?_) rfl rfl rfl
        exact ⟨rfl, fun hr => hr⟩
  · exact refused hord

/-- **So is a deletion.** -/
theorem deleteRequest (hord : m.history.Ordered) :
    Handled m (config.deleteRequest sender messageId m).1
      (config.deleteRequest sender messageId m).2 := by
  unfold LobbyConfig.deleteRequest
  dsimp only
  split_ifs with hdelete
  · have heffect := m.act_effect (.delete messageId)
    obtain ⟨-, hdone⟩ := hdelete
    cases hentry : m.history.entry messageId with
    | none =>
      rw [Messages.delete, hentry] at hdone
      cases hdone
    | some entry =>
      obtain ⟨index, record⟩ := entry
      have hord' := heffect.ordered hord (by intro h; cases h)
      refine changed (u := .deleted messageId) hord' ?_ rfl rfl (Messages.view_delete hord hentry)
      rw [Messages.delete, hentry]
      rfl
  · exact refused hord

/-- **So is a heart.** -/
theorem heartRequest (hord : m.history.Ordered) :
    Handled m (LobbyConfig.heartRequest sender messageId m).1
      (LobbyConfig.heartRequest sender messageId m).2 := by
  unfold LobbyConfig.heartRequest
  split_ifs
  · exact refused hord
  · cases hentry : m.history.entry messageId with
    | none =>
      simp only [Messages.heart, hentry]
      exact refused hord
    | some entry =>
      obtain ⟨index, record⟩ := entry
      simp only [Messages.heart, hentry]
      refine rewritten hord hentry (fun r => ?_) rfl rfl rfl
      exact ⟨rfl, nodup_toggleHeart sender.username⟩

/-- **So is a pin.** -/
theorem pinRequest (hord : m.history.Ordered) :
    Handled m (config.pinRequest sender messageId m).1 (config.pinRequest sender messageId m).2 := by
  unfold LobbyConfig.pinRequest
  split_ifs
  · exact refused hord
  · cases hentry : m.history.entry messageId with
    | none =>
      simp only [Messages.pin, hentry]
      exact refused hord
    | some entry =>
      obtain ⟨index, record⟩ := entry
      by_cases hfull : record.pinned = false ∧ config.maxPinnedMessages ≤ m.pinnedCount
      · simp only [Messages.pin, hentry, if_pos hfull]
        exact refused hord
      · simp only [Messages.pin, hentry, if_neg hfull]
        refine rewritten hord hentry (fun r => ?_) rfl rfl rfl
        exact ⟨rfl, fun hr => hr⟩

/-- **What any request does.** -/
theorem handle (hord : m.history.Ordered) {request : LobbyRequest}
    (hkeeps : Keeps m config sender request) :
    Handled m (config.handle sender m request).1 (config.handle sender m request).2 := by
  cases request with
  | message text reply => exact messageRequest hord text reply hkeeps
  | edit messageId text => exact editRequest hord text
  | delete messageId => exact deleteRequest hord
  | heart messageId => exact heartRequest hord
  | pin messageId => exact pinRequest hord

end Handled

/-! ### What a client comes to show -/

namespace Reader

variable {base id : U64} {m m' : Messages} {r : Reader} {u : Update}

/-- The client shows a message it gets: its user listens to the author, and the pane is
not full. -/
def Hears (r : Reader) : Update → Prop
  | .message _ _ id _ none _ _ => id ∉ r.muted ∧ r.pane.length < Pane.historyLimit
  | .message _ _ _ _ (some _) _ _ | .deleted _ | .edited .. | .heart .. | .pinned .. => True

instance (r : Reader) (u : Update) : Decidable (r.Hears u) :=
  match u with
  | .message _ _ _ _ none _ _ => inferInstanceAs (Decidable (_ ∧ _))
  | .message _ _ _ _ (some _) _ _ | .deleted _ | .edited .. | .heart .. | .pinned .. => .isTrue trivial

/-- What the client gets is what the packet does to each message from `base` on, if its
pane is in order and a message is new to it. -/
theorem view_receive (hears : r.Hears u) (hinc : (r.pane.recent base).Pairwise (· < ·))
    (hnew : ∀ p, u.post = some p → ∀ e ∈ r.pane, e.messageId ≠ some p) (hbase : base ≤ id) :
    (r.receive u).view id = u.on id (r.pane.view id) := by
  cases u with
  | message text username session messageId channel timestamp reply =>
    cases channel with
    | none =>
      obtain ⟨hmuted, hroom⟩ := hears
      have hlistens : ¬(session ∈ r.muted ∨ (none : Option String).isSome = true) := by simpa using hmuted
      rw [receive, if_neg hlistens, Pane.view_pushEntry hroom rfl (hnew messageId rfl)]
      by_cases hid : messageId = id
      · rw [if_pos hid, Update.on_names (hid ▸ rfl)]
        rfl
      · rw [if_neg hid]
        refine (Update.on_other (fun h => ?_) _).symm
        exact hid (Option.some.inj h)
    | some channel =>
      rw [receive, if_pos (.inr rfl)]
      refine (Update.on_other (fun h => ?_) _).symm
      cases h
  | deleted messageId =>
    rw [receive, Pane.view_deleteMessage hinc hbase, Update.on, Update.names]
    simp only [Option.some.injEq, Update.set]
  | edited messageId text =>
    rw [receive, Pane.editMessage, Pane.view_updateMessage (Entry.messageId_setText text)
      (Entry.view_setText text), Update.on, Update.names]
    simp only [Option.some.injEq, Update.set]
  | heart messageId hearts =>
    rw [receive, Pane.setHearts, Pane.view_updateMessage (Entry.messageId_setHearts hearts)
      (Entry.view_setHearts hearts), Update.on, Update.names]
    simp only [Option.some.injEq, Update.set]
  | pinned messageId pin =>
    rw [receive, Pane.setPinned, Pane.view_updateMessage (Entry.messageId_setPinned pin)
      (Entry.view_setPinned pin), Update.on, Update.names]
    simp only [Option.some.injEq, Update.set]

/-- The ids in the pane after a packet: those that were there, and that of a message. -/
theorem recent_receive (hears : r.Hears u) (hpost : ∀ p, u.post = some p → base ≤ p) :
    ((r.receive u).recent base).Sublist (r.pane.recent base ++ u.post.toList) := by
  cases u with
  | message text username session messageId channel timestamp reply =>
    cases channel with
    | none =>
      obtain ⟨hmuted, hroom⟩ := hears
      have hlistens : ¬(session ∈ r.muted ∨ (none : Option String).isSome = true) := by simpa using hmuted
      rw [receive, if_neg hlistens, Pane.recent_pushEntry hroom rfl (hpost messageId rfl)]
      exact .refl _
    | some channel =>
      rw [receive, if_pos (.inr rfl)]
      exact List.sublist_append_left _ _
  | deleted messageId => exact Pane.recent_deleteMessage.trans (List.sublist_append_left _ _)
  | edited messageId text =>
    rw [receive, Pane.editMessage, Pane.recent_updateMessage (Entry.messageId_setText text)]
    exact List.sublist_append_left _ _
  | heart messageId hearts =>
    rw [receive, Pane.setHearts, Pane.recent_updateMessage (Entry.messageId_setHearts hearts)]
    exact List.sublist_append_left _ _
  | pinned messageId pin =>
    rw [receive, Pane.setPinned, Pane.recent_updateMessage (Entry.messageId_setPinned pin)]
    exact List.sublist_append_left _ _

/-- The entries of messages from `base` on are those of texts. -/
def Texts (base : U64) (pane : Pane) : Prop :=
  ∀ e ∈ pane, ∀ id, e.messageId = some id → base ≤ id → e.view.isSome = true

/-- An update makes no text of an entry that has none. -/
theorem texts_updateMessage {pane : Pane} {change : Entry → Entry} (htexts : Texts base pane)
    (hid : ∀ e, (change e).messageId = e.messageId)
    (hview : ∀ e, (change e).view.isSome = e.view.isSome) (messageId : U64) :
    Texts base (pane.updateMessage messageId change) := by
  intro e he id hmessage hbase
  rcases Pane.mem_updateMessage he with he | ⟨e', he', rfl⟩
  · exact htexts e he id hmessage hbase
  · rw [hview]
    exact htexts e' he' id ((hid e').symm.trans hmessage) hbase

/-- Nor does an update that is received. -/
theorem texts_receive (htexts : Texts base r.pane) : Texts base (r.receive u) := by
  cases u with
  | message text username session messageId channel timestamp reply =>
    rw [receive]
    split
    · exact htexts
    · intro e he id hmessage hbase
      rcases List.mem_append.1 (List.mem_of_mem_drop he) with he | he
      · exact htexts e he id hmessage hbase
      · rw [List.mem_singleton.1 he]
        rfl
  | deleted messageId => exact fun e he => htexts e (List.mem_of_mem_eraseP he)
  | edited messageId text =>
    exact texts_updateMessage htexts (Entry.messageId_setText text)
      (fun e => by rw [Entry.view_setText, Option.isSome_map]) messageId
  | heart messageId hearts =>
    exact texts_updateMessage htexts (Entry.messageId_setHearts hearts)
      (fun e => by rw [Entry.view_setHearts, Option.isSome_map]) messageId
  | pinned messageId pin =>
    exact texts_updateMessage htexts (Entry.messageId_setPinned pin)
      (fun e => by rw [Entry.view_setPinned, Option.isSome_map]) messageId

/-- The client follows the history: with what it misses it comes to what the history
records, and messages come to it in the order of their ids. -/
structure Follows (base : U64) (m : Messages) (r : Reader) : Prop where
  agrees : ∀ id, base ≤ id → settled (Update.on id) (r.pane.view id) r.missing = m.view id
  increasing : (r.pane.recent base ++ r.missing.filterMap Update.post).Pairwise (· < ·)
  below : ∀ p ∈ r.pane.recent base ++ r.missing.filterMap Update.post, base ≤ p ∧ p < m.history.next
  texts : Texts base r.pane

/-- **A client follows a request.** -/
theorem Follows.handled {out : Option Update} (hfollows : Follows base m r)
    (hbase : base ≤ m.history.next) (h : Handled m out m') :
    Follows base m' { r with missing := r.missing ++ out.toList } := by
  cases out with
  | none =>
    rw [Option.toList_none, List.append_nil]
    refine ⟨fun id hid => ?_, hfollows.increasing, fun p hp => ?_, hfollows.texts⟩
    · rw [h.view_eq]
      exact hfollows.agrees id hid
    · obtain ⟨hle, hlt⟩ := hfollows.below p hp
      exact ⟨hle, Nat.lt_of_lt_of_le hlt h.le_next⟩
  | some u =>
    have hposts : (r.missing ++ (some u).toList).filterMap Update.post =
        r.missing.filterMap Update.post ++ u.post.toList := by
      rw [Option.toList_some, List.filterMap_append, List.filterMap_cons, List.filterMap_nil]
      cases u.post <;> rfl
    refine ⟨fun id hid => ?_, ?_, ?_, hfollows.texts⟩
    · rw [Option.toList_some, settled_concat, hfollows.agrees id hid, h.view_eq]
      rfl
    · rw [hposts, ← List.append_assoc]
      refine List.pairwise_append.2 ⟨hfollows.increasing, ?_, fun p hp p' hp' => ?_⟩
      · cases u.post with
        | none => exact .nil
        | some p => exact List.pairwise_singleton _ _
      · obtain ⟨rfl, -⟩ := h.post_eq u rfl p' (Option.mem_toList.1 hp')
        exact (hfollows.below p hp).2
    · rw [hposts, ← List.append_assoc]
      intro p hp
      rcases List.mem_append.1 hp with hp | hp
      · obtain ⟨hle, hlt⟩ := hfollows.below p hp
        exact ⟨hle, Nat.lt_of_lt_of_le hlt h.le_next⟩
      · obtain ⟨rfl, hlt⟩ := h.post_eq u rfl p (Option.mem_toList.1 hp)
        exact ⟨hbase, hlt⟩

/-- **A client follows when it gets a packet** that overtakes none it may not overtake. -/
theorem Follows.delivered (hfollows : Follows base m r) {earlier later : List Update}
    (hmissing : r.missing = earlier ++ u :: later) (hears : r.Hears u)
    (hovertake : ∀ u' ∈ earlier, u.MayOvertake u') :
    Follows base m { r with pane := r.receive u, missing := earlier ++ later } := by
  have hincreasing := hfollows.increasing
  have hbelow := hfollows.below
  have hcons : (earlier ++ u :: later).filterMap Update.post = earlier.filterMap Update.post ++
      (u.post.toList ++ later.filterMap Update.post) := by
    rw [List.filterMap_append, List.filterMap_cons]
    cases u.post <;> rfl
  rw [hmissing, hcons] at hincreasing hbelow
  have hpost : ∀ p, u.post = some p → base ≤ p ∧ ∀ e ∈ r.pane, e.messageId ≠ some p := by
    intro p hp
    have hmem : p ∈ earlier.filterMap Update.post ++ (u.post.toList ++ later.filterMap Update.post) := by
      rw [hp]
      exact List.mem_append_right _ List.mem_cons_self
    have hle := (hbelow p (List.mem_append_right _ hmem)).1
    refine ⟨hle, fun e he hid => ?_⟩
    have hrecent : p ∈ r.pane.recent base := Pane.mem_recent.2 ⟨⟨e, he, hid⟩, hle⟩
    exact BitVec.lt_irrefl _ ((List.pairwise_append.1 hincreasing).2.2 p hrecent p hmem)
  -- A message overtakes no other message, so it is the first of those missing.
  have hsublist : ((r.receive u).recent base ++ (earlier ++ later).filterMap Update.post).Sublist
      (r.pane.recent base ++ (earlier.filterMap Update.post ++
        (u.post.toList ++ later.filterMap Update.post))) := by
    have hreceive := recent_receive hears fun p hp => (hpost p hp).1
    rw [List.filterMap_append]
    cases hp : u.post with
    | none =>
      rw [hp, Option.toList_none, List.append_nil] at hreceive
      exact hreceive.append (.refl _)
    | some p =>
      have hfirst : earlier.filterMap Update.post = [] := by
        refine List.filterMap_eq_nil_iff.2 fun u' hu' => ?_
        rcases (hovertake u' hu').1 with hnone | hnone
        · rw [hp] at hnone
          cases hnone
        · exact hnone
      rw [hp] at hreceive
      rw [hfirst, List.nil_append, List.nil_append, ← List.append_assoc]
      exact hreceive.append (.refl _)
  refine ⟨fun id hid => ?_, hincreasing.sublist hsublist, fun p hp => hbelow p (hsublist.subset hp),
    texts_receive hfollows.texts⟩
  have hview := view_receive hears (List.pairwise_append.1 hincreasing).1
    (fun p hp => (hpost p hp).2) hid
  calc settled (Update.on id) ((r.receive u).view id) (earlier ++ later)
      = settled (Update.on id) (u.on id (r.pane.view id)) (earlier ++ later) := by rw [hview]
    _ = settled (Update.on id) (r.pane.view id) (earlier ++ u :: later) :=
      settled_overtake (fun u' hu' => (hovertake u' hu').commutes id) _ _
    _ = m.view id := hmissing ▸ hfollows.agrees id hid

end Reader

/-- In a history in order, what is recorded of a message is in its record. -/
theorem Messages.view_of_mem {m : Messages} {r : Record} (hord : m.history.Ordered)
    (hr : r ∈ m.history.records) : m.view r.id = some r.view := by
  obtain ⟨before, after, hrecords⟩ := List.append_of_mem hr
  have hinc := List.pairwise_map.1 hord.increasing
  rw [hrecords] at hinc
  have hbefore : ∀ r' ∈ before, r'.id ≠ r.id := by
    intro r' hr' heq
    have hlt := (List.pairwise_append.1 hinc).2.2 r' hr' r List.mem_cons_self
    rw [heq] at hlt
    exact BitVec.lt_irrefl _ hlt
  rw [view, hrecords, find?_middle hbefore, if_pos rfl, Option.map_some]

/-- A client that follows the history and misses nothing has converged. -/
theorem Reader.Follows.converged {base : U64} {m : Messages} {r : Reader} (hfollows : Follows base m r)
    (hord : m.history.Ordered) (hquiet : r.missing = []) : Lobby.Converged base m r.pane := by
  have hagrees : ∀ id, base ≤ id → r.pane.view id = m.view id := by
    intro id hid
    have hsettled := hfollows.agrees id hid
    rwa [hquiet, settled_nil] at hsettled
  have hinc : (r.pane.recent base).Pairwise (· < ·) := (List.pairwise_append.1 hfollows.increasing).1
  refine ⟨fun id hid => ⟨?_, ?_⟩, fun e he record hrecord hid hmessage => ?_, hinc⟩
  · rintro ⟨e, he, hmessage⟩
    obtain ⟨v, hv⟩ := Option.isSome_iff_exists.1 (hfollows.texts e he id hmessage hid)
    have hview : m.view id = some v := by
      rw [← hagrees id hid, Pane.view_of_mem hinc hid he hmessage, hv]
    obtain ⟨record, hrecord, _⟩ := Option.map_eq_some_iff.1 hview
    exact ⟨record, List.mem_of_find?_eq_some hrecord, by simpa using List.find?_some hrecord⟩
  · rintro ⟨record, hrecord, rfl⟩
    have hview := (hagrees record.id hid).trans (Messages.view_of_mem hord hrecord)
    exact Pane.mem_of_view hview
  · rw [← Pane.view_of_mem hinc hid he hmessage, hagrees record.id hid]
    exact Messages.view_of_mem hord hrecord

namespace Lobby

variable {Client : Type} [DecidableEq Client] {base : U64} {s s' : Lobby Client}

/-- The history keeps a message that is sent, and a packet comes to a client that shows it
and overtakes no packet it may not overtake. -/
def InOrder (s : Lobby Client) : LobbyAction Client → Prop
  | .request config sender request => Keeps s.messages config sender request
  | .deliver client index => ∀ u ∈ (s.readers client).missing[index]?,
      (s.readers client).Hears u ∧ ∀ u' ∈ (s.readers client).missing.take index, u.MayOvertake u'
  | .mute .. => True

instance (s : Lobby Client) (a : LobbyAction Client) : Decidable (s.InOrder a) :=
  match a with
  | .request config sender request => inferInstanceAs (Decidable (Keeps s.messages config sender request))
  | .deliver client index => inferInstanceAs (Decidable (∀ u ∈ (s.readers client).missing[index]?,
      (s.readers client).Hears u ∧ ∀ u' ∈ (s.readers client).missing.take index, u.MayOvertake u'))
  | .mute .. => .isTrue trivial

/-- The invariant: the history is in order, and every client follows it. -/
structure Inv (base : U64) (s : Lobby Client) : Prop where
  ordered : s.messages.history.Ordered
  base_le : base ≤ s.messages.history.next
  follows : ∀ client, (s.readers client).Follows base s.messages

omit [DecidableEq Client] in
/-- Clients that have what the server has agree. -/
theorem inv_start {messages : Messages} {panes : Client → Pane} {muted : Client → List ℕ}
    (hord : messages.history.Ordered)
    (hpanes : ∀ client, ∀ e ∈ panes client, ∀ id, e.messageId = some id → id < messages.history.next) :
    Inv messages.history.next (start messages panes muted) := by
  refine ⟨hord, BitVec.le_refl _, fun client => ?_⟩
  have hold : ∀ e ∈ panes client, ∀ id, e.messageId = some id → ¬messages.history.next ≤ id :=
    fun e he id hid => Nat.not_le_of_lt (hpanes client e he id hid)
  have hnone : (panes client).recent messages.history.next = [] :=
    List.eq_nil_iff_forall_not_mem.2 fun id hid => by
      obtain ⟨⟨e, he, hmessage⟩, hle⟩ := Pane.mem_recent.1 hid
      exact hold e he id hmessage hle
  refine ⟨fun id hid => ?_, ?_, ?_, fun e he id hid hle => absurd hle (hold e he id hid)⟩
  · -- Neither the pane nor the history has a message from here on.
    have hpane : (panes client).view id = none :=
      Pane.view_eq_none fun e he hmessage => hold e he id hmessage hid
    have hrecords : messages.history.records.find? (·.id = id) = none := by
      refine List.find?_eq_none.2 fun r hr h => ?_
      exact Nat.not_le_of_lt (hord.below r hr) (of_decide_eq_true h ▸ hid)
    simp only [start, settled_nil, hpane, Messages.view, hrecords, Option.map_none]
  · simp only [start, hnone, List.filterMap_nil, List.append_nil]
    exact .nil
  · simp only [start, hnone, List.filterMap_nil, List.append_nil]
    exact fun p hp => absurd hp List.not_mem_nil

/-- **A step that keeps the order keeps the invariant.** -/
theorem Inv.step {a : LobbyAction Client} (hinv : Inv base s) (hcond : s.InOrder a)
    (h : Lobby.step s a = some s') : Inv base s' := by
  cases a with
  | request config sender request =>
    obtain rfl := Option.some.inj h
    have hhandled := Handled.handle hinv.ordered hcond
    exact ⟨hhandled.ordered, Nat.le_trans hinv.base_le hhandled.le_next,
      fun client => (hinv.follows client).handled hinv.base_le hhandled⟩
  | deliver client index =>
    obtain ⟨u, hu, hsome⟩ := Option.bind_eq_some_iff.1 h
    obtain rfl := Option.some.inj hsome
    refine ⟨hinv.ordered, hinv.base_le, fun other => ?_⟩
    dsimp only
    by_cases hother : other = client
    · subst hother
      obtain ⟨hears, hovertake⟩ := hcond u hu
      obtain ⟨hlt, hget⟩ := List.getElem?_eq_some_iff.1 hu
      have hmissing : (s.readers other).missing = (s.readers other).missing.take index ++
          u :: (s.readers other).missing.drop (index + 1) := by
        rw [← hget, List.getElem_cons_drop, List.take_append_drop]
      rw [Function.update_self, List.eraseIdx_eq_take_drop_succ]
      exact (hinv.follows other).delivered hmissing hears hovertake
    · rw [Function.update_of_ne hother]
      exact hinv.follows other
  | mute client id =>
    obtain rfl := Option.some.inj h
    refine ⟨hinv.ordered, hinv.base_le, fun other => ?_⟩
    dsimp only
    by_cases hother : other = client
    · subst hother
      rw [Function.update_self]
      have hfollows := hinv.follows other
      exact ⟨hfollows.agrees, hfollows.increasing, hfollows.below, hfollows.texts⟩
    · rw [Function.update_of_ne hother]
      exact hinv.follows other

/-- **The clients converge on the history.**  Messages come to a client in the order of
their ids, and a packet about a message overtakes neither the message nor one that sets
the same part of it.  Once nothing is missing, a client shows the messages sent since the
start that the history holds, as it holds them, in the order of their ids. -/
theorem clients_converge (messages : Messages) (panes : Client → Pane) (muted : Client → List ℕ)
    (hord : messages.history.Ordered)
    (hpanes : ∀ client, ∀ e ∈ panes client, ∀ id, e.messageId = some id → id < messages.history.next)
    (actions : List (LobbyAction Client)) (s : Lobby Client)
    (hrun : exec step (start messages panes muted) actions = some s)
    (hmeets : Meets step InOrder (start messages panes muted) actions) (hquiet : s.Quiet)
    (client : Client) : Converged messages.history.next s.messages (s.readers client).pane := by
  have hinv := exec_induct (fun _ _ _ hinv => hinv.step) (inv_start hord hpanes) hmeets hrun
  exact (hinv.follows client).converged hinv.ordered (hquiet client)

/-- Anna's message is hearted and pinned, and the two packets change places. -/
theorem clients_converge_overtaken :
    let owner : Sender := ⟨"ben", 2, .owner, false, none⟩
    let actions : List (LobbyAction Unit) :=
      [.request keepingConfig annaSender (.message "hi" none), .request keepingConfig owner (.heart 0),
        .request keepingConfig owner (.pin 0), .deliver () 0, .deliver () 1, .deliver () 0]
    ∃ s, exec step (start (.start []) (fun _ => []) fun _ => []) actions = some s ∧
      (∃ r ∈ s.messages.history.records, r.id = 0 ∧ r.pinned = true) ∧
      Converged 0 s.messages (s.readers ()).pane := by
  intro owner actions
  have hruns : ((exec step (start (.start []) (fun _ => []) fun _ => []) actions).map fun s =>
      ((s.readers ()).missing, s.messages.history.records.map fun r => (r.id, r.pinned))) =
      some ([], [(0, true)]) := by decide +kernel
  obtain ⟨s, hs, heq⟩ := Option.map_eq_some_iff.1 hruns
  obtain ⟨hmissing, hrecords⟩ := Prod.mk.inj heq
  refine ⟨s, hs, ?_, clients_converge (.start []) (fun _ => []) (fun _ => [])
    ⟨.nil, fun r hr => (nomatch hr)⟩ (fun _ e he => (nomatch he)) actions s hs (by decide +kernel)
    (fun _ => hmissing) ()⟩
  obtain ⟨r, hr, heq⟩ := List.mem_map.1 (hrecords ▸ List.mem_singleton_self ((0 : U64), true))
  obtain ⟨hid, hpinned⟩ := Prod.mk.inj heq
  exact ⟨r, hr, hid, hpinned⟩

end Lobby

end Why2
