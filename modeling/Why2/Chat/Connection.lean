/-
# The server's connections

`chat/src/network/server/connection.rs` and the functions of
`chat/src/network/server/mod.rs` that rebuild a `Connection` field by field:
`update_client_keys`, `authenticate_client`, `update_client_channel`.  What
`send_tcp` and `receive` (`chat/src/network/mod.rs`) do with the two sequence
counters of an entry is here as well.

An `Instant` is a number of milliseconds.  Sockets, tasks and shared maps are
handles: only who holds which of them matters.
-/

import Why2.Chat.PacketStream
import Mathlib.Data.Rat.Defs

namespace Why2

/-- `Instant`, in milliseconds. -/
abbrev Instant := ℤ

/-- `Role`, lowest first. -/
inductive Role
  | user
  | moderator
  | owner
deriving DecidableEq, Repr

/-- `Device`. -/
inductive Device
  | tui
  | desktop
  | phone
deriving DecidableEq, Repr

/-- `Attach`. -/
structure Attach where
  stream : ℕ
  targetId : ℕ
  token : Vector U8 32
  muted : Bool
deriving DecidableEq

/-- `Connection::NonAuthenticated`. -/
structure NonAuthenticated (Addr : Type) where
  writeStream : ℕ
  task : ℕ
  peerAddr : Addr
  username : Option String
  keys : Option SharedKeys
  obfuscationKey : Vector U8 32
  lastActivity : Instant
  seq : ℕ
  connect : Instant
deriving DecidableEq

/-- `Connection::Authenticated`. -/
structure Authenticated (Addr : Type) where
  writeStream : ℕ
  task : ℕ
  fileStreams : ℕ
  screenStream : Option ℕ
  peerAddr : Addr
  username : String
  device : Option Device
  role : Role
  id : ℕ
  keys : SharedKeys
  attachedScreen : Option Attach
  lastActivity : Instant
  lastKeyExchange : Instant
  lastImage : Instant
  lastTyping : Instant
  lastPm : Option ℕ
  spamViolations : ℕ
  credit : ℚ
  refill : Instant
  throttles : ℕ
  channel : Option String
  seq : ℕ
  serverSeq : ℕ
  alive : Bool
  muted : Bool
deriving DecidableEq

/-- `Connection`. -/
inductive Connection (Addr : Type)
  | authenticated (conn : Authenticated Addr)
  | nonAuthenticated (conn : NonAuthenticated Addr)
deriving DecidableEq

/-- The settings `authenticate_client` reads. -/
structure LoginConfig where
  minMessageDelay : ℕ
  maxPacketBurst : ℚ
deriving DecidableEq

/-- `consts::IMAGE_REQUEST_DELAY`, in milliseconds. -/
def imageRequestDelay : ℕ := 500

/-- `consts::TYPING_INTERVAL`, in milliseconds. -/
def typingInterval : ℕ := 3000

namespace Connection

variable {Addr : Type}

/-- `Connection::is_authenticated`. -/
def isAuthenticated : Connection Addr → Bool
  | authenticated _ => true
  | nonAuthenticated _ => false

/-- `Connection::username`. -/
def username : Connection Addr → Option String
  | authenticated conn => some conn.username
  | nonAuthenticated conn => conn.username

/-- `Connection::id`. -/
def id : Connection Addr → Option ℕ
  | authenticated conn => some conn.id
  | nonAuthenticated _ => none

/-- The id and the username of a connection that has logged in. -/
def identity : Connection Addr → Option (ℕ × String)
  | authenticated conn => some (conn.id, conn.username)
  | nonAuthenticated _ => none

/-- `Connection::keys`. -/
def keys : Connection Addr → Option SharedKeys
  | authenticated conn => some conn.keys
  | nonAuthenticated conn => conn.keys

/-- `Connection::seq`. -/
def seq : Connection Addr → ℕ
  | authenticated conn => conn.seq
  | nonAuthenticated conn => conn.seq

/-- `Connection::server_seq`. -/
def serverSeq : Connection Addr → Option ℕ
  | authenticated conn => some conn.serverSeq
  | nonAuthenticated _ => none

/-- The entry `listen_client` inserts. -/
def start (writeStream task : ℕ) (peerAddr : Addr) (obfuscationKey : Vector U8 32) (now : Instant) :
    Connection Addr :=
  nonAuthenticated
    { writeStream, task, peerAddr, username := none, keys := none, obfuscationKey,
      lastActivity := now, seq := 0, connect := now }

/-! ### Rebuilding an entry -/

/-- The entry after `update_client_keys`. -/
def updateClientKeys (keys : SharedKeys) (now : Instant) : Connection Addr → Connection Addr
  | nonAuthenticated conn =>
    nonAuthenticated
      { writeStream := conn.writeStream
        task := conn.task
        peerAddr := conn.peerAddr
        username := none
        keys := some keys
        obfuscationKey := conn.obfuscationKey
        lastActivity := now
        seq := conn.seq
        connect := conn.connect }
  | authenticated conn =>
    authenticated
      { writeStream := conn.writeStream
        task := conn.task
        fileStreams := conn.fileStreams
        screenStream := conn.screenStream
        peerAddr := conn.peerAddr
        username := conn.username
        device := conn.device
        role := conn.role
        id := conn.id
        keys := keys
        attachedScreen := conn.attachedScreen
        lastActivity := conn.lastActivity
        lastKeyExchange := now
        lastImage := conn.lastImage
        lastTyping := conn.lastTyping
        lastPm := conn.lastPm
        spamViolations := 0
        credit := conn.credit
        refill := conn.refill
        throttles := conn.throttles
        channel := conn.channel
        seq := conn.seq
        serverSeq := conn.serverSeq
        alive := conn.alive
        muted := conn.muted }

/-- `Connection::write_stream`. -/
def writeStream : Connection Addr → ℕ
  | authenticated conn => conn.writeStream
  | nonAuthenticated conn => conn.writeStream

/-- `Connection::task`. -/
def task : Connection Addr → ℕ
  | authenticated conn => conn.task
  | nonAuthenticated conn => conn.task

/-- `Connection::peer_addr`. -/
def peerAddr : Connection Addr → Addr
  | authenticated conn => conn.peerAddr
  | nonAuthenticated conn => conn.peerAddr

/-- `Connection::last_key_exchange`. -/
def lastKeyExchange : Connection Addr → Option Instant
  | authenticated conn => some conn.lastKeyExchange
  | nonAuthenticated _ => none

/-- `Connection::last_pm`. -/
def lastPm : Connection Addr → Option ℕ
  | authenticated conn => conn.lastPm
  | nonAuthenticated _ => none

/-- The entry after `authenticate_client`, with `fileStreams` the new map of file
transfers.  Without session keys the `unwrap` panics: `none`. -/
def authenticateClient (config : LoginConfig) (username : String) (device : Option Device)
    (role : Role) (id : ℕ) (fileStreams : ℕ) (now : Instant) (old : Connection Addr) :
    Option (Connection Addr) := do
  let keys ← old.keys
  return authenticated
    { writeStream := old.writeStream
      task := old.task
      fileStreams := fileStreams
      screenStream := none
      peerAddr := old.peerAddr
      username := username
      device := device
      role := role
      id := id
      keys := keys
      attachedScreen := none
      lastActivity := now - config.minMessageDelay
      lastKeyExchange := old.lastKeyExchange.getD now
      lastImage := now - imageRequestDelay
      lastTyping := now - typingInterval
      lastPm := old.lastPm
      spamViolations := 0
      credit := config.maxPacketBurst
      refill := now
      throttles := 0
      channel := none
      seq := old.seq
      serverSeq := 0
      alive := true
      muted := false }

/-- The entry after `update_client_channel`; on an entry that has not logged in the
`unwrap`s panic: `none`. -/
def updateClientChannel (channel : Option String) (now : Instant) :
    Connection Addr → Option (Connection Addr)
  | nonAuthenticated _ => none
  | authenticated old => some <| authenticated
      { writeStream := old.writeStream
        task := old.task
        fileStreams := old.fileStreams
        screenStream := old.screenStream
        peerAddr := old.peerAddr
        username := old.username
        device := old.device
        role := old.role
        id := old.id
        keys := old.keys
        attachedScreen := old.attachedScreen
        lastActivity := now
        lastKeyExchange := old.lastKeyExchange
        lastImage := old.lastImage
        lastTyping := old.lastTyping
        lastPm := old.lastPm
        spamViolations := old.spamViolations
        credit := old.credit
        refill := old.refill
        throttles := old.throttles
        channel := channel
        seq := old.seq
        serverSeq := old.serverSeq
        alive := true
        muted := old.muted }

/-! ### Setting single fields -/

/-- The setters the rest of the server uses on an entry. -/
inductive FieldUpdate
  | username (name : String)
  | role (role : Role)
  | screenStream (stream : Option ℕ)
  | attachedScreen (attach : Option Attach)
  | lastActivity (time : Instant)
  | lastImage (time : Instant)
  | lastTyping (time : Instant)
  | lastPm (id : Option ℕ)
  | spamViolations (n : ℕ)
  | credit (credit : ℚ) (refill : Instant) (throttles : ℕ)
  | alive (alive : Bool)
  | muted (muted : Bool)
deriving DecidableEq

/-- The entry after a setter; a field the entry does not have is left alone.
`listen_client` sets the username of an entry that has not logged in only. -/
def set : FieldUpdate → Connection Addr → Connection Addr
  | .username name, nonAuthenticated conn => nonAuthenticated { conn with username := some name }
  | .lastActivity time, nonAuthenticated conn => nonAuthenticated { conn with lastActivity := time }
  | _, nonAuthenticated conn => nonAuthenticated conn
  | .username _, authenticated conn => authenticated conn
  | .role role, authenticated conn => authenticated { conn with role }
  | .screenStream stream, authenticated conn => authenticated { conn with screenStream := stream }
  | .attachedScreen attach, authenticated conn => authenticated { conn with attachedScreen := attach }
  | .lastActivity time, authenticated conn => authenticated { conn with lastActivity := time }
  | .lastImage time, authenticated conn => authenticated { conn with lastImage := time }
  | .lastTyping time, authenticated conn => authenticated { conn with lastTyping := time }
  | .lastPm id, authenticated conn => authenticated { conn with lastPm := id }
  | .spamViolations n, authenticated conn => authenticated { conn with spamViolations := n }
  | .credit credit refill throttles, authenticated conn =>
    authenticated { conn with credit, refill, throttles }
  | .alive alive, authenticated conn => authenticated { conn with alive }
  | .muted muted, authenticated conn => authenticated { conn with muted }

/-! ### The sequence counters -/

/-- What `send_tcp` does with the entry of the peer: the number the packet gets,
and the entry afterwards.  A packet is made with number 0, which it keeps towards a
client that has not logged in. -/
def nextServerSeq : Connection Addr → ℕ × Connection Addr
  | authenticated conn => (conn.serverSeq + 1, authenticated { conn with serverSeq := conn.serverSeq + 1 })
  | nonAuthenticated conn => (0, nonAuthenticated conn)

/-- The entry with `seq` set. -/
def setSeq (n : ℕ) : Connection Addr → Connection Addr
  | authenticated conn => authenticated { conn with seq := n }
  | nonAuthenticated conn => nonAuthenticated { conn with seq := n }

/-- The sequence check of the server's `receive`: the entry afterwards if the
number is new, nothing if it is not. -/
def checkSeq (packetSeq : ℕ) (conn : Connection Addr) : Option (Connection Addr) :=
  if packetSeq > conn.seq then some (conn.setSeq packetSeq) else none

/-! ### What the rebuilding keeps -/

section Frame

variable (c : Connection Addr)

/-- The number that was set. -/
@[simp]
theorem seq_setSeq (n : ℕ) : (c.setSeq n).seq = n := by cases c <;> rfl

/-- The numbers of the server stay. -/
@[simp]
theorem serverSeq_setSeq (n : ℕ) : (c.setSeq n).serverSeq = c.serverSeq := by cases c <;> rfl

/-- The numbers of the client stay. -/
@[simp]
theorem seq_nextServerSeq : c.nextServerSeq.2.seq = c.seq := by cases c <;> rfl

/-- A session is authenticated if the server counts for it. -/
theorem isAuthenticated_eq : c.isAuthenticated = c.serverSeq.isSome := by cases c <;> rfl

/-- Before that nothing is counted. -/
theorem nextServerSeq_of_none (h : c.serverSeq = none) : c.nextServerSeq = (0, c) := by
  cases c with
  | authenticated conn => cases h
  | nonAuthenticated conn => rfl

/-- The next number of the server. -/
theorem nextServerSeq_of_some {k : ℕ} (h : c.serverSeq = some k) :
    c.nextServerSeq.1 = k + 1 ∧ c.nextServerSeq.2.serverSeq = some (k + 1) := by
  cases c with
  | authenticated conn =>
    obtain rfl := Option.some.inj h
    exact ⟨rfl, rfl⟩
  | nonAuthenticated conn => cases h

/-- A key exchange keeps both counters. -/
theorem updateClientKeys_counters (keys : SharedKeys) (now : Instant) :
    (c.updateClientKeys keys now).seq = c.seq ∧
      (c.updateClientKeys keys now).serverSeq = c.serverSeq := by
  cases c <;> exact ⟨rfl, rfl⟩

/-- A channel switch keeps both counters. -/
theorem updateClientChannel_counters {channel : Option String} {now : Instant} {c' : Connection Addr}
    (h : c.updateClientChannel channel now = some c') :
    c'.seq = c.seq ∧ c'.serverSeq = c.serverSeq := by
  cases c with
  | nonAuthenticated conn => cases h
  | authenticated conn =>
    obtain rfl := Option.some.inj h
    exact ⟨rfl, rfl⟩

/-- The login keeps the client's counter and starts the server's. -/
theorem authenticateClient_counters {config : LoginConfig} {username : String}
    {device : Option Device} {role : Role} {id fileStreams : ℕ} {now : Instant} {c' : Connection Addr}
    (h : c.authenticateClient config username device role id fileStreams now = some c') :
    c'.seq = c.seq ∧ c'.serverSeq = some 0 := by
  obtain ⟨keys, _, h⟩ := Option.bind_eq_some_iff.1 h
  obtain rfl := Option.some.inj h
  exact ⟨rfl, rfl⟩

/-- No setter touches a counter. -/
theorem set_counters (update : FieldUpdate) :
    (c.set update).seq = c.seq ∧ (c.set update).serverSeq = c.serverSeq := by
  cases c <;> cases update <;> exact ⟨rfl, rfl⟩

/-- A key exchange keeps who the client is; a client that has not logged in may lose
the name it asked for. -/
theorem updateClientKeys_identity (keys : SharedKeys) (now : Instant) :
    (c.updateClientKeys keys now).id = c.id ∧
      (c.updateClientKeys keys now).isAuthenticated = c.isAuthenticated ∧
      ((c.updateClientKeys keys now).username = c.username ∨
        (c.updateClientKeys keys now).username = none) := by
  cases c <;> simp [updateClientKeys, id, isAuthenticated, username]

/-- Another channel leaves the identity. -/
theorem updateClientChannel_identity {channel : Option String} {now : Instant} {c' : Connection Addr}
    (h : c.updateClientChannel channel now = some c') :
    c'.id = c.id ∧ c'.isAuthenticated = c.isAuthenticated ∧ c'.username = c.username := by
  cases c with
  | nonAuthenticated conn => cases h
  | authenticated conn =>
    obtain rfl := Option.some.inj h
    exact ⟨rfl, rfl, rfl⟩

/-- A login gives the id and the name it was given. -/
theorem authenticateClient_identity {config : LoginConfig} {username : String}
    {device : Option Device} {role : Role} {id fileStreams : ℕ} {now : Instant} {c' : Connection Addr}
    (h : c.authenticateClient config username device role id fileStreams now = some c') :
    c'.id = some id ∧ c'.username = some username := by
  obtain ⟨keys, _, h⟩ := Option.bind_eq_some_iff.1 h
  obtain rfl := Option.some.inj h
  exact ⟨rfl, rfl⟩

/-- Of the setters only that of the username changes who the client is. -/
theorem set_identity (update : FieldUpdate) :
    (c.set update).id = c.id ∧ (c.set update).isAuthenticated = c.isAuthenticated ∧
      ((∀ name, update ≠ .username name) → (c.set update).username = c.username) := by
  cases c <;> cases update <;> simp [set, id, isAuthenticated, username]

/-- A connection has the name that is set. -/
theorem set_username (h : c.isAuthenticated = false) (name : String) :
    (c.set (.username name)).username = some name := by
  cases c with
  | authenticated conn => cases h
  | nonAuthenticated conn => rfl

/-- Before the login there is no id. -/
theorem id_eq_none (h : c.isAuthenticated = false) : c.id = none := by
  cases c with
  | authenticated conn => cases h
  | nonAuthenticated conn => rfl

/-- New keys leave the identity. -/
theorem identity_updateClientKeys (keys : SharedKeys) (now : Instant) (c : Connection Addr) :
    (c.updateClientKeys keys now).identity = c.identity := by
  cases c <;> rfl

/-- No field that is set is of the identity. -/
theorem identity_set (update : FieldUpdate) (c : Connection Addr) :
    (c.set update).identity = c.identity := by
  cases c <;> cases update <;> rfl

/-- A channel is not of the identity. -/
theorem identity_updateClientChannel {channel : Option String} {now : Instant}
    {c' : Connection Addr} (h : c.updateClientChannel channel now = some c') :
    c'.identity = c.identity := by
  cases c with
  | nonAuthenticated conn => cases h
  | authenticated conn =>
    obtain rfl := Option.some.inj h
    rfl

/-- The identity is that of the login. -/
theorem identity_authenticateClient {config : LoginConfig} {username : String}
    {device : Option Device} {role : Role} {id fileStreams : ℕ} {now : Instant} {c' : Connection Addr}
    (h : c.authenticateClient config username device role id fileStreams now = some c') :
    c'.identity = some (id, username) := by
  obtain ⟨keys, -, hc'⟩ := Option.bind_eq_some_iff.1 h
  obtain rfl := Option.some.inj hc'
  rfl

end Frame

end Connection

end Why2
