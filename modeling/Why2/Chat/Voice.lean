/-
# Voice sessions

One UDP socket serves every voice session (`listen_client_voice`,
`chat/src/network/voice/server.rs`).  A session is opened over the main connection,
which gives out a token, and bound to an address by a `Hello` with that token.  A
packet of a bound session must come from its address, or be a `Hello` with the
token, or come from another port of the same host; and its number must be above
the last one.

The two rules are applied in that order, and the first one moves the session
before the second drops the packet: an earlier `Hello`, sent again from anywhere,
moves the session to there (`hello_replayed`).  A packet whose number is not above
the last one is without effect exactly when it comes from the address of the
session, or from another host and without the token; in a run in which every such
packet is of this kind, a session only moves on a packet that is newer than all
before it (`replay_ignored`).

A datagram is checked under the lock of its session, and what it says is done
afterwards.  A packet that arrives has been decrypted with the keys of the session
it names.
-/

import Why2.Chat.Connection
import Why2.Lib.Runs
import Mathlib.Data.List.AList
import Mathlib.Algebra.Order.Ring.Rat

namespace Why2

open Lib

/-- `VoicePacketCode`. -/
inductive VoicePacketCode
  | hello (token : Vector U8 32)
  | helloAck
  | audio (data : List U8) (username : Option String)
  | ping (timestamp : BitVec 128)
  | pong (targetId : ℕ) (timestamp : BitVec 128)
deriving DecidableEq

/-- `VoicePacket`. -/
structure VoicePacket where
  id : ℕ
  code : VoicePacketCode
  seq : ℕ
deriving DecidableEq

/-- A bound voice session, `voice::server::Connection`, with the numbers of the packets that
were accepted. -/
structure VoiceConnection (Addr : Type) where
  addr : Addr
  id : ℕ
  seq : ℕ
  serverSeq : ℕ
  packetAccumulator : ℕ
  credit : ℚ
  refill : Instant
  throttled : Bool
  accepted : List ℕ

/-- An entry of the table of voice sessions. -/
structure VoiceSession (Addr : Type) where
  conn : Option (VoiceConnection Addr)
  username : String
  token : Vector U8 32

/-- What the voice server reads of a client's main connection. -/
structure VoiceClient where
  channel : Option String
  muted : Bool
  lastActivity : Instant

/-- The settings the voice server reads. -/
structure VoiceConfig where
  spamProtection : Bool
  minMessageDelay : ℕ

/-- `consts::MAX_PACKET_RATE`, packets in a second. -/
def voicePacketRate : ℚ := 75

/-- `consts::MAX_PACKET_BURST`. -/
def voicePacketBurst : ℚ := voicePacketRate / 2

/-- `consts::ACTIVITY_TRESHOLD`. -/
def activityThreshold : ℕ := 100

/-- `tokens_match`, which does not stop where two tokens diverge. -/
def tokensMatch (a b : Vector U8 32) : Bool :=
  (a.toList.zip b.toList).foldl (fun acc pair => acc ||| pair.1 ^^^ pair.2) 0 = (0 : U8)

/-- `parse_opus_len`. -/
def parseOpusLen : List U8 → ℕ × ℕ
  | [] => (0, 0)
  | b₀ :: rest =>
    if b₀.toNat < 252 then (b₀.toNat, 1)
    else
      match rest with
      | b₁ :: _ => (b₁.toNat * 4 + b₀.toNat, 2)
      | [] => (0, 0)

/-- `validate_opus_packet`. -/
def validateOpusPacket : List U8 → Bool
  | [] => false
  | toc :: rest =>
    match (toc &&& 0x03).toNat with
    | 0 => true
    | 1 => rest.length % 2 = 0
    | 2 =>
      if rest = [] then false
      else
        let (len, count) := parseOpusLen rest
        if count = 0 then false else 1 + count + len ≤ rest.length + 1
    | 3 =>
      match rest with
      | [] => false
      | count :: _ => 0 < (count &&& 0x3F).toNat
    | _ => false

namespace VoiceConnection

variable {Addr : Type}

/-- A session that has just been bound. -/
def bind (addr : Addr) (packet : VoicePacket) (now : Instant) : VoiceConnection Addr :=
  ⟨addr, packet.id, packet.seq, 0, 0, voicePacketBurst, now, false, [packet.seq]⟩

/-- `take_credit`. -/
def takeCredit (conn : VoiceConnection Addr) (now : Instant) : Bool × VoiceConnection Addr :=
  let credit := min (conn.credit + (now - conn.refill : ℚ) / 1000 * voicePacketRate) voicePacketBurst - 1
  (0 ≤ credit, { conn with credit, refill := now })

end VoiceConnection

/-- The voice sessions, the clients of the server, the packet that has passed the checks,
with the address it came from and the username of its session, and the packets that were
sent, with the address and the recipient. -/
structure VoiceServer (Addr : Type) where
  sessions : AList fun _ : ℕ => VoiceSession Addr
  clients : AList fun _ : ℕ => VoiceClient
  received : Option (VoicePacket × Addr × String)
  sent : List (Addr × ℕ × VoicePacket)

/-- What changes the sessions. -/
inductive VoiceAction (Addr : Type)
  | connect (id : ℕ) (client : VoiceClient)
  | disconnect (id : ℕ)
  | channel (id : ℕ) (channel : Option String)
  | mute (id : ℕ) (muted : Bool)
  | openConnection (id : ℕ) (username : String) (token : Vector U8 32)
  | removeConnection (id : ℕ)
  | datagram (config : VoiceConfig) (packet : VoicePacket) (addr : Addr) (now : Instant)
  | deliver

namespace VoiceServer

variable {Addr Ip : Type} [DecidableEq Addr] [DecidableEq Ip] (ip : Addr → Ip)

/-- Nobody is there. -/
def start : VoiceServer Addr := ⟨∅, ∅, none, []⟩

/-- The session is bound again. -/
def put (s : VoiceServer Addr) (id : ℕ) (session : VoiceSession Addr) (conn : VoiceConnection Addr) :
    VoiceServer Addr :=
  { s with sessions := s.sessions.insert id { session with conn := some conn } }

/-- `reset_last_activity`. -/
def resetLastActivity (s : VoiceServer Addr) (config : VoiceConfig) (id : ℕ) (now : Instant) : VoiceServer Addr :=
  match s.clients.lookup id with
  | some client =>
    { s with clients := s.clients.insert id { client with lastActivity := now - config.minMessageDelay } }
  | none => s

/-- The packet is a `Hello` with the token of the session. -/
def validHello (packet : VoicePacket) (session : VoiceSession Addr) : Bool :=
  match packet.code with
  | .hello token => tokensMatch token session.token
  | _ => false

/-- What is left of the checks for a packet with a new number: its rate, and the activity
of the client. -/
def accept (s : VoiceServer Addr) (config : VoiceConfig) (packet : VoicePacket) (addr : Addr) (now : Instant)
    (session : VoiceSession Addr) (conn : VoiceConnection Addr) : VoiceServer Addr :=
  let (paid, conn) := if config.spamProtection then conn.takeCredit now else (true, conn)
  if paid then
    let count := conn.packetAccumulator + 1
    let active := activityThreshold ≤ count
    let s := s.put packet.id session
      { conn with throttled := false, packetAccumulator := if active then 0 else count }
    let s := if active then s.resetLastActivity config packet.id now else s
    { s with received := some (packet, addr, session.username) }
  else s.put packet.id session { conn with throttled := true }

/-- The checks of `listen_client_voice`. -/
def police (s : VoiceServer Addr) (config : VoiceConfig) (packet : VoicePacket) (addr : Addr) (now : Instant) :
    VoiceServer Addr :=
  match s.sessions.lookup packet.id with
  | none => s
  | some session =>
    match session.conn with
    | some conn =>
      if conn.addr ≠ addr ∧ ¬(validHello packet session = true ∨ ip conn.addr = ip addr) then s
      else
        -- The session moves here, before the number is looked at.
        let conn := { conn with addr }
        if packet.seq ≤ conn.seq then s.put packet.id session conn
        else
          s.accept config packet addr now session
            { conn with seq := packet.seq, accepted := packet.seq :: conn.accepted }
    | none =>
      if validHello packet session then
        { s.put packet.id session (.bind addr packet now) with received := some (packet, addr, session.username) }
      else s

/-- `voice::send`. -/
def send (s : VoiceServer Addr) (id : ℕ) (code : VoicePacketCode) (addr : Addr) (recipient : ℕ) :
    VoiceServer Addr :=
  match s.sessions.lookup recipient with
  | some session =>
    match session.conn with
    | some conn =>
      let seq := conn.serverSeq + 1
      { s.put recipient session { conn with serverSeq := seq } with sent := s.sent ++ [(addr, recipient, ⟨id, code, seq⟩)] }
    | none => { s with sent := s.sent ++ [(addr, recipient, ⟨id, code, 0⟩)] }
  | none => { s with sent := s.sent ++ [(addr, recipient, ⟨id, code, 0⟩)] }

/-- `find_channel`. -/
def findChannel (s : VoiceServer Addr) (id : ℕ) : Option (Option String) := (s.clients.lookup id).map (·.channel)

/-- The other sessions in the sender's channel. -/
def listeners (s : VoiceServer Addr) (id : ℕ) (addr : Addr) : List (Addr × ℕ) :=
  s.sessions.entries.filterMap fun entry =>
    match entry.2.conn with
    | some conn =>
      if conn.addr ≠ addr ∧ s.findChannel id = s.findChannel conn.id ∧ conn.id ∈ s.clients then some (conn.addr, conn.id)
      else none
    | none => none

/-- A packet goes to each of the listeners. -/
def fanOut (s : VoiceServer Addr) (id : ℕ) (code : VoicePacketCode) (recipients : List (Addr × ℕ)) :
    VoiceServer Addr :=
  recipients.foldl (fun s recipient => s.send id code recipient.1 recipient.2) s

/-- What a packet that has passed the checks says is done. -/
def deliver (s : VoiceServer Addr) (packet : VoicePacket) (addr : Addr) (username : String) : VoiceServer Addr :=
  match packet.code with
  | .hello _ => if packet.id ∈ s.clients then s.send packet.id .helloAck addr packet.id else s
  | .audio data _ =>
    if (s.clients.lookup packet.id).all (·.muted) = true ∨ validateOpusPacket data = false then s
    else s.fanOut packet.id (.audio data (some username)) (s.listeners packet.id addr)
  | .ping timestamp => s.fanOut packet.id (.ping timestamp) (s.listeners packet.id addr)
  | .pong targetId timestamp =>
    if targetId ∈ s.clients then
      match (s.sessions.lookup targetId).bind (·.conn) with
      | some conn => s.send packet.id (.pong targetId timestamp) conn.addr targetId
      | none => s
    else s
  | .helloAck => s

/-- One action. -/
def step (s : VoiceServer Addr) : VoiceAction Addr → Option (VoiceServer Addr)
  | .connect id client => if id ∈ s.clients then none else some { s with clients := s.clients.insert id client }
  | .disconnect id => some { s with clients := s.clients.erase id, sessions := s.sessions.erase id }
  | .channel id channel =>
    (s.clients.lookup id).map fun client => { s with clients := s.clients.insert id { client with channel } }
  | .mute id muted =>
    (s.clients.lookup id).map fun client => { s with clients := s.clients.insert id { client with muted } }
  | .openConnection id username token =>
    if id ∈ s.clients ∧ id ∉ s.sessions then
      some { s with sessions := s.sessions.insert id ⟨none, username, token⟩ }
    else none
  | .removeConnection id => some { s with sessions := s.sessions.erase id }
  | .datagram config packet addr now =>
    if s.received.isNone = true ∧ packet.id ∈ s.clients then some (s.police ip config packet addr now) else none
  | .deliver =>
    s.received.map fun received => { s with received := none }.deliver received.1 received.2.1 received.2.2

/-- The bound session of a client. -/
def bound (s : VoiceServer Addr) (id : ℕ) : Option (VoiceConnection Addr) := (s.sessions.lookup id).bind (·.conn)

/-- The datagram changes no session and no client, and nothing is sent because of it. -/
structure Ignores (s : VoiceServer Addr) (config : VoiceConfig) (packet : VoicePacket) (addr : Addr) (now : Instant) :
    Prop where
  sessions : ∀ id, (s.police ip config packet addr now).sessions.lookup id = s.sessions.lookup id
  clients : (s.police ip config packet addr now).clients = s.clients
  received : (s.police ip config packet addr now).received = s.received
  sent : (s.police ip config packet addr now).sent = s.sent

/-- A session moves only on a packet that is newer than all that were accepted before. -/
def MovesFresh (s : VoiceServer Addr) (action : VoiceAction Addr) (s' : VoiceServer Addr) : Prop :=
  ∀ id conn conn', s.bound id = some conn → s'.bound id = some conn' → conn'.addr ≠ conn.addr →
    ∃ config packet addr now, action = .datagram config packet addr now ∧ packet.id = id ∧
      ∀ n ∈ conn.accepted, n < packet.seq

/-! ### A `Hello` that is sent again -/

/-- The `Hello` of a session. -/
def hello : VoicePacket := ⟨0, .hello (.replicate 32 7), 1⟩

/-- A session is opened and bound. -/
def bindings : List (VoiceAction (Bool × ℕ)) :=
  [.connect 0 ⟨none, false, 0⟩, .openConnection 0 "anna" (.replicate 32 7), .datagram ⟨true, 0⟩ hello (false, 9) 0,
    .deliver]

/-- **A `Hello` that is sent again moves the session.** -/
theorem hello_replayed :
    ¬∀ (actions : List (VoiceAction (Bool × ℕ))) (s : VoiceServer (Bool × ℕ)),
      exec (step Prod.fst) start actions = some s →
        ∀ config packet addr now conn, s.bound packet.id = some conn → packet.seq ≤ conn.seq →
          s.Ignores Prod.fst config packet addr now := by
  intro h
  have hvalues : (exec (step Prod.fst) start bindings).map
      (fun s => ((s.bound 0).map fun conn => (conn.addr, conn.seq),
        ((s.police Prod.fst ⟨true, 0⟩ hello (true, 9) 0).bound 0).map (·.addr))) =
      some (some ((false, 9), 1), some (true, 9)) := by decide +kernel
  obtain ⟨s, hs, hvalue⟩ := Option.map_eq_some_iff.1 hvalues
  obtain ⟨hbefore, hafter⟩ := Prod.mk.inj hvalue
  obtain ⟨conn, hconn, hpair⟩ := Option.map_eq_some_iff.1 hbefore
  obtain ⟨haddr, hseq⟩ := Prod.mk.inj hpair
  have hignores := h bindings s hs ⟨true, 0⟩ hello (true, 9) 0 conn hconn (by rw [hseq]; rfl)
  unfold bound at hconn hafter
  rw [hignores.sessions 0, hconn] at hafter
  have hsame : conn.addr = (true, 9) := Option.some.inj hafter
  rw [haddr] at hsame
  cases hsame

/-! ### What a datagram changes -/

variable {ip} {s s' : VoiceServer Addr} {config : VoiceConfig} {packet : VoicePacket} {addr : Addr} {now : Instant}
  {session : VoiceSession Addr} {conn conn' : VoiceConnection Addr}

/-- An old packet is without effect: it comes from the address of the session, or from
another host and without the token. -/
def Harmless (ip : Addr → Ip) (packet : VoicePacket) (addr : Addr) (session : VoiceSession Addr)
    (conn : VoiceConnection Addr) : Prop :=
  addr = conn.addr ∨ validHello packet session = false ∧ ip conn.addr ≠ ip addr

instance (packet : VoicePacket) (addr : Addr) (session : VoiceSession Addr) (conn : VoiceConnection Addr) :
    Decidable (Harmless ip packet addr session conn) :=
  inferInstanceAs (Decidable (_ ∨ _))

omit [DecidableEq Addr] in
/-- The session that was put. -/
@[simp] theorem lookup_put_self (s : VoiceServer Addr) (id : ℕ) (session : VoiceSession Addr)
    (conn : VoiceConnection Addr) :
    (s.put id session conn).sessions.lookup id = some { session with conn := some conn } :=
  AList.lookup_insert _

omit [DecidableEq Addr] in
/-- The other sessions stay. -/
theorem lookup_put_ne (s : VoiceServer Addr) {id other : ℕ} (hne : other ≠ id) (session : VoiceSession Addr)
    (conn : VoiceConnection Addr) : (s.put id session conn).sessions.lookup other = s.sessions.lookup other :=
  AList.lookup_insert_ne hne

/-- An old packet of a bound session. -/
theorem police_of_stale (hsession : s.sessions.lookup packet.id = some session) (hconn : session.conn = some conn)
    (hseq : packet.seq ≤ conn.seq) :
    s.police ip config packet addr now =
      if conn.addr ≠ addr ∧ ¬(validHello packet session = true ∨ ip conn.addr = ip addr) then s
      else s.put packet.id session { conn with addr } := by
  unfold police
  rw [hsession]
  simp only [hconn, if_pos hseq]

/-- **An old packet is ignored exactly when it is harmless.** -/
theorem ignores_iff (hsession : s.sessions.lookup packet.id = some session) (hconn : session.conn = some conn)
    (hseq : packet.seq ≤ conn.seq) :
    s.Ignores ip config packet addr now ↔ Harmless ip packet addr session conn := by
  have hpolice : s.police ip config packet addr now =
      if conn.addr ≠ addr ∧ ¬(validHello packet session = true ∨ ip conn.addr = ip addr) then s
      else s.put packet.id session { conn with addr } := police_of_stale hsession hconn hseq
  constructor
  · intro h
    by_contra hharm
    have hsame := h.sessions packet.id
    rw [hpolice, if_neg ?_, lookup_put_self, hsession] at hsame
    · have haddr : addr = conn.addr := by
        have hconns := congrArg VoiceSession.conn (Option.some.inj hsame)
        rw [hconn] at hconns
        exact congrArg VoiceConnection.addr (Option.some.inj hconns)
      exact hharm (.inl haddr)
    · rintro ⟨_, hnot⟩
      refine hharm (.inr ⟨Bool.eq_false_iff.2 fun hhello => hnot (.inl hhello), fun hip => hnot (.inr hip)⟩)
  · rintro (rfl | ⟨hhello, hip⟩)
    · rw [if_neg fun hcond => hcond.1 rfl] at hpolice
      have hsessions : ∀ id, (s.put packet.id session conn).sessions.lookup id = s.sessions.lookup id := by
        intro id
        rcases eq_or_ne id packet.id with rfl | hne
        · rw [lookup_put_self, hsession, ← hconn]
        · exact lookup_put_ne s hne session conn
      constructor
      · rw [hpolice]
        exact hsessions
      · rw [hpolice]
        rfl
      · rw [hpolice]
        rfl
      · rw [hpolice]
        rfl
    · have hcond : conn.addr ≠ addr ∧ ¬(validHello packet session = true ∨ ip conn.addr = ip addr) := by
        refine ⟨fun heq => hip (congrArg ip heq), ?_⟩
        rintro (h | h)
        · rw [hhello] at h
          cases h
        · exact hip h
      rw [if_pos hcond] at hpolice
      constructor
      · rw [hpolice]
        exact fun _ => rfl
      · rw [hpolice]
      · rw [hpolice]
      · rw [hpolice]

/-! ### Every run -/

omit [DecidableEq Addr] in
/-- Activity changes no session. -/
theorem resetLastActivity_sessions (s : VoiceServer Addr) (config : VoiceConfig) (id : ℕ) (now : Instant)
    (active : Prop) [Decidable active] :
    (if active then s.resetLastActivity config id now else s).sessions = s.sessions := by
  split
  · unfold resetLastActivity
    split
    · rfl
    · rfl
  · rfl

omit [DecidableEq Addr] in
/-- A packet that was accepted leaves its session bound, with its number. -/
theorem accept_sessions (s : VoiceServer Addr) (config : VoiceConfig) (packet : VoicePacket) (addr : Addr)
    (now : Instant) (session : VoiceSession Addr) (conn : VoiceConnection Addr) :
    ∃ c, (s.accept config packet addr now session conn).sessions = (s.put packet.id session c).sessions ∧
      c.seq = conn.seq ∧ c.accepted = conn.accepted := by
  unfold accept
  have hpaid : ∀ result : Bool × VoiceConnection Addr,
      result = (if config.spamProtection then conn.takeCredit now else (true, conn)) →
        result.2.seq = conn.seq ∧ result.2.accepted = conn.accepted := by
    rintro result rfl
    split
    · exact ⟨rfl, rfl⟩
    · exact ⟨rfl, rfl⟩
  generalize hresult : (if config.spamProtection then conn.takeCredit now else (true, conn)) = result
  obtain ⟨hseq, haccepted⟩ := hpaid result hresult.symm
  obtain ⟨paid, conn'⟩ := result
  dsimp only
  split
  · exact ⟨{ conn' with
      throttled := false
      packetAccumulator :=
        if activityThreshold ≤ conn'.packetAccumulator + 1 then 0 else conn'.packetAccumulator + 1 },
      resetLastActivity_sessions _ config packet.id now _, hseq, haccepted⟩
  · exact ⟨{ conn' with throttled := true }, rfl, hseq, haccepted⟩

/-- What a datagram can do to its session: bind it, move it although the packet is old, or
take the number of a new packet. -/
theorem police_sessions (ip : Addr → Ip) (s : VoiceServer Addr) (config : VoiceConfig) (packet : VoicePacket)
    (addr : Addr) (now : Instant) :
    (s.police ip config packet addr now).sessions = s.sessions ∨
      ∃ session c, s.sessions.lookup packet.id = some session ∧
        (s.police ip config packet addr now).sessions = (s.put packet.id session c).sessions ∧
          (session.conn = none ∧ c.accepted = [c.seq] ∨
            ∃ conn, session.conn = some conn ∧
              (packet.seq ≤ conn.seq ∧ c = { conn with addr } ∨
                conn.seq < packet.seq ∧ c.seq = packet.seq ∧ c.accepted = packet.seq :: conn.accepted)) := by
  unfold police
  split
  · exact .inl rfl
  · rename_i session hsession
    split
    · rename_i conn hconn
      split
      · exact .inl rfl
      · refine .inr ?_
        dsimp only
        split
        · rename_i hseq
          exact ⟨session, _, hsession, rfl, .inr ⟨conn, hconn, .inl ⟨hseq, rfl⟩⟩⟩
        · rename_i hseq
          obtain ⟨c, hc, hcseq, hcaccepted⟩ := accept_sessions s config packet addr now session
            { conn with addr, seq := packet.seq, accepted := packet.seq :: conn.accepted }
          exact ⟨session, c, hsession, hc, .inr ⟨conn, hconn, .inr ⟨Nat.lt_of_not_le hseq, hcseq, hcaccepted⟩⟩⟩
    · rename_i hconn
      split
      · exact .inr ⟨session, .bind addr packet now, hsession, rfl, .inl ⟨hconn, rfl⟩⟩
      · exact .inl rfl

/-- The number of a session is its highest. -/
def Inv (s : VoiceServer Addr) : Prop := ∀ id conn, s.bound id = some conn → ∀ n ∈ conn.accepted, n ≤ conn.seq

omit [DecidableEq Addr] in
/-- The invariant is about the sessions. -/
theorem Inv.of_sessions (hinv : s.Inv) (hsessions : s'.sessions = s.sessions) : s'.Inv := by
  intro id conn hbound
  unfold bound at hbound
  rw [hsessions] at hbound
  exact hinv id conn hbound

omit [DecidableEq Addr] in
/-- Where a session is bound to. -/
theorem bound_eq (hsession : s.sessions.lookup packet.id = some session) : s.bound packet.id = session.conn := by
  unfold bound
  rw [hsession]
  rfl

omit [DecidableEq Addr] in
/-- The session that was put is bound to the connection. -/
theorem bound_put_self (hsessions : s'.sessions = (s.put packet.id session conn).sessions) :
    s'.bound packet.id = some conn := by
  unfold bound
  rw [hsessions, lookup_put_self]
  rfl

omit [DecidableEq Addr] in
/-- The other sessions are bound as before. -/
theorem bound_put_ne {id other : ℕ} (hne : other ≠ id) (hsessions : s'.sessions = (s.put id session conn).sessions) :
    s'.bound other = s.bound other := by
  unfold bound
  rw [hsessions, lookup_put_ne s hne]

/-- What is policed keeps the invariant. -/
theorem Inv.police (hinv : s.Inv) : (s.police ip config packet addr now).Inv := by
  rcases police_sessions ip s config packet addr now with hsame | ⟨session, c, hsession, hput, hcases⟩
  · exact hinv.of_sessions hsame
  · intro id conn' hbound
    rcases eq_or_ne id packet.id with rfl | hne
    · rw [bound_put_self hput] at hbound
      obtain rfl := Option.some.inj hbound
      rcases hcases with ⟨_, haccepted⟩ | ⟨conn, hconn, hold | ⟨hseq, hcseq, haccepted⟩⟩
      · intro n hn
        rw [haccepted] at hn
        rw [List.mem_singleton.1 hn]
      · obtain ⟨_, rfl⟩ := hold
        exact hinv packet.id conn ((bound_eq hsession).trans hconn)
      · intro n hn
        rw [haccepted] at hn
        rw [hcseq]
        rcases List.mem_cons.1 hn with rfl | hn
        · exact le_rfl
        · exact (hinv packet.id conn ((bound_eq hsession).trans hconn) n hn).trans hseq.le
    · rw [bound_put_ne hne hput] at hbound
      exact hinv id conn' hbound

/-- Every session that is bound was bound before, to the same address; only the number of
what is sent to it may be another. -/
def Renumbered (s s' : VoiceServer Addr) : Prop :=
  ∀ id conn', s'.bound id = some conn' → ∃ conn n, s.bound id = some conn ∧ conn' = { conn with serverSeq := n }

omit [DecidableEq Addr] in
/-- Sessions that stay keep their numbers. -/
theorem Renumbered.of_sessions (hsessions : s'.sessions = s.sessions) : s.Renumbered s' := by
  intro id conn' hbound
  unfold bound at hbound
  rw [hsessions] at hbound
  exact ⟨conn', conn'.serverSeq, hbound, rfl⟩

omit [DecidableEq Addr] in
/-- What is renumbered twice is renumbered. -/
theorem Renumbered.trans {t : VoiceServer Addr} (h : s.Renumbered t) (h' : t.Renumbered s') : s.Renumbered s' := by
  intro id conn' hbound
  obtain ⟨middle, _, hmiddle, rfl⟩ := h' id conn' hbound
  obtain ⟨conn, _, hconn, rfl⟩ := h id middle hmiddle
  exact ⟨conn, _, hconn, rfl⟩

omit [DecidableEq Addr] in
/-- Numbers are nothing to the invariant. -/
theorem Renumbered.inv (h : s.Renumbered s') (hinv : s.Inv) : s'.Inv := by
  intro id conn' hbound
  obtain ⟨conn, n, hconn, rfl⟩ := h id conn' hbound
  exact hinv id conn hconn

omit [DecidableEq Addr] in
/-- A packet that is sent renumbers one session. -/
theorem renumbered_send (s : VoiceServer Addr) (id : ℕ) (code : VoicePacketCode) (addr : Addr) (recipient : ℕ) :
    s.Renumbered (s.send id code addr recipient) := by
  unfold send
  split
  · rename_i session hsession
    split
    · rename_i conn hconn
      intro other conn' hbound
      have hbound : (s.put recipient session { conn with serverSeq := conn.serverSeq + 1 }).bound other = some conn' :=
        hbound
      rcases eq_or_ne other recipient with rfl | hne
      · unfold bound at hbound ⊢
        rw [lookup_put_self] at hbound
        obtain rfl := Option.some.inj hbound
        rw [hsession]
        exact ⟨conn, _, hconn, rfl⟩
      · rw [bound_put_ne hne rfl] at hbound
        exact ⟨conn', conn'.serverSeq, hbound, rfl⟩
    · exact .of_sessions rfl
  · exact .of_sessions rfl

omit [DecidableEq Addr] in
/-- Packets to many renumber them. -/
theorem renumbered_fanOut (s : VoiceServer Addr) (id : ℕ) (code : VoicePacketCode) (recipients : List (Addr × ℕ)) :
    s.Renumbered (s.fanOut id code recipients) := by
  unfold fanOut
  induction recipients generalizing s with
  | nil => exact .of_sessions rfl
  | cons recipient recipients ih => exact (renumbered_send s id code recipient.1 recipient.2).trans (ih _)

/-- A packet that is delivered renumbers its recipients. -/
theorem renumbered_deliver (s : VoiceServer Addr) (packet : VoicePacket) (addr : Addr) (username : String) :
    s.Renumbered (s.deliver packet addr username) := by
  unfold deliver
  split
  · split
    · exact renumbered_send _ _ _ _ _
    · exact .of_sessions rfl
  · split
    · exact .of_sessions rfl
    · exact renumbered_fanOut _ _ _ _
  · exact renumbered_fanOut _ _ _ _
  · split
    · split
      · exact renumbered_send _ _ _ _ _
      · exact .of_sessions rfl
    · exact .of_sessions rfl
  · exact .of_sessions rfl

omit [DecidableEq Addr] in
/-- A session that goes renumbers none. -/
theorem renumbered_erase (s : VoiceServer Addr) (id : ℕ) (hsessions : s'.sessions = s.sessions.erase id) :
    s.Renumbered s' := by
  intro other conn' hbound
  unfold bound at hbound
  rw [hsessions] at hbound
  rcases eq_or_ne other id with rfl | hne
  · rw [AList.lookup_erase] at hbound
    cases hbound
  · rw [AList.lookup_erase_ne hne] at hbound
    exact ⟨conn', conn'.serverSeq, hbound, rfl⟩

/-- Only a datagram binds or moves a session. -/
theorem step_cases {action : VoiceAction Addr} (h : s.step ip action = some s') :
    s.Renumbered s' ∨ ∃ config packet addr now, action = .datagram config packet addr now ∧
      s' = s.police ip config packet addr now := by
  cases action with
  | connect id client =>
    simp only [step] at h
    split_ifs at h
    obtain rfl := Option.some.inj h
    exact .inl (.of_sessions rfl)
  | disconnect id =>
    obtain rfl := Option.some.inj h
    exact .inl (renumbered_erase s id rfl)
  | channel id channel =>
    obtain ⟨client, _, rfl⟩ := Option.map_eq_some_iff.1 h
    exact .inl (.of_sessions rfl)
  | mute id muted =>
    obtain ⟨client, _, rfl⟩ := Option.map_eq_some_iff.1 h
    exact .inl (.of_sessions rfl)
  | openConnection id username token =>
    simp only [step] at h
    split_ifs at h
    obtain rfl := Option.some.inj h
    refine .inl fun other conn' hbound => ?_
    unfold bound at hbound ⊢
    rcases eq_or_ne other id with rfl | hne
    · rw [AList.lookup_insert] at hbound
      cases hbound
    · rw [AList.lookup_insert_ne hne] at hbound
      exact ⟨conn', conn'.serverSeq, hbound, rfl⟩
  | removeConnection id =>
    obtain rfl := Option.some.inj h
    exact .inl (renumbered_erase s id rfl)
  | datagram config packet addr now =>
    simp only [step] at h
    split_ifs at h
    exact .inr ⟨config, packet, addr, now, rfl, (Option.some.inj h).symm⟩
  | deliver =>
    obtain ⟨received, _, rfl⟩ := Option.map_eq_some_iff.1 h
    exact .inl (renumbered_deliver { s with received := none } _ _ _)

/-- Every old packet of a bound session is harmless. -/
def OldHarmless (ip : Addr → Ip) (s : VoiceServer Addr) : VoiceAction Addr → Prop
  | .datagram _ packet addr _ =>
    ∀ session ∈ s.sessions.lookup packet.id, ∀ conn ∈ session.conn, packet.seq ≤ conn.seq →
      Harmless ip packet addr session conn
  | _ => True

instance (s : VoiceServer Addr) (action : VoiceAction Addr) : Decidable (OldHarmless ip s action) :=
  match action with
  | .datagram _ packet addr _ =>
    inferInstanceAs (Decidable (∀ session ∈ s.sessions.lookup packet.id, ∀ conn ∈ session.conn,
      packet.seq ≤ conn.seq → Harmless ip packet addr session conn))
  | .connect .. | .disconnect _ | .channel .. | .mute .. | .openConnection .. | .removeConnection _ | .deliver =>
    .isTrue trivial

/-- **Every action keeps the invariant.** -/
theorem Inv.step (hinv : s.Inv) {action : VoiceAction Addr} (h : s.step ip action = some s') : s'.Inv := by
  rcases step_cases h with hrenumbered | ⟨config, packet, addr, now, _, rfl⟩
  · exact hrenumbered.inv hinv
  · exact hinv.police

/-- A session moves only on a new packet, if old ones are harmless. -/
theorem Inv.movesFresh (hinv : s.Inv) {action : VoiceAction Addr} (hcond : OldHarmless ip s action)
    (h : s.step ip action = some s') : s.MovesFresh action s' := by
  intro id conn conn' hbefore hafter hmoved
  rcases step_cases h with hrenumbered | ⟨config, packet, addr, now, rfl, rfl⟩
  · obtain ⟨old, _, hold, rfl⟩ := hrenumbered id conn' hafter
    obtain rfl := Option.some.inj (hold.symm.trans hbefore)
    exact absurd rfl hmoved
  · obtain rfl : id = packet.id := by
      by_contra hne
      have hsame : (s.police ip config packet addr now).bound id = s.bound id := by
        rcases police_sessions ip s config packet addr now with hsessions | ⟨session, c, _, hput, _⟩
        · unfold bound
          rw [hsessions]
        · exact bound_put_ne hne hput
      rw [hsame, hbefore] at hafter
      obtain rfl := Option.some.inj hafter
      exact hmoved rfl
    refine ⟨config, packet, addr, now, rfl, rfl, fun n hn => ?_⟩
    obtain ⟨session, hsession, hconn⟩ := Option.bind_eq_some_iff.1 hbefore
    refine Nat.lt_of_le_of_lt (hinv packet.id conn hbefore n hn) (Nat.lt_of_not_le fun hold => ?_)
    have hignores : s.Ignores ip config packet addr now :=
      (ignores_iff hsession hconn hold).2 (hcond session hsession conn hconn hold)
    unfold bound at hbefore hafter
    rw [hignores.sessions, hbefore] at hafter
    obtain rfl := Option.some.inj hafter
    exact hmoved rfl

/-- **An old packet of a bound session is ignored exactly when it is harmless**: when it
comes from the address of the session, or from another host and without the token.  In every
run in which the old packets are harmless, a session moves only on a packet that is newer
than all that were accepted before it. -/
theorem replay_ignored (ip : Addr → Ip) :
    (∀ (s : VoiceServer Addr) config packet addr now session conn, s.sessions.lookup packet.id = some session →
      session.conn = some conn → packet.seq ≤ conn.seq →
        (s.Ignores ip config packet addr now ↔ Harmless ip packet addr session conn)) ∧
      ∀ (actions : List (VoiceAction Addr)) (s s' : VoiceServer Addr) (action : VoiceAction Addr),
        Meets (step ip) (OldHarmless ip) start actions → exec (step ip) start actions = some s →
          OldHarmless ip s action → s.step ip action = some s' → s.MovesFresh action s' := by
  refine ⟨fun s config packet addr now session conn hsession hconn hseq => ignores_iff hsession hconn hseq,
    fun actions s s' action hmeets hrun hcond hstep => ?_⟩
  have hstart : (start : VoiceServer Addr).Inv := fun _ _ hbound => by cases hbound
  have hinv : s.Inv := exec_induct (fun _ _ _ hinv _ => hinv.step) hstart hmeets hrun
  exact hinv.movesFresh hcond hstep

/-- A session is bound, and an audio packet with an old number comes from another host. -/
def moved : List (VoiceAction (Bool × ℕ)) :=
  bindings ++ [.datagram ⟨true, 0⟩ ⟨0, .audio [0] none, 1⟩ (true, 9) 0]

/-- The theorem on that run and a new `Hello` from there: the old packet leaves the session
where it is, and the new one moves it. -/
theorem replay_ignored_moved : ∃ s s' : VoiceServer (Bool × ℕ),
    exec (step Prod.fst) start moved = some s ∧ Meets (step Prod.fst) (OldHarmless Prod.fst) start moved ∧
      s.step Prod.fst (.datagram ⟨true, 0⟩ ⟨0, .hello (.replicate 32 7), 2⟩ (true, 9) 0) = some s' ∧
      s.MovesFresh (.datagram ⟨true, 0⟩ ⟨0, .hello (.replicate 32 7), 2⟩ (true, 9) 0) s' ∧
      (s.bound 0).map (·.addr) = some (false, 9) ∧ (s'.bound 0).map (·.addr) = some (true, 9) := by
  have hvalues : ((exec (step Prod.fst) start moved).bind fun s =>
      (s.step Prod.fst (.datagram ⟨true, 0⟩ ⟨0, .hello (.replicate 32 7), 2⟩ (true, 9) 0)).map fun s' =>
        (decide (OldHarmless Prod.fst s (.datagram ⟨true, 0⟩ ⟨0, .hello (.replicate 32 7), 2⟩ (true, 9) 0)),
          (s.bound 0).map (·.addr), (s'.bound 0).map (·.addr))) =
      some (true, some (false, 9), some (true, 9)) := by decide +kernel
  obtain ⟨s, hs, hvalue⟩ := Option.bind_eq_some_iff.1 hvalues
  obtain ⟨s', hs', hvalue⟩ := Option.map_eq_some_iff.1 hvalue
  obtain ⟨hcond, hvalue⟩ := Prod.mk.inj hvalue
  obtain ⟨hbefore, hafter⟩ := Prod.mk.inj hvalue
  have hmeets : Meets (step Prod.fst) (OldHarmless Prod.fst) start moved := by decide +kernel
  exact ⟨s, s', hs, hmeets, hs', (replay_ignored Prod.fst).2 moved s s' _ hmeets hs (of_decide_eq_true hcond) hs',
    hbefore, hafter⟩

end VoiceServer

end Why2
