/-
# The two ends of a session

The main connection between a server and a client that has logged in, while the
server changes its keys every ten minutes and the two ends switch at different
moments.  The handler task of the server (`listen_client` and `key_exchange`,
`chat/src/network/server`) reads a packet, and if a rekey is due writes `Rekey`
and an offer under one lock, waits for the reply with `untrusted_read`, and
switches when it has read it.  The client (`chat/src/network/client/handshake.rs`)
writes its reply under the old keys and then switches.  Other tasks of both ends
send all the while: they copy the keys, and write when they get the lock.  The
goodbye of `remove_connection` is such a write.

The state is both ends and the packets in flight, in order, in both directions.
A packet is a code and the keys it is sealed under; it verifies under the same
keys only.  Each direction numbers its packets and checks the numbers
(`Lib.Fifo`); whole packets travel.
-/

import Why2.Chat.Sequence
import Why2.Lib.Fifo

namespace Why2

open Lib

variable {Key Offer Reply Msg : Type}

/-- The codes of the main connection, as far as a rekey tells them apart. -/
inductive Code (Offer Reply Msg : Type)
  | rekey
  | keyExchangeOffer (offer : Offer)
  | keyExchangeReply (reply : Reply)
  | spamWarning
  | other (m : Msg)
deriving DecidableEq, Repr

/-- The packets of a key exchange. -/
def Code.isExchange : Code Offer Reply Msg → Bool
  | .rekey | .keyExchangeOffer _ | .keyExchangeReply _ => true
  | .spamWarning | .other _ => false

/-- What `untrusted_read` waits for. -/
def Code.isReply : Code Offer Reply Msg → Bool
  | .keyExchangeReply _ => true
  | _ => false

/-- A reply is one. -/
theorem Code.isReply_iff {code : Code Offer Reply Msg} :
    code.isReply = true ↔ ∃ reply, code = .keyExchangeReply reply := by
  cases code <;> simp [isReply]

/-- A packet in flight. -/
structure SealedPacket (Key Offer Reply Msg : Type) where
  keys : Key
  code : Code Offer Reply Msg
deriving DecidableEq, Repr

/-- Where the handler task of the server is in its loop: before `receive`; with a
packet read; in `untrusted_read`, with the offer it made, the unexpected packets so
far and the packet it will dispatch after; in the dispatch. -/
inductive ServerPhase (Offer Reply Msg : Type)
  | reading
  | checking (read : Code Offer Reply Msg)
  | exchanging (offer : Offer) (invalidPackets : ℕ) (read : Code Offer Reply Msg)
  | dispatching
deriving DecidableEq, Repr

/-- The server waits for a reply. -/
def ServerPhase.isExchanging : ServerPhase Offer Reply Msg → Bool
  | .exchanging .. => true
  | _ => false

/-- The packet the loop has read and not dispatched yet. -/
def ServerPhase.held : ServerPhase Offer Reply Msg → List (Code Offer Reply Msg)
  | .checking read | .exchanging _ _ read => [read]
  | .reading | .dispatching => []

/-- Where the client is: in its main loop; waiting for the offer; with the offer;
with its reply written and the new keys not set yet. -/
inductive ClientPhase (Key Offer : Type)
  | reading
  | awaitingOffer
  | replying (offer : Offer)
  | adopting (keys : Key)
deriving DecidableEq, Repr

/-- The two ends of a session.  `serverKeys` are the keys of the handler task and of
the entry, which it sets one right after the other, and `clientKeys` likewise those of
the client's loop and of its options.  The copies are the keys that other tasks hold.
`reads` has, for every packet an end took off its socket, the keys it was sealed under
and the keys it was read with; `accepted` are the packets of the client that verified,
without the replies the server was waiting for, and `dispatched` those the loop handed
to its `match`. -/
structure Peers (Key Offer Reply Msg : Type) where
  serverKeys : Key
  serverPhase : ServerPhase Offer Reply Msg
  serverCopies : List Key
  serverEnded : Bool
  clientKeys : Key
  clientPhase : ClientPhase Key Offer
  clientCopies : List Key
  clientEnded : Bool
  toClient : Fifo (SealedPacket Key Offer Reply Msg)
  toServer : Fifo (SealedPacket Key Offer Reply Msg)
  reads : List (Key × Key)
  accepted : List (Code Offer Reply Msg)
  dispatched : List (Code Offer Reply Msg)

/-- One step of a task of the server or the client. -/
inductive PeerAction (Key Offer Reply Msg : Type)
  | serverCopy
  | serverWrite (keys : Key) (m : Msg)
  | serverSend (m : Msg)
  | serverRead (spamWarning : Bool) (outcome : ReceiveOutcome)
  | serverRekey (offer : Offer)
  | serverTimeout
  | serverDispatch
  | serverLoop
  | serverEnd
  | clientCopy
  | clientWrite (keys : Key) (m : Msg)
  | clientSend (m : Msg)
  | clientRead
  | clientReply (reply : Reply)
  | clientAdopt
  | clientEnd
deriving DecidableEq, Repr

namespace Peers

/-- A session that was just accepted; the login left the client's counter at `seq`. -/
def start (keys : Key) (seq : ℕ) : Peers Key Offer Reply Msg :=
  ⟨keys, .reading, [], false, keys, .reading, [], false, .empty 0, .empty seq, [], [], []⟩

/-- A packet to the client. -/
def pushClient (s : Peers Key Offer Reply Msg) (keys : Key) (code : Code Offer Reply Msg) :
    Peers Key Offer Reply Msg :=
  { s with toClient := s.toClient.push ⟨keys, code⟩ }

/-- A packet to the server. -/
def pushServer (s : Peers Key Offer Reply Msg) (keys : Key) (code : Code Offer Reply Msg) :
    Peers Key Offer Reply Msg :=
  { s with toServer := s.toServer.push ⟨keys, code⟩ }

/-- The server takes a packet with a new number off its socket. -/
def take (s : Peers Key Offer Reply Msg) : Peers Key Offer Reply Msg :=
  { s with toServer := s.toServer.accept }

/-- A packet of the client that verified. -/
def accept (s : Peers Key Offer Reply Msg) (code : Code Offer Reply Msg) : Peers Key Offer Reply Msg :=
  { s with accepted := s.accepted ++ [code] }

/-- `send(SpamWarning)`, from `receive`, with the keys of the entry. -/
def warn (s : Peers Key Offer Reply Msg) (spamWarning : Bool) : Peers Key Offer Reply Msg :=
  if spamWarning then s.pushClient s.serverKeys .spamWarning else s

/-- `receive` does not take the packet: the session is over. -/
def refuse (s : Peers Key Offer Reply Msg) : Peers Key Offer Reply Msg :=
  { s with toServer := s.toServer.drop, serverEnded := true }

/-- `key_exchange` returns, with or without new keys, and the loop goes on to dispatch
the packet it had read before. -/
def settle (s : Peers Key Offer Reply Msg) (keys : Key) (read : Code Offer Reply Msg) :
    Peers Key Offer Reply Msg :=
  { s with serverKeys := keys, serverPhase := .dispatching, dispatched := s.dispatched ++ [read] }

/-- `untrusted_read` took a packet that is not a reply. -/
def stray (s : Peers Key Offer Reply Msg) (offer : Offer) (invalidPackets : ℕ)
    (read : Code Offer Reply Msg) (code : Code Offer Reply Msg) :
    ReceiveOutcome → Peers Key Offer Reply Msg
  | .returned =>
    if invalidPackets = 3 then (s.accept code).settle s.serverKeys read
    else { s.accept code with serverPhase := .exchanging offer (invalidPackets + 1) read }
  | .disconnected => { s with serverEnded := true }
  | .cancelled => (s.accept code).settle s.serverKeys read

/-- An end read a packet. -/
def record (s : Peers Key Offer Reply Msg) (sealedWith readWith : Key) : Peers Key Offer Reply Msg :=
  { s with reads := s.reads ++ [(sealedWith, readWith)] }

variable [DecidableEq Key] (kdf : Offer → Reply → Key)

/-- The `receive` of the loop of `listen_client`: a packet that does not verify ends the
session, and so does an old number. -/
def loopRead (s : Peers Key Offer Reply Msg) (seq : ℕ) (p : SealedPacket Key Offer Reply Msg)
    (spamWarning : Bool) (outcome : ReceiveOutcome) : Option (Peers Key Offer Reply Msg) :=
  if p.keys ≠ s.serverKeys then some s.refuse
  else if seq ≤ s.toServer.seen then some (s.warn spamWarning).refuse
  else match outcome with
    | .returned => some { (s.take.warn spamWarning).accept p.code with serverPhase := .checking p.code }
    | .disconnected => some { s.take.warn spamWarning with serverEnded := true }
    | .cancelled => none

/-- A turn of `untrusted_read`: a packet that does not verify ends the exchange, not the
session. -/
def untrustedRead (s : Peers Key Offer Reply Msg) (offer : Offer) (invalidPackets : ℕ)
    (read : Code Offer Reply Msg) (seq : ℕ) (p : SealedPacket Key Offer Reply Msg) (spamWarning : Bool)
    (outcome : ReceiveOutcome) : Peers Key Offer Reply Msg :=
  if p.keys ≠ s.serverKeys then { s with toServer := s.toServer.drop }.settle s.serverKeys read
  else if seq ≤ s.toServer.seen then (s.warn spamWarning).refuse
  else match p.code with
    | .keyExchangeReply reply => s.take.settle (kdf offer reply) read
    | code => (s.take.warn spamWarning).stray offer invalidPackets read code outcome

/-- The client takes a packet off its socket: one that does not verify, or with an old
number, ends the session; while it waits for the offer it drops every other packet. -/
def clientRead (s : Peers Key Offer Reply Msg) (seq : ℕ) (p : SealedPacket Key Offer Reply Msg) :
    Peers Key Offer Reply Msg :=
  if p.keys ≠ s.clientKeys ∨ seq ≤ s.toClient.seen ∧ s.toClient.seen ≠ 0 then
    { s with toClient := s.toClient.drop, clientEnded := true }
  else
    { s with
      toClient := s.toClient.accept
      clientPhase := match s.clientPhase, p.code with
        | .reading, .rekey => .awaitingOffer
        | .awaitingOffer, .keyExchangeOffer offer => .replying offer
        | phase, _ => phase }

/-- One step.  A read loop stops when its session has ended; whether a rekey is due when
the server has read a packet is left open. -/
def step (s : Peers Key Offer Reply Msg) :
    PeerAction Key Offer Reply Msg → Option (Peers Key Offer Reply Msg)
  | .serverCopy => some { s with serverCopies := s.serverKeys :: s.serverCopies }
  | .serverWrite keys m => if keys ∈ s.serverCopies then some (s.pushClient keys (.other m)) else none
  | .serverSend m =>
    if s.serverEnded then none
    else match s.serverPhase with
      | .dispatching => some (s.pushClient s.serverKeys (.other m))
      | _ => none
  | .serverRead spamWarning outcome =>
    if s.serverEnded then none
    else match s.serverPhase, s.toServer.items.head? with
      | .reading, some (seq, p) =>
        (s.record p.keys s.serverKeys).loopRead seq p spamWarning outcome
      | .exchanging offer invalidPackets read, some (seq, p) =>
        some ((s.record p.keys s.serverKeys).untrustedRead kdf offer invalidPackets read seq p
          spamWarning outcome)
      | _, _ => none
  | .serverRekey offer =>
    if s.serverEnded then none
    else match s.serverPhase with
      | .checking read =>
        some { (s.pushClient s.serverKeys .rekey).pushClient s.serverKeys (.keyExchangeOffer offer) with
          serverPhase := .exchanging offer 0 read }
      | _ => none
  | .serverTimeout =>
    if s.serverEnded then none
    else match s.serverPhase with
      | .exchanging _ _ read => some (s.settle s.serverKeys read)
      | _ => none
  | .serverDispatch =>
    if s.serverEnded then none
    else match s.serverPhase with
      | .checking read => some (s.settle s.serverKeys read)
      | _ => none
  | .serverLoop =>
    if s.serverEnded then none
    else match s.serverPhase with
      | .dispatching => some { s with serverPhase := .reading }
      | _ => none
  | .serverEnd => some { s with serverEnded := true }
  | .clientCopy => some { s with clientCopies := s.clientKeys :: s.clientCopies }
  | .clientWrite keys m => if keys ∈ s.clientCopies then some (s.pushServer keys (.other m)) else none
  | .clientSend m =>
    if s.clientEnded then none
    else match s.clientPhase with
      | .reading => some (s.pushServer s.clientKeys (.other m))
      | _ => none
  | .clientRead =>
    if s.clientEnded then none
    else match s.clientPhase, s.toClient.items.head? with
      | .reading, some (seq, p) | .awaitingOffer, some (seq, p) =>
        some ((s.record p.keys s.clientKeys).clientRead seq p)
      | _, _ => none
  | .clientReply reply =>
    if s.clientEnded then none
    else match s.clientPhase with
      | .replying offer =>
        some { s.pushServer s.clientKeys (.keyExchangeReply reply) with
          clientPhase := .adopting (kdf offer reply) }
      | _ => none
  | .clientAdopt =>
    if s.clientEnded then none
    else match s.clientPhase with
      | .adopting keys => some { s with clientKeys := keys, clientPhase := .reading }
      | _ => none
  | .clientEnd => some { s with clientEnded := true }

/-! ### Reading

The numbers in flight increase, so the checks of the numbers pass. -/

section

variable {kdf} {s : Peers Key Offer Reply Msg} {seq : ℕ} {p : SealedPacket Key Offer Reply Msg}

/-- The loop reads a packet of its key that is new. -/
theorem loopRead_eq (hkeys : p.keys = s.serverKeys) (hseq : s.toServer.seen < seq) (spamWarning : Bool)
    (outcome : ReceiveOutcome) :
    s.loopRead seq p spamWarning outcome = match outcome with
      | .returned => some { (s.take.warn spamWarning).accept p.code with serverPhase := .checking p.code }
      | .disconnected => some { s.take.warn spamWarning with serverEnded := true }
      | .cancelled => none := by
  unfold loopRead
  rw [if_neg (not_not.2 hkeys), if_neg hseq.not_ge]

/-- The rekey reads the reply it waits for. -/
theorem untrustedRead_reply (hkeys : p.keys = s.serverKeys) (hseq : s.toServer.seen < seq) {reply : Reply}
    (hcode : p.code = .keyExchangeReply reply) (offer : Offer) (n : ℕ) (read : Code Offer Reply Msg)
    (spamWarning : Bool) (outcome : ReceiveOutcome) :
    s.untrustedRead kdf offer n read seq p spamWarning outcome = s.take.settle (kdf offer reply) read := by
  rw [untrustedRead, if_neg (not_not.2 hkeys), if_neg hseq.not_ge, hcode]

/-- **The rekey throws any other packet away.** -/
theorem untrustedRead_stray (hkeys : p.keys = s.serverKeys) (hseq : s.toServer.seen < seq)
    (hcode : p.code.isReply = false) (offer : Offer) (n : ℕ) (read : Code Offer Reply Msg)
    (spamWarning : Bool) (outcome : ReceiveOutcome) :
    s.untrustedRead kdf offer n read seq p spamWarning outcome =
      (s.take.warn spamWarning).stray offer n read p.code outcome := by
  rw [untrustedRead, if_neg (not_not.2 hkeys), if_neg hseq.not_ge]
  cases hp : p.code with
  | keyExchangeReply reply =>
    rw [hp] at hcode
    cases hcode
  | rekey | keyExchangeOffer _ | spamWarning | other _ => rfl

/-- The client reads a packet of its key that is new. -/
theorem clientRead_eq (hkeys : p.keys = s.clientKeys) (hseq : s.toClient.seen < seq) :
    s.clientRead seq p =
      { s with
        toClient := s.toClient.accept
        clientPhase := match s.clientPhase, p.code with
          | .reading, .rekey => .awaitingOffer
          | .awaitingOffer, .keyExchangeOffer offer => .replying offer
          | phase, _ => phase } := by
  rw [clientRead, if_neg]
  rintro (hne | ⟨hle, _⟩)
  · exact hne hkeys
  · exact hseq.not_ge hle

end

end Peers

end Why2
