/-
# Rekeying

Whether the two ends of a session agree on their keys.  A packet that was sealed
under the old keys can be written after the offer, or after the reply, and is
then read under the new ones (`rekey_disagrees`); and a server that gives up on
the reply keeps the old keys while the client takes the new ones.  The condition
under which neither happens is `inTime`, and then the ends agree
(`rekey_agrees`): a rekey goes through the stages of `InStep`.
-/

import Why2.Chat.Peers

namespace Why2

open Lib

namespace Peers

variable {Key Offer Reply Msg : Type}

/-! ### Agreement -/

/-- No exchange is in progress: neither end is in one, and none of its packets is in
flight. -/
def NoExchange (s : Peers Key Offer Reply Msg) : Prop :=
  s.serverPhase.isExchanging = false ∧ s.clientPhase = .reading ∧
    ∀ p ∈ s.toClient.contents ++ s.toServer.contents, p.code.isExchange = false

/-- Every packet was read with the keys it was sealed under, and both ends have the
same keys when no exchange is in progress. -/
def Agree (s : Peers Key Offer Reply Msg) : Prop :=
  (∀ r ∈ s.reads, r.1 = r.2) ∧ (s.NoExchange → s.serverKeys = s.clientKeys)

/-! ### The order that breaks -/

/-- A broadcast copies the keys, the server starts a rekey, and the broadcast is
written after the offer; the client reads it after it has switched. -/
def lateBroadcast : List (PeerAction ℕ ℕ ℕ ℕ) :=
  [.clientSend 0, .serverRead false .returned, .serverCopy, .serverRekey 1, .serverWrite 0 7,
    .clientRead, .clientRead, .clientReply 2, .clientAdopt, .clientRead]

/-- **The ends can disagree.** -/
theorem rekey_disagrees :
    ¬∀ (actions : List (PeerAction ℕ ℕ ℕ ℕ)) (s : Peers ℕ ℕ ℕ ℕ),
      exec (step fun offer reply => offer + reply) (start 0 0) actions = some s → s.Agree := by
  intro h
  have hreads : (exec (step fun offer reply => offer + reply) (start 0 0) lateBroadcast).map
      (fun s => s.reads) = some [(0, 0), (0, 0), (0, 0), (0, 3)] := by decide
  obtain ⟨s, hs, hvalue⟩ := Option.map_eq_some_iff.1 hreads
  have hagree := (h lateBroadcast s hs).1 (0, 3) (by simp [hvalue])
  cases hagree

/-! ### The order that does not -/

/-- No task writes a copy of the keys that its end has left or is leaving: the server's
other tasks write while it waits for no reply, and the client's while it has no reply out
with the new keys unset, both with the keys of the moment; and the server does not give
up: it warns nobody of spam and runs into no timeout while it waits, and at most three
packets come before the reply. -/
def inTime [DecidableEq Key] (s : Peers Key Offer Reply Msg) : PeerAction Key Offer Reply Msg → Bool
  | .serverWrite keys _ => !s.serverPhase.isExchanging && keys = s.serverKeys
  | .serverRead spamWarning outcome =>
    match s.serverPhase with
    | .exchanging _ invalidPackets _ => s.toServer.contents.head?.any (·.code.isReply) ||
        !spamWarning && outcome ≠ .cancelled && invalidPackets ≠ 3
    | _ => true
  | .serverTimeout => false
  | .clientWrite keys _ =>
    match s.clientPhase with
    | .adopting _ => false
    | _ => keys = s.clientKeys
  | _ => true

/-- Packets that belong to no exchange, all under the same keys. -/
def Plain (keys : Key) (packets : List (SealedPacket Key Offer Reply Msg)) : Prop :=
  ∀ p ∈ packets, p.keys = keys ∧ p.code.isExchange = false

/-- No packets are plain. -/
theorem plain_nil (keys : Key) : Plain keys ([] : List (SealedPacket Key Offer Reply Msg)) :=
  fun _ h => absurd h List.not_mem_nil

/-- Packets are plain one by one. -/
theorem plain_cons {keys : Key} {p : SealedPacket Key Offer Reply Msg}
    {packets : List (SealedPacket Key Offer Reply Msg)} :
    Plain keys (p :: packets) ↔ (p.keys = keys ∧ p.code.isExchange = false) ∧ Plain keys packets :=
  List.forall_mem_cons

/-- One more plain packet. -/
theorem Plain.concat {keys : Key} {packets : List (SealedPacket Key Offer Reply Msg)}
    (h : Plain keys packets) {code : Code Offer Reply Msg} (hcode : code.isExchange = false) :
    Plain keys (packets ++ [⟨keys, code⟩]) := by
  intro p hp
  rcases List.mem_append.1 hp with hp | hp
  · exact h p hp
  · rw [List.mem_singleton.1 hp]
    exact ⟨rfl, hcode⟩

/-- The stages of a rekey: the two phases, the keys of the two ends and the packets in
flight.  The last two are the two orders of the switch. -/
inductive InStep (kdf : Offer → Reply → Key) :
    ServerPhase Offer Reply Msg → Key → ClientPhase Key Offer → Key →
      List (SealedPacket Key Offer Reply Msg) → List (SealedPacket Key Offer Reply Msg) → Prop
  | quiet {phase keys toClient toServer} (hphase : phase.isExchanging = false)
      (hclient : Plain keys toClient) (hserver : Plain keys toServer) :
      InStep kdf phase keys .reading keys toClient toServer
  | offered {offer n read keys sent toServer} (hclient : Plain keys sent) (hserver : Plain keys toServer) :
      InStep kdf (.exchanging offer n read) keys .reading keys
        (sent ++ [⟨keys, .rekey⟩, ⟨keys, .keyExchangeOffer offer⟩]) toServer
  | awaiting {offer n read keys toServer} (hserver : Plain keys toServer) :
      InStep kdf (.exchanging offer n read) keys .awaitingOffer keys
        [⟨keys, .keyExchangeOffer offer⟩] toServer
  | replying {offer n read keys toServer} (hserver : Plain keys toServer) :
      InStep kdf (.exchanging offer n read) keys (.replying offer) keys [] toServer
  | replied {offer n read keys reply sent} (hserver : Plain keys sent) :
      InStep kdf (.exchanging offer n read) keys (.adopting (kdf offer reply)) keys []
        (sent ++ [⟨keys, .keyExchangeReply reply⟩])
  | clientFirst {offer n read keys reply sent later} (hserver : Plain keys sent)
      (hlater : Plain (kdf offer reply) later) :
      InStep kdf (.exchanging offer n read) keys .reading (kdf offer reply) []
        (sent ++ ⟨keys, .keyExchangeReply reply⟩ :: later)
  | serverFirst {phase keys old toClient} (hphase : phase = .reading ∨ phase = .dispatching)
      (hclient : Plain keys toClient) : InStep kdf phase keys (.adopting keys) old toClient []

namespace InStep

variable {kdf : Offer → Reply → Key} {serverPhase : ServerPhase Offer Reply Msg}
  {clientPhase : ClientPhase Key Offer} {serverKeys clientKeys : Key} {toClient toServer : List (SealedPacket Key Offer Reply Msg)}
  {p : SealedPacket Key Offer Reply Msg} {offer : Offer} {n : ℕ} {read : Code Offer Reply Msg}

/-- The server writes a packet of no exchange. -/
theorem serverPush (h : InStep kdf serverPhase serverKeys clientPhase clientKeys toClient toServer)
    (hphase : serverPhase.isExchanging = false) {code : Code Offer Reply Msg}
    (hcode : code.isExchange = false) :
    InStep kdf serverPhase serverKeys clientPhase clientKeys (toClient ++ [⟨serverKeys, code⟩])
      toServer := by
  cases h with
  | quiet _ hclient hserver => exact .quiet hphase (hclient.concat hcode) hserver
  | serverFirst hfirst hclient => exact .serverFirst hfirst (hclient.concat hcode)
  | offered | awaiting | replying | replied | clientFirst => cases hphase

/-- The client writes a packet of no exchange. -/
theorem clientPush (h : InStep kdf serverPhase serverKeys clientPhase clientKeys toClient toServer)
    (hphase : ∀ keys, clientPhase ≠ .adopting keys) {code : Code Offer Reply Msg}
    (hcode : code.isExchange = false) :
    InStep kdf serverPhase serverKeys clientPhase clientKeys toClient
      (toServer ++ [⟨clientKeys, code⟩]) := by
  cases h with
  | quiet hquiet hclient hserver => exact .quiet hquiet hclient (hserver.concat hcode)
  | offered hclient hserver => exact .offered hclient (hserver.concat hcode)
  | awaiting hserver => exact .awaiting (hserver.concat hcode)
  | replying hserver => exact .replying (hserver.concat hcode)
  | clientFirst hserver hlater =>
    rw [List.append_assoc, List.cons_append]
    exact .clientFirst hserver (hlater.concat hcode)
  | replied | serverFirst => exact absurd rfl (hphase _)

/-- The server starts a rekey. -/
theorem rekey (h : InStep kdf (.checking read) serverKeys clientPhase clientKeys toClient toServer)
    (offer : Offer) :
    InStep kdf (.exchanging offer 0 read) serverKeys clientPhase clientKeys
      (toClient ++ [⟨serverKeys, .rekey⟩, ⟨serverKeys, .keyExchangeOffer offer⟩]) toServer := by
  cases h with
  | quiet _ hclient hserver => exact .offered hclient hserver
  | serverFirst hfirst => rcases hfirst with hfirst | hfirst <;> cases hfirst

/-- The server moves on in its loop. -/
theorem loop (h : InStep kdf serverPhase serverKeys clientPhase clientKeys toClient toServer)
    (hphase : serverPhase.isExchanging = false) {phase : ServerPhase Offer Reply Msg}
    (hnext : phase = .reading ∨ phase = .dispatching) :
    InStep kdf phase serverKeys clientPhase clientKeys toClient toServer := by
  cases h with
  | quiet _ hclient hserver =>
    refine .quiet ?_ hclient hserver
    rcases hnext with rfl | rfl <;> rfl
  | serverFirst _ hclient => exact .serverFirst hnext hclient
  | offered | awaiting | replying | replied | clientFirst => cases hphase

/-- A packet read in the loop is under the server's keys. -/
theorem serverRead (h : InStep kdf .reading serverKeys clientPhase clientKeys toClient (p :: toServer)) :
    p.keys = serverKeys ∧ ∀ phase : ServerPhase Offer Reply Msg, phase.isExchanging = false →
      InStep kdf phase serverKeys clientPhase clientKeys toClient toServer := by
  cases h with
  | quiet _ hclient hserver =>
    obtain ⟨⟨hkeys, _⟩, hrest⟩ := plain_cons.1 hserver
    exact ⟨hkeys, fun phase hphase => .quiet hphase hclient hrest⟩

/-- A packet read in `untrusted_read` is under the server's keys, and if it is a reply it
is the one to the server's offer. -/
theorem untrustedRead
    (h : InStep kdf (.exchanging offer n read) serverKeys clientPhase clientKeys toClient (p :: toServer)) :
    p.keys = serverKeys ∧
      (∀ reply, p.code = .keyExchangeReply reply →
        InStep kdf .dispatching (kdf offer reply) clientPhase clientKeys toClient toServer) ∧
      (p.code.isReply = false →
        ∀ n, InStep kdf (.exchanging offer n read) serverKeys clientPhase clientKeys toClient toServer) := by
  have hplain : ∀ {packets}, Plain serverKeys (p :: packets) → p.keys = serverKeys ∧
      (∀ reply, p.code ≠ .keyExchangeReply reply) ∧ Plain serverKeys packets := by
    intro packets hpackets
    obtain ⟨⟨hkeys, hcode⟩, hrest⟩ := plain_cons.1 hpackets
    refine ⟨hkeys, fun reply hreply => ?_, hrest⟩
    rw [hreply] at hcode
    cases hcode
  generalize hqueue : p :: toServer = queue at h
  cases h with
  | quiet hphase => cases hphase
  | serverFirst hfirst => rcases hfirst with hfirst | hfirst <;> cases hfirst
  | offered hclient hserver =>
    obtain ⟨hkeys, hcode, hrest⟩ := hplain (hqueue ▸ hserver)
    exact ⟨hkeys, fun reply hreply => absurd hreply (hcode reply), fun _ _ => .offered hclient hrest⟩
  | awaiting hserver =>
    obtain ⟨hkeys, hcode, hrest⟩ := hplain (hqueue ▸ hserver)
    exact ⟨hkeys, fun reply hreply => absurd hreply (hcode reply), fun _ _ => .awaiting hrest⟩
  | replying hserver =>
    obtain ⟨hkeys, hcode, hrest⟩ := hplain (hqueue ▸ hserver)
    exact ⟨hkeys, fun reply hreply => absurd hreply (hcode reply), fun _ _ => .replying hrest⟩
  | @replied _ _ _ _ reply sent hserver =>
    cases sent with
    | nil =>
      obtain ⟨rfl, rfl⟩ := List.cons.inj hqueue
      refine ⟨rfl, fun reply' hreply => ?_, fun hcode => by cases hcode⟩
      obtain rfl := Code.keyExchangeReply.inj hreply
      exact .serverFirst (.inr rfl) (plain_nil _)
    | cons q sent =>
      obtain ⟨rfl, rfl⟩ := List.cons.inj hqueue
      obtain ⟨hkeys, hcode, hrest⟩ := hplain hserver
      exact ⟨hkeys, fun reply hreply => absurd hreply (hcode reply), fun _ _ => .replied hrest⟩
  | @clientFirst _ _ _ _ reply sent later hserver hlater =>
    cases sent with
    | nil =>
      obtain ⟨rfl, rfl⟩ := List.cons.inj hqueue
      refine ⟨rfl, fun reply' hreply => ?_, fun hcode => by cases hcode⟩
      obtain rfl := Code.keyExchangeReply.inj hreply
      exact .quiet rfl (plain_nil _) hlater
    | cons q sent =>
      obtain ⟨rfl, rfl⟩ := List.cons.inj hqueue
      obtain ⟨hkeys, hcode, hrest⟩ := hplain hserver
      exact ⟨hkeys, fun reply hreply => absurd hreply (hcode reply), fun _ _ => .clientFirst hrest hlater⟩

/-- A packet read in the client's loop is under the client's keys. -/
theorem clientRead (h : InStep kdf serverPhase serverKeys .reading clientKeys (p :: toClient) toServer) :
    p.keys = clientKeys ∧
      (p.code = .rekey → InStep kdf serverPhase serverKeys .awaitingOffer clientKeys toClient toServer) ∧
      (p.code ≠ .rekey → InStep kdf serverPhase serverKeys .reading clientKeys toClient toServer) := by
  have hplain : ∀ {packets}, Plain clientKeys (p :: packets) → p.keys = clientKeys ∧ p.code ≠ .rekey ∧
      Plain clientKeys packets := by
    intro packets hpackets
    obtain ⟨⟨hkeys, hcode⟩, hrest⟩ := plain_cons.1 hpackets
    refine ⟨hkeys, fun hrekey => ?_, hrest⟩
    rw [hrekey] at hcode
    cases hcode
  generalize hqueue : p :: toClient = queue at h
  cases h with
  | quiet hphase hclient hserver =>
    obtain ⟨hkeys, hcode, hrest⟩ := hplain (hqueue ▸ hclient)
    exact ⟨hkeys, fun hrekey => absurd hrekey hcode, fun _ => .quiet hphase hrest hserver⟩
  | @offered _ _ _ _ sent _ hclient hserver =>
    cases sent with
    | nil =>
      obtain ⟨rfl, rfl⟩ := List.cons.inj hqueue
      exact ⟨rfl, fun _ => .awaiting hserver, fun hcode => absurd rfl hcode⟩
    | cons q sent =>
      obtain ⟨rfl, rfl⟩ := List.cons.inj hqueue
      obtain ⟨hkeys, hcode, hrest⟩ := hplain hclient
      exact ⟨hkeys, fun hrekey => absurd hrekey hcode, fun _ => .offered hrest hserver⟩
  | clientFirst => cases hqueue

/-- What the client reads while it waits for the offer is the offer. -/
theorem clientReadOffer
    (h : InStep kdf serverPhase serverKeys .awaitingOffer clientKeys (p :: toClient) toServer) :
    p.keys = clientKeys ∧ ∃ offer, p.code = .keyExchangeOffer offer ∧
      InStep kdf serverPhase serverKeys (.replying offer) clientKeys toClient toServer := by
  cases h with
  | awaiting hserver => exact ⟨rfl, _, rfl, .replying hserver⟩

/-- The client writes its reply. -/
theorem reply (h : InStep kdf serverPhase serverKeys (.replying offer) clientKeys toClient toServer)
    (reply : Reply) :
    InStep kdf serverPhase serverKeys (.adopting (kdf offer reply)) clientKeys toClient
      (toServer ++ [⟨clientKeys, .keyExchangeReply reply⟩]) := by
  cases h with
  | replying hserver => exact .replied hserver

/-- The client switches. -/
theorem adopt {keys : Key}
    (h : InStep kdf serverPhase serverKeys (.adopting keys) clientKeys toClient toServer) :
    InStep kdf serverPhase serverKeys .reading keys toClient toServer := by
  cases h with
  | replied hserver => exact .clientFirst hserver (plain_nil _)
  | serverFirst hfirst hclient =>
    refine .quiet ?_ hclient (plain_nil _)
    rcases hfirst with rfl | rfl <;> rfl

/-- With neither end in an exchange the keys are the same. -/
theorem keys_eq (h : InStep kdf serverPhase serverKeys .reading clientKeys toClient toServer)
    (hphase : serverPhase.isExchanging = false) : serverKeys = clientKeys := by
  cases h with
  | quiet => rfl
  | offered | clientFirst => cases hphase

end InStep

/-- The invariant: the session is in one of the stages, and every read so far was with
the right keys. -/
structure KeyInv (kdf : Offer → Reply → Key) (s : Peers Key Offer Reply Msg) : Prop where
  stage : InStep kdf s.serverPhase s.serverKeys s.clientPhase s.clientKeys s.toClient.contents
    s.toServer.contents
  reads : ∀ r ∈ s.reads, r.1 = r.2

variable {kdf : Offer → Reply → Key} {s s' : Peers Key Offer Reply Msg}

variable {seq : ℕ} {p : SealedPacket Key Offer Reply Msg} {spamWarning : Bool} {outcome : ReceiveOutcome}

/-- A packet read with the right keys. -/
theorem KeyInv.record (hinv : KeyInv kdf s) {sealedWith readWith : Key} (hkeys : sealedWith = readWith) :
    KeyInv kdf (s.record sealedWith readWith) := by
  refine ⟨hinv.stage, fun r hr => ?_⟩
  rcases List.mem_append.1 hr with hr | hr
  · exact hinv.reads r hr
  · rw [List.mem_singleton.1 hr, hkeys]

/-- A packet to the client leaves the keys agreed. -/
theorem KeyInv.pushClient (hinv : KeyInv kdf s) (hphase : s.serverPhase.isExchanging = false)
    {code : Code Offer Reply Msg} (hcode : code.isExchange = false) :
    KeyInv kdf (s.pushClient s.serverKeys code) := by
  refine ⟨?_, hinv.reads⟩
  simpa [Peers.pushClient] using hinv.stage.serverPush hphase hcode

/-- So does a packet to the server. -/
theorem KeyInv.pushServer (hinv : KeyInv kdf s) (hphase : ∀ keys, s.clientPhase ≠ .adopting keys)
    {code : Code Offer Reply Msg} (hcode : code.isExchange = false) :
    KeyInv kdf (s.pushServer s.clientKeys code) := by
  refine ⟨?_, hinv.reads⟩
  simpa [Peers.pushServer] using hinv.stage.clientPush hphase hcode

/-- A warning is written while the server waits for no reply. -/
theorem KeyInv.warn (hinv : KeyInv kdf s) (hphase : s.serverPhase.isExchanging = false)
    (spamWarning : Bool) : KeyInv kdf (s.warn spamWarning) := by
  cases spamWarning with
  | false => exact hinv
  | true => exact hinv.pushClient hphase rfl

/-- What the server is about to read, in the loop or in `untrusted_read`. -/
theorem KeyInv.serverKeys_eq (hinv : KeyInv kdf s) (hhead : s.toServer.items.head? = some (seq, p))
    (hphase : s.serverPhase = .reading ∨ s.serverPhase.isExchanging = true) : p.keys = s.serverKeys := by
  have hstage := hinv.stage
  rw [Fifo.contents_eq_cons hhead] at hstage
  cases hserver : s.serverPhase with
  | reading =>
    rw [hserver] at hstage
    exact hstage.serverRead.1
  | exchanging offer n read =>
    rw [hserver] at hstage
    exact hstage.untrustedRead.1
  | checking read | dispatching =>
    rw [hserver] at hphase
    rcases hphase with hphase | hphase <;> cases hphase

/-- The keys agree at the start. -/
theorem start_keyInv (keys : Key) (seq : ℕ) : KeyInv kdf (start keys seq : Peers Key Offer Reply Msg) :=
  ⟨.quiet rfl (plain_nil keys) (plain_nil keys), fun _ h => absurd h List.not_mem_nil⟩

/-- **Under the invariant the keys agree.** -/
theorem KeyInv.agree (hinv : KeyInv kdf s) : s.Agree := by
  refine ⟨hinv.reads, fun ⟨hserver, hclient, _⟩ => ?_⟩
  have hstage := hinv.stage
  rw [hclient] at hstage
  exact hstage.keys_eq hserver

variable [DecidableEq Key]

/-- The loop reads a packet. -/
theorem KeyInv.loopRead (hinv : KeyInv kdf s) (hphase : s.serverPhase = .reading)
    (hhead : s.toServer.items.head? = some (seq, p))
    (h : s.loopRead seq p spamWarning outcome = some s') : KeyInv kdf s' := by
  have hstage := hinv.stage
  rw [Fifo.contents_eq_cons hhead, hphase] at hstage
  obtain ⟨hkeys, hnext⟩ := hstage.serverRead
  have htaken : ∀ phase : ServerPhase Offer Reply Msg, phase.isExchanging = false →
      KeyInv kdf { s.take with serverPhase := phase } := by
    intro phase hphase
    refine ⟨?_, hinv.reads⟩
    simpa [take] using hnext phase hphase
  rw [loopRead_eq hkeys (Fifo.lt_of_head hhead)] at h
  cases outcome with
  | returned =>
    obtain rfl := Option.some.inj h
    have hwarned := (htaken (.checking p.code) rfl).warn rfl spamWarning
    cases spamWarning <;> exact ⟨hwarned.stage, hwarned.reads⟩
  | disconnected =>
    obtain rfl := Option.some.inj h
    have hwarned := (htaken .reading rfl).warn rfl spamWarning
    rw [← hphase] at hwarned
    cases spamWarning <;> exact ⟨hwarned.stage, hwarned.reads⟩
  | cancelled => cases h

/-- `untrusted_read` reads a packet, in time. -/
theorem KeyInv.untrustedRead (hinv : KeyInv kdf s) {offer : Offer} {n : ℕ} {read : Code Offer Reply Msg}
    (hphase : s.serverPhase = .exchanging offer n read)
    (hhead : s.toServer.items.head? = some (seq, p))
    (htime : p.code.isReply = true ∨ spamWarning = false ∧ outcome ≠ .cancelled ∧ n ≠ 3) :
    KeyInv kdf (s.untrustedRead kdf offer n read seq p spamWarning outcome) := by
  have hstage := hinv.stage
  rw [Fifo.contents_eq_cons hhead, hphase] at hstage
  obtain ⟨hkeys, hreply, hstray⟩ := hstage.untrustedRead
  have hseq := Fifo.lt_of_head hhead
  by_cases hcode : p.code.isReply = true
  · obtain ⟨reply, hcode⟩ := Code.isReply_iff.1 hcode
    rw [untrustedRead_reply hkeys hseq hcode]
    refine ⟨?_, hinv.reads⟩
    simpa [settle, take] using hreply reply hcode
  · obtain ⟨rfl, houtcome, hn⟩ := htime.resolve_left hcode
    rw [Bool.not_eq_true] at hcode
    have htaken : ∀ n, KeyInv kdf { s.take with serverPhase := .exchanging offer n read } := by
      intro n
      refine ⟨?_, hinv.reads⟩
      simpa [take] using hstray hcode n
    rw [untrustedRead_stray hkeys hseq hcode]
    cases outcome with
    | returned =>
      rw [stray, if_neg hn]
      exact ⟨(htaken (n + 1)).stage, hinv.reads⟩
    | disconnected =>
      have hsame := (htaken n).stage
      rw [← hphase] at hsame
      exact ⟨hsame, hinv.reads⟩
    | cancelled => exact absurd rfl houtcome

/-- The client reads a packet. -/
theorem KeyInv.clientRead (hinv : KeyInv kdf s)
    (hphase : s.clientPhase = .reading ∨ s.clientPhase = .awaitingOffer)
    (hhead : s.toClient.items.head? = some (seq, p)) :
    KeyInv kdf ((s.record p.keys s.clientKeys).clientRead seq p) := by
  have hstage := hinv.stage
  rw [Fifo.contents_eq_cons hhead] at hstage
  have hseq := Fifo.lt_of_head hhead
  rcases hphase with hphase | hphase
  · rw [hphase] at hstage
    obtain ⟨hkeys, hrekey, hother⟩ := hstage.clientRead
    rw [clientRead_eq (s := s.record p.keys s.clientKeys) hkeys hseq]
    refine ⟨?_, (hinv.record hkeys).reads⟩
    by_cases hcode : p.code = .rekey
    · simpa [Peers.record, hphase, hcode] using hrekey hcode
    · have hnext := hother hcode
      cases hp : p.code with
      | rekey => exact absurd hp hcode
      | keyExchangeOffer _ | keyExchangeReply _ | spamWarning | other _ =>
        simpa [Peers.record, hphase] using hnext
  · rw [hphase] at hstage
    obtain ⟨hkeys, offer, hcode, hnext⟩ := hstage.clientReadOffer
    rw [clientRead_eq (s := s.record p.keys s.clientKeys) hkeys hseq]
    refine ⟨?_, (hinv.record hkeys).reads⟩
    simpa [Peers.record, hphase, hcode] using hnext

/-- **Every step that is in time keeps the ends in step.** -/
theorem KeyInv.step (hinv : KeyInv kdf s) {action : PeerAction Key Offer Reply Msg}
    (htime : s.inTime action = true) (h : s.step kdf action = some s') : KeyInv kdf s' := by
  cases action with
  | serverCopy | clientCopy | serverEnd | clientEnd =>
    obtain rfl := Option.some.inj h
    exact ⟨hinv.stage, hinv.reads⟩
  | serverWrite keys m =>
    rw [Peers.step] at h
    split_ifs at h
    obtain rfl := Option.some.inj h
    simp only [inTime, Bool.and_eq_true, Bool.not_eq_true', decide_eq_true_eq] at htime
    obtain ⟨hphase, rfl⟩ := htime
    exact hinv.pushClient hphase rfl
  | serverSend m =>
    rw [Peers.step] at h
    split_ifs at h
    split at h <;> cases h
    rename_i hphase
    exact hinv.pushClient (by rw [hphase]; rfl) rfl
  | serverRead spamWarning outcome =>
    rw [Peers.step] at h
    split_ifs at h
    split at h
    · rename_i seq p hphase hhead
      exact (hinv.record (hinv.serverKeys_eq hhead (.inl hphase))).loopRead hphase hhead h
    · rename_i offer n read seq p hphase hhead
      obtain rfl := Option.some.inj h
      have hkeys := hinv.serverKeys_eq hhead (.inr (by rw [hphase]; rfl))
      refine (hinv.record hkeys).untrustedRead hphase hhead ?_
      simpa [inTime, hphase, Fifo.contents_head? hhead, and_assoc] using htime
    · cases h
  | serverRekey offer =>
    rw [Peers.step] at h
    split_ifs at h
    split at h <;> cases h
    rename_i read hphase
    have hstage := hinv.stage
    rw [hphase] at hstage
    refine ⟨?_, hinv.reads⟩
    simpa [Peers.pushClient] using hstage.rekey offer
  | serverTimeout => cases htime
  | serverDispatch =>
    rw [Peers.step] at h
    split_ifs at h
    split at h <;> cases h
    rename_i read hphase
    exact ⟨hinv.stage.loop (by rw [hphase]; rfl) (.inr rfl), hinv.reads⟩
  | serverLoop =>
    rw [Peers.step] at h
    split_ifs at h
    split at h <;> cases h
    rename_i hphase
    exact ⟨hinv.stage.loop (by rw [hphase]; rfl) (.inl rfl), hinv.reads⟩
  | clientWrite keys m =>
    rw [Peers.step] at h
    split_ifs at h
    obtain rfl := Option.some.inj h
    have hphase : ∀ keys, s.clientPhase ≠ .adopting keys := by
      intro keys' hphase
      simp [inTime, hphase] at htime
    obtain rfl : keys = s.clientKeys := by
      cases hc : s.clientPhase with
      | adopting keys' => exact absurd hc (hphase keys')
      | reading | awaitingOffer | replying _ => simpa [inTime, hc] using htime
    exact hinv.pushServer hphase rfl
  | clientSend m =>
    rw [Peers.step] at h
    split_ifs at h
    split at h <;> cases h
    rename_i hphase
    refine hinv.pushServer (fun keys hc => ?_) rfl
    rw [hphase] at hc
    cases hc
  | clientRead =>
    rw [Peers.step] at h
    split_ifs at h
    split at h
    · rename_i seq p hphase hhead
      obtain rfl := Option.some.inj h
      exact hinv.clientRead (.inl hphase) hhead
    · rename_i seq p hphase hhead
      obtain rfl := Option.some.inj h
      exact hinv.clientRead (.inr hphase) hhead
    · cases h
  | clientReply reply =>
    rw [Peers.step] at h
    split_ifs at h
    split at h <;> cases h
    rename_i offer hphase
    have hstage := hinv.stage
    rw [hphase] at hstage
    refine ⟨?_, hinv.reads⟩
    simpa [Peers.pushServer] using hstage.reply reply
  | clientAdopt =>
    rw [Peers.step] at h
    split_ifs at h
    split at h <;> cases h
    rename_i keys hphase
    have hstage := hinv.stage
    rw [hphase] at hstage
    exact ⟨hstage.adopt, hinv.reads⟩

/-- **Rekeying keeps the two ends in agreement while every step is in time.**  In every
run, with any number of rekeys and of other senders on both ends, in which no task
writes a copy of keys that its end has left or is leaving and the server gives up no
exchange, every packet is read with the keys it was sealed under, and both ends have
the same keys whenever no exchange is in progress. -/
theorem rekey_agrees (kdf : Offer → Reply → Key) (keys : Key) (seq : ℕ)
    (actions : List (PeerAction Key Offer Reply Msg)) {s : Peers Key Offer Reply Msg}
    (hmeets : Meets (step kdf) (fun s action => s.inTime action = true) (start keys seq) actions)
    (hrun : exec (step kdf) (start keys seq) actions = some s) : s.Agree :=
  (exec_induct (fun _ _ _ hinv htime h => hinv.step htime h) (start_keyInv keys seq) hmeets hrun).agree

/-- A rekey under traffic: a broadcast just before the offer, a request of the client
before its reply, and one right after it has switched. -/
def busyRekey : List (PeerAction ℕ ℕ ℕ ℕ) :=
  [.clientCopy, .clientWrite 0 5, .serverRead false .returned, .serverCopy, .serverWrite 0 7,
    .serverRekey 1, .clientWrite 0 6, .clientRead, .clientRead, .clientRead, .clientReply 2,
    .clientAdopt, .serverRead false .returned, .clientCopy, .clientWrite 3 8,
    .serverRead false .returned, .serverLoop, .serverRead true .returned]

/-- The theorem on that run: a switch from 0 to 3, with seven packets read. -/
theorem rekey_agrees_busy : ∃ s : Peers ℕ ℕ ℕ ℕ,
    exec (step fun offer reply => offer + reply) (start 0 0) busyRekey = some s ∧ s.Agree ∧
      s.serverKeys = 3 ∧ s.clientKeys = 3 ∧ s.reads.length = 7 := by
  have hvalues : (exec (step fun offer reply => offer + reply) (start 0 0) busyRekey).map
      (fun s : Peers ℕ ℕ ℕ ℕ => (s.serverKeys, s.clientKeys, s.reads.length)) = some (3, 3, 7) := by decide
  obtain ⟨s, hs, hvalue⟩ := Option.map_eq_some_iff.1 hvalues
  simp only [Prod.mk.injEq] at hvalue
  exact ⟨s, hs, rekey_agrees _ 0 0 busyRekey (by decide) hs, hvalue⟩

end Peers

end Why2
