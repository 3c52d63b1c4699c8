/-
# The key exchange

A client opens a connection with 32 random bytes, the nonce.  The server answers with an
offer of fresh keys, which its identity signs together with the nonce
(`create_offer`, `verify_offer`, `chat/src/crypto/kex.rs`).  The client checks the
signature and looks the identity up among those it has pinned for the host; one
that is unknown or has changed is put to the user (`key_exchange`,
`chat/src/network/client/handshake.rs`, `check` and `save`,
`chat/src/config/keys.rs`).  Its reply is not signed.

Whoever writes on the connections may deliver any offer and any reply to anyone.
Still, if the user accepts no other identity for a host than the server's, every session
with that host that is ready was offered its keys by the server, for its own nonce; and a
server that got its reply has the same keys (`keys_agreed`).

The curve, the signatures and the encapsulation are parameters.
-/

import Why2.Chat.AccountStore
import Why2.Chat.PacketStream
import Why2.Lib.FixedCodec
import Why2.Lib.Runs

namespace Why2

open Lib

/-- `ECC_PUBKEY_SIZE`. -/
def eccPubkeySize : ℕ := 133

/-- `ECC_SIGNATURE_SIZE`. -/
def eccSignatureSize : ℕ := 132

/-- `PQ_PUBKEY_SIZE`. -/
def pqPubkeySize : ℕ := 1184

/-- `PQ_CIPHERTEXT_SIZE`. -/
def pqCiphertextSize : ℕ := 1088

/-- `KEX_CONTEXT`. -/
def kexContext : List U8 := ascii "WHY2-KEX-V1"

/-- P-521 with ECDH and ECDSA, and ML-KEM-768, with the encodings of the keys that are signed.  Both
sides of an agreement compute one secret, and what is encapsulated is recovered. -/
structure KexSuite where
  Secret : Type
  Public : Type
  Signature : Type
  PqSecret : Type
  PqPublic : Type
  Ciphertext : Type
  Seed : Type
  publicKey : Secret → Public
  diffieHellman : Secret → Public → List U8
  sign : Secret → List U8 → Signature
  verify : Public → List U8 → Signature → Bool
  pqPublic : PqSecret → PqPublic
  encapsulate : PqPublic → Seed → Ciphertext × List U8
  decapsulate : PqSecret → Ciphertext → List U8
  sec1Key : FixedCodec U8 eccPubkeySize Public
  pqKey : FixedCodec U8 pqPubkeySize PqPublic
  diffieHellman_comm : ∀ a b, diffieHellman a (publicKey b) = diffieHellman b (publicKey a)
  decapsulate_encapsulate : ∀ secret seed,
    decapsulate secret (encapsulate (pqPublic secret) seed).1 = (encapsulate (pqPublic secret) seed).2

/-- `schema::Offer`. -/
structure Offer (c : KexSuite) where
  staticEcc : c.Public
  ephEcc : c.Public
  pq : c.PqPublic
  sig : c.Signature

/-- `schema::Reply`. -/
structure Reply (c : KexSuite) where
  ephEcc : c.Public
  pq : c.Ciphertext

variable {c : KexSuite}

/-! ### The keys -/

/-- `transcript`: what the identity signs. -/
def kexTranscript (c : KexSuite) (nonce : Vector U8 32) (ephEcc : c.Public) (pq : c.PqPublic) : List U8 :=
  kexContext ++ (nonce.toList ++ (c.sec1Key.encode ephEcc ++ c.pqKey.encode pq))

/-- **A signature is for one nonce and one pair of keys.** -/
theorem kexTranscript_inj {nonce nonce' : Vector U8 32} {ephEcc ephEcc' : c.Public} {pq pq' : c.PqPublic}
    (h : kexTranscript c nonce ephEcc pq = kexTranscript c nonce' ephEcc' pq') :
    nonce = nonce' ∧ ephEcc = ephEcc' ∧ pq = pq' := by
  have hfields := List.append_cancel_left h
  obtain ⟨hnonce, hrest⟩ := (FixedCodec.verbatim U8 32).encode_append_inj hfields
  obtain ⟨hecc, hpq⟩ := c.sec1Key.encode_append_inj hrest
  exact ⟨hnonce, hecc, c.pqKey.encode_injective hpq⟩

/-- `derive_encryption_keys`. -/
def deriveEncryptionKeys (P : Primitives) (secret : List U8) : SharedKeys :=
  ((chunks 8 (P.hkdf none secret (ascii "WHY2-encryption") (8 * 8 * 16)).toList).map fromBeBytes,
    (P.hkdf none secret (ascii "WHY2-mac") 32).toList)

/-- `derive_shared_secret`. -/
def deriveSharedSecret (P : Primitives) (localKey : c.Secret) (peer : c.Public) (pqSecret : List U8) : SharedKeys :=
  deriveEncryptionKeys P
    (P.hkdf none [] (c.diffieHellman localKey peer ++ pqSecret ++ ascii "WHY2-HYBRID") 64).toList

/-- `create_offer`, of the secrets that were drawn. -/
def createOffer (identity : c.Secret) (nonce : Vector U8 32) (ecc : c.Secret) (pq : c.PqSecret) : Offer c :=
  ⟨c.publicKey identity, c.publicKey ecc, c.pqPublic pq,
    c.sign identity (kexTranscript c nonce (c.publicKey ecc) (c.pqPublic pq))⟩

/-- `verify_offer`. -/
def verifyOffer (nonce : Vector U8 32) (offer : Offer c) : Bool :=
  c.verify offer.staticEcc (kexTranscript c nonce offer.ephEcc offer.pq) offer.sig

/-- `keys::hash` of an identity. -/
def identityHash (P : Primitives) (key : c.Public) : String := hex (P.sha256 (c.sec1Key.encode key)).toList

/-- Both sides derive the same keys from an offer and the reply to it. -/
theorem deriveSharedSecret_eq (P : Primitives) (ecc secret : c.Secret) (pq : c.PqSecret) (seed : c.Seed) :
    deriveSharedSecret P ecc (c.publicKey secret)
        (c.decapsulate pq (c.encapsulate (c.pqPublic pq) seed).1) =
      deriveSharedSecret P secret (c.publicKey ecc) (c.encapsulate (c.pqPublic pq) seed).2 := by
  unfold deriveSharedSecret
  rw [c.diffieHellman_comm, c.decapsulate_encapsulate]

/-! ### The parties -/

/-- `TofuCode`. -/
inductive TofuCode
  | valid
  | unknown
  | mismatch
deriving DecidableEq

/-- `keys::check` of an identity's hash against the one pinned for the host. -/
def checkPinned (pinned : Option String) (hash : String) : TofuCode :=
  match pinned with
  | some key => if key = hash then .valid else .mismatch
  | none => .unknown

/-- Where a client's exchange is: it waits for an offer; the user is asked about the identity;
the session is ready; it is over. -/
inductive ExchangePhase (c : KexSuite)
  | waiting
  | asking (offer : Offer c) (keys : SharedKeys)
  | ready (offer : Offer c) (keys : SharedKeys)
  | closed

/-- The offer the user is asked about. -/
def ExchangePhase.asked : ExchangePhase c → Option (Offer c)
  | .asking offer _ => some offer
  | .waiting | .ready .. | .closed => none

/-- The session is ready. -/
def ExchangePhase.isReady : ExchangePhase c → Bool
  | .ready .. => true
  | .waiting | .asking .. | .closed => false

/-- An exchange on the client's side, for a new session or a rekey, with the reply it sent. -/
structure ClientExchange (c : KexSuite) where
  host : String
  nonce : Vector U8 32
  rekey : Bool
  phase : ExchangePhase c
  reply : Option (Reply c)

/-- An exchange on the server's side: the bytes it took for the nonce, its secrets, and the reply
it got with the keys. -/
structure ServerExchange (c : KexSuite) where
  nonce : Vector U8 32
  ecc : c.Secret
  pq : c.PqSecret
  reply : Option (Reply c)
  keys : Option SharedKeys

/-- A client with the identities it has pinned, and the exchanges of one server. -/
structure KeyExchange (c : KexSuite) where
  pinned : String → Option String
  clients : List (ClientExchange c)
  servers : List (ServerExchange c)

/-- What a party does.  An offer or a reply may come from anyone. -/
inductive KexAction (c : KexSuite)
  | dial (host : String) (nonce : Vector U8 32)
  | rekey (i : ℕ)
  | offer (nonce : Vector U8 32) (ecc : c.Secret) (pq : c.PqSecret)
  | receive (i : ℕ) (offer : Offer c) (secret : c.Secret) (seed : c.Seed)
  | answer (i : ℕ) (accept : Bool)
  | reply (j : ℕ) (reply : Reply c)

namespace KeyExchange

variable (P : Primitives) (identity : c.Secret)

/-- The client's half, up to the question to the user. -/
def receive (pinned : String → Option String) (client : ClientExchange c) (offer : Offer c) (secret : c.Secret)
    (seed : c.Seed) : ClientExchange c :=
  let verdict := checkPinned (pinned client.host) (identityHash P offer.staticEcc)
  if verifyOffer client.nonce offer then
    let (ciphertext, pqSecret) := c.encapsulate offer.pq seed
    let keys := deriveSharedSecret P secret offer.ephEcc pqSecret
    { client with
      reply := some ⟨c.publicKey secret, ciphertext⟩
      phase := if verdict = .valid then .ready offer keys else .asking offer keys }
  else { client with phase := .closed }

/-- One action. -/
def step (s : KeyExchange c) : KexAction c → Option (KeyExchange c)
  | .dial host nonce => some { s with clients := s.clients ++ [⟨host, nonce, false, .waiting, none⟩] }
  | .rekey i => do
    let client ← s.clients[i]?
    match client.phase with
    -- The nonce stays that of the connection.
    | .ready .. => some { s with clients := s.clients ++ [⟨client.host, client.nonce, true, .waiting, none⟩] }
    | _ => none
  | .offer nonce ecc pq => some { s with servers := s.servers ++ [⟨nonce, ecc, pq, none, none⟩] }
  | .receive i offer secret seed => do
    let client ← s.clients[i]?
    match client.phase with
    | .waiting => some { s with clients := s.clients.set i (receive P s.pinned client offer secret seed) }
    | _ => none
  | .answer i accept => do
    let client ← s.clients[i]?
    match client.phase with
    | .asking offer keys =>
      if accept then
        -- A new session is opened again once its identity is pinned.
        some { s with
          pinned := Function.update s.pinned client.host (some (identityHash P offer.staticEcc))
          clients := s.clients.set i
            { client with phase := if client.rekey then .ready offer keys else .closed } }
      else some { s with clients := s.clients.set i { client with phase := .closed } }
    | _ => none
  | .reply j reply => do
    let server ← s.servers[j]?
    if server.reply.isNone then
      let keys := deriveSharedSecret P server.ecc reply.ephEcc (c.decapsulate server.pq reply.pq)
      some { s with servers := s.servers.set j { server with reply := some reply, keys := some keys } }
    else none

/-- The identity has signed this. -/
def Signed (s : KeyExchange c) (message : List U8) : Prop :=
  ∃ server ∈ s.servers, kexTranscript c server.nonce (c.publicKey server.ecc) (c.pqPublic server.pq) = message

instance (s : KeyExchange c) (message : List U8) : Decidable (s.Signed message) :=
  inferInstanceAs (Decidable (∃ server ∈ s.servers, _))

/-- An offer with the identity's hash is the identity's, and its signature was made by it. -/
def Unforged (s : KeyExchange c) (client : ClientExchange c) (offer : Offer c) : Prop :=
  (identityHash P offer.staticEcc = identityHash P (c.publicKey identity) → offer.staticEcc = c.publicKey identity) ∧
    (offer.staticEcc = c.publicKey identity → verifyOffer client.nonce offer = true →
      s.Signed (kexTranscript c client.nonce offer.ephEcc offer.pq))

instance [DecidableEq c.Public] (s : KeyExchange c) (client : ClientExchange c) (offer : Offer c) :
    Decidable (s.Unforged P identity client offer) := inferInstanceAs (Decidable (_ ∧ _))

/-- Hashes and signatures are not forged, and for the host the user accepts no other identity. -/
def Trusted (host : String) (s : KeyExchange c) : KexAction c → Prop
  | .receive i offer _ _ => ∀ client ∈ s.clients[i]?, s.Unforged P identity client offer
  | .answer i true =>
    ∀ client ∈ s.clients[i]?, ∀ offer ∈ client.phase.asked, client.host = host →
      identityHash P offer.staticEcc = identityHash P (c.publicKey identity)
  | _ => True

instance [DecidableEq c.Public] (host : String) (s : KeyExchange c) (action : KexAction c) :
    Decidable (s.Trusted P identity host action) :=
  match action with
  | .receive i offer _ _ => inferInstanceAs (Decidable (∀ client ∈ s.clients[i]?, s.Unforged P identity client offer))
  | .answer i true =>
    inferInstanceAs (Decidable (∀ client ∈ s.clients[i]?, ∀ offer ∈ client.phase.asked, client.host = host →
      identityHash P offer.staticEcc = identityHash P (c.publicKey identity)))
  | .answer _ false | .dial .. | .rekey _ | .offer .. | .reply .. => .isTrue trivial

/-! ### Agreement -/

/-- The server made this offer for the client's nonce, if it is the identity's. -/
def Matched (s : KeyExchange c) (client : ClientExchange c) (offer : Offer c) : Prop :=
  offer.staticEcc = c.publicKey identity →
    ∃ server ∈ s.servers, server.nonce = client.nonce ∧ c.publicKey server.ecc = offer.ephEcc ∧
      c.pqPublic server.pq = offer.pq

/-- The client has answered the offer, and has these keys. -/
def Computed (client : ClientExchange c) (offer : Offer c) (keys : SharedKeys) : Prop :=
  ∃ secret seed, client.reply = some ⟨c.publicKey secret, (c.encapsulate offer.pq seed).1⟩ ∧
    keys = deriveSharedSecret P secret offer.ephEcc (c.encapsulate offer.pq seed).2

/-- What holds of a client's exchange. -/
def Sound (host : String) (s : KeyExchange c) (client : ClientExchange c) : Prop :=
  match client.phase with
  | .waiting | .closed => True
  | .asking offer keys =>
    (identityHash P offer.staticEcc = identityHash P (c.publicKey identity) → offer.staticEcc = c.publicKey identity) ∧
      s.Matched identity client offer ∧ Computed P client offer keys
  | .ready offer keys =>
    (client.host = host → offer.staticEcc = c.publicKey identity) ∧
      s.Matched identity client offer ∧ Computed P client offer keys

/-- What holds after every action. -/
structure Inv (host : String) (s : KeyExchange c) : Prop where
  pinned : ∀ hash ∈ s.pinned host, hash = identityHash P (c.publicKey identity)
  clients : ∀ client ∈ s.clients, s.Sound P identity host client
  servers : ∀ server ∈ s.servers, ∀ reply ∈ server.reply,
    server.keys = some (deriveSharedSecret P server.ecc reply.ephEcc (c.decapsulate server.pq reply.pq))

/-- The server's exchanges keep their nonces and secrets. -/
def Kept (s s' : KeyExchange c) : Prop :=
  ∀ server ∈ s.servers, ∃ server' ∈ s'.servers,
    server'.nonce = server.nonce ∧ server'.ecc = server.ecc ∧ server'.pq = server.pq

variable {P identity} {host : String} {s s' : KeyExchange c} {client : ClientExchange c} {offer : Offer c}
  {keys : SharedKeys}

theorem kept_of_servers (h : s'.servers = s.servers) : s.Kept s' :=
  fun server hserver => ⟨server, h.symm ▸ hserver, rfl, rfl, rfl⟩

theorem Matched.mono (h : s.Matched identity client offer) (hkept : s.Kept s') : s'.Matched identity client offer := by
  intro hstatic
  obtain ⟨server, hserver, hnonce, hecc, hpq⟩ := h hstatic
  obtain ⟨server', hserver', hnonce', hecc', hpq'⟩ := hkept server hserver
  exact ⟨server', hserver', hnonce'.trans hnonce, hecc'.symm ▸ hecc, hpq'.symm ▸ hpq⟩

theorem Sound.mono (h : s.Sound P identity host client) (hkept : s.Kept s') : s'.Sound P identity host client := by
  unfold Sound at h ⊢
  split at h
  · trivial
  · trivial
  · exact ⟨h.1, h.2.1.mono hkept, h.2.2⟩
  · exact ⟨h.1, h.2.1.mono hkept, h.2.2⟩

/-- One client changes, and perhaps what it has pinned. -/
theorem Inv.set (h : s.Inv P identity host) {i : ℕ} {pinned : String → Option String}
    (hpinned : ∀ hash ∈ pinned host, hash = identityHash P (c.publicKey identity))
    (hclient : s.Sound P identity host client) :
    ({ s with pinned, clients := s.clients.set i client } : KeyExchange c).Inv P identity host where
  pinned := hpinned
  clients other hother := by
    have hkept : s.Kept { s with pinned, clients := s.clients.set i client } := kept_of_servers rfl
    rcases List.mem_or_eq_of_mem_set hother with hother | rfl
    · exact (h.clients other hother).mono hkept
    · exact hclient.mono hkept
  servers := h.servers

/-- A client joins. -/
theorem Inv.concat (h : s.Inv P identity host) (hphase : client.phase = .waiting) :
    ({ s with clients := s.clients ++ [client] } : KeyExchange c).Inv P identity host where
  pinned := h.pinned
  clients other hother := by
    rcases List.mem_append.1 hother with hother | hother
    · exact (h.clients other hother).mono (kept_of_servers rfl)
    · obtain rfl := List.mem_singleton.1 hother
      unfold Sound
      rw [hphase]
      trivial
  servers := h.servers

/-- **An offer that verifies** was made by the identity for this nonce, if it is the
identity's; and it is, if its hash is. -/
theorem sound_receive (h : s.Inv P identity host) (hunforged : s.Unforged P identity client offer)
    (secret : c.Secret) (seed : c.Seed) :
    s.Sound P identity host (receive P s.pinned client offer secret seed) := by
  unfold receive
  dsimp only
  split
  · rename_i hverified
    have hmatched : s.Matched identity client offer := by
      intro hstatic
      obtain ⟨server, hserver, htranscript⟩ := hunforged.2 hstatic hverified
      obtain ⟨hnonce, hecc, hpq⟩ := kexTranscript_inj htranscript
      exact ⟨server, hserver, hnonce, hecc, hpq⟩
    by_cases hvalid : checkPinned (s.pinned client.host) (identityHash P offer.staticEcc) = .valid
    · rw [if_pos hvalid]
      refine ⟨fun hhost => hunforged.1 ?_, hmatched, secret, seed, rfl, rfl⟩
      unfold checkPinned at hvalid
      split at hvalid
      · rename_i key hkey
        split at hvalid
        · rename_i heq
          exact heq ▸ h.pinned key (hhost ▸ hkey)
        · cases hvalid
      · cases hvalid
    · rw [if_neg hvalid]
      exact ⟨hunforged.1, hmatched, secret, seed, rfl, rfl⟩
  · trivial

theorem Inv.step {action : KexAction c} (h : s.Inv P identity host) (htrusted : s.Trusted P identity host action)
    (hstep : s.step P action = some s') : s'.Inv P identity host := by
  cases action with
  | dial host' nonce =>
    obtain rfl := Option.some.inj hstep
    exact h.concat rfl
  | rekey i =>
    obtain ⟨client, hclient, hstep⟩ := Option.bind_eq_some_iff.1 hstep
    split at hstep
    · obtain rfl := Option.some.inj hstep
      exact h.concat rfl
    · cases hstep
  | offer nonce ecc pq =>
    obtain rfl := Option.some.inj hstep
    refine ⟨h.pinned, fun client hclient => (h.clients client hclient).mono fun server hserver => ?_,
      fun server hserver => ?_⟩
    · exact ⟨server, List.mem_append_left _ hserver, rfl, rfl, rfl⟩
    · rcases List.mem_append.1 hserver with hserver | hserver
      · exact h.servers server hserver
      · obtain rfl := List.mem_singleton.1 hserver
        exact fun _ hreply => absurd hreply (Option.not_mem_none _)
  | receive i offer secret seed =>
    obtain ⟨client, hclient, hstep⟩ := Option.bind_eq_some_iff.1 hstep
    split at hstep
    · obtain rfl := Option.some.inj hstep
      exact h.set h.pinned (sound_receive h (htrusted client hclient) secret seed)
    · cases hstep
  | answer i accept =>
    obtain ⟨client, hclient, hstep⟩ := Option.bind_eq_some_iff.1 hstep
    have hsound := h.clients client (List.mem_of_getElem? hclient)
    obtain ⟨host', nonce, rekey, phase, reply⟩ := client
    cases phase with
    | asking offer keys =>
      cases accept with
      | true =>
        obtain rfl := Option.some.inj hstep
        have haccepted := htrusted _ hclient offer rfl
        refine h.set (fun hash hhash => ?_) ?_
        · rcases eq_or_ne host' host with rfl | hne
          · rw [Function.update_self] at hhash
            obtain rfl := Option.some.inj hhash
            exact haccepted rfl
          · rw [Function.update_of_ne hne.symm] at hhash
            exact h.pinned hash hhash
        · cases rekey with
          | true => exact ⟨fun hhost => hsound.1 (haccepted hhost), hsound.2⟩
          | false => trivial
      | false =>
        obtain rfl := Option.some.inj hstep
        exact h.set h.pinned trivial
    | waiting => cases hstep
    | ready offer keys => cases hstep
    | closed => cases hstep
  | reply j reply =>
    obtain ⟨server, hserver, hstep⟩ := Option.bind_eq_some_iff.1 hstep
    split_ifs at hstep
    obtain rfl := Option.some.inj hstep
    refine ⟨h.pinned, fun client hclient => (h.clients client hclient).mono fun other hother => ?_,
      fun other hother => ?_⟩
    · obtain ⟨k, hk⟩ := List.mem_iff_getElem?.1 hother
      have hlt := (List.getElem?_eq_some_iff.1 hk).1
      rcases eq_or_ne j k with rfl | hne
      · obtain rfl := Option.some.inj (hserver.symm.trans hk)
        exact ⟨_, List.mem_of_getElem? (List.getElem?_set_self hlt), rfl, rfl, rfl⟩
      · exact ⟨other, List.mem_of_getElem? ((List.getElem?_set_ne hne).trans hk), rfl, rfl, rfl⟩
    · rcases List.mem_or_eq_of_mem_set hother with hother | rfl
      · exact h.servers other hother
      · rintro _ ⟨⟩
        rfl

/-- **The keys of a session that is ready are shared with the server**, in any run in which
hashes and signatures are not forged and the user accepts no other identity for the host:
the server offered them, for the nonce of this session, and has the same ones if it got the
reply of this session. -/
theorem keys_agreed (P : Primitives) (identity : c.Secret) (host : String) (pinned : String → Option String)
    (hpinned : ∀ hash ∈ pinned host, hash = identityHash P (c.publicKey identity)) (actions : List (KexAction c))
    (s : KeyExchange c) (hmeets : Meets (step P) (Trusted P identity host) ⟨pinned, [], []⟩ actions)
    (hrun : exec (step P) ⟨pinned, [], []⟩ actions = some s) (client : ClientExchange c) (hclient : client ∈ s.clients)
    (hhost : client.host = host) (offer : Offer c) (keys : SharedKeys) (hready : client.phase = .ready offer keys) :
    offer.staticEcc = c.publicKey identity ∧
      ∃ server ∈ s.servers, server.nonce = client.nonce ∧ c.publicKey server.ecc = offer.ephEcc ∧
        c.pqPublic server.pq = offer.pq ∧ (server.reply = client.reply → server.keys = some keys) := by
  have hstart : (⟨pinned, [], []⟩ : KeyExchange c).Inv P identity host :=
    ⟨hpinned, fun _ h => absurd h List.not_mem_nil, fun _ h => absurd h List.not_mem_nil⟩
  have hinv : s.Inv P identity host := exec_induct (fun _ _ _ h => h.step) hstart hmeets hrun
  have hsound := hinv.clients client hclient
  unfold Sound at hsound
  rw [hready] at hsound
  obtain ⟨hstatic, hmatched, secret, seed, hreply, rfl⟩ := hsound
  obtain ⟨server, hserver, hnonce, hecc, hpq⟩ := hmatched (hstatic hhost)
  refine ⟨hstatic hhost, server, hserver, hnonce, hecc, hpq, fun hsame => ?_⟩
  have hkeys := hinv.servers server hserver _ (hsame.trans hreply)
  rw [hkeys, ← hecc, ← hpq, deriveSharedSecret_eq]

/-- Keys that are their own secrets, agreed by addition. -/
def plainSuite : KexSuite where
  Secret := Vector U8 eccPubkeySize
  Public := Vector U8 eccPubkeySize
  Signature := Vector U8 eccSignatureSize
  PqSecret := Vector U8 pqPubkeySize
  PqPublic := Vector U8 pqPubkeySize
  Ciphertext := Vector U8 pqCiphertextSize
  Seed := Vector U8 pqCiphertextSize
  publicKey := id
  diffieHellman a b := (Vector.zipWith (· + ·) a b).toList
  sign _ message := .replicate _ (BitVec.ofNat 8 message.length)
  verify _ message sig := sig = .replicate _ (BitVec.ofNat 8 message.length)
  pqPublic := id
  encapsulate key seed := (seed, key.toList ++ seed.toList)
  decapsulate secret ciphertext := secret.toList ++ ciphertext.toList
  sec1Key := .verbatim U8 _
  pqKey := .verbatim U8 _
  diffieHellman_comm _ _ := congrArg Vector.toList (Vector.zipWith_comm_of_comm BitVec.add_comm)
  decapsulate_encapsulate _ _ := rfl

instance : DecidableEq plainSuite.Public := inferInstanceAs (DecidableEq (Vector U8 eccPubkeySize))

/-- The identity of a server. -/
def plainIdentity : plainSuite.Secret := Vector.replicate eccPubkeySize 1

/-- A client dials, is made an offer and answers it. -/
def dialOnce (i : ℕ) (x : U8) : List (KexAction plainSuite) :=
  let nonce : Vector U8 32 := .replicate 32 x
  let ecc : plainSuite.Secret := Vector.replicate eccPubkeySize (x + 1)
  let pq : plainSuite.PqSecret := Vector.replicate pqPubkeySize (x + 2)
  [.dial "why2" nonce, .offer nonce ecc pq,
    .receive i (createOffer plainIdentity nonce ecc pq) (Vector.replicate eccPubkeySize (x + 3))
      (Vector.replicate pqCiphertextSize (x + 4))]

/-- A server that is not known at first: the user pins its identity, and the session is opened
again. -/
theorem keys_agreed_pinned : ∃ (client : ClientExchange plainSuite) (offer : Offer plainSuite) (keys : SharedKeys)
    (server : ServerExchange plainSuite), client.phase = .ready offer keys ∧ server.nonce = client.nonce ∧
      (server.reply = client.reply → server.keys = some keys) := by
  let actions : List (KexAction plainSuite) := dialOnce 0 10 ++ [.answer 0 true] ++ dialOnce 1 20 ++
    [.reply 1 ⟨Vector.replicate eccPubkeySize 23, Vector.replicate pqCiphertextSize 24⟩]
  have hmeets : Meets (step default) (Trusted default plainIdentity "why2") ⟨fun _ => none, [], []⟩ actions := by
    decide +kernel
  have hready : (exec (step default) ⟨fun _ => none, [], []⟩ actions).bind
      (fun s => s.clients[1]?.map fun client => (client.host, client.phase.isReady)) = some ("why2", true) := by
    decide +kernel
  obtain ⟨s, hs, hclient⟩ := Option.bind_eq_some_iff.1 hready
  obtain ⟨client, hclient, hpair⟩ := Option.map_eq_some_iff.1 hclient
  obtain ⟨hhost, hphase⟩ := Prod.mk.inj hpair
  rcases hkeys : client.phase with _ | ⟨offer, keys⟩ | ⟨offer, keys⟩ | _
  · rw [hkeys] at hphase
    cases hphase
  · rw [hkeys] at hphase
    cases hphase
  · obtain ⟨-, server, -, hnonce, -, -, hsame⟩ := keys_agreed default plainIdentity "why2" (fun _ => none)
      (fun _ h => absurd h (Option.not_mem_none _)) actions s hmeets hs client (List.mem_of_getElem? hclient) hhost
      offer keys hkeys
    exact ⟨client, offer, keys, server, hkeys, hnonce, hsame⟩
  · rw [hkeys] at hphase
    cases hphase

end KeyExchange

end Why2
