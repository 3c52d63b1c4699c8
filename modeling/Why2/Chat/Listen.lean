/-
# The session of a client

`listen_client` (`chat/src/network/server/mod.rs`) from the handshake to its return:
the key exchange, the version, the username, the password, and the loop.  Each step is
one read, with what follows up to the next read.  `read_tcp` and `receive`
(`chat/src/network/mod.rs`) take the bytes of the peer apart; most of their failures
remove the entry of the client, and the loop relies on that and just returns.

A frame that fails its MAC does not remove the entry, nor does a socket that has no
peer any more: the loop returns and the entry stays (`entry_left`).  If neither happens
in the loop, the entry is gone whenever `listen_client` returns (`entry_removed`).  The
reads outside of the loop have callers that remove the entry themselves.

A task that is aborted or that panics on a missing entry does not return.  Other tasks
may remove the entry at any read, and a read under a timeout may be given up before or
after its checks.
-/

import Why2.Chat.TextPolicy

namespace Why2

open Lib

/-- The packets that `listen_client` tells apart. -/
inductive SessionCode
  | keyExchangeReply (reply : List U8)
  | version (version : String)
  | username (username : String) (device : Option Device)
  | register (password : String)
  | login (password : String)
  | disconnect
  | accountDeleteRequest (password : String)
  | text (code : TextCode)
deriving DecidableEq

/-- What the checks of `receive` see of a packet. -/
def SessionCode.checks : SessionCode → TextCode
  | .text code => code.strip
  | .keyExchangeReply _ => .other true
  | .version _ | .username .. | .register _ | .login _ | .disconnect | .accountDeleteRequest _ =>
    .other false

/-- `decrypt_packet` and `obfuscate_data`, the deserialisation of a packet with its sequence
number, and the keys of a reply to an offer. -/
structure ListenPrimitives where
  decryptPacket : SharedKeys → List U8 → Option (List U8)
  obfuscateData : Vector U8 32 → List U8 → List U8
  deserialize : List U8 → Option (ℕ × SessionCode)
  deriveSharedSecret : List U8 → SharedKeys

/-- The moment of a read: the settings, the accounts, the clock, and what the socket and the
other tasks do. -/
structure ListenMoment where
  config : TextConfig
  maxPacketSize : ℕ
  checkClientVersion : Bool
  version : String
  maxAuthTries : ℕ
  allowRegister : Bool
  usernameValid : String → Bool
  userExists : String → Bool
  validatePassword : String → Bool
  verifyPassword : String → Bool
  loginConfig : LoginConfig
  role : Role
  id : ℕ
  fileStreams : ℕ
  now : Instant
  rekeyDue : Bool
  peerKnown : Bool
  removed : Bool

/-- Where `listen_client` is: the read it waits in, or how it ended.  The untrusted reads
count the packets they did not expect. -/
inductive ListenPhase
  | keyExchange (invalidPackets : ℕ)
  | version (invalidPackets : ℕ)
  | username (tries : ℕ) (registration : Bool)
  | register (username : String) (device : Option Device) (tries : ℕ)
  | login (username : String) (device : Option Device)
  | session
  | rekey (invalidPackets : ℕ) (read : SessionCode)
  | returned
  | panicked
deriving DecidableEq

/-- The session of one client: the bytes of the peer that are not read yet, after which it
closes the socket, the client's entry in `CONNECTIONS`, and the keys. -/
structure ListenState (Addr : Type) where
  phase : ListenPhase
  input : List U8
  entry : Option (Connection Addr)
  keys : Option SharedKeys
deriving DecidableEq

/-- `MAX_PACKET_CEILING`, `chat/src/consts.rs`. -/
def maxPacketCeiling : ℕ := 16 * 1000000

/-- How `read_tcp` ends: the socket has no peer; the connection was removed; the frame failed
its MAC; or a payload. -/
inductive ReadResult
  | unknownPeer
  | removed
  | unverified
  | data (payload : List U8)
deriving DecidableEq

/-- `Connection::obfuscation_key`. -/
def Connection.obfuscationKey {Addr : Type} : Connection Addr → Option (Vector U8 32)
  | .nonAuthenticated conn => some conn.obfuscationKey
  | .authenticated _ => none

namespace ListenState

variable {Addr : Type}

/-- The limit of a packet. -/
def packetLimit (moment : ListenMoment) (s : ListenState Addr) : ℕ :=
  if !moment.config.spamProtection && s.entry.any (·.isAuthenticated) then maxPacketCeiling
  else moment.maxPacketSize

/-- The next frame, and the bytes that are left: no frame if it is over the limit, or the
socket closes before its end. -/
def nextFrame (limit : ℕ) (input : List U8) : Option (List U8) × List U8 :=
  let len := ofBeBytes (input.take 4)
  let rest := input.drop 4
  if input.length < 4 then (none, [])
  else if limit < len then (none, rest)
  else if rest.length < len then (none, [])
  else (some (rest.take len), rest.drop len)

/-- `read_tcp`, with the bytes that are left. -/
def readTcp (P : ListenPrimitives) (moment : ListenMoment) (keys : Option SharedKeys)
    (s : ListenState Addr) : ReadResult × List U8 :=
  if !moment.peerKnown then (.unknownPeer, s.input)
  else
    match nextFrame (s.packetLimit moment) s.input with
    | (none, rest) => (.removed, rest)
    | (some frame, rest) =>
      match keys with
      | some keys =>
        match P.decryptPacket keys frame with
        | none => (.unverified, rest)
        | some payload => (.data payload, rest)
      | none =>
        let key := (s.entry.bind (·.obfuscationKey)).getD (.replicate 32 0)
        (.data (P.obfuscateData key frame), rest)

/-- `receive`, with the sequence number of the entry.  Without an entry nothing is checked. -/
def receive (P : ListenPrimitives) (moment : ListenMoment) (keys : Option SharedKeys)
    (s : ListenState Addr) : Option SessionCode × ListenState Addr :=
  let s := if moment.removed then { s with entry := none } else s
  match s.readTcp P moment keys with
  | (.unknownPeer, rest) | (.unverified, rest) => (none, { s with input := rest })
  | (.removed, rest) => (none, { s with input := rest, entry := none })
  | (.data payload, rest) =>
    match P.deserialize payload with
    | none => (none, { s with input := rest, entry := none })
    | some (seq, code) =>
      match s.entry with
      | none => (some code, { s with input := rest })
      | some conn =>
        match conn.receive moment.config moment.now seq code.checks with
        | none => (none, { s with input := rest, entry := none })
        | some conn => (some code, { s with input := rest, entry := some conn })

/-- `return remove_connection(..)`. -/
def close (s : ListenState Addr) : ListenState Addr := { s with phase := .returned, entry := none }

/-- The next question for a username. -/
def askUsername (tries : ℕ) (registration : Bool) (s : ListenState Addr) : ListenState Addr :=
  if tries = 0 then s.close else { s with phase := .username tries registration }

/-- The next question for a new password. -/
def askRegister (username : String) (device : Option Device) (tries : ℕ) (s : ListenState Addr) :
    ListenState Addr :=
  if tries = 0 then s.close else { s with phase := .register username device tries }

/-- `key_exchange` stores the new keys. -/
def storeKeys (P : ListenPrimitives) (moment : ListenMoment) (reply : List U8) (s : ListenState Addr) :
    ListenState Addr :=
  { s with
    keys := some (P.deriveSharedSecret reply)
    entry := s.entry.map (·.updateClientKeys (P.deriveSharedSecret reply) moment.now) }

/-- `authenticate_client`, after which the loop starts. -/
def enter (moment : ListenMoment) (username : String) (device : Option Device) (s : ListenState Addr) :
    ListenState Addr :=
  match s.entry with
  | none => { s with phase := .session }
  | some conn =>
    match conn.authenticateClient moment.loginConfig username device moment.role moment.id
        moment.fileStreams moment.now with
    | none => { s with phase := .panicked }
    | some conn => { s with phase := .session, entry := some conn }

/-- The handlers that return; any other goes on with the loop. -/
def handle (moment : ListenMoment) (code : SessionCode) (s : ListenState Addr) : ListenState Addr :=
  match code with
  | .disconnect => s.close
  | .accountDeleteRequest password =>
    if moment.verifyPassword password then s.close else { s with phase := .session }
  | .keyExchangeReply _ | .version _ | .username .. | .register _ | .login _ | .text _ =>
    { s with phase := .session }

/-- What `listen_client` does with the result of the read it waits in. -/
def advance (P : ListenPrimitives) (moment : ListenMoment) (phase : ListenPhase)
    (result : Option SessionCode) (s : ListenState Addr) : ListenState Addr :=
  match phase with
  | .keyExchange invalidPackets =>
    match result with
    | none => s.close
    | some (.keyExchangeReply reply) =>
      let s := s.storeKeys P moment reply
      if (P.deriveSharedSecret reply).1.isEmpty ∨ (P.deriveSharedSecret reply).2.isEmpty then s.close
      else if moment.checkClientVersion then { s with phase := .version 0 }
      else s.askUsername moment.maxAuthTries moment.allowRegister
    | some _ => if invalidPackets = 3 then s.close else { s with phase := .keyExchange (invalidPackets + 1) }
  | .version invalidPackets =>
    match result with
    | none => s.close
    | some (.version version) =>
      if version ≠ moment.version then s.close else s.askUsername moment.maxAuthTries moment.allowRegister
    | some _ => if invalidPackets = 3 then s.close else { s with phase := .version (invalidPackets + 1) }
  | .username tries registration =>
    match result with
    | some (.username username device) =>
      if moment.usernameValid username then
        let s := { s with entry := s.entry.map (Connection.set (.username username)) }
        if !moment.userExists username && registration then s.askRegister username device moment.maxAuthTries
        else { s with phase := .login username device }
      else s.askUsername (tries - 1) registration
    | _ => s.askUsername (tries - 1) registration
  | .register username device tries =>
    match result with
    | some (.register password) =>
      if moment.validatePassword password then s.enter moment username device
      else s.askRegister username device (tries - 1)
    | _ => s.close
  | .login username device =>
    match result with
    | some (.login password) =>
      if moment.verifyPassword password then s.enter moment username device else s.close
    | _ => s.close
  | .session =>
    match result with
    | none => { s with phase := .returned }
    | some code =>
      -- The entry is unwrapped to see whether a rekey is due.
      if s.entry.isNone then { s with phase := .panicked }
      else if moment.rekeyDue then { s with phase := .rekey 0 code }
      else s.handle moment code
  | .rekey invalidPackets read =>
    match result with
    | none => s.handle moment read
    | some (.keyExchangeReply reply) => (s.storeKeys P moment reply).handle moment read
    | some _ =>
      if invalidPackets = 3 then s.handle moment read
      else { s with phase := .rekey (invalidPackets + 1) read }
  | .returned | .panicked => s

end ListenState

/-- A read ends, or the two seconds of an untrusted read are over: some bytes may be read by
then, or all of the packet and its checks made. -/
inductive ListenAction
  | read (moment : ListenMoment)
  | timeout (moment : ListenMoment) (lost : ℕ) (checked : Bool)

/-- `untrusted_read` is under a timeout. -/
def ListenPhase.untrusted : ListenPhase → Bool
  | .keyExchange _ | .version _ | .rekey .. => true
  | .username .. | .register .. | .login .. | .session | .returned | .panicked => false

namespace ListenState

variable {Addr : Type}

/-- One step. -/
def step (P : ListenPrimitives) (s : ListenState Addr) : ListenAction → Option (ListenState Addr)
  | .read moment =>
    if s.phase = .returned ∨ s.phase = .panicked then none
    else
      let (result, s') := s.receive P moment s.keys
      some (s'.advance P moment s.phase result)
  | .timeout moment lost checked =>
    if s.phase.untrusted then
      let s' := if checked then (s.receive P moment s.keys).2 else { s with input := s.input.drop lost }
      some (s'.advance P moment s.phase none)
    else none

/-- The start of `listen_client`: it inserts the entry and begins the key exchange. -/
def start (conn : Connection Addr) (input : List U8) : ListenState Addr :=
  ⟨.keyExchange 0, input, some conn, none⟩

/-- After the return the client has no entry. -/
def Removed (s : ListenState Addr) : Prop := s.phase = .returned → s.entry = none

/-- Packets of one byte that is the packet; an empty frame is no packet, and fails its
MAC. -/
def plainPrimitives : ListenPrimitives where
  decryptPacket _ frame := if frame = [] then none else some frame
  obfuscateData _ frame := frame
  deserialize payload :=
    match payload with
    | [1] => some (1, .keyExchangeReply [])
    | [2] => some (2, .username "anna" none)
    | [3] => some (3, .login "secret")
    | _ => none
  deriveSharedSecret _ := ([0], [0])

/-- A moment at which anna has an account, and nothing else happens. -/
def plainMoment : ListenMoment :=
  ⟨⟨1000, true, 0, 5, 100, 100, 5, Lobby.keepingConfig⟩, 1000, false, "", 3, true, fun _ => true,
    fun _ => true, fun _ => true, fun _ => true, ⟨0, 100⟩, .user, 0, 0, 0, false, true, false⟩

/-- The entry of a client that has just connected. -/
def plainEntry : Connection ℕ := .start 0 0 0 (.replicate 32 0) 0

/-- Anna logs in. -/
def login : List U8 := [0, 0, 0, 1, 1, 0, 0, 0, 1, 2, 0, 0, 0, 1, 3]

/-- **The entry may be left behind**: anna logs in and sends an empty frame. -/
theorem entry_left : ¬∀ (P : ListenPrimitives) (conn : Connection ℕ) (input : List U8)
    (actions : List ListenAction) (s : ListenState ℕ),
    exec (step P) (start conn input) actions = some s → s.Removed := by
  intro h
  have hruns : (exec (step plainPrimitives) (start plainEntry (login ++ [0, 0, 0, 0]))
      (List.replicate 4 (.read plainMoment))).map (fun s => (s.phase, s.entry.isNone)) =
      some (.returned, false) := by decide +kernel
  obtain ⟨s, hs, heq⟩ := Option.map_eq_some_iff.1 hruns
  obtain ⟨hphase, hentry⟩ := Prod.mk.inj heq
  have hnone := h plainPrimitives plainEntry _ _ s hs hphase
  rw [hnone] at hentry
  cases hentry

/-- In the loop the socket has its peer, and the next frame passes its MAC. -/
def Verified (P : ListenPrimitives) (s : ListenState Addr) : ListenAction → Prop
  | .read moment => s.phase = .session → moment.removed = false → moment.peerKnown = true ∧
      ∀ keys ∈ s.keys, ∀ frame ∈ (nextFrame (s.packetLimit moment) s.input).1,
        (P.decryptPacket keys frame).isSome = true
  | .timeout .. => True

instance (P : ListenPrimitives) (s : ListenState Addr) (a : ListenAction) : Decidable (s.Verified P a) :=
  match a with
  | .read moment => inferInstanceAs (Decidable (s.phase = .session → moment.removed = false →
      moment.peerKnown = true ∧ ∀ keys ∈ s.keys,
        ∀ frame ∈ (nextFrame (s.packetLimit moment) s.input).1, (P.decryptPacket keys frame).isSome = true))
  | .timeout .. => .isTrue trivial

variable {P : ListenPrimitives} {moment : ListenMoment} {s s' : ListenState Addr}

/-- **A read that fails leaves no entry**, if the socket has its peer and the frame passes its
MAC. -/
theorem receive_none {keys : Option SharedKeys} (hremoved : moment.removed = false)
    (hpeer : moment.peerKnown = true)
    (hframe : ∀ k ∈ keys, ∀ frame ∈ (nextFrame (s.packetLimit moment) s.input).1,
      (P.decryptPacket k frame).isSome = true)
    (h : (s.receive P moment keys).1 = none) : (s.receive P moment keys).2.entry = none := by
  have hread : ∀ rest, s.readTcp P moment keys ≠ (.unknownPeer, rest) ∧
      s.readTcp P moment keys ≠ (.unverified, rest) := by
    intro rest
    unfold readTcp
    rw [hpeer]
    generalize nextFrame (s.packetLimit moment) s.input = next at hframe
    obtain ⟨frame, rest'⟩ := next
    cases frame with
    | none => exact ⟨fun h => (nomatch h), fun h => (nomatch h)⟩
    | some frame =>
      cases keys with
      | none => exact ⟨fun h => (nomatch h), fun h => (nomatch h)⟩
      | some k =>
        obtain ⟨payload, hpayload⟩ := Option.isSome_iff_exists.1 (hframe k rfl frame rfl)
        simp only [hpayload]
        exact ⟨fun h => (nomatch h), fun h => (nomatch h)⟩
  unfold receive at h ⊢
  rw [hremoved] at h ⊢
  simp only [Bool.false_eq_true, if_false] at h ⊢
  split
  · rename_i rest hresult
    exact absurd hresult (hread rest).1
  · rename_i rest hresult
    exact absurd hresult (hread rest).2
  · rfl
  · rename_i payload rest hresult
    rw [hresult] at h
    dsimp only at h
    split
    · rfl
    · rename_i seq code hdecode
      rw [hdecode] at h
      dsimp only at h
      cases hentry : s.entry with
      | none => rfl
      | some conn =>
        rw [hentry] at h
        dsimp only at h ⊢
        split
        · rfl
        · rename_i conn' hconn'
          rw [hconn'] at h
          cases h

/-- An entry that was removed is not there after a packet. -/
theorem receive_removed {keys : Option SharedKeys} (hremoved : moment.removed = true) :
    (s.receive P moment keys).2.entry = none := by
  unfold receive
  rw [hremoved]
  simp only [if_true]
  split
  · rfl
  · rfl
  · rfl
  · split <;> rfl

/-! ### Every other return removes the entry -/

/-- A connection that is closed is removed. -/
theorem close_removed (s : ListenState Addr) : s.close.Removed := fun _ => rfl

/-- One that goes on may have its entry. -/
theorem removed_of_phase (h : s.phase ≠ .returned) : s.Removed := fun hreturned => absurd hreturned h

/-- Asking for a name goes on, or removes. -/
theorem askUsername_removed (tries : ℕ) (registration : Bool) (s : ListenState Addr) :
    (s.askUsername tries registration).Removed := by
  unfold askUsername
  split
  · exact close_removed s
  · exact removed_of_phase (by simp)

/-- Asking for a password goes on, or removes. -/
theorem askRegister_removed (username : String) (device : Option Device) (tries : ℕ)
    (s : ListenState Addr) : (s.askRegister username device tries).Removed := by
  unfold askRegister
  split
  · exact close_removed s
  · exact removed_of_phase (by simp)

/-- Entering goes on, or removes. -/
theorem enter_removed (moment : ListenMoment) (username : String) (device : Option Device)
    (s : ListenState Addr) : (s.enter moment username device).Removed := by
  unfold enter
  split
  · exact removed_of_phase (by simp)
  · split <;> exact removed_of_phase (by simp)

/-- Handling a packet goes on, or removes. -/
theorem handle_removed (moment : ListenMoment) (code : SessionCode) (s : ListenState Addr) :
    (s.handle moment code).Removed := by
  unfold handle
  split
  · exact close_removed s
  · split
    · exact close_removed s
    · exact removed_of_phase (by simp)
  all_goals exact removed_of_phase (by simp)

/-- **What follows a read removes the entry before it returns**, except where the loop relies
on the read. -/
theorem advance_removed {phase : ListenPhase} {result : Option SessionCode}
    (hended : phase ≠ .returned ∧ phase ≠ .panicked)
    (hloop : phase = .session → result = none → s.entry = none) :
    (s.advance P moment phase result).Removed := by
  cases phase with
  | keyExchange invalidPackets =>
    unfold advance
    dsimp only
    split
    · exact close_removed s
    · split
      · exact close_removed _
      · split
        · exact removed_of_phase (by simp)
        · exact askUsername_removed _ _ _
    · split
      · exact close_removed s
      · exact removed_of_phase (by simp)
  | version invalidPackets =>
    unfold advance
    dsimp only
    split
    · exact close_removed s
    · split
      · exact close_removed s
      · exact askUsername_removed _ _ _
    · split
      · exact close_removed s
      · exact removed_of_phase (by simp)
  | username tries registration =>
    unfold advance
    dsimp only
    split
    · split
      · split
        · exact askRegister_removed _ _ _ _
        · exact removed_of_phase (by simp)
      · exact askUsername_removed _ _ _
    · exact askUsername_removed _ _ _
  | register username device tries =>
    unfold advance
    dsimp only
    split
    · split
      · exact enter_removed _ _ _ _
      · exact askRegister_removed _ _ _ _
    · exact close_removed s
  | login username device =>
    unfold advance
    dsimp only
    split
    · split
      · exact enter_removed _ _ _ _
      · exact close_removed s
    · exact close_removed s
  | session =>
    cases result with
    | none => exact fun _ => hloop rfl rfl
    | some code =>
      unfold advance
      dsimp only
      split
      · exact removed_of_phase (by simp)
      · split
        · exact removed_of_phase (by simp)
        · exact handle_removed _ _ _
  | rekey invalidPackets read =>
    unfold advance
    dsimp only
    split
    · exact handle_removed _ _ _
    · exact handle_removed _ _ _
    · split
      · exact handle_removed _ _ _
      · exact removed_of_phase (by simp)
  | returned => exact absurd rfl hended.1
  | panicked => exact absurd rfl hended.2

/-- **A step under the condition removes the entry before it returns.** -/
theorem step_removed {a : ListenAction} (hcond : s.Verified P a) (h : s.step P a = some s') :
    s'.Removed := by
  cases a with
  | read moment =>
    rw [step] at h
    split_ifs at h with hended
    obtain rfl := Option.some.inj h
    refine advance_removed (not_or.1 hended) fun hphase hnone => ?_
    rcases Bool.eq_false_or_eq_true moment.removed with hremoved | hremoved
    · exact receive_removed hremoved
    · obtain ⟨hpeer, hframe⟩ := hcond hphase hremoved
      exact receive_none hremoved hpeer hframe hnone
  | timeout moment lost checked =>
    by_cases huntrusted : s.phase.untrusted = true
    · rw [step, if_pos huntrusted] at h
      obtain rfl := Option.some.inj h
      -- None of the three phases is under a timeout.
      refine advance_removed ⟨fun hphase => ?_, fun hphase => ?_⟩ fun hphase _ => ?_
      · rw [hphase] at huntrusted
        cases huntrusted
      · rw [hphase] at huntrusted
        cases huntrusted
      · rw [hphase] at huntrusted
        cases huntrusted
    · rw [step, if_neg huntrusted] at h
      cases h

/-- **The entry is gone when `listen_client` returns.**  Whatever bytes the peer sends, and
wherever the session is: if in the loop the socket has its peer and every whole frame
within the limit passes its MAC, there is no entry after the return. -/
theorem entry_removed (P : ListenPrimitives) (conn : Connection Addr) (input : List U8)
    (actions : List ListenAction) (s : ListenState Addr)
    (hrun : exec (step P) (start conn input) actions = some s)
    (hmeets : Meets (step P) (Verified P) (start conn input) actions) : s.Removed := by
  have hstart : (start conn input).Removed := removed_of_phase (by simp [start])
  exact exec_induct (fun _ _ _ _ hcond h => step_removed hcond h) hstart hmeets hrun

/-- Anna logs in and closes the socket. -/
theorem entry_removed_closed : ∃ s, exec (step plainPrimitives) (start plainEntry login)
    (List.replicate 4 (.read plainMoment)) = some s ∧ s.phase = .returned ∧ s.entry = none := by
  have hruns : (exec (step plainPrimitives) (start plainEntry login)
      (List.replicate 4 (.read plainMoment))).map (·.phase) = some .returned := by decide +kernel
  obtain ⟨s, hs, hphase⟩ := Option.map_eq_some_iff.1 hruns
  exact ⟨s, hs, hphase, entry_removed plainPrimitives plainEntry login _ s hs (by decide +kernel) hphase⟩

end ListenState

end Why2
