/-
# What texts the server passes on

`receive` (`chat/src/network/mod.rs`) takes the control characters out of a text and
checks its length and the time since the sender's last one; the handlers of
`chat/src/network/server/mod.rs` then store the text or pass it on.  The texts come
in four packets: `MessageRequest`, `PrivateMessageRequest`, `Re` and `EditRequest`.

The stripping knows all four, the other checks only three: a `Re` is neither measured
nor counted (`reply_unchecked`).  Otherwise every text that is stored or passed on is
within the limit, clean and counted (`texts_checked`).  A sender whose entry is gone is
not checked at all, but then the loop of `listen_client` panics on the missing entry
before it comes to the handlers.

A packet is checked and handled in one action, with the configuration of that moment.
Credit is a rational number here, and an `f32` in the source.
-/

import Why2.Chat.Convergence

namespace Why2

open Lib

/-- The packets with a text, and any other; some of these cost no credit. -/
inductive TextCode
  | messageRequest (text : String) (reply : Option U64)
  | privateMessageRequest (text : String) (id : ℕ)
  | re (message : String)
  | editRequest (messageId : U64) (text : String)
  | other (free : Bool)
deriving DecidableEq

namespace TextCode

/-- The stripping of `receive`. -/
def strip : TextCode → TextCode
  | .messageRequest text reply => .messageRequest (Why2.strip text) reply
  | .privateMessageRequest text id => .privateMessageRequest (Why2.strip text) id
  | .re message => .re (Why2.strip message)
  | .editRequest messageId text => .editRequest messageId (Why2.strip text)
  | .other free => .other free

/-- The text that the length and gap checks of `receive` look at. -/
def checked : TextCode → Option String
  | .messageRequest text _ | .privateMessageRequest text _ | .editRequest _ text => some text
  | .re _ | .other _ => none

/-- The text of a packet. -/
def text : TextCode → Option String
  | .messageRequest text _ | .privateMessageRequest text _ | .re text | .editRequest _ text => some text
  | .other _ => none

/-- The packets that cost no credit. -/
def isFree : TextCode → Bool
  | .other free => free
  | .messageRequest .. | .privateMessageRequest .. | .re _ | .editRequest .. => false

end TextCode

/-- What the checks and the handlers read of the configuration. -/
structure TextConfig where
  maxMessageLength : ℕ
  spamProtection : Bool
  minMessageDelay : ℕ
  maxMessageDelayViolations : ℕ
  maxPacketRate : ℚ
  maxPacketBurst : ℚ
  maxPacketRateViolations : ℕ
  lobby : LobbyConfig

namespace Connection

variable {Addr : Type}

/-- `take_credit`: whether the connection has to wait. -/
def takeCredit (rate burst : ℚ) (now : Instant) : Connection Addr → Bool × Connection Addr
  | .nonAuthenticated conn => (false, .nonAuthenticated conn)
  | .authenticated conn =>
    let rate := max rate (1 / 1000)
    let burst := max burst 1
    let credit := min (conn.credit + (now - conn.refill : ℚ) / 1000 * rate) burst - 1
    if 0 ≤ credit then (false, .authenticated { conn with credit, refill := now, throttles := 0 })
    else (true, .authenticated { conn with credit, refill := now, throttles := conn.throttles + 1 })

/-- `Connection::throttles`. -/
def throttles : Connection Addr → Option ℕ
  | .authenticated conn => some conn.throttles
  | .nonAuthenticated _ => none

/-- The checks of a text's length and of the gap: whether they end the connection. -/
def checkText (config : TextConfig) (now : Instant) (text : String) (conn : Connection Addr) :
    Bool × Connection Addr :=
  if config.maxMessageLength < text.utf8ByteSize then (true, conn.set (.lastActivity now))
  else
    match conn with
    | .nonAuthenticated conn => (false, .nonAuthenticated { conn with lastActivity := now })
    | .authenticated conn =>
      if config.spamProtection ∧ max (now - conn.lastActivity) 0 < config.minMessageDelay then
        (config.maxMessageDelayViolations < conn.spamViolations + 1,
          .authenticated { conn with spamViolations := conn.spamViolations + 1, lastActivity := now })
      else (false, .authenticated { conn with lastActivity := now })

/-- The check of the packet rate: whether it ends the connection. -/
def checkRate (config : TextConfig) (now : Instant) (conn : Connection Addr) : Bool × Connection Addr :=
  let (wait, conn) := conn.takeCredit config.maxPacketRate config.maxPacketBurst now
  (wait && config.maxPacketRateViolations < conn.throttles.getD 0, conn)

/-- The checks of `receive` on a packet: it is passed on, or the entry is gone. -/
def receive (config : TextConfig) (now : Instant) (seq : ℕ) (code : TextCode) (conn : Connection Addr) :
    Option (Connection Addr) :=
  let (disconnect, conn) :=
    match code.checked with
    | some text => conn.checkText config now text
    | none => (false, conn)
  let (flood, conn) :=
    if !disconnect && config.spamProtection && !code.isFree then conn.checkRate config now
    else (false, conn)
  (conn.checkSeq seq).bind fun conn => if disconnect || flood then none else some conn

end Connection

/-- What `listen_client` keeps of the client itself. -/
structure Listener where
  username : String
  id : ℕ
  role : Role
  channel : Option String
deriving DecidableEq

/-- A text that was stored or passed on, the settings at that moment, and whether the sender's
entry shows that it was counted. -/
structure Passed where
  text : String
  maxMessageLength : ℕ
  spamProtection : Bool
  counted : Bool
deriving DecidableEq

/-- The policy for texts. -/
structure Passed.Lawful (p : Passed) : Prop where
  length_le : p.text.utf8ByteSize ≤ p.maxMessageLength
  clean : Clean p.text
  counted : p.spamProtection = true → p.counted = true

/-- The connections, the tasks that listen to a client, and the history; the texts that were
stored or passed on. -/
structure TextServer (Addr : Type) where
  table : Connections Addr
  listeners : Addr → Option Listener
  messages : Messages
  passed : List Passed

/-- What happens: a client has logged in, its listener gets a packet or moves it to a channel,
another task sets a field of its entry, removes the entry, or aborts the listener in the
end. -/
inductive TextAction (Addr : Type)
  | login (a : Addr) (conn : Authenticated Addr) (listener : Listener)
  | packet (a : Addr) (config : TextConfig) (now : Instant) (seq : ℕ) (code : TextCode)
  | channel (a : Addr) (channel : Option String) (now : Instant)
  | set (a : Addr) (update : Connection.FieldUpdate)
  | remove (a : Addr)
  | abort (a : Addr)

namespace TextServer

variable {Addr : Type} [DecidableEq Addr]

/-- The entry shows that a text was counted at this moment: the time is noted, and a gap that
was too short is a violation more. -/
def counted (config : TextConfig) (now : Instant) (before after : Option (Connection Addr)) : Bool :=
  match before, after with
  | some (.authenticated conn), some (.authenticated conn') =>
    conn'.lastActivity = now && (config.minMessageDelay ≤ max (now - conn.lastActivity) 0 ||
      conn'.spamViolations = conn.spamViolations + 1)
  | _, _ => false

/-- The texts a change of the history stores. -/
def storedTexts (m m' : Messages) : List String :=
  (m'.history.records.filter (· ∉ m.history.records)).map (·.text)

/-- The texts of a packet to everybody. -/
def updateTexts : Option Update → List String
  | some (.message text ..) | some (.edited _ text) => [text]
  | some (.deleted _) | some (.heart ..) | some (.pinned ..) | none => []

/-- `PrivateMessageRequest` and `Re`, once the recipient is known. -/
def privateMessage (s : TextServer Addr) (sender : Sender) (recipient : ℕ) (text : String) :
    List String × TextServer Addr :=
  match s.table.byId recipient with
  | none => ([], s)
  | some (b, _) =>
    if recipient = sender.id then ([], s)
    else ([text], { s with table := s.table.alter (·.set (.lastPm (some sender.id))) b })

/-- The handler of a packet: the texts it stores or passes on. -/
def handle (s : TextServer Addr) (a : Addr) (config : TextConfig) (listener : Listener) (code : TextCode) :
    List String × TextServer Addr :=
  let session := s.table.session a
  let sender : Sender := ⟨listener.username, listener.id, (session.map (·.role)).getD listener.role,
    session.any (·.muted), listener.channel⟩
  match code with
  | .messageRequest text reply =>
    let (update, messages) := config.lobby.messageRequest sender text reply s.messages
    (updateTexts update ++ storedTexts s.messages messages, { s with messages })
  | .editRequest messageId text =>
    let (update, messages) := LobbyConfig.editRequest sender messageId text s.messages
    (updateTexts update ++ storedTexts s.messages messages, { s with messages })
  | .privateMessageRequest text id => if sender.muted then ([], s) else s.privateMessage sender id text
  | .re message =>
    if sender.muted then ([], s)
    else
      match session.bind (·.lastPm) with
      | none => ([], s)
      | some recipient => s.privateMessage sender recipient message
  | .other _ => ([], s)

/-- A listener gets a packet.  It ends when `receive` ends the connection, and panics when its
entry is gone. -/
def packet (s : TextServer Addr) (a : Addr) (config : TextConfig) (listener : Listener) (now : Instant)
    (seq : ℕ) (code : TextCode) : TextServer Addr :=
  let code := code.strip
  let before := s.table.lookup a
  match before.bind fun conn => conn.receive config now seq code with
  | none => { s with table := s.table.erase a, listeners := Function.update s.listeners a none }
  | some conn =>
    let (texts, s) := { s with table := s.table.insert a conn }.handle a config listener code
    { s with passed := s.passed ++ texts.map fun text =>
        ⟨text, config.maxMessageLength, config.spamProtection, counted config now before (some conn)⟩ }

/-- One step. -/
def step (s : TextServer Addr) : TextAction Addr → Option (TextServer Addr)
  | .login a conn listener =>
    some { s with
      table := s.table.insert a (.authenticated conn)
      listeners := Function.update s.listeners a (some listener) }
  | .packet a config now seq code => do
    let listener ← s.listeners a
    return s.packet a config listener now seq code
  | .channel a channel now => do
    let listener ← s.listeners a
    return { s with
      table := s.table.alter (fun conn => (conn.updateClientChannel channel now).getD conn) a
      listeners := Function.update s.listeners a (some { listener with channel }) }
  | .set a update => some { s with table := s.table.alter (·.set update) a }
  | .remove a => some { s with table := s.table.erase a }
  | .abort a => some { s with listeners := Function.update s.listeners a none }

/-- Nobody is connected. -/
def start (messages : Messages) : TextServer Addr := ⟨∅, fun _ => none, messages, []⟩

/-- Settings with spam protection, and texts of three bytes. -/
def shortConfig : TextConfig := ⟨3, true, 1000, 5, 100, 100, 5, Lobby.keepingConfig⟩

/-- Anna and ben are connected, ben writes to anna, and she replies with a longer text. -/
def longReply : List (TextAction (ℕ × ℕ)) :=
  [.login (0, 0) (ModerationServer.session "anna" .user 0) ⟨"anna", 0, .user, none⟩,
    .login (1, 0) (ModerationServer.session "ben" .user 1) ⟨"ben", 1, .user, none⟩,
    .packet (1, 0) shortConfig 5000 1 (.privateMessageRequest "hi" 0),
    .packet (0, 0) shortConfig 6000 1 (.re "hello")]

/-- **A reply is not checked.** -/
theorem reply_unchecked : ¬∀ (messages : Messages) (actions : List (TextAction (ℕ × ℕ)))
    (s : TextServer (ℕ × ℕ)), exec step (start messages) actions = some s →
    ∀ p ∈ s.passed, p.Lawful := by
  intro h
  have hruns : (exec step (start (.start [])) longReply).map (·.passed) =
      some [⟨"hi", 3, true, true⟩, ⟨"hello", 3, true, false⟩] := by decide +kernel
  obtain ⟨s, hs, hpassed⟩ := Option.map_eq_some_iff.1 hruns
  have hlawful := h (.start []) longReply s hs ⟨"hello", 3, true, false⟩
    (hpassed ▸ List.mem_cons_of_mem _ (List.mem_singleton_self _))
  exact absurd hlawful.length_le (by decide +kernel)

end TextServer

/-! ### What the checks leave of an entry -/

namespace Connection

variable {Addr : Type} {config : TextConfig} {now : Instant} {conn : Authenticated Addr}

/-- The two sessions note the same texts. -/
structure SameTexts (conn conn' : Authenticated Addr) : Prop where
  lastActivity : conn'.lastActivity = conn.lastActivity
  spamViolations : conn'.spamViolations = conn.spamViolations

/-- The rate changes nothing else of a session. -/
theorem checkRate_authenticated (config : TextConfig) (now : Instant) (conn : Authenticated Addr) :
    ∃ conn', (checkRate config now (.authenticated conn)).2 = .authenticated conn' ∧
      SameTexts conn conn' := by
  unfold checkRate takeCredit
  dsimp only
  split <;> exact ⟨_, rfl, rfl, rfl⟩

/-- A number that is accepted changes nothing else of a session. -/
theorem checkSeq_authenticated {seq : ℕ} {conn' : Connection Addr}
    (h : checkSeq seq (.authenticated conn) = some conn') :
    ∃ conn'', conn' = .authenticated conn'' ∧ SameTexts conn conn'' := by
  unfold checkSeq at h
  split_ifs at h
  obtain rfl := Option.some.inj h
  exact ⟨_, rfl, rfl, rfl⟩

/-- A text that passes its check is within the limit, and is noted. -/
theorem checkText_authenticated {text : String} {conn' : Connection Addr}
    (h : checkText config now text (.authenticated conn) = (false, conn')) :
    text.utf8ByteSize ≤ config.maxMessageLength ∧
      ∃ conn'', conn' = .authenticated conn'' ∧ conn''.lastActivity = now ∧
        (config.spamProtection = true → config.minMessageDelay ≤ max (now - conn.lastActivity) 0 ∨
          conn''.spamViolations = conn.spamViolations + 1) := by
  unfold checkText at h
  split at h
  · cases (Prod.mk.inj h).1
  · rename_i hlength
    refine ⟨Nat.le_of_not_lt hlength, ?_⟩
    dsimp only at h
    split at h
    · obtain ⟨-, rfl⟩ := Prod.mk.inj h
      exact ⟨_, rfl, rfl, fun _ => .inr rfl⟩
    · rename_i hgap
      obtain ⟨-, rfl⟩ := Prod.mk.inj h
      exact ⟨_, rfl, rfl, fun hspam => .inl (not_lt.1 fun hlt => hgap ⟨hspam, hlt⟩)⟩

/-- **A text that `receive` passes on was within the limit and counted**, if its packet is
one of those that are checked. -/
theorem receive_checked {seq : ℕ} {code : TextCode} {text : String} {conn' : Connection Addr}
    (hcode : code.checked = some text)
    (h : receive config now seq code (.authenticated conn) = some conn') :
    text.utf8ByteSize ≤ config.maxMessageLength ∧ (config.spamProtection = true →
      TextServer.counted config now (some (.authenticated conn)) (some conn') = true) := by
  unfold receive at h
  rw [hcode] at h
  dsimp only at h
  generalize htext : checkText config now text (.authenticated conn) = result at h
  obtain ⟨disconnect, first⟩ := result
  dsimp only at h
  generalize hrated : (if (!disconnect && config.spamProtection && !code.isFree) = true then
    checkRate config now first else (false, first)) = rated at h
  obtain ⟨flood, second⟩ := rated
  obtain ⟨third, hthird, hrest⟩ := Option.bind_eq_some_iff.1 h
  split_ifs at hrest with hend
  obtain rfl := Option.some.inj hrest
  obtain ⟨rfl, -⟩ := Bool.or_eq_false_iff.1 (Bool.eq_false_iff.2 hend)
  obtain ⟨hlength, first, rfl, htime, hgap⟩ := checkText_authenticated htext
  refine ⟨hlength, fun hspam => ?_⟩
  -- The packet rate and the sequence number leave both fields alone.
  obtain ⟨second, rfl, hrate⟩ : ∃ conn', second = .authenticated conn' ∧ SameTexts first conn' := by
    split_ifs at hrated
    · obtain ⟨conn', hconn', hsame⟩ := checkRate_authenticated config now first
      rw [hrated] at hconn'
      exact ⟨conn', hconn', hsame⟩
    · obtain ⟨-, rfl⟩ := Prod.mk.inj hrated
      exact ⟨first, rfl, rfl, rfl⟩
  obtain ⟨third, rfl, hseq⟩ := checkSeq_authenticated hthird
  have htime' : third.lastActivity = now := by rw [hseq.lastActivity, hrate.lastActivity, htime]
  have hgap' : config.minMessageDelay ≤ max (now - conn.lastActivity) 0 ∨
      third.spamViolations = conn.spamViolations + 1 := by
    rw [hseq.spamViolations, hrate.spamViolations]
    exact hgap hspam
  simp only [TextServer.counted, htime', decide_true, Bool.true_and, Bool.or_eq_true,
    decide_eq_true_eq]
  exact hgap'

/-- A text logs nobody in. -/
theorem isAuthenticated_checkText (config : TextConfig) (now : Instant) (text : String)
    (c : Connection Addr) : (c.checkText config now text).2.isAuthenticated = c.isAuthenticated := by
  unfold checkText
  split
  · cases c <;> rfl
  · cases c with
    | nonAuthenticated conn => rfl
    | authenticated conn =>
      dsimp only
      split <;> rfl

/-- Nor does the rate. -/
theorem isAuthenticated_checkRate (config : TextConfig) (now : Instant) (c : Connection Addr) :
    (c.checkRate config now).2.isAuthenticated = c.isAuthenticated := by
  cases c with
  | nonAuthenticated conn => rfl
  | authenticated conn =>
    obtain ⟨conn', hconn', -⟩ := checkRate_authenticated config now conn
    rw [hconn']
    rfl

/-- The entry of a session stays one. -/
theorem isAuthenticated_receive {seq : ℕ} {code : TextCode} {c c' : Connection Addr}
    (h : receive config now seq code c = some c') : c'.isAuthenticated = c.isAuthenticated := by
  unfold receive at h
  dsimp only at h
  generalize hfirst : (match code.checked with
    | some text => checkText config now text c
    | none => (false, c)) = first at h
  have hauth : first.2.isAuthenticated = c.isAuthenticated := by
    rw [← hfirst]
    split
    · exact isAuthenticated_checkText _ _ _ _
    · rfl
  generalize hsecond : (if (!first.1 && config.spamProtection && !code.isFree) = true then
    checkRate config now first.2 else (false, first.2)) = second at h
  have hauth' : second.2.isAuthenticated = first.2.isAuthenticated := by
    rw [← hsecond]
    split
    · exact isAuthenticated_checkRate _ _ _
    · rfl
  obtain ⟨third, hthird, hrest⟩ := Option.bind_eq_some_iff.1 h
  split_ifs at hrest
  obtain rfl := Option.some.inj hrest
  unfold checkSeq at hthird
  split_ifs at hthird
  obtain rfl := Option.some.inj hthird
  rw [← hauth, ← hauth']
  cases second.2 <;> rfl

end Connection

/-! ### What the handlers make of a text -/

/-- The texts of a request, from what it sends and what is new in the history. -/
theorem forall_texts {out : Option Update} {m m' : Messages} {text : String}
    (hout : ∀ t ∈ TextServer.updateTexts out, t = text)
    (hrecords : ∀ r ∈ m'.history.records, r ∈ m.history.records ∨ r.text = text) :
    ∀ t ∈ TextServer.updateTexts out ++ TextServer.storedTexts m m', t = text := by
  intro t ht
  rcases List.mem_append.1 ht with ht | ht
  · exact hout t ht
  · obtain ⟨r, hr, rfl⟩ := List.mem_map.1 ht
    obtain ⟨hr, hnew⟩ := List.mem_filter.1 hr
    exact (hrecords r hr).resolve_left (of_decide_eq_true hnew)

/-- A message is stored as it is trimmed. -/
theorem text_messageRequest (config : LobbyConfig) (sender : Sender) (text : String) (reply : Option U64)
    (m : Messages) : ∀ t ∈ TextServer.updateTexts (config.messageRequest sender text reply m).1 ++
      TextServer.storedTexts m (config.messageRequest sender text reply m).2, t = trim text := by
  refine forall_texts (fun t ht => ?_) fun r hr => ?_
  · unfold LobbyConfig.messageRequest at ht
    split_ifs at ht
    · cases ht
    · cases ht
    · exact List.mem_singleton.1 ht
    · exact List.mem_singleton.1 ht
  · unfold LobbyConfig.messageRequest at hr
    split_ifs at hr
    · exact .inl hr
    · exact .inl hr
    · simp only [Messages.store, Messages.push, History.takeId] at hr
      split_ifs at hr
      · exact .inl hr
      · rcases List.mem_append.1 (List.mem_of_mem_drop hr) with hr | hr
        · exact .inl hr
        · rw [List.mem_singleton.1 hr]
          exact .inr rfl
    · exact .inl hr

/-- An edit is stored as it is trimmed. -/
theorem text_editRequest (sender : Sender) (messageId : U64) (text : String) (m : Messages) :
    ∀ t ∈ TextServer.updateTexts (LobbyConfig.editRequest sender messageId text m).1 ++
      TextServer.storedTexts m (LobbyConfig.editRequest sender messageId text m).2, t = trim text := by
  refine forall_texts (fun t ht => ?_) fun r hr => ?_
  · unfold LobbyConfig.editRequest at ht
    dsimp only at ht
    split_ifs at ht
    · cases ht
    · exact List.mem_singleton.1 ht
    · cases ht
  · unfold LobbyConfig.editRequest at hr
    dsimp only at hr
    split_ifs at hr
    · exact .inl hr
    · simp only [Messages.edit] at hr
      split at hr
      · exact .inl hr
      · split_ifs at hr
        · exact .inl hr
        · obtain ⟨i, hi⟩ := List.mem_iff_getElem?.1 hr
          simp only [Messages.rewrite, Messages.save, List.getElem?_modify] at hi
          obtain ⟨r', hr', heq⟩ := Option.map_eq_some_iff.1 hi
          split at heq
          · exact .inr (heq ▸ rfl)
          · exact .inl (heq ▸ List.mem_of_getElem? hr')
    · exact .inl hr

namespace TextServer

variable {Addr : Type} [DecidableEq Addr] {s s' : TextServer Addr}

/-- A private message is sent as it is. -/
theorem text_privateMessage (s : TextServer Addr) (sender : Sender) (recipient : ℕ) (text : String) :
    ∀ t ∈ (s.privateMessage sender recipient text).1, t = text := by
  unfold privateMessage
  split
  · exact fun t ht => (nomatch ht)
  · split
    · exact fun t ht => (nomatch ht)
    · exact fun t ht => List.mem_singleton.1 ht

/-- **A handler stores or passes on the text of its packet, or what is left when it is
trimmed.** -/
theorem text_handle (s : TextServer Addr) (a : Addr) (config : TextConfig) (listener : Listener)
    (code : TextCode) : ∀ t ∈ (s.handle a config listener code).1,
      ∃ text, code.text = some text ∧ (t = text ∨ t = trim text) := by
  intro t ht
  cases code with
  | messageRequest text reply => exact ⟨text, rfl, .inr (text_messageRequest _ _ _ _ _ t ht)⟩
  | editRequest messageId text => exact ⟨text, rfl, .inr (text_editRequest _ _ _ _ t ht)⟩
  | privateMessageRequest text id =>
    simp only [handle] at ht
    split at ht
    · cases ht
    · exact ⟨text, rfl, .inl (text_privateMessage _ _ _ _ t ht)⟩
  | re message =>
    simp only [handle] at ht
    split at ht
    · cases ht
    · split at ht
      · cases ht
      · exact ⟨message, rfl, .inl (text_privateMessage _ _ _ _ t ht)⟩
  | other free => cases ht

/-- The limits hold of the text of a packet: it is not of a kind that is not checked, or needs
no check. -/
def Measured (config : TextConfig) : TextCode → Prop
  | .re message => (strip message).utf8ByteSize ≤ config.maxMessageLength ∧ config.spamProtection = false
  | .messageRequest .. | .privateMessageRequest .. | .editRequest .. | .other _ => True

instance (config : TextConfig) (code : TextCode) : Decidable (Measured config code) :=
  match code with
  | .re _ => inferInstanceAs (Decidable (_ ∧ _))
  | .messageRequest .. | .privateMessageRequest .. | .editRequest .. | .other _ => .isTrue trivial

/-- No reply that would need a check. -/
def Checked (_ : TextServer Addr) : TextAction Addr → Prop
  | .packet _ config _ _ code => Measured config code
  | .login .. | .channel .. | .set .. | .remove _ | .abort _ => True

omit [DecidableEq Addr] in
instance (s : TextServer Addr) (a : TextAction Addr) : Decidable (s.Checked a) :=
  match a with
  | .packet _ config _ _ code => inferInstanceAs (Decidable (Measured config code))
  | .login .. | .channel .. | .set .. | .remove _ | .abort _ => .isTrue trivial

/-- A stripped packet has the stripped text. -/
theorem text_strip (code : TextCode) : code.strip.text = code.text.map strip := by cases code <;> rfl

omit [DecidableEq Addr] in
/-- What `receive` passes on of a sender with an entry is within the limit, and counted. -/
theorem length_le_of_receive {config : TextConfig} {now : Instant} {seq : ℕ} {code : TextCode}
    {text : String} {conn : Authenticated Addr} {conn' : Connection Addr} (hmeasured : Measured config code)
    (htext : code.strip.text = some text)
    (h : Connection.receive config now seq code.strip (.authenticated conn) = some conn') :
    text.utf8ByteSize ≤ config.maxMessageLength ∧ (config.spamProtection = true →
      counted config now (some (.authenticated conn)) (some conn') = true) := by
  cases code with
  | messageRequest | privateMessageRequest | editRequest =>
    obtain rfl := Option.some.inj htext
    exact Connection.receive_checked rfl h
  | re message =>
    obtain rfl := Option.some.inj htext
    exact ⟨hmeasured.1, fun hspam => absurd (hspam.symm.trans hmeasured.2) Bool.true_eq_false.mp⟩
  | other free => cases htext

/-- Handling lets nothing more through. -/
theorem passed_handle (s : TextServer Addr) (a : Addr) (config : TextConfig)
    (listener : Listener) (code : TextCode) : (s.handle a config listener code).2.passed = s.passed := by
  have hprivate : ∀ sender recipient text, (s.privateMessage sender recipient text).2.passed = s.passed := by
    intro sender recipient text
    unfold privateMessage
    split
    · rfl
    · split <;> rfl
  cases code with
  | messageRequest | editRequest | other => rfl
  | privateMessageRequest text id =>
    simp only [handle]
    split
    · rfl
    · exact hprivate _ _ _
  | re message =>
    simp only [handle]
    split
    · rfl
    · split
      · rfl
      · exact hprivate _ _ _

/-- The invariant: every entry is that of a session, and every text obeys the policy. -/
structure Inv (s : TextServer Addr) : Prop where
  sessions : ∀ a conn, s.table.lookup a = some conn → conn.isAuthenticated = true
  lawful : ∀ p ∈ s.passed, p.Lawful

/-- An entry that is altered stays that of a session. -/
theorem sessions_alter {table : Connections Addr} {f : Connection Addr → Connection Addr} {b : Addr}
    (hsessions : ∀ a conn, table.lookup a = some conn → conn.isAuthenticated = true)
    (hf : ∀ conn, (f conn).isAuthenticated = conn.isAuthenticated)
    (a : Addr) (conn : Connection Addr) (h : (table.alter f b).lookup a = some conn) :
    conn.isAuthenticated = true := by
  have hlookup := congrFun (Connections.lookup_alter f b table) a
  rw [hlookup] at h
  by_cases hab : a = b
  · rw [hab, Function.update_self] at h
    obtain ⟨old, hold, rfl⟩ := Option.map_eq_some_iff.1 h
    rw [hf]
    exact hsessions b old hold
  · rw [Function.update_of_ne hab] at h
    exact hsessions a conn h

/-- A session more. -/
theorem sessions_insert {table : Connections Addr} {new : Connection Addr} {b : Addr}
    (hsessions : ∀ a conn, table.lookup a = some conn → conn.isAuthenticated = true)
    (hnew : new.isAuthenticated = true) (a : Addr) (conn : Connection Addr)
    (h : (table.insert b new).lookup a = some conn) : conn.isAuthenticated = true := by
  by_cases hab : a = b
  · rw [hab, AList.lookup_insert] at h
    exact Option.some.inj h ▸ hnew
  · rw [AList.lookup_insert_ne hab] at h
    exact hsessions a conn h

/-- A session less. -/
theorem sessions_erase {table : Connections Addr} {b : Addr}
    (hsessions : ∀ a conn, table.lookup a = some conn → conn.isAuthenticated = true)
    (a : Addr) (conn : Connection Addr) (h : (table.erase b).lookup a = some conn) :
    conn.isAuthenticated = true := by
  by_cases hab : a = b
  · rw [hab, AList.lookup_erase] at h
    cases h
  · rw [AList.lookup_erase_ne hab] at h
    exact hsessions a conn h

/-- Handling leaves sessions sessions. -/
theorem sessions_handle (a : Addr) (config : TextConfig) (listener : Listener) (code : TextCode)
    (hsessions : ∀ a conn, s.table.lookup a = some conn → conn.isAuthenticated = true) :
    ∀ b conn, (s.handle a config listener code).2.table.lookup b = some conn →
      conn.isAuthenticated = true := by
  have hprivate : ∀ sender recipient text b conn,
      (s.privateMessage sender recipient text).2.table.lookup b = some conn →
      conn.isAuthenticated = true := by
    intro sender recipient text
    unfold privateMessage
    split
    · exact hsessions
    · split
      · exact hsessions
      · exact sessions_alter hsessions fun conn => by cases conn <;> rfl
  cases code with
  | messageRequest | editRequest | other => exact hsessions
  | privateMessageRequest text id =>
    simp only [handle]
    split
    · exact hsessions
    · exact hprivate _ _ _
  | re message =>
    simp only [handle]
    split
    · exact hsessions
    · split
      · exact hsessions
      · exact hprivate _ _ _

/-- **A packet keeps the policy**, if it is not a reply that would need a check. -/
theorem Inv.packet {a : Addr} {config : TextConfig} (hinv : Inv s) {code : TextCode}
    (hmeasured : Measured config code) (listener : Listener) (now : Instant) (seq : ℕ) :
    Inv (s.packet a config listener now seq code) := by
  unfold TextServer.packet
  dsimp only
  split
  · exact ⟨sessions_erase hinv.sessions, hinv.lawful⟩
  · rename_i conn' hreceive
    obtain ⟨conn, hconn, hchecks⟩ := Option.bind_eq_some_iff.1 hreceive
    have hauth := hinv.sessions a conn hconn
    have hauth' := (Connection.isAuthenticated_receive hchecks).trans hauth
    constructor
    · exact sessions_handle _ _ _ _ (sessions_insert hinv.sessions hauth')
    · intro p hp
      rw [passed_handle] at hp
      rcases List.mem_append.1 hp with hp | hp
      · exact hinv.lawful p hp
      · obtain ⟨t, ht, rfl⟩ := List.mem_map.1 hp
        obtain ⟨text, htext, ht⟩ := text_handle _ _ _ _ _ t ht
        obtain ⟨session, rfl⟩ : ∃ session, conn = .authenticated session := by
          cases conn with
          | authenticated session => exact ⟨session, rfl⟩
          | nonAuthenticated => cases hauth
        obtain ⟨hlength, hcounted⟩ := length_le_of_receive hmeasured htext hchecks
        have hclean : Clean text := by
          rw [text_strip] at htext
          obtain ⟨sent, _, rfl⟩ := Option.map_eq_some_iff.1 htext
          exact clean_strip sent
        refine ⟨?_, ?_, ?_⟩
        · rcases ht with rfl | rfl
          · exact hlength
          · exact (utf8ByteSize_trim_le text).trans hlength
        · rcases ht with rfl | rfl
          · exact hclean
          · exact hclean.trim
        · rw [hconn]
          exact hcounted

/-- **Every step keeps the policy**, if it is not a reply that would need a check. -/
theorem Inv.step {a : TextAction Addr} (hinv : Inv s) (hcond : s.Checked a)
    (h : TextServer.step s a = some s') : Inv s' := by
  cases a with
  | login a conn listener =>
    obtain rfl := Option.some.inj h
    exact ⟨sessions_insert hinv.sessions rfl, hinv.lawful⟩
  | packet a config now seq code =>
    obtain ⟨listener, -, hsome⟩ := Option.bind_eq_some_iff.1 h
    obtain rfl := Option.some.inj hsome
    exact hinv.packet hcond listener now seq
  | channel a channel now =>
    obtain ⟨listener, -, hsome⟩ := Option.bind_eq_some_iff.1 h
    obtain rfl := Option.some.inj hsome
    exact ⟨sessions_alter hinv.sessions fun conn => by cases conn <;> rfl, hinv.lawful⟩
  | set a update =>
    obtain rfl := Option.some.inj h
    exact ⟨sessions_alter hinv.sessions fun conn => by cases conn <;> cases update <;> rfl, hinv.lawful⟩
  | remove a =>
    obtain rfl := Option.some.inj h
    exact ⟨sessions_erase hinv.sessions, hinv.lawful⟩
  | abort a =>
    obtain rfl := Option.some.inj h
    exact ⟨hinv.sessions, hinv.lawful⟩

/-- **Every text is checked.**  If no reply is longer than the limit or sent under spam
protection, then every text that is stored or passed on is within the limit, has no control
character but the newline, and was counted if spam protection is on. -/
theorem texts_checked (messages : Messages) (actions : List (TextAction Addr)) (s : TextServer Addr)
    (hrun : exec step (start messages) actions = some s)
    (hmeets : Meets step Checked (start messages) actions) : ∀ p ∈ s.passed, p.Lawful := by
  have hstart : Inv (start messages : TextServer Addr) := by
    refine ⟨fun a conn h => ?_, fun p hp => ?_⟩
    · cases h
    · cases hp
  exact (exec_induct (fun _ _ _ hinv => hinv.step) hstart hmeets hrun).lawful

/-- A message is stripped, stored and counted. -/
theorem texts_checked_message :
    let actions : List (TextAction (ℕ × ℕ)) :=
      [.login (0, 0) (ModerationServer.session "anna" .user 0) ⟨"anna", 0, .user, none⟩,
        .packet (0, 0) shortConfig 5000 1 (.messageRequest "a\tb" none)]
    ∃ s, exec step (start (.start [])) actions = some s ∧
      s.passed = [⟨"a b", 3, true, true⟩, ⟨"a b", 3, true, true⟩] ∧ ∀ p ∈ s.passed, p.Lawful := by
  intro actions
  have hruns : (exec step (start (.start [])) actions).map (·.passed) =
      some [⟨"a b", 3, true, true⟩, ⟨"a b", 3, true, true⟩] := by decide +kernel
  obtain ⟨s, hs, hpassed⟩ := Option.map_eq_some_iff.1 hruns
  exact ⟨s, hs, hpassed, texts_checked (.start []) actions s hs (by decide +kernel)⟩

end TextServer

end Why2
