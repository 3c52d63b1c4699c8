/-
# Sequence numbers of the main connection

The two counters of a connection, over whole sessions: `receive` checks and
stores the number of every packet of the client, `send_tcp` numbers every
packet to it.  The handler task takes the entry through handshake, login,
rekeys and channel switches, rebuilding it each time; any number of other tasks
set fields of the entry and send, each holding the lock of the write half from
before the packet is numbered until it is written.

Every access to the entry is one action, so a run is any interleaving of all
these tasks.  A number is taken under the lock, and only its holder can write
it: this is why the order on the wire is the order of the numbers.
-/

import Why2.Chat.Connection
import Why2.Lib.Runs

namespace Why2

open Lib

variable {Addr : Type}

/-- Where the handler task is. -/
inductive SessionPhase
  | handshake
  | login
  | session
deriving DecidableEq, Repr

/-- A packet written to the client while its entry exists: its number, and whether
the client had logged in by then. -/
structure WirePacket where
  seq : ℕ
  authenticated : Bool
deriving DecidableEq, Repr

/-- One main connection, as the tasks of the server share it.  `pending` is the
number of the packet the holder of the write lock is about to write; `received`
are the numbers of the packets `receive` returned while the entry existed. -/
structure Link (Addr : Type) where
  phase : SessionPhase
  entry : Option (Connection Addr)
  writeLock : Option ℕ
  pending : Option ℕ
  received : List ℕ
  wire : List WirePacket
deriving DecidableEq

/-- How a call of `receive` ends once the number of its packet was new: it returns
the packet; a policy (message length, message gap, packet rate) ends the connection;
or the two-second timeout of `untrusted_read` cancels it while it waits for credit. -/
inductive ReceiveOutcome
  | returned
  | disconnected
  | cancelled
deriving DecidableEq, Repr

/-- What a task of the server can do to the connection in one step. -/
inductive LinkAction
  | keyExchange (keys : SharedKeys) (now : Instant)
  | authenticate (config : LoginConfig) (username : String) (device : Option Device) (role : Role)
      (id fileStreams : ℕ) (now : Instant)
  | channel (channel : Option String) (now : Instant)
  | receive (packetSeq : ℕ) (outcome : ReceiveOutcome)
  | set (update : Connection.FieldUpdate)
  | remove
  | lock (sender : ℕ)
  | number (sender : ℕ)
  | write (sender : ℕ)
  | unlock (sender : ℕ)
deriving DecidableEq

namespace Link

/-- A connection that was just accepted. -/
def start (conn : Connection Addr) : Link Addr :=
  ⟨.handshake, some conn, none, none, [], []⟩

/-- The sequence check of `receive`.  A number that is not new removes the entry;
without an entry there is no check. -/
def receive (packetSeq : ℕ) (outcome : ReceiveOutcome) (s : Link Addr) : Link Addr :=
  match s.entry with
  | none => s
  | some conn =>
    match conn.checkSeq packetSeq with
    | none => { s with entry := none }
    | some conn =>
      match outcome with
      | .returned => { s with entry := some conn, received := s.received ++ [packetSeq] }
      | .disconnected => { s with entry := none }
      | .cancelled => { s with entry := some conn }

/-- The numbering of `send_tcp`. -/
def number (s : Link Addr) : Link Addr :=
  match s.entry with
  | none => { s with pending := some 0 }
  | some conn => { s with entry := some conn.nextServerSeq.2, pending := some conn.nextServerSeq.1 }

/-- The write of `send_tcp`; what is written after the entry is gone is not kept. -/
def write (n : ℕ) (s : Link Addr) : Link Addr :=
  match s.entry with
  | none => { s with pending := none }
  | some conn => { s with pending := none, wire := s.wire ++ [⟨n, conn.isAuthenticated⟩] }

/-- One step.  The handler task exchanges keys first, logs the client in once and
then rekeys and switches channels; altering an entry that is gone does nothing.  A
task that lets go of the lock (or is aborted while it holds it) drops its packet. -/
def step (s : Link Addr) : LinkAction → Option (Link Addr)
  | .keyExchange keys now =>
    match s.phase with
    | .handshake => some { s with phase := .login, entry := s.entry.map (·.updateClientKeys keys now) }
    | .login => none
    | .session => some { s with entry := s.entry.map (·.updateClientKeys keys now) }
  | .authenticate config username device role id fileStreams now =>
    if s.phase = .login then
      match s.entry with
      | none => some { s with phase := .session }
      | some conn => (conn.authenticateClient config username device role id fileStreams now).map
          fun conn => { s with phase := .session, entry := some conn }
    else none
  | .channel channel now =>
    if s.phase = .session then
      match s.entry with
      | none => some s
      | some conn => (conn.updateClientChannel channel now).map fun conn => { s with entry := some conn }
    else none
  | .receive packetSeq outcome => some (s.receive packetSeq outcome)
  | .set update => some { s with entry := s.entry.map (·.set update) }
  | .remove => some { s with entry := none }
  | .lock sender => if s.writeLock = none then some { s with writeLock := some sender } else none
  | .number sender => if s.writeLock = some sender ∧ s.pending = none then some s.number else none
  | .write sender =>
    if s.writeLock = some sender then s.pending.map fun n => s.write n else none
  | .unlock sender =>
    if s.writeLock = some sender then some { s with writeLock := none, pending := none } else none

/-- The sequence check of the client's `receive`, at the number it has stored; the
number it stores next. -/
def clientCheck (usedSeq packetSeq : ℕ) (disconnect : Bool) : Option ℕ :=
  if packetSeq > usedSeq ∨ usedSeq = 0 ∨ disconnect then some packetSeq else none

/-! ### What one step can do -/

/-- The entry that is left, if any, has the counters it had. -/
def KeepsCounters (entry entry' : Option (Connection Addr)) : Prop :=
  ∀ conn', entry' = some conn' →
    ∃ conn, entry = some conn ∧ conn'.seq = conn.seq ∧ conn'.serverSeq = conn.serverSeq

/-- An entry that stays keeps its counters. -/
theorem keepsCounters_refl (entry : Option (Connection Addr)) : KeepsCounters entry entry :=
  fun conn' h => ⟨conn', h, rfl, rfl⟩

/-- An entry that goes has no counters left. -/
theorem keepsCounters_none (entry : Option (Connection Addr)) : KeepsCounters entry none :=
  fun conn' h => absurd h.symm (Option.some_ne_none conn')

/-- A change that leaves the counters. -/
theorem keepsCounters_map {f : Connection Addr → Connection Addr}
    (hf : ∀ c, (f c).seq = c.seq ∧ (f c).serverSeq = c.serverSeq) (entry : Option (Connection Addr)) :
    KeepsCounters entry (entry.map f) := by
  intro conn' hconn'
  obtain ⟨conn, hconn, rfl⟩ := Option.map_eq_some_iff.1 hconn'
  exact ⟨conn, hconn, hf conn⟩

/-- A step that leaves the counters, the numbers received and the wire alone, and
may drop the pending packet. -/
structure Quiet (s s' : Link Addr) : Prop where
  entry : KeepsCounters s.entry s'.entry
  received : s'.received = s.received
  wire : s'.wire = s.wire
  pending : ∀ n ∈ s'.pending, n ∈ s.pending
  phase : s'.phase ≠ .session → s.phase ≠ .session

variable {s s' : Link Addr}

/-- **What one step can do**: nothing to the counters, or log the client in, or one
of the three steps of `receive` and `send_tcp`. -/
theorem step_cases {action : LinkAction} (h : s.step action = some s') :
    Quiet s s' ∨
      (∃ conn conn', s.phase ≠ .session ∧ s.entry = some conn ∧ conn'.seq = conn.seq ∧
        conn'.serverSeq = some 0 ∧ s' = { s with phase := .session, entry := some conn' }) ∨
      (∃ packetSeq outcome, s' = s.receive packetSeq outcome) ∨
      (s.pending = none ∧ s' = s.number) ∨ ∃ n, s.pending = some n ∧ s' = s.write n := by
  cases action with
  | keyExchange keys now =>
    have hkeep := keepsCounters_map (fun c => c.updateClientKeys_counters keys now) s.entry
    cases hphase : s.phase <;> simp only [step, hphase] at h <;> cases h
    · exact .inl ⟨hkeep, rfl, rfl, fun _ hn => hn, fun _ => by simp [hphase]⟩
    · exact .inl ⟨hkeep, rfl, rfl, fun _ hn => hn, fun hne => absurd rfl hne⟩
  | authenticate config username device role id fileStreams now =>
    rw [step] at h
    split_ifs at h with hphase
    cases hentry : s.entry with
    | none =>
      rw [hentry] at h
      obtain rfl := Option.some.inj h
      exact .inl ⟨hentry ▸ keepsCounters_refl _, rfl, rfl, fun _ hn => hn, fun hne => absurd rfl hne⟩
    | some conn =>
      rw [hentry] at h
      obtain ⟨conn', hconn', rfl⟩ := Option.map_eq_some_iff.1 h
      obtain ⟨hseq, hserver⟩ := conn.authenticateClient_counters hconn'
      exact .inr (.inl ⟨conn, conn', by simp [hphase], rfl, hseq, hserver, rfl⟩)
  | channel channel now =>
    rw [step] at h
    split_ifs at h with hphase
    cases hentry : s.entry with
    | none =>
      rw [hentry] at h
      obtain rfl := Option.some.inj h
      exact .inl ⟨keepsCounters_refl _, rfl, rfl, fun _ hn => hn, fun hne => hne⟩
    | some conn =>
      rw [hentry] at h
      obtain ⟨conn', hconn', rfl⟩ := Option.map_eq_some_iff.1 h
      refine .inl ⟨fun c hc => ?_, rfl, rfl, fun _ hn => hn, fun hne => hne⟩
      obtain rfl := Option.some.inj hc
      exact ⟨conn, hentry, conn.updateClientChannel_counters hconn'⟩
  | receive packetSeq outcome => exact .inr (.inr (.inl ⟨packetSeq, outcome, (Option.some.inj h).symm⟩))
  | set update =>
    obtain rfl := Option.some.inj h
    exact .inl ⟨keepsCounters_map (fun c => c.set_counters update) s.entry, rfl, rfl, fun _ hn => hn,
      fun hne => hne⟩
  | remove =>
    obtain rfl := Option.some.inj h
    exact .inl ⟨keepsCounters_none _, rfl, rfl, fun _ hn => hn, fun hne => hne⟩
  | lock sender =>
    rw [step] at h
    split_ifs at h
    obtain rfl := Option.some.inj h
    exact .inl ⟨keepsCounters_refl _, rfl, rfl, fun _ hn => hn, fun hne => hne⟩
  | number sender =>
    rw [step] at h
    split_ifs at h with hlock
    exact .inr (.inr (.inr (.inl ⟨hlock.2, (Option.some.inj h).symm⟩)))
  | write sender =>
    rw [step] at h
    split_ifs at h
    obtain ⟨n, hn, rfl⟩ := Option.map_eq_some_iff.1 h
    exact .inr (.inr (.inr (.inr ⟨n, hn, rfl⟩)))
  | unlock sender =>
    rw [step] at h
    split_ifs at h
    obtain rfl := Option.some.inj h
    exact .inl ⟨keepsCounters_refl _, rfl, rfl, fun n hn => absurd hn.symm (Option.some_ne_none n),
      fun hne => hne⟩

/-! ### Receiving -/

/-- The numbers returned so far increase and are covered by the entry's counter. -/
structure ReceiveInv (s : Link Addr) : Prop where
  sorted : s.received.Pairwise (· < ·)
  le_seq : ∀ conn, s.entry = some conn → ∀ n ∈ s.received, n ≤ conn.seq

/-- What does not receive keeps the invariant. -/
theorem ReceiveInv.frame (hinv : s.ReceiveInv) (hreceived : s'.received = s.received)
    (hseq : ∀ conn', s'.entry = some conn' → ∃ conn, s.entry = some conn ∧ conn'.seq = conn.seq) :
    s'.ReceiveInv := by
  refine ⟨hreceived ▸ hinv.sorted, fun conn' hconn' => ?_⟩
  obtain ⟨conn, hconn, heq⟩ := hseq conn' hconn'
  rw [hreceived, heq]
  exact hinv.le_seq conn hconn

/-- `receive` returns a number above all it has returned. -/
theorem ReceiveInv.receive (hinv : s.ReceiveInv) (packetSeq : ℕ) (outcome : ReceiveOutcome) :
    (s.receive packetSeq outcome).ReceiveInv := by
  have hremoved : ({ s with entry := none } : Link Addr).ReceiveInv :=
    hinv.frame rfl fun conn' h => absurd h.symm (Option.some_ne_none conn')
  unfold Link.receive
  split
  · exact hinv
  rename_i conn hconn
  split
  · exact hremoved
  rename_i conn' hcheck
  unfold Connection.checkSeq at hcheck
  split_ifs at hcheck with hnew
  obtain rfl := Option.some.inj hcheck
  have hlt : ∀ n ∈ s.received, n < packetSeq := fun n hn => (hinv.le_seq conn hconn n hn).trans_lt hnew
  cases outcome with
  | disconnected => exact hremoved
  | cancelled =>
    refine ⟨hinv.sorted, fun conn' hconn' n hn => ?_⟩
    rw [← Option.some.inj hconn', Connection.seq_setSeq]
    exact (hlt n hn).le
  | returned =>
    constructor
    · refine List.pairwise_append.2 ⟨hinv.sorted, List.pairwise_singleton _ _, fun n hn m hm => ?_⟩
      rw [List.mem_singleton.1 hm]
      exact hlt n hn
    · rintro conn' hconn' n hn
      rw [← Option.some.inj hconn', Connection.seq_setSeq]
      rcases List.mem_append.1 hn with hn | hn
      · exact (hlt n hn).le
      · exact (List.mem_singleton.1 hn).le

/-- Every action keeps the invariant. -/
theorem ReceiveInv.step (hinv : s.ReceiveInv) {action : LinkAction} (h : s.step action = some s') :
    s'.ReceiveInv := by
  rcases step_cases h with hquiet | ⟨conn, conn', _, hconn, hseq, _, rfl⟩ | ⟨packetSeq, outcome, rfl⟩ |
    ⟨_, rfl⟩ | ⟨n, _, rfl⟩
  · refine hinv.frame hquiet.received fun c hc => ?_
    obtain ⟨c₀, hc₀, hseq, _⟩ := hquiet.entry c hc
    exact ⟨c₀, hc₀, hseq⟩
  · refine hinv.frame rfl fun c hc => ⟨conn, hconn, ?_⟩
    rw [← Option.some.inj hc, hseq]
  · exact hinv.receive packetSeq outcome
  · refine hinv.frame (by unfold number; split <;> rfl) fun c hc => ?_
    cases hconn : s.entry with
    | none =>
      simp only [number, hconn] at hc
      cases hc
    | some conn =>
      simp only [number, hconn] at hc
      refine ⟨conn, rfl, ?_⟩
      rw [← Option.some.inj hc, Connection.seq_nextServerSeq]
  · refine hinv.frame (by unfold write; split <;> rfl) fun c hc => ⟨c, ?_, rfl⟩
    unfold write at hc
    split at hc <;> exact hc

/-! ### Sending -/

/-- Before the login every packet has number 0.  From the login on the packets on
the wire are below the one about to be written, and that one is covered by the
entry's counter. -/
structure SendInv (s : Link Addr) : Prop where
  before_login : ∀ conn, s.phase ≠ .session → s.entry = some conn → conn.serverSeq = none
  nonAuthenticated : ∀ conn, s.entry = some conn → conn.serverSeq = none →
    (∀ p ∈ s.wire, p.authenticated = false) ∧ ∀ n ∈ s.pending, n = 0
  authenticated : ∀ conn k, s.entry = some conn → conn.serverSeq = some k →
    (∀ p ∈ s.wire, p.authenticated = true → p.seq ≤ k) ∧
      ∀ n ∈ s.pending, n ≤ k ∧ ∀ p ∈ s.wire, p.authenticated = true → p.seq < n
  wire_zero : ∀ p ∈ s.wire, p.authenticated = false → p.seq = 0
  wire_sorted : s.wire.Pairwise fun p q => p.authenticated = true → p.seq < q.seq

/-- Before the login nothing was sent. -/
theorem start_sendInv {conn : Connection Addr} (h : conn.serverSeq = none) : (start conn).SendInv := by
  constructor
  case before_login =>
    intro c _ hc
    rw [← Option.some.inj hc, h]
  all_goals simp [start]

/-- What does not send keeps the invariant. -/
theorem SendInv.frame (hinv : s.SendInv)
    (hentry : ∀ conn', s'.entry = some conn' →
      ∃ conn, s.entry = some conn ∧ conn'.serverSeq = conn.serverSeq)
    (hwire : s'.wire = s.wire) (hpending : ∀ n ∈ s'.pending, n ∈ s.pending)
    (hphase : s'.phase ≠ .session → s.phase ≠ .session) : s'.SendInv := by
  refine ⟨fun conn' hne hconn' => ?_, fun conn' hconn' hnone => ?_, fun conn' k hconn' hk => ?_,
    hwire ▸ hinv.wire_zero, hwire ▸ hinv.wire_sorted⟩
  all_goals
    obtain ⟨conn, hconn, hserver⟩ := hentry conn' hconn'
  · rw [hserver]
    exact hinv.before_login conn (hphase hne) hconn
  · obtain ⟨hw, hp⟩ := hinv.nonAuthenticated conn hconn (hserver ▸ hnone)
    exact ⟨hwire ▸ hw, fun n hn => hp n (hpending n hn)⟩
  · obtain ⟨hw, hp⟩ := hinv.authenticated conn k hconn (hserver ▸ hk)
    exact ⟨hwire ▸ hw, fun n hn => hwire ▸ hp n (hpending n hn)⟩

/-- At the login nothing has been written to a client that has logged in. -/
theorem SendInv.login (hinv : s.SendInv) {conn conn' : Connection Addr} (hphase : s.phase ≠ .session)
    (hconn : s.entry = some conn) (hzero : conn'.serverSeq = some 0) :
    ({ s with phase := .session, entry := some conn' } : Link Addr).SendInv := by
  obtain ⟨hw, hp⟩ := hinv.nonAuthenticated conn hconn (hinv.before_login conn hphase hconn)
  refine ⟨fun _ hne => absurd rfl hne, fun c hc hnone => ?_, fun c k hc hk => ?_, hinv.wire_zero,
    hinv.wire_sorted⟩
  · rw [← Option.some.inj hc, hzero] at hnone
    cases hnone
  · rw [← Option.some.inj hc, hzero] at hk
    obtain rfl := Option.some.inj hk
    have hnone : ∀ p ∈ s.wire, p.authenticated ≠ true := fun p hp' => by simp [hw p hp']
    exact ⟨fun p hp' hauth => absurd hauth (hnone p hp'),
      fun n hn => ⟨(hp n hn).le, fun p hp' hauth => absurd hauth (hnone p hp')⟩⟩

/-- Receiving sends nothing. -/
theorem SendInv.receive (hinv : s.SendInv) (packetSeq : ℕ) (outcome : ReceiveOutcome) :
    (s.receive packetSeq outcome).SendInv := by
  have hremoved : ({ s with entry := none } : Link Addr).SendInv :=
    hinv.frame (fun conn' h => absurd h.symm (Option.some_ne_none conn')) rfl (fun _ hn => hn) id
  unfold Link.receive
  split
  · exact hinv
  rename_i conn hconn
  split
  · exact hremoved
  rename_i conn' hcheck
  unfold Connection.checkSeq at hcheck
  split_ifs at hcheck
  obtain rfl := Option.some.inj hcheck
  cases outcome with
  | disconnected => exact hremoved
  | returned | cancelled =>
    refine hinv.frame (fun c hc => ⟨conn, hconn, ?_⟩) rfl (fun _ hn => hn) id
    rw [← Option.some.inj hc, Connection.serverSeq_setSeq]

/-- A number is taken above everything on the wire. -/
theorem SendInv.number (hinv : s.SendInv) : s.number.SendInv := by
  cases hconn : s.entry with
  | none =>
    simp only [Link.number, hconn]
    refine ⟨?_, ?_, ?_, hinv.wire_zero, hinv.wire_sorted⟩ <;> simp
  | some conn =>
    simp only [Link.number, hconn]
    cases hserver : conn.serverSeq with
    | none =>
      obtain ⟨hw, _⟩ := hinv.nonAuthenticated conn hconn hserver
      rw [conn.nextServerSeq_of_none hserver]
      refine ⟨fun c hne hc => ?_, fun c hc _ => ⟨hw, fun n hn => (Option.some.inj hn).symm⟩,
        fun c k hc hk => ?_, hinv.wire_zero, hinv.wire_sorted⟩
      · rw [← Option.some.inj hc, hserver]
      · rw [← Option.some.inj hc, hserver] at hk
        cases hk
    | some k =>
      obtain ⟨hw, _⟩ := hinv.authenticated conn k hconn hserver
      obtain ⟨hnumber, hnext⟩ := conn.nextServerSeq_of_some hserver
      refine ⟨fun c hne hc => ?_, fun c hc hnone => ?_, fun c k' hc hk' => ?_, hinv.wire_zero,
        hinv.wire_sorted⟩
      · have := hinv.before_login conn hne hconn
        rw [hserver] at this
        cases this
      · rw [← Option.some.inj hc, hnext] at hnone
        cases hnone
      · rw [← Option.some.inj hc, hnext] at hk'
        obtain rfl := Option.some.inj hk'
        refine ⟨fun p hp hauth => (hw p hp hauth).trans (Nat.le_succ k), fun n hn => ?_⟩
        obtain rfl : conn.nextServerSeq.1 = n := Option.some.inj hn
        rw [hnumber]
        exact ⟨le_rfl, fun p hp hauth => Nat.lt_succ_of_le (hw p hp hauth)⟩

/-- The packet written is above everything on the wire. -/
theorem SendInv.write (hinv : s.SendInv) {n : ℕ} (hpending : s.pending = some n) :
    (s.write n).SendInv := by
  cases hconn : s.entry with
  | none =>
    simp only [Link.write, hconn]
    refine ⟨?_, ?_, ?_, hinv.wire_zero, hinv.wire_sorted⟩ <;> simp
  | some conn =>
    simp only [Link.write, hconn]
    have hconcat : (∀ p ∈ s.wire, p.authenticated = true → p.seq < n) →
        (s.wire ++ [(⟨n, conn.isAuthenticated⟩ : WirePacket)]).Pairwise
          fun p q => p.authenticated = true → p.seq < q.seq := by
      intro hlt
      refine List.pairwise_append.2 ⟨hinv.wire_sorted, List.pairwise_singleton _ _, fun p hp q hq => ?_⟩
      rw [List.mem_singleton.1 hq]
      exact hlt p hp
    have hmem : ∀ {p}, p ∈ s.wire ++ [⟨n, conn.isAuthenticated⟩] →
        p ∈ s.wire ∨ p = ⟨n, conn.isAuthenticated⟩ := fun hp =>
      (List.mem_append.1 hp).imp_right List.mem_singleton.1
    cases hserver : conn.serverSeq with
    | none =>
      obtain ⟨hw, hzero⟩ := hinv.nonAuthenticated conn hconn hserver
      have hauth : conn.isAuthenticated = false := by rw [conn.isAuthenticated_eq, hserver]; rfl
      have hall : ∀ p ∈ s.wire ++ [⟨n, conn.isAuthenticated⟩], p.authenticated = false := by
        intro p hp
        rcases hmem hp with hp | rfl
        · exact hw p hp
        · exact hauth
      refine ⟨fun c _ hc => ?_, fun c _ _ => ⟨hall, fun m hm => absurd hm.symm (Option.some_ne_none m)⟩,
        fun c k hc hk => ?_, fun p hp _ => ?_, hconcat fun p hp hp' => ?_⟩
      · rw [← Option.some.inj hc, hserver]
      · rw [← Option.some.inj hc, hserver] at hk
        cases hk
      · rcases hmem hp with hp | rfl
        · exact hinv.wire_zero p hp (hw p hp)
        · exact hzero n hpending
      · rw [hw p hp] at hp'
        cases hp'
    | some k =>
      obtain ⟨hw, hp⟩ := hinv.authenticated conn k hconn hserver
      obtain ⟨hle, hlt⟩ := hp n hpending
      have hauth : conn.isAuthenticated = true := by rw [conn.isAuthenticated_eq, hserver]; rfl
      refine ⟨fun c hne hc => ?_, fun c hc hnone => ?_, fun c k' hc hk' => ⟨fun p hp hp' => ?_,
        fun m hm => absurd hm.symm (Option.some_ne_none m)⟩, fun p hp hp' => ?_, hconcat hlt⟩
      · exact hinv.before_login c hne (hconn.trans hc)
      · rw [← Option.some.inj hc, hserver] at hnone
        cases hnone
      · rw [← Option.some.inj hc, hserver] at hk'
        obtain rfl := Option.some.inj hk'
        rcases hmem hp with hp | rfl
        · exact hw p hp hp'
        · exact hle
      · rcases hmem hp with hp | rfl
        · exact hinv.wire_zero p hp hp'
        · rw [hauth] at hp'
          cases hp'

/-- Every action keeps the invariant. -/
theorem SendInv.step (hinv : s.SendInv) {action : LinkAction} (h : s.step action = some s') :
    s'.SendInv := by
  rcases step_cases h with hquiet | ⟨conn, conn', hphase, hconn, _, hzero, rfl⟩ |
    ⟨packetSeq, outcome, rfl⟩ | ⟨_, rfl⟩ | ⟨n, hpending, rfl⟩
  · refine hinv.frame (fun c hc => ?_) hquiet.wire hquiet.pending hquiet.phase
    obtain ⟨c₀, hc₀, _, hserver⟩ := hquiet.entry c hc
    exact ⟨c₀, hc₀, hserver⟩
  · exact hinv.login hphase hconn hzero
  · exact hinv.receive packetSeq outcome
  · exact hinv.number
  · exact hinv.write hpending

/-! ### Whole sessions -/

/-- The client's check, over the packets of a connection in wire order. -/
def clientChecks (usedSeq : ℕ) (packets : List ℕ) : Option ℕ :=
  packets.foldlM (fun usedSeq packetSeq => clientCheck usedSeq packetSeq false) usedSeq

/-- Numbers that increase after some zeros all pass the client's check. -/
theorem clientChecks_isSome {packets : List ℕ} {usedSeq : ℕ}
    (hused : ∀ n ∈ packets, usedSeq = 0 ∨ usedSeq < n)
    (hsorted : packets.Pairwise fun m n => m = 0 ∨ m < n) :
    ∃ stored, clientChecks usedSeq packets = some stored := by
  induction packets generalizing usedSeq with
  | nil => exact ⟨usedSeq, rfl⟩
  | cons n packets ih =>
    obtain ⟨hn, hrest⟩ := List.pairwise_cons.1 hsorted
    obtain ⟨stored, hstored⟩ := ih hn hrest
    have hcheck : clientCheck usedSeq n false = some n :=
      if_pos ((hused n List.mem_cons_self).elim (fun h => .inr (.inl h)) .inl)
    refine ⟨stored, ?_⟩
    rw [clientChecks, List.foldlM_cons, hcheck]
    exact hstored

/-- **Replay freedom over whole sessions.**  In every interleaving of the tasks of
the server, from the handshake on: the packets `receive` returns while the entry
exists have strictly increasing numbers, so none is returned twice; the packets
written from the login until the entry is removed have strictly increasing numbers
in wire order; and the client's own check accepts everything written while the
entry exists. -/
theorem session_replay_free (writeStream task : ℕ) (peerAddr : Addr) (obfuscationKey : Vector U8 32)
    (now : Instant) (actions : List LinkAction) {s : Link Addr}
    (hrun : exec step (start (.start writeStream task peerAddr obfuscationKey now)) actions = some s) :
    s.received.Pairwise (· < ·) ∧ s.received.Nodup ∧
      ((s.wire.filter (·.authenticated)).map (·.seq)).Pairwise (· < ·) ∧
      ∃ stored, clientChecks 0 (s.wire.map (·.seq)) = some stored := by
  have hmeets := meets_true step (start (.start writeStream task peerAddr obfuscationKey now))
    actions
  have hreceive : s.ReceiveInv := exec_induct (fun _ _ _ hinv _ h => hinv.step h)
    ⟨.nil, fun _ _ n hn => absurd hn List.not_mem_nil⟩ hmeets hrun
  have hsend : s.SendInv := exec_induct (fun _ _ _ hinv _ h => hinv.step h) (start_sendInv rfl)
    hmeets hrun
  refine ⟨hreceive.sorted, hreceive.sorted.imp Nat.ne_of_lt, ?_,
    clientChecks_isSome (fun n _ => .inl rfl) ?_⟩
  · rw [List.pairwise_map, List.pairwise_filter]
    exact hsend.wire_sorted.imp fun h hp _ => h hp
  · rw [List.pairwise_map]
    refine hsend.wire_sorted.imp_of_mem fun {p q} hp _ h => ?_
    cases hauth : p.authenticated with
    | false => exact .inl (hsend.wire_zero p hp hauth)
    | true => exact .inr (h hauth)

/-- A session with a login, a rekey and a channel switch, in which a second sender
takes the lock before the switch. -/
def rekeyedSession : List LinkAction :=
  [.keyExchange ([], []) 1, .receive 1 .returned, .authenticate ⟨0, 5⟩ "anna" none .user 0 0 2,
    .lock 1, .number 1, .write 1, .unlock 1, .receive 2 .returned, .keyExchange ([1], [2]) 3, .lock 2,
    .channel (some "den") 4, .number 2, .write 2, .receive 3 .returned]

/-- The theorem on that session. -/
theorem session_replay_free_rekeyed : ∃ s : Link ℕ,
    exec step (start (.start 0 0 7 (.replicate 32 0) 0)) rekeyedSession = some s ∧
      s.received = [1, 2, 3] ∧ s.received.Nodup ∧ s.wire = [⟨1, true⟩, ⟨2, true⟩] ∧
      ∃ stored, clientChecks 0 (s.wire.map (·.seq)) = some stored := by
  have hvalues : (exec step (start (.start 0 0 7 (.replicate 32 0) 0) : Link ℕ) rekeyedSession).map
      (fun s => (s.received, s.wire)) = some ([1, 2, 3], [⟨1, true⟩, ⟨2, true⟩]) := by rfl
  obtain ⟨s, hs, hvalue⟩ := Option.map_eq_some_iff.1 hvalues
  obtain ⟨hreceived, hwire⟩ := Prod.mk.inj hvalue
  obtain ⟨_, hnodup, _, hstored⟩ := session_replay_free 0 0 7 (.replicate 32 0) 0 _ hs
  exact ⟨s, hs, hreceived, hnodup, hwire, hstored⟩

end Link

end Why2
