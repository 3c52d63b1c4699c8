/-
# Requests during a rekey

Whether the server dispatches every packet of the client.  A request in flight
when the server starts a rekey is read by `untrusted_read` and dropped
(`request_lost`); when none is, every request is dispatched
(`requests_dispatched`).
-/

import Why2.Chat.Peers

namespace Why2

open Lib

namespace Peers

variable {Key Offer Reply Msg : Type} {kdf : Offer → Reply → Key}
  {s s' : Peers Key Offer Reply Msg} {seq : ℕ} {p : SealedPacket Key Offer Reply Msg}
  {spamWarning : Bool} {outcome : ReceiveOutcome}

/-! ### Dispatch -/

/-- Every packet of the client that verified, other than a reply the server was waiting
for, was dispatched once and in order, or is about to be, or the session has ended. -/
def Served (s : Peers Key Offer Reply Msg) : Prop :=
  s.serverEnded = true ∨ s.accepted = s.dispatched ++ s.serverPhase.held

/-- Two requests are in flight; the server reads the first and starts a rekey, and
`untrusted_read` reads the second. -/
def pipelined : List (PeerAction ℕ ℕ ℕ ℕ) :=
  [.clientSend 1, .clientSend 2, .serverRead false .returned, .serverRekey 1,
    .serverRead false .returned]

/-- **A request can be lost.** -/
theorem request_lost :
    ¬∀ (actions : List (PeerAction ℕ ℕ ℕ ℕ)) (s : Peers ℕ ℕ ℕ ℕ),
      exec (step fun offer reply => offer + reply) (start 0 0) actions = some s → s.Served := by
  intro h
  have hvalues : (exec (step fun offer reply => offer + reply) (start 0 0) pipelined).map
      (fun s => (s.serverEnded, s.accepted, s.dispatched ++ s.serverPhase.held)) =
      some (false, [.other 1, .other 2], [.other 1]) := by decide
  obtain ⟨s, hs, hvalue⟩ := Option.map_eq_some_iff.1 hvalues
  simp only [Prod.mk.injEq] at hvalue
  obtain ⟨hended, haccepted, hdispatched⟩ := hvalue
  rcases h pipelined s hs with hend | hserved
  · rw [hended] at hend
    cases hend
  · rw [haccepted, hdispatched] at hserved
    cases hserved

/-- When the server starts a rekey no packet of the client is in flight before a reply,
and while it waits for the reply the client's tasks write only behind it. -/
def clearToRekey (s : Peers Key Offer Reply Msg) : PeerAction Key Offer Reply Msg → Bool
  | .serverRekey _ => s.toServer.contents.head?.all (·.code.isReply)
  | .clientWrite _ _ | .clientSend _ =>
    !s.serverPhase.isExchanging || s.toServer.contents.any (·.code.isReply)
  | _ => true

/-- The invariant: while the server waits for a reply, the next packet it reads is one. -/
structure RequestInv (s : Peers Key Offer Reply Msg) : Prop where
  served : s.accepted = s.dispatched ++ s.serverPhase.held
  clear : s.serverPhase.isExchanging = true → s.toServer.contents.head?.all (·.code.isReply) = true

/-- The packets of the server and the client's own changes are no matter. -/
theorem RequestInv.frame (hinv : s.RequestInv) (haccepted : s'.accepted = s.accepted)
    (hdispatched : s'.dispatched = s.dispatched) (hphase : s'.serverPhase = s.serverPhase)
    (hserver : s'.serverPhase.isExchanging = true → s.toServer.contents.head?.all (·.code.isReply) = true →
      s'.toServer.contents.head?.all (·.code.isReply) = true) : s'.RequestInv := by
  constructor
  · rw [haccepted, hdispatched, hphase]
    exact hinv.served
  · intro hexchanging
    exact hserver hexchanging (hinv.clear (hphase ▸ hexchanging))

/-- `key_exchange` returns, or there was none. -/
theorem RequestInv.settle (hinv : s.RequestInv) {read : Code Offer Reply Msg}
    (hheld : s.serverPhase.held = [read]) (keys : Key) : (s.settle keys read).RequestInv := by
  refine ⟨?_, fun h => by cases h⟩
  simp only [Peers.settle, ServerPhase.held, List.append_nil]
  rw [hinv.served, hheld]

/-- A packet behind a reply, or a reply. -/
theorem head_reply_concat {packets : List (SealedPacket Key Offer Reply Msg)}
    {p : SealedPacket Key Offer Reply Msg} (hhead : packets.head?.all (·.code.isReply) = true)
    (hp : packets = [] → p.code.isReply = true) :
    (packets ++ [p]).head?.all (·.code.isReply) = true := by
  cases packets with
  | nil => exact hp rfl
  | cons q packets => exact hhead

/-- A task of the client writes, behind the reply if the server waits for one. -/
theorem RequestInv.pushServer (hinv : s.RequestInv) (keys : Key) (code : Code Offer Reply Msg)
    (hclear : s.serverPhase.isExchanging = true → code.isReply = true ∨
      s.toServer.contents.any (·.code.isReply) = true) : (s.pushServer keys code).RequestInv := by
  refine hinv.frame rfl rfl rfl fun hexchanging hhead => ?_
  rw [Peers.pushServer, Fifo.contents_push]
  refine head_reply_concat hhead fun hnil => ?_
  rcases hclear hexchanging with hreply | hany
  · exact hreply
  · rw [hnil] at hany
    cases hany

variable [DecidableEq Key]

/-- The loop reads a packet. -/
theorem RequestInv.loopRead (hinv : s.RequestInv) (hphase : s.serverPhase = .reading)
    (h : s.loopRead seq p spamWarning outcome = some s') : s'.RequestInv := by
  have hquiet : s.serverPhase.isExchanging ≠ true := by rw [hphase]; exact Bool.false_ne_true
  have hserved := hinv.served
  unfold Peers.loopRead at h
  split_ifs at h
  · obtain rfl := Option.some.inj h
    exact ⟨hserved, fun h => absurd h hquiet⟩
  · obtain rfl := Option.some.inj h
    cases spamWarning <;> exact ⟨hserved, fun h => absurd h hquiet⟩
  · cases outcome with
    | returned =>
      obtain rfl := Option.some.inj h
      have haccepted : s.accepted ++ [p.code] = s.dispatched ++ [p.code] := by
        rw [hserved, hphase, ServerPhase.held, List.append_nil]
      cases spamWarning <;> exact ⟨haccepted, fun h => by cases h⟩
    | disconnected =>
      obtain rfl := Option.some.inj h
      cases spamWarning <;> exact ⟨hserved, fun h => absurd h hquiet⟩
    | cancelled => cases h

/-- `untrusted_read` reads the reply. -/
theorem RequestInv.untrustedRead (hinv : s.RequestInv) {offer : Offer} {n : ℕ}
    {read : Code Offer Reply Msg} (hphase : s.serverPhase = .exchanging offer n read)
    (hhead : s.toServer.items.head? = some (seq, p)) :
    (s.untrustedRead kdf offer n read seq p spamWarning outcome).RequestInv := by
  have hheld : s.serverPhase.held = [read] := by rw [hphase]; rfl
  have hreply : p.code.isReply = true := by
    simpa [Fifo.contents_head? hhead] using hinv.clear (by rw [hphase]; rfl)
  obtain ⟨reply, hcode⟩ := Code.isReply_iff.1 hreply
  by_cases hkeys : p.keys = s.serverKeys
  · rw [untrustedRead_reply hkeys (Fifo.lt_of_head hhead) hcode]
    exact ⟨(hinv.settle hheld s.serverKeys).served, fun h => by cases h⟩
  · unfold Peers.untrustedRead
    rw [if_pos hkeys]
    exact ⟨(hinv.settle hheld s.serverKeys).served, fun h => by cases h⟩

/-- **Every step that is clear of requests keeps them.** -/
theorem RequestInv.step (hinv : s.RequestInv) {action : PeerAction Key Offer Reply Msg}
    (hclear : s.clearToRekey action = true) (h : s.step kdf action = some s') : s'.RequestInv := by
  have hbehind : (!s.serverPhase.isExchanging || s.toServer.contents.any (·.code.isReply)) = true →
      s.serverPhase.isExchanging = true → s.toServer.contents.any (·.code.isReply) = true := by
    intro hor hexchanging
    rwa [hexchanging] at hor
  cases action with
  | serverCopy | clientCopy | serverEnd | clientEnd =>
    obtain rfl := Option.some.inj h
    exact hinv.frame rfl rfl rfl fun _ hhead => hhead
  | serverWrite keys m =>
    rw [Peers.step] at h
    split_ifs at h
    obtain rfl := Option.some.inj h
    exact hinv.frame rfl rfl rfl fun _ hhead => hhead
  | serverSend m =>
    rw [Peers.step] at h
    split_ifs at h
    split at h <;> cases h
    exact hinv.frame rfl rfl rfl fun _ hhead => hhead
  | serverRead spamWarning outcome =>
    rw [Peers.step] at h
    split_ifs at h
    have hrecord : ∀ keys keys', (s.record keys keys').RequestInv := fun _ _ =>
      hinv.frame rfl rfl rfl fun _ hhead => hhead
    split at h
    · rename_i seq p hphase hhead
      exact (hrecord _ _).loopRead hphase h
    · rename_i offer n read seq p hphase hhead
      obtain rfl := Option.some.inj h
      exact (hrecord _ _).untrustedRead hphase hhead
    · cases h
  | serverRekey offer =>
    rw [Peers.step] at h
    split_ifs at h
    split at h <;> cases h
    rename_i read hphase
    refine ⟨?_, fun _ => hclear⟩
    have hserved := hinv.served
    rw [hphase] at hserved
    exact hserved
  | serverTimeout | serverDispatch =>
    rw [Peers.step] at h
    split_ifs at h
    split at h <;> cases h
    rename_i hphase
    exact hinv.settle (by rw [hphase]; rfl) _
  | serverLoop =>
    rw [Peers.step] at h
    split_ifs at h
    split at h <;> cases h
    rename_i hphase
    have hserved := hinv.served
    rw [hphase] at hserved
    exact ⟨hserved, fun h => by cases h⟩
  | clientWrite keys m =>
    rw [Peers.step] at h
    split_ifs at h
    obtain rfl := Option.some.inj h
    exact hinv.pushServer keys _ fun hexchanging => .inr (hbehind hclear hexchanging)
  | clientSend m =>
    rw [Peers.step] at h
    split_ifs at h
    split at h <;> cases h
    exact hinv.pushServer _ _ fun hexchanging => .inr (hbehind hclear hexchanging)
  | clientRead =>
    rw [Peers.step] at h
    split_ifs at h
    have hframe : ∀ seq p keys keys', ((s.record keys keys').clientRead seq p).RequestInv := by
      intro seq p keys keys'
      unfold Peers.clientRead
      split_ifs <;> exact hinv.frame rfl rfl rfl fun _ hhead => hhead
    split at h
    · obtain rfl := Option.some.inj h
      exact hframe _ _ _ _
    · obtain rfl := Option.some.inj h
      exact hframe _ _ _ _
    · cases h
  | clientReply reply =>
    rw [Peers.step] at h
    split_ifs at h
    split at h <;> cases h
    exact (hinv.pushServer s.clientKeys (.keyExchangeReply reply) fun _ => .inl rfl).frame rfl rfl rfl
      fun _ hhead => hhead
  | clientAdopt =>
    rw [Peers.step] at h
    split_ifs at h
    split at h <;> cases h
    exact hinv.frame rfl rfl rfl fun _ hhead => hhead

/-- **No request is lost while no rekey overtakes one.**  In every run, with any number of
rekeys, in which the server starts a rekey only with no request of the client in flight
and the client's tasks write no request before the reply the server waits for, every
packet of the client that verifies is dispatched once and in order, is a reply the server
was waiting for, or the session has ended. -/
theorem requests_dispatched (kdf : Offer → Reply → Key) (keys : Key) (seq : ℕ)
    (actions : List (PeerAction Key Offer Reply Msg)) {s : Peers Key Offer Reply Msg}
    (hmeets : Meets (step kdf) (fun s action => s.clearToRekey action = true) (start keys seq) actions)
    (hrun : exec (step kdf) (start keys seq) actions = some s) : s.Served := by
  have hstart : (start keys seq : Peers Key Offer Reply Msg).RequestInv := ⟨rfl, fun h => by cases h⟩
  exact .inr (exec_induct (fun _ _ _ hinv hclear h => hinv.step hclear h) hstart hmeets hrun).served

/-- A request before a rekey, one behind the reply. -/
def quietRekey : List (PeerAction ℕ ℕ ℕ ℕ) :=
  [.clientSend 1, .serverRead false .returned, .serverRekey 1, .clientRead, .clientRead, .clientReply 2,
    .clientAdopt, .clientSend 2, .serverRead false .returned, .serverLoop, .serverRead true .returned,
    .serverDispatch]

/-- The theorem on that run. -/
theorem requests_dispatched_quiet : ∃ s : Peers ℕ ℕ ℕ ℕ,
    exec (step fun offer reply => offer + reply) (start 0 0) quietRekey = some s ∧ s.Served ∧
      s.serverEnded = false ∧ s.accepted = [.other 1, .other 2] ∧ s.dispatched = [.other 1, .other 2] := by
  have hvalues : (exec (step fun offer reply => offer + reply) (start 0 0) quietRekey).map
      (fun s : Peers ℕ ℕ ℕ ℕ => (s.serverEnded, s.accepted, s.dispatched)) =
      some (false, [.other 1, .other 2], [.other 1, .other 2]) := by decide
  obtain ⟨s, hs, hvalue⟩ := Option.map_eq_some_iff.1 hvalues
  simp only [Prod.mk.injEq] at hvalue
  exact ⟨s, hs, requests_dispatched _ 0 0 quietRekey (by decide) hs, hvalue⟩

end Peers

end Why2
