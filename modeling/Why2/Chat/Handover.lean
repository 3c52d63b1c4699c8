/-
# The history at login

A client that logs in becomes a recipient of `send_to_all` (`authenticate_client`),
then the newest page of the history is taken, and then it is sent under the client's
write lock (`send_history`, `chat/src/network/server/mod.rs`).  Meanwhile others send
messages: a message is stored, and later its handler collects the recipients.  The
packets for the new client wait for its write lock and get it in any order.

A message stored before the page is taken, whose recipients are collected after the
client was authenticated, comes both ways (`message_shown_twice`).  No message is
lost: one that is stored after the page was taken goes to the client that is a
recipient by then.  If no message is between its two steps when the client is
authenticated, and none is stored until the page is taken, every stored message from
the start of the page on is in the pane once (`history_handed_over`).
-/

import Why2.Chat.Convergence
import Why2.Chat.Paging

namespace Why2

open Lib

/-- The entry of a message of the history, `ClientEvent::History`. -/
def Entry.replayed (r : Record) : Entry :=
  let shown : Shown := ⟨r.id, r.username, r.timestamp, r.hearts, r.pinned⟩
  match r.image, r.voice with
  | _, some note => .voice shown note
  | some hash, none => .image shown r.text (some hash)
  | none, none => .history shown r.text r.reply r.edited

/-! ### The login of a client among messages -/

/-- How far the login is: `authenticate_client` is to come, then `send_history` takes the
page, which waits for the write lock, and is sent.  The start of the page is kept. -/
inductive HandoverPhase
  | connecting
  | authenticated
  | paging (start : U64) (messages : List Record)
  | replayed (start : Option U64)
deriving DecidableEq

/-- The history; the messages whose recipients are still to be collected; the login of the
client, and the client; the ids of all messages ever stored. -/
structure Handover where
  messages : Messages
  waiting : List Update
  phase : HandoverPhase
  reader : Reader
  stored : List U64
deriving DecidableEq

/-- What happens: another client sends a message, its recipients are collected, the login
goes on, or a packet for the client gets the write lock. -/
inductive HandoverAction
  | post (config : LobbyConfig) (sender : Sender) (text : String) (reply : Option U64)
  | broadcast (index : ℕ)
  | authenticate
  | takePage (persistentMessages : Bool) (historyPage : ℕ) (timestamps : Bool)
  | sendPage
  | deliver (index : ℕ)

namespace Handover

/-- `send_history` before the write lock: nothing stored is not worth a heading. -/
def sendHistory (h : History) (persistentMessages : Bool) (historyPage : ℕ) (timestamps : Bool) :
    HandoverPhase :=
  if !persistentMessages then .replayed none
  else
    let page := h.page none (max historyPage 1) maxHistorySize timestamps
    if page.messages.isEmpty then .replayed (some page.start)
    else .paging page.start page.messages

/-- One step. -/
def step (s : Handover) : HandoverAction → Option Handover
  | .post config sender text reply =>
    let (update, messages) := config.messageRequest sender text reply s.messages
    let new := (update.bind Update.post).filter fun id => messages.history.records.any (·.id = id)
    some { s with messages, waiting := s.waiting ++ update.toList, stored := s.stored ++ new.toList }
  | .broadcast index => do
    let update ← s.waiting[index]?
    -- The client is a recipient once it is authenticated.
    let missing := if s.phase = .connecting then s.reader.missing else s.reader.missing ++ [update]
    return { s with waiting := s.waiting.eraseIdx index, reader := { s.reader with missing } }
  | .authenticate => if s.phase = .connecting then some { s with phase := .authenticated } else none
  | .takePage persistentMessages historyPage timestamps =>
    if s.phase = .authenticated then
      some { s with phase := sendHistory s.messages.history persistentMessages historyPage timestamps }
    else none
  | .sendPage =>
    match s.phase with
    | .paging start messages =>
      let pane := s.reader.pane.startHistory "event.history" (messages.map Entry.replayed)
      some { s with phase := .replayed (some start), reader := { s.reader with pane } }
    | .connecting | .authenticated | .replayed _ => none
  | .deliver index => do
    let update ← s.reader.missing[index]?
    let pane := s.reader.receive update
    return { s with reader := { s.reader with pane, missing := s.reader.missing.eraseIdx index } }

/-- A server with a history, and a client that connects to it: its pane holds lines only. -/
def start (file : List Record) (lines : List String) (muted : List ℕ) : Handover :=
  ⟨.start file, [], .connecting, ⟨lines.map .line, muted, []⟩, file.map (·.id)⟩

/-- Everything was sent and delivered. -/
def Quiet (s : Handover) : Prop := s.waiting = [] ∧ s.reader.missing = []

/-- Every stored message from the start of the page on is in the pane once. -/
def Complete (s : Handover) : Prop := ∀ start, s.phase = .replayed (some start) →
  ∀ id ∈ s.stored, start ≤ id → (s.reader.pane.filterMap Entry.messageId).count id = 1

/-- **A message may come twice**: it is stored, the client is authenticated and gets its
page, and then the recipients are collected. -/
theorem message_shown_twice : ¬∀ (file : List Record) (lines : List String) (muted : List ℕ)
    (actions : List HandoverAction) (s : Handover), (file.map (·.id)).Pairwise (· < ·) →
    exec step (start file lines muted) actions = some s → s.Quiet → s.Complete := by
  intro h
  let actions : List HandoverAction :=
    [.post Lobby.keepingConfig Lobby.annaSender "hi" none, .authenticate, .takePage true 50 true,
      .broadcast 0, .sendPage, .deliver 0]
  have hruns : ((exec step (start [] [] []) actions).map fun s => (s.waiting, s.reader.missing, s.phase,
      s.stored, s.reader.pane.filterMap Entry.messageId)) =
      some ([], [], .replayed (some 0), [0], [0, 0]) := by decide +kernel
  obtain ⟨s, hs, heq⟩ := Option.map_eq_some_iff.1 hruns
  simp only [Prod.mk.injEq] at heq
  obtain ⟨hwaiting, hmissing, hphase, hstored, hpane⟩ := heq
  have hcount := h [] [] [] actions s .nil hs ⟨hwaiting, hmissing⟩ 0 hphase 0
    (hstored ▸ List.mem_singleton_self 0) (by decide)
  rw [hpane] at hcount
  exact absurd hcount (by decide)

end Handover

/-! ### What a message does to the history -/

/-- What a `MessageRequest` does: nothing, or it takes the next id, and stores a record under
it or not. -/
inductive Posted (m : Messages) : Option Update → Messages → Prop
  | refused : Posted m none m
  | unstored (u : Update) (m' : Messages) (hpart : u.part = .whole)
      (hpost : ∀ p, u.post = some p → p = m.history.next)
      (hnext : m'.history.next = m.history.next + 1)
      (hrecords : m'.history.records = m.history.records) : Posted m (some u) m'
  | stored (u : Update) (m' : Messages) (r : Record) (n : ℕ) (hpart : u.part = .whole)
      (hpost : u.post = some m.history.next) (hnext : m'.history.next = m.history.next + 1)
      (hid : r.id = m.history.next) (hn : n ≤ m.history.records.length)
      (hrecords : m'.history.records = (m.history.records ++ [r]).drop n) : Posted m (some u) m'

/-- **A message is stored under the next id, and sent to all.** -/
theorem posted (config : LobbyConfig) (sender : Sender) (text : String) (reply : Option U64)
    (m : Messages) : Posted m (config.messageRequest sender text reply m).1
      (config.messageRequest sender text reply m).2 := by
  unfold LobbyConfig.messageRequest
  split_ifs with hmuted hreply hlobby
  · exact .refused
  · exact .refused
  · obtain ⟨hnone, -⟩ := Bool.and_eq_true_iff.1 hlobby
    dsimp only
    rw [Option.isNone_iff_eq_none.1 hnone]
    by_cases hlimit : config.maxPersistentMessages = 0
    · simp only [Messages.store, Messages.push, History.takeId, if_pos hlimit]
      exact .unstored _ _ rfl (fun p hp => (Option.some.inj hp).symm) rfl rfl
    · simp only [Messages.store, Messages.push, History.takeId, if_neg hlimit]
      refine .stored _ _ _ _ rfl rfl rfl rfl ?_ rfl
      rw [List.length_append, List.length_singleton]
      omega
  · refine .unstored _ _ rfl (fun p hp => ?_) rfl rfl
    cases hchannel : sender.channel with
    | none =>
      rw [hchannel] at hp
      exact (Option.some.inj hp).symm
    | some channel =>
      rw [hchannel] at hp
      cases hp

/-- A message of a channel brings nothing to the lobby. -/
theorem post_of_channel {config : LobbyConfig} {sender : Sender} {text : String} {reply : Option U64}
    {m : Messages} {u : Update} (h : (config.messageRequest sender text reply m).1 = some u)
    (hchannel : sender.channel ≠ none) : u.post = none := by
  obtain ⟨channel, hsome⟩ := Option.ne_none_iff_exists'.1 hchannel
  unfold LobbyConfig.messageRequest at h
  split_ifs at h
  · obtain rfl := Option.some.inj h
    rw [hsome]
    rfl
  · obtain rfl := Option.some.inj h
    rw [hsome]
    rfl

/-! ### Which way a message comes -/

namespace Pane

/-- The ids of the messages in a pane. -/
def ids (pane : Pane) : List U64 := pane.filterMap Entry.messageId

/-- Where there is room, entries come one after the other. -/
theorem foldl_pushEntry {entries : List Entry} {pane : Pane}
    (hroom : pane.length + entries.length ≤ historyLimit) :
    entries.foldl (fun pane e => pane.pushEntry e) pane = pane ++ entries := by
  induction entries generalizing pane with
  | nil => exact (List.append_nil _).symm
  | cons e entries ih =>
    rw [List.length_cons] at hroom
    rw [List.foldl_cons, pushEntry_eq (by omega), ih, List.append_assoc, List.singleton_append]
    rw [List.length_append, List.length_singleton]
    omega

/-- The first page comes behind what is there. -/
theorem ids_startHistory {heading : String} {messages : List Record} {pane : Pane}
    (hroom : pane.length + messages.length < historyLimit) :
    (pane.startHistory heading (messages.map Entry.replayed)).ids =
      pane.ids ++ messages.map (·.id) := by
  have hreplayed : ∀ r : Record, (Entry.replayed r).messageId = some r.id := by
    intro r
    unfold Entry.replayed
    dsimp only
    split <;> rfl
  rw [startHistory, pushEntry_eq (by omega), foldl_pushEntry]
  · rw [ids, List.filterMap_append, List.filterMap_append, List.filterMap_map]
    have hmap : messages.filterMap (Entry.messageId ∘ Entry.replayed) = messages.map (·.id) := by
      rw [← List.filterMap_eq_map]
      exact List.filterMap_congr fun r _ => hreplayed r
    rw [hmap]
    simp only [ids, List.filterMap_cons, Entry.messageId, Entry.shown?, Option.map_none,
      List.filterMap_nil, List.append_nil]
  · rw [List.length_append, List.length_singleton, List.length_map]
    omega

end Pane

/-- A message that is received comes last. -/
theorem Reader.ids_receive {r : Reader} {u : Update} (hpart : u.part = .whole) (hears : r.Hears u) :
    (r.receive u).ids = r.pane.ids ++ u.post.toList := by
  cases u with
  | message text username session messageId channel timestamp reply =>
    cases channel with
    | none =>
      obtain ⟨hmuted, hroom⟩ := hears
      have hlistens : ¬(session ∈ r.muted ∨ (none : Option String).isSome = true) := by simpa using hmuted
      rw [receive, if_neg hlistens, Pane.pushEntry_eq hroom, Pane.ids, List.filterMap_append]
      rfl
    | some channel =>
      rw [receive, if_pos (.inr rfl)]
      exact (List.append_nil _).symm
  | deleted | edited | heart | pinned => cases hpart

namespace Handover

variable {s s' : Handover}

/-- The ids on a page that waits for the write lock. -/
def paged : HandoverPhase → List U64
  | .paging _ messages => messages.map (·.id)
  | .connecting | .authenticated | .replayed _ => []

/-- The ids of messages on their way to the client, and in its pane. -/
def routes (s : Handover) : List U64 :=
  s.reader.pane.ids ++ paged s.phase ++ s.reader.missing.filterMap Update.post ++
    s.waiting.filterMap Update.post

/-- How often a message comes to the client. -/
theorem count_routes (s : Handover) (id : U64) : s.routes.count id = s.reader.pane.ids.count id +
    (paged s.phase).count id + (s.reader.missing.filterMap Update.post).count id +
    (s.waiting.filterMap Update.post).count id := by
  simp only [routes, List.count_append]

/-- A delivered update is one less that is missing. -/
theorem count_eraseIdx {updates : List Update} {index : ℕ} {u : Update} (h : updates[index]? = some u)
    (id : U64) : (updates.filterMap Update.post).count id =
      u.post.toList.count id + ((updates.eraseIdx index).filterMap Update.post).count id := by
  obtain ⟨hlt, rfl⟩ := List.getElem?_eq_some_iff.1 h
  have hperm := (List.getElem_cons_eraseIdx_perm hlt).filterMap Update.post
  rw [← hperm.count_eq id, List.filterMap_cons]
  cases updates[index].post with
  | none => simp
  | some p => rw [← List.count_append]; rfl

/-- What the phase of the login means: nothing comes to a client that is not authenticated,
nothing but the page to one that is, and once the page is taken every stored message from
its start on comes once. -/
def Routed (s : Handover) : Prop :=
  match s.phase with
  | .connecting => s.reader.pane.ids = [] ∧ s.reader.missing = []
  | .authenticated => s.routes = []
  | .paging start _ | .replayed (some start) => ∀ id ∈ s.stored, start ≤ id → s.routes.count id = 1
  | .replayed none => True

/-- The invariant: what was stored is in order below the counter, the history holds the
newest of it, only messages are on their way, and they come as the phase says. -/
structure Inv (s : Handover) : Prop where
  increasing : s.stored.Pairwise (· < ·)
  newest : s.messages.history.records.map (·.id) <:+ s.stored
  below : ∀ id ∈ s.routes ++ s.stored, id < s.messages.history.next
  whole : ∀ u ∈ s.waiting ++ s.reader.missing, u.part = .whole
  routed : s.Routed

/-- No message of the lobby is between its two steps when the client is authenticated, and
none is stored until the page is taken; the client shows what it gets. -/
def Apart (s : Handover) : HandoverAction → Prop
  | .post _ sender _ _ => s.messages.history.next ≠ BitVec.allOnes 64 ∧
      (sender.channel = none → s.phase ≠ .authenticated)
  | .broadcast _ | .takePage .. => True
  | .authenticate => s.waiting.filterMap Update.post = []
  | .sendPage => s.reader.pane.length + (paged s.phase).length < Pane.historyLimit
  | .deliver index => ∀ u ∈ s.reader.missing[index]?, s.reader.Hears u

instance (s : Handover) (a : HandoverAction) : Decidable (s.Apart a) :=
  match a with
  | .post _ sender _ _ => inferInstanceAs (Decidable (s.messages.history.next ≠ BitVec.allOnes 64 ∧
      (sender.channel = none → s.phase ≠ .authenticated)))
  | .broadcast _ | .takePage .. => .isTrue trivial
  | .authenticate => inferInstanceAs (Decidable (s.waiting.filterMap Update.post = []))
  | .sendPage =>
    inferInstanceAs (Decidable (s.reader.pane.length + (paged s.phase).length < Pane.historyLimit))
  | .deliver index => inferInstanceAs (Decidable (∀ u ∈ s.reader.missing[index]?, s.reader.Hears u))

/-- Nobody is logged in at the start. -/
theorem inv_start {file : List Record} (hfile : (file.map (·.id)).Pairwise (· < ·))
    (hroom : ∀ r ∈ file, r.id ≠ BitVec.allOnes 64) (lines : List String) (muted : List ℕ) :
    Inv (start file lines muted) := by
  have hord := Ledger.ordered_new hfile hroom
  have hlines : (start file lines muted).reader.pane.ids = [] := by
    refine List.filterMap_eq_nil_iff.2 fun e he => ?_
    obtain ⟨line, -, rfl⟩ := List.mem_map.1 he
    rfl
  refine ⟨hfile, List.suffix_refl _, fun id hid => ?_, fun u hu => (nomatch hu), hlines, rfl⟩
  rw [routes, hlines] at hid
  obtain ⟨r, hr, rfl⟩ := List.mem_map.1 hid
  exact hord.below r hr

/-- Messages that go on their way, and no new ones. -/
theorem Inv.below_of_count (hinv : Inv s) (hmessages : s'.messages = s.messages)
    (hstored : s'.stored = s.stored) (hcount : ∀ id, s'.routes.count id ≤ s.routes.count id) :
    ∀ id ∈ s'.routes ++ s'.stored, id < s'.messages.history.next := by
  intro id hid
  rw [hmessages]
  refine hinv.below id ?_
  rcases List.mem_append.1 hid with hid | hid
  · have hpos := List.count_pos_iff.2 hid
    exact List.mem_append_left _ (List.count_pos_iff.1 (hpos.trans_le (hcount id)))
  · exact List.mem_append_right _ (hstored ▸ hid)

/-- Messages that go on their way to a client that is a recipient. -/
theorem Inv.moved (hinv : Inv s) (hmessages : s'.messages = s.messages) (hstored : s'.stored = s.stored)
    (hphase : s'.phase = s.phase) (hrecipient : s.phase ≠ .connecting)
    (hcount : ∀ id, s'.routes.count id = s.routes.count id)
    (hwhole : ∀ u ∈ s'.waiting ++ s'.reader.missing, u.part = .whole) : Inv s' := by
  refine ⟨hstored ▸ hinv.increasing, by rw [hmessages, hstored]; exact hinv.newest,
    hinv.below_of_count hmessages hstored fun id => (hcount id).le, hwhole, ?_⟩
  have hrouted := hinv.routed
  unfold Routed at hrouted ⊢
  rw [hphase, hstored]
  cases hp : s.phase with
  | connecting => exact absurd hp hrecipient
  | authenticated =>
    rw [hp] at hrouted
    refine List.eq_nil_iff_forall_not_mem.2 fun id hid => ?_
    have hpos := List.count_pos_iff.2 hid
    rw [hcount, hrouted] at hpos
    exact absurd hpos (Nat.lt_irrefl 0)
  | paging start messages =>
    rw [hp] at hrouted
    intro id hid hle
    rw [hcount]
    exact hrouted id hid hle
  | replayed start =>
    rw [hp] at hrouted
    cases start with
    | none => trivial
    | some start =>
      intro id hid hle
      rw [hcount]
      exact hrouted id hid hle

/-- A broadcast keeps the invariant. -/
theorem Inv.broadcast (hinv : Inv s) {index : ℕ} (h : step s (.broadcast index) = some s') : Inv s' := by
  obtain ⟨u, hu, hsome⟩ := Option.bind_eq_some_iff.1 h
  obtain rfl := Option.some.inj hsome
  have hpart : u.part = .whole := hinv.whole u (List.mem_append_left _ (List.mem_of_getElem? hu))
  have herase : ∀ v ∈ s.waiting.eraseIdx index, v ∈ s.waiting := fun v hv => List.mem_of_mem_eraseIdx hv
  by_cases hphase : s.phase = .connecting
  · simp only [hphase, if_true]
    refine ⟨hinv.increasing, hinv.newest, hinv.below_of_count rfl rfl fun id => ?_, fun v hv => ?_, ?_⟩
    · rw [count_routes, count_routes, count_eraseIdx hu id]
      simp only [hphase]
      omega
    · rcases List.mem_append.1 hv with hv | hv
      · exact hinv.whole v (List.mem_append_left _ (herase v hv))
      · exact hinv.whole v (List.mem_append_right _ hv)
    · have hrouted := hinv.routed
      rw [Routed, hphase] at hrouted
      exact hrouted
  · simp only [if_neg hphase]
    refine hinv.moved rfl rfl rfl hphase (fun id => ?_) fun v hv => ?_
    · rw [count_routes, count_routes, count_eraseIdx hu id, List.filterMap_append, List.count_append,
        List.filterMap_cons, List.filterMap_nil]
      cases u.post with
      | none => simp
      | some p =>
        simp only [Option.toList_some]
        omega
    · rcases List.mem_append.1 hv with hv | hv
      · exact hinv.whole v (List.mem_append_left _ (herase v hv))
      · rcases List.mem_append.1 hv with hv | hv
        · exact hinv.whole v (List.mem_append_right _ hv)
        · exact List.mem_singleton.1 hv ▸ hpart

/-- A delivery keeps the invariant. -/
theorem Inv.deliver (hinv : Inv s) {index : ℕ} (hcond : s.Apart (.deliver index))
    (h : step s (.deliver index) = some s') : Inv s' := by
  obtain ⟨u, hu, hsome⟩ := Option.bind_eq_some_iff.1 h
  obtain rfl := Option.some.inj hsome
  have hmem : u ∈ s.reader.missing := List.mem_of_getElem? hu
  have hpart : u.part = .whole := hinv.whole u (List.mem_append_right _ hmem)
  have hrecipient : s.phase ≠ .connecting := by
    intro hphase
    have hrouted := hinv.routed
    rw [Routed, hphase] at hrouted
    rw [hrouted.2] at hmem
    cases hmem
  refine hinv.moved rfl rfl rfl hrecipient (fun id => ?_) fun v hv => ?_
  · rw [count_routes, count_routes, count_eraseIdx hu id, Reader.ids_receive hpart (hcond u hu),
      List.count_append]
    dsimp only
    omega
  · rcases List.mem_append.1 hv with hv | hv
    · exact hinv.whole v (List.mem_append_left _ hv)
    · exact hinv.whole v (List.mem_append_right _ (List.mem_of_mem_eraseIdx hv))

/-- A page that is sent keeps the invariant. -/
theorem Inv.sendPage (hinv : Inv s) (hcond : s.Apart .sendPage) (h : step s .sendPage = some s') :
    Inv s' := by
  simp only [step] at h
  split at h
  · rename_i start messages hphase
    obtain rfl := Option.some.inj h
    have hroom : s.reader.pane.length + messages.length < Pane.historyLimit := by
      have hlen : s.reader.pane.length + (paged s.phase).length < Pane.historyLimit := hcond
      rwa [hphase, paged, List.length_map] at hlen
    have hcount : ∀ id, ({ s with
        phase := .replayed (some start)
        reader := { s.reader with
          pane := s.reader.pane.startHistory "event.history" (messages.map Entry.replayed) } } :
        Handover).routes.count id = s.routes.count id := by
      intro id
      rw [count_routes, count_routes, Pane.ids_startHistory hroom, List.count_append, hphase]
      simp only [paged, List.count_nil]
      omega
    refine ⟨hinv.increasing, hinv.newest, hinv.below_of_count rfl rfl fun id => (hcount id).le,
      hinv.whole, fun id hid hle => ?_⟩
    have hrouted := hinv.routed
    rw [Routed, hphase] at hrouted
    rw [hcount]
    exact hrouted id hid hle
  · cases h
  · cases h
  · cases h

/-- The newest page is the end of the history, and starts where it says. -/
theorem page_suffix (h : History) (count budget : ℕ) (timestamps : Bool) :
    ∃ index, (h.page none count budget timestamps).messages.map (·.id) =
        (h.records.map (·.id)).drop index ∧
      (h.page none count budget timestamps).start =
        ((h.records.map (·.id)).drop index).head?.getD h.next := by
  simp only [History.page, Option.map_none, Option.getD_none, List.take_length]
  generalize History.walkBack h.records count budget h.records.length h.records.length 0 = index
  refine ⟨index, ?_, ?_⟩
  · rw [List.map_map]
    exact List.map_drop
  · rw [List.head?_drop, List.getElem?_map]

/-- Of the messages from its start on, the newest page has each once. -/
theorem Inv.page (hinv : Inv s) (count budget : ℕ) (timestamps : Bool) :
    ∀ id ∈ s.stored, (s.messages.history.page none count budget timestamps).start ≤ id →
      ((s.messages.history.page none count budget timestamps).messages.map (·.id)).count id = 1 := by
  obtain ⟨index, hids, hstart⟩ := page_suffix s.messages.history count budget timestamps
  rw [hids, hstart]
  have hsuffix := (List.drop_suffix index _).trans hinv.newest
  revert hsuffix
  generalize (s.messages.history.records.map (·.id)).drop index = last
  rintro ⟨first, hstored⟩ id hid hle
  have hinc := hinv.increasing
  rw [← hstored, List.pairwise_append] at hinc
  refine List.count_eq_one_of_mem (hinc.2.1.imp fun hlt => BitVec.ne_of_lt hlt) ?_
  -- A message before the page is below its start.
  rw [← hstored] at hid
  refine (List.mem_append.1 hid).resolve_left fun hfirst => ?_
  cases last with
  | nil =>
    have hlt := hinv.below id (List.mem_append_right _ (hstored ▸ List.mem_append_left _ hfirst))
    exact Nat.not_le_of_lt hlt hle
  | cons start last => exact Nat.not_le_of_lt (hinc.2.2 id hfirst start List.mem_cons_self) hle

/-- A page has messages of the history. -/
theorem mem_paged {h : History} {persistentMessages timestamps : Bool} {historyPage : ℕ} {id : U64}
    (hid : id ∈ paged (sendHistory h persistentMessages historyPage timestamps)) :
    id ∈ h.records.map (·.id) := by
  obtain ⟨index, hids, -⟩ := page_suffix h (max historyPage 1) maxHistorySize timestamps
  unfold sendHistory at hid
  split_ifs at hid
  · cases hid
  · dsimp only at hid
    split_ifs at hid
    · cases hid
    · rw [paged, hids] at hid
      exact List.mem_of_mem_drop hid

/-- A page that is taken keeps the invariant. -/
theorem Inv.takePage (hinv : Inv s) {persistentMessages timestamps : Bool} {historyPage : ℕ}
    (h : step s (.takePage persistentMessages historyPage timestamps) = some s') : Inv s' := by
  simp only [step] at h
  split at h
  · rename_i hphase
    obtain rfl := Option.some.inj h
    have hnone : s.routes = [] := by
      have hrouted := hinv.routed
      rwa [Routed, hphase] at hrouted
    obtain ⟨hpane, hmissing, hwaiting⟩ : s.reader.pane.ids = [] ∧
        s.reader.missing.filterMap Update.post = [] ∧ s.waiting.filterMap Update.post = [] := by
      simpa [routes, hphase, paged] using hnone
    have hroutes : ∀ phase, ({ s with phase := phase } : Handover).routes = paged phase := by
      intro phase
      simp only [routes, hpane, hmissing, hwaiting, List.nil_append, List.append_nil]
    have hpage := hinv.page (max historyPage 1) maxHistorySize timestamps
    refine ⟨hinv.increasing, hinv.newest, fun id hid => ?_, hinv.whole, ?_⟩
    · -- What is on the page is stored.
      rw [hroutes] at hid
      refine hinv.below id (List.mem_append_right _ ?_)
      rcases List.mem_append.1 hid with hid | hid
      · exact hinv.newest.subset (mem_paged hid)
      · exact hid
    · simp only [Routed, hroutes]
      unfold sendHistory
      split_ifs with hoff
      · trivial
      · dsimp only
        split_ifs with hempty
        · rw [List.isEmpty_iff.1 hempty] at hpage
          exact hpage
        · exact hpage
  · cases h

/-- A login keeps the invariant, if nothing is posted between it and the page. -/
theorem Inv.authenticate (hinv : Inv s) (hcond : s.Apart .authenticate)
    (h : step s .authenticate = some s') : Inv s' := by
  simp only [step] at h
  split at h
  · rename_i hphase
    obtain rfl := Option.some.inj h
    have hrouted := hinv.routed
    rw [Routed, hphase] at hrouted
    have hwaiting : s.waiting.filterMap Update.post = [] := hcond
    have hnone : ({ s with phase := .authenticated } : Handover).routes = [] := by
      simp only [routes, hrouted.1, hrouted.2, hwaiting, paged, List.filterMap_nil, List.append_nil]
    refine ⟨hinv.increasing, hinv.newest, fun id hid => ?_, hinv.whole, hnone⟩
    rw [hnone, List.nil_append] at hid
    exact hinv.below id (List.mem_append_right _ hid)
  · cases h

/-- The ways of a message are one each after a post: the new id was on no way yet, and an old one
is not the new one. -/
theorem Inv.count_posted (hinv : Inv s) {u : Update} {new : List U64}
    (hpost : ∀ p ∈ u.post.toList, p = s.messages.history.next) (hnew : new.Sublist u.post.toList) {start : U64}
    (hrouted : ∀ id ∈ s.stored, start ≤ id → s.routes.count id = 1) :
    ∀ id ∈ s.stored ++ new, start ≤ id → (s.routes ++ u.post.toList).count id = 1 := by
  intro id hid hle
  rw [List.count_append]
  rcases List.mem_append.1 hid with hid | hid
  · have hzero : u.post.toList.count id = 0 := by
      refine List.count_eq_zero.2 fun hmem => ?_
      have hlt := hinv.below id (List.mem_append_right _ hid)
      rw [hpost id hmem] at hlt
      exact BitVec.lt_irrefl _ hlt
    rw [hrouted id hid hle, hzero]
  · have hmem := hnew.subset hid
    have hzero : s.routes.count id = 0 := by
      refine List.count_eq_zero.2 fun hroute => ?_
      have hlt := hinv.below id (List.mem_append_left _ hroute)
      rw [hpost id hmem] at hlt
      exact BitVec.lt_irrefl _ hlt
    rw [hzero, Option.mem_toList.1 hmem, Option.toList_some, List.count_singleton_self]

/-- A new id is on one more way to the client, and stored if its record is kept. -/
theorem Inv.posted (hinv : Inv s) {u : Update} {m : Messages} {new : List U64}
    (hroom : s.messages.history.next ≠ BitVec.allOnes 64) (hpart : u.part = .whole)
    (hpost : ∀ p, u.post = some p → p = s.messages.history.next)
    (hauth : s.phase = .authenticated → u.post = none)
    (hnext : m.history.next = s.messages.history.next + 1)
    (hnew : new.Sublist u.post.toList)
    (hnewest : m.history.records.map (·.id) <:+ s.stored ++ new) :
    Inv { s with messages := m, waiting := s.waiting ++ [u], stored := s.stored ++ new } := by
  obtain ⟨hself, hbelow⟩ := Messages.lt_next_succ hroom
  have hpost' : ∀ p ∈ u.post.toList, p = s.messages.history.next :=
    fun p hp => hpost p (Option.mem_toList.1 hp)
  have hroutes : ({ s with messages := m, waiting := s.waiting ++ [u], stored := s.stored ++ new } :
      Handover).routes = s.routes ++ u.post.toList := by
    simp only [routes, List.filterMap_append, List.append_assoc, List.filterMap_cons,
      List.filterMap_nil]
    cases u.post <;> rfl
  constructor
  case increasing =>
    refine List.pairwise_append.2 ⟨hinv.increasing, ?_, fun id hid p hp => ?_⟩
    · refine List.Pairwise.sublist hnew ?_
      cases u.post with
      | none => exact .nil
      | some p => exact List.pairwise_singleton _ _
    · rw [hpost' p (hnew.subset hp)]
      exact hinv.below id (List.mem_append_right _ hid)
  case newest => exact hnewest
  case below =>
    rw [hroutes]
    intro id hid
    dsimp only at hid ⊢
    rw [hnext]
    rcases List.mem_append.1 hid with hid | hid
    · rcases List.mem_append.1 hid with hid | hid
      · exact hbelow id (hinv.below id (List.mem_append_left _ hid))
      · exact hpost' id hid ▸ hself
    · rcases List.mem_append.1 hid with hid | hid
      · exact hbelow id (hinv.below id (List.mem_append_right _ hid))
      · exact hpost' id (hnew.subset hid) ▸ hself
  case whole =>
    intro v hv
    rcases List.mem_append.1 hv with hv | hv
    · rcases List.mem_append.1 hv with hv | hv
      · exact hinv.whole v (List.mem_append_left _ hv)
      · exact List.mem_singleton.1 hv ▸ hpart
    · exact hinv.whole v (List.mem_append_right _ hv)
  case routed =>
    have hrouted := hinv.routed
    unfold Routed at hrouted ⊢
    rw [hroutes]
    dsimp only
    cases hphase : s.phase with
    | connecting =>
      rw [hphase] at hrouted
      exact hrouted
    | authenticated =>
      rw [hphase] at hrouted
      rw [hrouted, hauth hphase]
      rfl
    | paging start messages =>
      rw [hphase] at hrouted
      exact hinv.count_posted hpost' hnew hrouted
    | replayed start =>
      cases start with
      | none => trivial
      | some start =>
        rw [hphase] at hrouted
        exact hinv.count_posted hpost' hnew hrouted

/-- A message keeps the invariant, if it is not between the two. -/
theorem Inv.post (hinv : Inv s) {config : LobbyConfig} {sender : Sender} {text : String}
    {reply : Option U64} (hcond : s.Apart (.post config sender text reply))
    (h : step s (.post config sender text reply) = some s') : Inv s' := by
  obtain ⟨hroom, hlobby⟩ := hcond
  rw [Handover.step] at h
  have hposted := Why2.posted config sender text reply s.messages
  have hchannel : ∀ u, (config.messageRequest sender text reply s.messages).1 = some u →
      s.phase = .authenticated → u.post = none :=
    fun u hu hphase => post_of_channel hu fun hnone => hlobby hnone hphase
  revert h hposted hchannel
  generalize config.messageRequest sender text reply s.messages = result
  obtain ⟨update, m⟩ := result
  intro h hposted hchannel
  dsimp only at hposted hchannel
  obtain rfl := Option.some.inj h
  cases hposted with
  | refused =>
    simp only [Option.toList_none, List.append_nil, Option.bind_none, Option.filter_none]
    exact hinv
  | unstored u _ hpart hpost hnext hrecords =>
    -- The records are those from before, all below the new id.
    have hnew : u.post.filter (fun id => m.history.records.any (·.id = id)) = none := by
      refine Option.filter_eq_none_iff.2 fun p hp hany => ?_
      obtain ⟨r, hr, hid⟩ := List.any_eq_true.1 hany
      have hstored := hinv.newest.subset (List.mem_map_of_mem (hrecords ▸ hr))
      have hlt := hinv.below _ (List.mem_append_right _ hstored)
      rw [of_decide_eq_true hid, hpost p hp] at hlt
      exact BitVec.lt_irrefl _ hlt
    rw [Option.bind_some, hnew]
    refine hinv.posted hroom hpart hpost (hchannel u rfl) hnext (List.nil_sublist _) ?_
    rw [hrecords, Option.toList_none, List.append_nil]
    exact hinv.newest
  | stored u _ r n hpart hpost hnext hid hn hrecords =>
    have hmem : r ∈ m.history.records := by
      rw [hrecords, List.drop_append_of_le_length hn]
      exact List.mem_append_right _ (List.mem_singleton_self r)
    have hnew : u.post.filter (fun id => m.history.records.any (·.id = id)) = u.post := by
      rw [hpost, Option.filter_some, if_pos]
      exact List.any_eq_true.2 ⟨r, hmem, decide_eq_true hid⟩
    rw [Option.bind_some, hnew]
    refine hinv.posted hroom hpart (fun p hp => Option.some.inj (hp.symm.trans hpost)) (hchannel u rfl)
      hnext (List.Sublist.refl _) ?_
    obtain ⟨first, hfirst⟩ := hinv.newest
    rw [hrecords, hpost, List.map_drop, List.map_append, List.map_singleton, hid, Option.toList_some,
      ← hfirst, List.append_assoc]
    exact (List.drop_suffix n _).trans (List.suffix_append _ _)

/-- **A step that keeps login and messages apart keeps the invariant.** -/
theorem Inv.step {a : HandoverAction} (hinv : Inv s) (hcond : s.Apart a)
    (h : Handover.step s a = some s') : Inv s' := by
  cases a with
  | post config sender text reply => exact hinv.post hcond h
  | broadcast index => exact hinv.broadcast h
  | authenticate => exact hinv.authenticate hcond h
  | takePage persistentMessages historyPage timestamps => exact hinv.takePage h
  | sendPage => exact hinv.sendPage hcond h
  | deliver index => exact hinv.deliver hcond h

/-- **The history is handed over.**  No message of the lobby is between its two steps when a
client is authenticated, and none is stored until the page is taken.  Once everything is
delivered, every stored message from the start of the page on is in the client's pane,
and is there once. -/
theorem history_handed_over (file : List Record) (lines : List String) (muted : List ℕ)
    (hfile : (file.map (·.id)).Pairwise (· < ·)) (hroom : ∀ r ∈ file, r.id ≠ BitVec.allOnes 64)
    (actions : List HandoverAction) (s : Handover)
    (hrun : exec step (start file lines muted) actions = some s)
    (hmeets : Meets step Apart (start file lines muted) actions) (hquiet : s.Quiet) : s.Complete := by
  have hinv := exec_induct (fun _ _ _ hinv => hinv.step) (inv_start hfile hroom lines muted) hmeets hrun
  intro start hphase id hid hle
  have hrouted := hinv.routed
  rw [Routed, hphase] at hrouted
  have hcount := hrouted id hid hle
  rw [count_routes, hphase, hquiet.1, hquiet.2] at hcount
  exact hcount

/-- Anna's first message is on the page, and her second one comes after it. -/
theorem history_handed_over_apart :
    let actions : List HandoverAction :=
      [.post Lobby.keepingConfig Lobby.annaSender "hi" none, .broadcast 0, .authenticate,
        .takePage true 50 true, .post Lobby.keepingConfig Lobby.annaSender "there" none, .broadcast 0,
        .deliver 0, .sendPage]
    ∃ s, exec step (start [] [] []) actions = some s ∧ s.stored = [0, 1] ∧ s.Complete := by
  intro actions
  have hruns : ((exec step (start [] [] []) actions).map fun s =>
      (s.waiting, s.reader.missing, s.stored)) = some ([], [], [0, 1]) := by decide +kernel
  obtain ⟨s, hs, heq⟩ := Option.map_eq_some_iff.1 hruns
  simp only [Prod.mk.injEq] at heq
  obtain ⟨hwaiting, hmissing, hstored⟩ := heq
  exact ⟨s, hs, hstored, history_handed_over [] [] [] .nil (fun r hr => (nomatch hr)) actions s hs
    (by decide +kernel) ⟨hwaiting, hmissing⟩⟩

end Handover

end Why2
