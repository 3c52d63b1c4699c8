/-
# The replayed messages

The client's `start_history` and `prepend_history` together with the server's
`send_history` (`chat/src/network/server/mod.rs`), which answers with the page of the
history of that moment: the newest page at login, later one page above the cursor at a
time.  Between the request, the answer and its arrival both sides go on, the client
with entries that come in, deletions and other channels, the server with calls on the
history.

Whatever comes between, the ids of the replayed entries increase, and no message that
is stored between the first and the last of them is missing but what was deleted
(`Covered`): a call of the server adds messages above all of these only, and an answer
lies directly below the cursor (`Answered`), which is gone as soon as the first
replayed entry is.  That is the anchor's work: `history_anchor`.  The ids are those of
the counter, and past its last number they start again at 0 (`replay_runs_over`).
-/

import Why2.Chat.Handover
import Why2.Chat.PaneHistory

namespace Why2

open Lib Rows

/-! ### What is between the replayed messages -/

/-- Every stored message from `low` on, up to the last of `ids`, is one of `ids` or was deleted. -/
def Full (h : History) (ids deleted : List U64) (low : U64) : Prop :=
  ∀ r ∈ h.records, low ≤ r.id → (∃ id ∈ ids, r.id ≤ id) → r.id ∈ ids ∨ r.id ∈ deleted

/-- The ids of the replayed entries: from the first of them on, and from the cursor on, nothing is
missing. -/
structure Covered (h : History) (ids deleted : List U64) (cursor : Option U64) : Prop where
  increasing : ids.Pairwise (· < ·)
  below : ∀ id ∈ ids, id < h.next
  full : ∀ low ∈ ids, Full h ids deleted low
  asks : ∀ c, cursor = some c → c ≤ h.next ∧ (∀ id ∈ ids, c ≤ id) ∧ Full h ids deleted c

/-- The ids on a page. -/
def Page.ids (p : Page) : List U64 := p.messages.map (·.id)

/-- A page as an answer: the stored messages between its start and the cursor, or the end. -/
structure Answered (h : History) (before : Option U64) (p : Page) : Prop where
  increasing : p.ids.Pairwise (· < ·)
  between : ∀ id ∈ p.ids, p.start ≤ id ∧ id < h.next ∧ ∀ c, before = some c → id < c
  full : ∀ r ∈ h.records, p.start ≤ r.id → (∀ c, before = some c → r.id < c) → r.id ∈ p.ids
  start_le : p.more = true → p.start ≤ h.next ∧ ∀ c, before = some c → p.start ≤ c

section Covered

variable {h : History} {ids deleted : List U64} {cursor : Option U64} {p : Page} {c : U64}

/-- Before anything is replayed. -/
theorem Covered.empty (h : History) : Covered h [] [] none where
  increasing := .nil
  below id hid := by cases hid
  full low hlow := by cases hlow
  asks c hc := by cases hc

/-- A deletion more is no loss. -/
theorem Full.delete {low : U64} (hfull : Full h ids deleted low) (id : U64) : Full h ids (id :: deleted) low :=
  fun r hr hlow hhigh => (hfull r hr hlow hhigh).imp_right (List.mem_cons_of_mem id)

/-- A deletion that takes no replayed entry. -/
theorem Covered.delete (hcov : Covered h ids deleted cursor) (id : U64) : Covered h ids (id :: deleted) cursor where
  increasing := hcov.increasing
  below := hcov.below
  full low hlow := (hcov.full low hlow).delete id
  asks c hc := by
    obtain ⟨hnext, hle, hfull⟩ := hcov.asks c hc
    exact ⟨hnext, hle, hfull.delete id⟩

/-- A message may go once it is deleted. -/
theorem Full.erase {low id : U64} {k : ℕ} (hk : ids[k]? = some id) (hfull : Full h ids deleted low) :
    Full h (ids.eraseIdx k) (id :: deleted) low := by
  intro r hr hlow hhigh
  obtain ⟨high, hmem, hle⟩ := hhigh
  obtain hold | hdeleted := hfull r hr hlow ⟨high, (List.eraseIdx_sublist ids k).subset hmem, hle⟩
  · obtain ⟨i, hi⟩ := List.mem_iff_getElem?.1 hold
    by_cases hik : i = k
    · rw [hik, hk] at hi
      exact .inr (Option.some.inj hi ▸ List.mem_cons_self)
    · exact .inl (List.mem_eraseIdx_iff_getElem?.2 ⟨i, hik, hi⟩)
  · exact .inr (List.mem_cons_of_mem id hdeleted)

/-- **A deletion that takes a replayed entry.** -/
theorem Covered.erase {id : U64} {k : ℕ} (hcov : Covered h ids deleted cursor) (hk : ids[k]? = some id) :
    Covered h (ids.eraseIdx k) (id :: deleted) cursor := by
  have hsub := (List.eraseIdx_sublist ids k).subset
  refine ⟨hcov.increasing.sublist (List.eraseIdx_sublist ids k), fun id hid => hcov.below id (hsub hid),
    fun low hlow => (hcov.full low (hsub hlow)).erase hk, fun c hc => ?_⟩
  obtain ⟨hnext, hle, hfull⟩ := hcov.asks c hc
  exact ⟨hnext, fun id hid => hle id (hsub hid), hfull.erase hk⟩

/-- **Entries go from the top.** -/
theorem Covered.suffix {ids' : List U64} (hcov : Covered h ids deleted cursor) (hsuffix : ids' <:+ ids) :
    Covered h ids' deleted none := by
  obtain ⟨gone, rfl⟩ := hsuffix
  obtain ⟨-, hrest, hacross⟩ := List.pairwise_append.1 hcov.increasing
  refine ⟨hrest, fun id hid => hcov.below id (List.mem_append_right gone hid), fun low hlow r hr hle hhigh => ?_,
    fun c hc => by cases hc⟩
  obtain ⟨high, hmem, hhigh⟩ := hhigh
  refine (hcov.full low (List.mem_append_right gone hlow) r hr hle
    ⟨high, List.mem_append_right gone hmem, hhigh⟩).imp_left fun hold => ?_
  -- what went is below all that is left
  refine (List.mem_append.1 hold).resolve_left fun hgone => ?_
  have hlt := hacross r.id hgone low hlow
  bv_omega

/-- A message that is stored after a call, with an id of before, was stored before. -/
theorem Full.call {m m' : Messages} {out : Option U64} {low : U64} (heffect : Messages.Effect m out m')
    (hbelow : ∀ id ∈ ids, id < m.history.next) (hfull : Full m.history ids deleted low) :
    Full m'.history ids deleted low := by
  intro r hr hlow hhigh
  obtain ⟨high, hmem, hle⟩ := hhigh
  have hlt := hbelow high hmem
  obtain ⟨r', hr', hid⟩ := Reading.exists_before_call heffect hr (by bv_omega)
  rw [← hid] at hlow hle ⊢
  exact hfull r' hr' hlow ⟨high, hmem, hle⟩

/-- **A call of the server.** -/
theorem Covered.call {m m' : Messages} {out : Option U64} (heffect : Messages.Effect m out m')
    (hroom : out.isSome = true → m.history.next ≠ BitVec.allOnes 64) (hcov : Covered m.history ids deleted cursor) :
    Covered m'.history ids deleted cursor := by
  have hnext := heffect.next_le hroom
  refine ⟨hcov.increasing, fun id hid => ?_, fun low hlow => (hcov.full low hlow).call heffect hcov.below,
    fun c hc => ?_⟩
  · have hlt := hcov.below id hid
    bv_omega
  · obtain ⟨hle, habove, hfull⟩ := hcov.asks c hc
    exact ⟨by bv_omega, habove, hfull.call heffect hcov.below⟩

/-- What was an answer to a cursor stays one. -/
theorem Answered.call {m m' : Messages} {out : Option U64} (heffect : Messages.Effect m out m')
    (hroom : out.isSome = true → m.history.next ≠ BitVec.allOnes 64) (hc : c ≤ m.history.next)
    (hanswered : Answered m.history (some c) p) : Answered m'.history (some c) p := by
  have hnext := heffect.next_le hroom
  refine ⟨hanswered.increasing, fun id hid => ?_, fun r hr hstart hlt => ?_, fun hmore => ?_⟩
  · obtain ⟨hstart, hbelow, hlt⟩ := hanswered.between id hid
    exact ⟨hstart, by bv_omega, hlt⟩
  · have := hlt c rfl
    obtain ⟨r', hr', hid⟩ := Reading.exists_before_call heffect hr (by bv_omega)
    rw [← hid] at hstart hlt ⊢
    exact hanswered.full r' hr' hstart hlt
  · obtain ⟨hle, hcursor⟩ := hanswered.start_le hmore
    exact ⟨by bv_omega, hcursor⟩

/-- **The answer to the cursor comes in above the ids**; the newest page, where there are none. -/
theorem Covered.prepend (hcov : Covered h ids deleted cursor) (hnone : cursor = none → ids = [])
    (hanswered : Answered h cursor p) :
    Covered h (p.ids ++ ids) deleted (if p.more then some p.start else none) := by
  -- the ids are at the cursor or above it
  have habove : ∀ id ∈ ids, ∃ c, cursor = some c ∧ c ≤ id := by
    intro id hid
    cases hcursor : cursor with
    | none =>
      rw [hnone hcursor] at hid
      cases hid
    | some c => exact ⟨c, rfl, (hcov.asks c hcursor).2.1 id hid⟩
  -- what is not below the cursor is not below the ids only because of the page
  have hpast : ∀ c, cursor = some c → ∀ x, c ≤ x → (∃ high ∈ p.ids ++ ids, x ≤ high) →
      ∃ high ∈ ids, x ≤ high := by
    rintro c hcursor x hc ⟨high, hmem, hle⟩
    refine ⟨high, (List.mem_append.1 hmem).resolve_left fun hpage => ?_, hle⟩
    have := (hanswered.between high hpage).2.2 c hcursor
    bv_omega
  have hfull : ∀ low, p.start ≤ low → Full h (p.ids ++ ids) deleted low := by
    intro low hstart r hr hlow hhigh
    by_cases hbefore : ∀ c, cursor = some c → r.id < c
    · exact .inl (List.mem_append_left _ (hanswered.full r hr (by bv_omega) hbefore))
    · push Not at hbefore
      obtain ⟨c, hcursor, hc⟩ := hbefore
      rw [BitVec.not_lt] at hc
      exact ((hcov.asks c hcursor).2.2 r hr hc (hpast c hcursor r.id hc hhigh)).imp_left (List.mem_append_right _)
  refine ⟨List.pairwise_append.2 ⟨hanswered.increasing, hcov.increasing, fun id hid id' hid' => ?_⟩,
    fun id hid => ?_, fun low hlow => ?_, fun c hc => ?_⟩
  · obtain ⟨c, hcursor, hle⟩ := habove id' hid'
    have := (hanswered.between id hid).2.2 c hcursor
    bv_omega
  · exact (List.mem_append.1 hid).elim (fun hpage => (hanswered.between id hpage).2.1) (hcov.below id)
  · rcases List.mem_append.1 hlow with hpage | hold
    · exact hfull low (hanswered.between low hpage).1
    · intro r hr hle hhigh
      obtain ⟨c, hcursor, hc⟩ := habove low hold
      exact (hcov.full low hold r hr hle (hpast c hcursor r.id (by bv_omega) hhigh)).imp_left
        (List.mem_append_right _)
  · obtain ⟨hmore, hstart⟩ := Option.ite_none_right_eq_some.1 hc
    obtain rfl := Option.some.inj hstart
    obtain ⟨hnext, hcursor⟩ := hanswered.start_le hmore
    refine ⟨hnext, fun id hid => ?_, hfull _ (BitVec.le_refl _)⟩
    rcases List.mem_append.1 hid with hpage | hold
    · exact (hanswered.between id hpage).1
    · obtain ⟨c, hc, hle⟩ := habove id hold
      have := hcursor c hc
      bv_omega

/-- A page that leaves something out starts with its first message. -/
theorem Cut.exists_first {timestamps : Bool} {budget : ℕ} {below older newer : List Record}
    (hcut : Cut timestamps budget below older newer p) (holder : older ≠ []) :
    ∃ first ∈ newer, p.start = first.id := by
  obtain ⟨first, rest, rfl⟩ := List.exists_cons_of_ne_nil (hcut.newer_ne_nil holder)
  exact ⟨first, List.mem_cons_self, hcut.start first rfl⟩

/-- **The server's page is an answer to the cursor it is asked with.** -/
theorem answered_of_cut {timestamps : Bool} {budget : ℕ} {older newer : List Record} (hord : h.Ordered)
    (hcut : Cut timestamps budget (h.olderThan cursor) older newer p) : Answered h cursor p := by
  have hids : p.ids = newer.map (·.id) := by
    rw [Page.ids, hcut.messages, wire, List.map_map]
    rfl
  obtain ⟨-, hnewer, hacross⟩ := List.pairwise_append.1 (Reading.cut_increasing hord hcut)
  have hstart : ∀ r ∈ newer, p.start ≤ r.id := by
    intro r hr
    obtain ⟨first, rest, rfl⟩ := List.exists_cons_of_ne_nil (List.ne_nil_of_mem hr)
    rw [hcut.start first rfl]
    rcases List.mem_cons.1 hr with rfl | hr
    · exact BitVec.le_refl _
    · exact BitVec.le_of_lt ((List.pairwise_cons.1 hnewer).1 r hr)
  have hbelow : ∀ r ∈ newer, r.id < h.next ∧ ∀ c, cursor = some c → r.id < c := by
    intro r hr
    obtain ⟨hmem, hbefore⟩ := Reading.cut_below hcut hr
    refine ⟨hord.below r hmem, fun c hc => ?_⟩
    rw [hc, Option.all_some, decide_eq_true_iff] at hbefore
    exact hbefore
  refine ⟨?_, fun id hid => ?_, fun r hr hle hlt => ?_, fun hmore => ?_⟩
  · rw [hids]
    exact List.pairwise_map.2 hnewer
  · rw [hids] at hid
    obtain ⟨r, hr, rfl⟩ := List.mem_map.1 hid
    exact ⟨hstart r hr, hbelow r hr⟩
  · rw [hids]
    have hmem : r ∈ older ++ newer := by
      rw [← hcut.split]
      refine List.mem_filter.2 ⟨hr, ?_⟩
      cases hcursor : cursor with
      | none => rfl
      | some c =>
        rw [Option.all_some, decide_eq_true_iff]
        exact hlt c hcursor
    refine List.mem_map_of_mem ((List.mem_append.1 hmem).resolve_left fun hold => ?_)
    obtain ⟨first, hfirst, hstart⟩ := hcut.exists_first (List.ne_nil_of_mem hold)
    have := hacross r hold first hfirst
    rw [hstart] at hle
    bv_omega
  · obtain ⟨first, hfirst, hstart⟩ := hcut.exists_first (hcut.more.1 hmore)
    obtain ⟨hnext, hcursor⟩ := hbelow first hfirst
    rw [hstart]
    exact ⟨BitVec.le_of_lt hnext, fun c hc => BitVec.le_of_lt (hcursor c hc)⟩

/-- **So is the page of a packet.** -/
theorem answered_of_sendHistory {timestamps persistentMessages : Bool} {historyPage : ℕ} {packet : HistoryPacket}
    (hord : h.Ordered)
    (hsend : sendHistory h timestamps persistentMessages historyPage cursor = some packet) :
    Answered h cursor packet.page := by
  obtain ⟨older, newer, hcut⟩ :=
    hord.page_cut (Nat.le_max_right historyPage 1) timestamps cursor maxHistorySize
  unfold sendHistory at hsend
  dsimp only at hsend
  split_ifs at hsend
  obtain rfl := Option.some.inj hsend
  exact answered_of_cut hord hcut

end Covered

namespace Rows

/-! ### Client and server -/

/-- An entry as the client shows a message of the history. -/
def replaySlot (autoShow : Bool) (r : Record) : Slot := ⟨Entry.replayed r, if autoShow then .pending else .absent⟩

/-- The entries of a page. -/
def replaySlots (autoShow : Bool) (p : Page) : List Slot := p.messages.map (replaySlot autoShow)

/-- How far the request for an older page is: the cursor that was sent, or the page that is on its way. -/
inductive Flight
  | idle
  | asked (cursor : U64)
  | answered (page : Page)
deriving DecidableEq

/-- The server's messages and the client; what the lobby's pane is made of, and the ids of the deletions
since the newest page came. -/
structure Replay (ρ : Type) where
  server : Messages
  app : App ρ
  flight : Flight
  feed : Feed
  deleted : List U64

/-- A call of the server, or something that the client does or is sent. -/
inductive ReplayEvent
  | call (action : MessageAction)
  | login (timestamps persistentMessages : Bool) (historyPage : ℕ) (autoShow : Bool)
  | push (slot : Slot)
  | park (channel : String) (slot : Slot)
  | delete (id : U64)
  | clear
  | switch (channel : String)
  | ask (withinReach : Bool)
  | answer (timestamps persistentMessages : Bool) (historyPage : ℕ)
  | receive (autoShow : Bool)
deriving DecidableEq

namespace Replay

variable {ρ : Type}

/-- One step.  The newest page is sent at login, in the lobby and before any other is asked for; an entry
is parked for a channel that is not shown. -/
def step (s : Replay ρ) : ReplayEvent → Option (Replay ρ)
  | .call action => some { s with server := (s.server.act action).2 }
  | .login timestamps persistentMessages historyPage autoShow =>
    if s.app.channel = "" ∧ s.flight = .idle then
      (sendHistory s.server.history timestamps persistentMessages historyPage none).map fun packet =>
        let slots := replaySlots autoShow packet.page
        { s with
          app := s.app.startHistory slots packet.page.start packet.page.more
          feed := s.feed.start slots
          deleted := [] }
    else none
  | .push slot =>
    some { s with
      app := s.app.pushEntry slot
      feed := if s.app.channel = "" then s.feed.push slot else s.feed }
  | .park channel slot =>
    if channel = s.app.channel then none
    else some { s with
      app := s.app.parkEntry channel slot
      feed := if channel = "" then s.feed.push slot else s.feed }
  | .delete id =>
    some { s with
      app := s.app.deleteMessage id
      feed := match s.app.lobbyIndex id with
        | some index => s.feed.erase index
        | none => s.feed
      deleted := id :: s.deleted }
  | .clear =>
    some { s with app := s.app.clearMessages, feed := if s.app.channel = "" then s.feed.clear else s.feed }
  | .switch channel => some { s with app := s.app.switchChannel channel }
  | .ask withinReach =>
    let (app, request) := s.app.loadHistory withinReach
    some { s with app, flight := (request.map Flight.asked).getD s.flight }
  | .answer timestamps persistentMessages historyPage =>
    match s.flight with
    | .asked cursor =>
      (sendHistory s.server.history timestamps persistentMessages historyPage (some cursor)).map fun packet =>
        { s with flight := .answered packet.page }
    | .idle | .answered _ => none
  | .receive autoShow =>
    match s.flight with
    | .answered page =>
      let slots := replaySlots autoShow page
      some { s with
        app := s.app.prependHistory slots page.start page.more
        flight := .idle
        feed := if s.app.channel = "" ∧ s.app.historyAnchor.isSome then s.feed.prepend slots else s.feed }
    | .idle | .asked _ => none

/-- A client before the login. -/
def start (m : Messages) (theme : Theme ρ) : Replay ρ := ⟨m, App.new theme, .idle, ⟨[], [], [], false⟩, []⟩

/-- The counter does not run over. -/
def Room (s : Replay ρ) : ReplayEvent → Prop
  | .call action => action.takesId → s.server.history.next ≠ BitVec.allOnes 64
  | _ => True

instance (s : Replay ρ) (event : ReplayEvent) : Decidable (s.Room event) :=
  match event with
  | .call action => inferInstanceAs (Decidable (action.takesId → s.server.history.next ≠ BitVec.allOnes 64))
  | .login .. | .push _ | .park .. | .delete _ | .clear | .switch _ | .ask _ | .answer .. | .receive _ =>
    .isTrue trivial

/-! ### The invariant -/

/-- The ids on the replayed entries. -/
def Carries (replayed : List Slot) (ids : List U64) : Prop := replayed.map Slot.messageId = ids.map some

/-- What is on its way belongs to the cursor. -/
def Current (h : History) (cursor : Option U64) : Flight → Prop
  | .idle => True
  | .asked c => cursor = some c
  | .answered page => ∃ c, cursor = some c ∧ Answered h (some c) page

/-- The invariant. -/
structure Inv (s : Replay ρ) : Prop where
  ordered : s.server.history.Ordered
  tidy : s.app.Tidy
  parts : Parts s.app.lobby s.feed
  covered : ∃ ids, Carries s.feed.replayed ids ∧ Covered s.server.history ids s.deleted s.app.historyCursor
  pending : s.flight ≠ .idle → s.app.historyPending = true
  current : s.app.historyAnchor ≠ none → Current s.server.history s.app.historyCursor s.flight
  lost : s.feed.lost = true → s.app.historyCursor = none ∧ (s.app.historyAnchor = none ∨ s.flight = .idle)

variable {s s' : Replay ρ}

/-- A replayed entry is of its record. -/
@[simp] theorem messageId_replaySlot (autoShow : Bool) (r : Record) :
    (replaySlot autoShow r).messageId = some r.id := by
  unfold replaySlot Slot.messageId Entry.replayed
  dsimp only
  split <;> rfl

/-- A page carries its messages. -/
theorem carries_replaySlots (autoShow : Bool) (p : Page) : Carries (replaySlots autoShow p) p.ids := by
  rw [Carries, replaySlots, Page.ids, List.map_map, List.map_map]
  exact List.map_congr_left fun r _ => messageId_replaySlot autoShow r

/-- Pages carry what they carry together. -/
theorem Carries.append {replayed replayed' : List Slot} {ids ids' : List U64} (h : Carries replayed ids)
    (h' : Carries replayed' ids') : Carries (replayed ++ replayed') (ids ++ ids') := by
  rw [Carries, List.map_append, h, h', List.map_append]

/-- The last entries carry the last messages. -/
theorem Carries.suffix {replayed replayed' : List Slot} {ids : List U64} (h : Carries replayed ids)
    (hsuffix : replayed' <:+ replayed) : ∃ ids', ids' <:+ ids ∧ Carries replayed' ids' := by
  refine ⟨ids.drop (replayed.length - replayed'.length), List.drop_suffix _ _, ?_⟩
  rw [Carries, List.map_drop, ← h, ← List.map_drop, ← List.suffix_iff_eq_drop.1 hsuffix]

/-- An entry that goes takes its message with it. -/
theorem Carries.erase {replayed : List Slot} {ids : List U64} (h : Carries replayed ids) (k : ℕ) :
    Carries (replayed.eraseIdx k) (ids.eraseIdx k) := by
  rw [Carries, ← List.eraseIdx_map, h, List.eraseIdx_map]

/-- The message of an entry is the one at its place. -/
theorem Carries.getElem? {replayed : List Slot} {ids : List U64} (h : Carries replayed ids) {k : ℕ} {slot : Slot}
    {id : U64} (hk : replayed[k]? = some slot) (hid : slot.messageId = some id) : ids[k]? = some id := by
  have hmap := congrArg (·[k]?) h
  rw [List.getElem?_map, List.getElem?_map, hk, Option.map_some, hid] at hmap
  obtain ⟨id', hid', heq⟩ := Option.map_eq_some_iff.1 hmap.symm
  rw [hid', Option.some.inj heq]

/-- **A call of the server keeps the invariant.** -/
theorem Inv.call (hinv : s.Inv) {out : Option U64} {m' : Messages} (heffect : Messages.Effect s.server out m')
    (hroom : out.isSome = true → s.server.history.next ≠ BitVec.allOnes 64) :
    Inv { s with server := m' } := by
  obtain ⟨ids, hids, hcov⟩ := hinv.covered
  refine ⟨heffect.ordered hinv.ordered hroom, hinv.tidy, hinv.parts, ⟨ids, hids, hcov.call heffect hroom⟩,
    hinv.pending, fun hanchor => ?_, hinv.lost⟩
  have hcurrent := hinv.current hanchor
  dsimp only
  cases hflight : s.flight with
  | idle => trivial
  | asked c =>
    rw [hflight] at hcurrent
    exact hcurrent
  | answered page =>
    rw [hflight] at hcurrent
    obtain ⟨c, hc, hanswered⟩ := hcurrent
    exact ⟨c, hc, hanswered.call heffect hroom (hcov.asks c hc).1⟩

/-- What is trimmed stays covered. -/
theorem covered_of_trims {h : History} {deleted : List U64} {l l' : Rows.Lobby} {f f' : Feed}
    (htrims : Trims l f l' f')
    (hcovered : ∃ ids, Carries f.replayed ids ∧ Covered h ids deleted l.cursor) :
    ∃ ids, Carries f'.replayed ids ∧ Covered h ids deleted l'.cursor := by
  obtain ⟨ids, hids, hcov⟩ := hcovered
  obtain ⟨hreplayed, -, hsame⟩ | hnone := htrims.kept
  · rw [hreplayed, hsame]
    exact ⟨ids, hids, hcov⟩
  · obtain ⟨ids', hids', hcarries⟩ := hids.suffix htrims.suffix
    rw [htrims.parts.cursor_none hnone]
    exact ⟨ids', hcarries, hcov.suffix hids'⟩

/-- **What an older page comes in above is covered with it.** -/
theorem covered_prepend {h : History} {deleted : List U64} {l : Rows.Lobby} {f : Feed} (hparts : Parts l f)
    {anchor : ℕ} (hanchor : l.anchor = some anchor)
    (hcovered : ∃ ids, Carries f.replayed ids ∧ Covered h ids deleted l.cursor)
    {page : Page} (hanswered : ∃ c, l.cursor = some c ∧ Answered h (some c) page) (autoShow : Bool) :
    (∃ ids, Carries (f.prepend (replaySlots autoShow page)).replayed ids ∧
      Covered h ids deleted (l.prepend (replaySlots autoShow page) page.start page.more).cursor) ∧
    ((f.prepend (replaySlots autoShow page)).lost = true →
      f.lost = true ∨ (l.prepend (replaySlots autoShow page) page.start page.more).cursor = none) := by
  obtain ⟨ids, hids, hcov⟩ := hcovered
  obtain ⟨c, hc, hanswered⟩ := hanswered
  obtain ⟨skip, hcursor, hfeed⟩ := hparts.prepend_spec hanchor (replaySlots autoShow page) page.start page.more
  rw [hc] at hcov
  have hpage := hcov.prepend (fun hnone => by cases hnone) hanswered
  have hcarries := (carries_replaySlots autoShow page).append hids
  rw [hcursor, hfeed]
  by_cases hskip : skip = 0
  · subst hskip
    simp only [and_true, List.drop_zero]
    exact ⟨⟨page.ids ++ ids, hcarries, hpage⟩, fun hlost => .inl (by simpa using hlost)⟩
  · rw [if_neg (fun hand => hskip hand.2)]
    obtain ⟨ids', hids', hcarries'⟩ :=
      hcarries.suffix (List.suffix_append_self_iff.2 (List.drop_suffix skip (replaySlots autoShow page)))
    exact ⟨⟨ids', hcarries', hpage.suffix hids'⟩, fun _ => .inr rfl⟩

/-- **What only trims the lobby keeps the invariant.** -/
theorem Inv.trims (hinv : s.Inv) {app : App ρ} {feed : Feed} (htidy : app.Tidy)
    (hpending : app.historyPending = s.app.historyPending) (htrims : Trims s.app.lobby s.feed app.lobby feed) :
    Inv { s with app, feed } := by
  have hkept : (feed.replayed = s.feed.replayed ∧ feed.lost = s.feed.lost ∧
      app.historyCursor = s.app.historyCursor) ∨ app.historyAnchor = none := htrims.kept
  have hgone : s.app.historyAnchor = none → app.historyAnchor = none := htrims.gone
  refine ⟨hinv.ordered, htidy, htrims.parts, covered_of_trims htrims hinv.covered,
    fun hflight => hpending.trans (hinv.pending hflight), fun hanchor => ?_, fun hlost => ?_⟩
  · obtain ⟨-, -, hsame⟩ | hnone := hkept
    · dsimp only
      rw [hsame]
      exact hinv.current fun hnone => hanchor (hgone hnone)
    · exact absurd hnone hanchor
  · obtain ⟨-, hkept, hsame⟩ | hnone := hkept
    · obtain ⟨hnone, hidle⟩ := hinv.lost (hkept ▸ hlost)
      exact ⟨hsame.trans hnone, hidle.imp_left hgone⟩
    · exact ⟨htrims.parts.cursor_none hnone, .inl hnone⟩

/-- So does what leaves the cursor and the anchor. -/
theorem Inv.keeps (hinv : s.Inv) {app : App ρ} {feed : Feed} {deleted : List U64} (htidy : app.Tidy)
    (hpending : app.historyPending = s.app.historyPending) (hparts : Parts app.lobby feed)
    (hcursor : app.historyCursor = s.app.historyCursor)
    (hanchor : app.historyAnchor = none ↔ s.app.historyAnchor = none) (hlost : feed.lost = s.feed.lost)
    (hcovered : ∃ ids, Carries feed.replayed ids ∧ Covered s.server.history ids deleted s.app.historyCursor) :
    Inv { s with app, feed, deleted } := by
  refine ⟨hinv.ordered, htidy, hparts, hcursor.symm ▸ hcovered,
    fun hflight => hpending.trans (hinv.pending hflight), fun hsome => ?_, fun hgone => ?_⟩
  · dsimp only
    rw [hcursor]
    exact hinv.current (mt hanchor.2 hsome)
  · obtain ⟨hnone, hidle⟩ := hinv.lost (hlost ▸ hgone)
    exact ⟨hcursor.trans hnone, hidle.imp_left hanchor.2⟩

/-- **An older page is asked for.** -/
theorem Inv.ask (hinv : s.Inv) (withinReach : Bool) :
    Inv { s with
      app := (s.app.loadHistory withinReach).1
      flight := ((s.app.loadHistory withinReach).2.map Flight.asked).getD s.flight } := by
  obtain hsame | ⟨cursor, -, -, hcursor, hasked⟩ := s.app.loadHistory_spec withinReach
  · rw [hsame]
    exact hinv
  · rw [hasked]
    refine ⟨hinv.ordered, hinv.tidy, hinv.parts, hinv.covered, fun _ => rfl, fun _ => hcursor, fun hlost => ?_⟩
    -- after a loss there is no cursor to ask with
    exact absurd (hcursor.symm.trans (hinv.lost hlost).1) (Option.some_ne_none _)

/-- **It is answered.** -/
theorem Inv.answer (hinv : s.Inv) {cursor : U64} (hflight : s.flight = .asked cursor) {page : Page}
    (hanswered : Answered s.server.history (some cursor) page) : Inv { s with flight := .answered page } := by
  refine ⟨hinv.ordered, hinv.tidy, hinv.parts, hinv.covered, fun _ => ?_, fun hanchor => ?_, fun hlost => ?_⟩
  · exact hinv.pending (by rw [hflight]; nofun)
  · have hcurrent := hinv.current hanchor
    rw [hflight] at hcurrent
    exact ⟨cursor, hcurrent, hanswered⟩
  · obtain ⟨hnone, hidle⟩ := hinv.lost hlost
    refine ⟨hnone, .inl (hidle.resolve_right ?_)⟩
    rw [hflight]
    nofun

/-- While the anchor is there, the page on its way is the answer to the cursor. -/
theorem Inv.current_answered (hinv : s.Inv) {page : Page} (hflight : s.flight = .answered page)
    (hanchor : s.app.historyAnchor.isSome) :
    ∃ c, s.app.historyCursor = some c ∧ Answered s.server.history (some c) page := by
  have hcurrent := hinv.current (Option.isSome_iff_ne_none.1 hanchor)
  rw [hflight] at hcurrent
  exact hcurrent

/-- With nothing on its way only a loss has to be told. -/
theorem Inv.idle (hinv : s.Inv) {app : App ρ} {feed : Feed} (htidy : app.Tidy) (hparts : Parts app.lobby feed)
    (hcovered : ∃ ids, Carries feed.replayed ids ∧ Covered s.server.history ids s.deleted app.historyCursor)
    (hlost : feed.lost = true → app.historyCursor = none) : Inv { s with app, flight := .idle, feed } :=
  ⟨hinv.ordered, htidy, hparts, hcovered, fun hne => absurd rfl hne, fun _ => trivial,
    fun hgone => ⟨hlost hgone, .inr rfl⟩⟩

/-- **A deletion keeps the invariant.** -/
theorem Inv.delete (hinv : s.Inv) (id : U64) :
    Inv { s with
      app := s.app.deleteMessage id
      feed := match s.app.lobbyIndex id with
        | some index => s.feed.erase index
        | none => s.feed
      deleted := id :: s.deleted } := by
  obtain ⟨ids, hids, hcov⟩ := hinv.covered
  obtain ⟨-, htidy, hpending, hlobby⟩ := App.lobby_deleteMessage hinv.tidy id
  cases hindex : s.app.lobbyIndex id with
  | none =>
    rw [hindex] at hlobby
    have hanchor : (s.app.deleteMessage id).historyAnchor = s.app.historyAnchor := congrArg Rows.Lobby.anchor hlobby
    exact hinv.keeps htidy hpending (hlobby.symm ▸ hinv.parts) (congrArg Rows.Lobby.cursor hlobby)
      (by rw [hanchor]) rfl ⟨ids, hids, hcov.delete id⟩
  | some index =>
    rw [hindex] at hlobby
    have hanchor : (s.app.deleteMessage id).historyAnchor = App.shiftAnchor index s.app.historyAnchor :=
      congrArg Rows.Lobby.anchor hlobby
    have hnone : (s.app.deleteMessage id).historyAnchor = none ↔ s.app.historyAnchor = none := by
      rw [hanchor]
      exact Option.map_eq_none_iff
    obtain ⟨hlost, hreplayed⟩ := s.feed.replayed_erase index
    refine hinv.keeps htidy hpending (hlobby.symm ▸ hinv.parts.erase index) (congrArg Rows.Lobby.cursor hlobby) hnone
      hlost ?_
    obtain hsame | ⟨k, hk, herased⟩ := hreplayed
    · exact ⟨ids, hsame.symm ▸ hids, hcov.delete id⟩
    · obtain ⟨slot, hslot, hid⟩ := App.getElem?_lobbyIndex hinv.tidy hindex
      rw [hinv.parts.pane_eq] at hslot
      exact ⟨ids.eraseIdx k, herased.symm ▸ hids.erase k, hcov.erase (hids.getElem? (hk.trans hslot) hid)⟩

/-- **The newest page.** -/
theorem Inv.login (hinv : s.Inv) (hchannel : s.app.channel = "") (hflight : s.flight = .idle) {page : Page}
    (hanswered : Answered s.server.history none page) (autoShow : Bool) :
    Inv { s with
      app := s.app.startHistory (replaySlots autoShow page) page.start page.more
      feed := s.feed.start (replaySlots autoShow page)
      deleted := [] } := by
  obtain ⟨hchannel', hpanes, hpending, hlobby⟩ :=
    s.app.lobby_startHistory hchannel (replaySlots autoShow page) page.start page.more
  have htrims := hinv.parts.start (replaySlots autoShow page) page.start page.more
  rw [← hlobby] at htrims
  have hcov := (Covered.empty s.server.history).prepend (fun _ => rfl) hanswered
  rw [List.append_nil] at hcov
  refine ⟨hinv.ordered, ?_, htrims.parts,
    covered_of_trims htrims ⟨page.ids, carries_replaySlots autoShow page, hcov⟩,
    fun hne => absurd hflight hne, fun _ => ?_, fun hlost => ?_⟩
  · rw [App.Tidy, hpanes, hchannel']
    exact hinv.tidy
  · dsimp only
    rw [hflight]
    trivial
  · obtain ⟨-, hkept, -⟩ | hnone := htrims.kept
    · exact absurd (hkept.symm.trans hlost) Bool.false_ne_true
    · exact ⟨htrims.parts.cursor_none hnone, .inl hnone⟩

/-- **An older page.** -/
theorem Inv.receive (hinv : s.Inv) {page : Page} (hflight : s.flight = .answered page) (autoShow : Bool) :
    Inv { s with
      app := s.app.prependHistory (replaySlots autoShow page) page.start page.more
      flight := .idle
      feed := if s.app.channel = "" ∧ s.app.historyAnchor.isSome then s.feed.prepend (replaySlots autoShow page)
        else s.feed } := by
  obtain ⟨ids, hids, hcov⟩ := hinv.covered
  obtain ⟨hchannel, hpanes, -, hlobby⟩ :=
    s.app.lobby_prependHistory (replaySlots autoShow page) page.start page.more
  have htidy : (s.app.prependHistory (replaySlots autoShow page) page.start page.more).Tidy := by
    rw [App.Tidy, hpanes, hchannel]
    exact hinv.tidy
  by_cases hadd : s.app.channel = "" ∧ s.app.historyAnchor.isSome
  · obtain ⟨anchor, hanchor⟩ := Option.isSome_iff_exists.1 hadd.2
    have hcurrent := hinv.current_answered hflight hadd.2
    obtain ⟨hcovered, hlost⟩ := covered_prepend hinv.parts hanchor hinv.covered hcurrent autoShow
    rw [if_pos hadd] at hlobby
    rw [← hlobby] at hcovered hlost
    rw [if_pos hadd]
    refine hinv.idle htidy (hlobby.symm ▸ hinv.parts.prepend hanchor _ _ _) hcovered fun hgone => ?_
    refine (hlost hgone).elim (fun hold => ?_) id
    obtain ⟨c, hc, -⟩ := hcurrent
    exact absurd (hc.symm.trans (hinv.lost hold).1) (Option.some_ne_none _)
  · rw [if_neg hadd] at hlobby
    have hcursor : (s.app.prependHistory (replaySlots autoShow page) page.start page.more).historyCursor =
        s.app.historyCursor := congrArg Rows.Lobby.cursor hlobby
    rw [if_neg hadd]
    exact hinv.idle htidy (hlobby.symm ▸ hinv.parts) (hcursor.symm ▸ hinv.covered)
      fun hgone => hcursor.trans (hinv.lost hgone).1

/-- **Every step keeps the invariant.** -/
theorem Inv.step (hinv : s.Inv) (event : ReplayEvent) (hroom : s.Room event) (h : Replay.step s event = some s') :
    Inv s' := by
  cases event with
  | call action =>
    obtain rfl := Option.some.inj h
    exact hinv.call (s.server.act_effect action) fun htakes => hroom (Ledger.takesId_of_act s.server action htakes)
  | login timestamps persistentMessages historyPage autoShow =>
    obtain ⟨⟨hchannel, hflight⟩, h⟩ := Option.ite_none_right_eq_some.1 h
    obtain ⟨packet, hpacket, rfl⟩ := Option.map_eq_some_iff.1 h
    exact hinv.login hchannel hflight (answered_of_sendHistory hinv.ordered hpacket) autoShow
  | push slot =>
    obtain rfl := Option.some.inj h
    obtain ⟨hchannel, hpanes, hpending, hlobby⟩ := App.lobby_pushEntry slot s.app
    refine hinv.trims ?_ hpending ?_
    · rw [App.Tidy, hchannel, hpanes]
      exact hinv.tidy
    · rw [hlobby]
      split_ifs
      · exact hinv.parts.push slot
      · exact .refl hinv.parts
  | park channel slot =>
    obtain ⟨hne, h⟩ := Option.ite_none_left_eq_some.1 h
    obtain rfl := Option.some.inj h
    obtain ⟨-, htidy, hpending, hlobby⟩ := App.lobby_parkEntry hne slot
    refine hinv.trims (htidy hinv.tidy) hpending ?_
    rw [hlobby]
    split_ifs
    · exact hinv.parts.push slot
    · exact .refl hinv.parts
  | delete id =>
    obtain rfl := Option.some.inj h
    exact hinv.delete id
  | clear =>
    obtain rfl := Option.some.inj h
    obtain ⟨hchannel, hpanes, hpending, hlobby⟩ := App.lobby_clearMessages s.app
    refine hinv.trims ?_ hpending ?_
    · rw [App.Tidy, hchannel, hpanes]
      exact hinv.tidy
    · rw [hlobby]
      split_ifs
      · exact .clear _ _
      · exact .refl hinv.parts
  | switch channel =>
    obtain rfl := Option.some.inj h
    obtain ⟨-, htidy, hpending, hlobby⟩ := App.lobby_switchChannel hinv.tidy channel
    exact hinv.trims htidy hpending (hlobby.symm ▸ .refl hinv.parts)
  | ask withinReach =>
    obtain rfl := Option.some.inj h
    exact hinv.ask withinReach
  | answer timestamps persistentMessages historyPage =>
    unfold Replay.step at h
    dsimp only at h
    split at h
    · next cursor hflight =>
      obtain ⟨packet, hpacket, rfl⟩ := Option.map_eq_some_iff.1 h
      exact hinv.answer hflight (answered_of_sendHistory hinv.ordered hpacket)
    · cases h
    · cases h
  | receive autoShow =>
    unfold Replay.step at h
    dsimp only at h
    split at h
    · next page hflight =>
      obtain rfl := Option.some.inj h
      exact hinv.receive hflight autoShow
    · cases h
    · cases h

/-- Nothing was replayed. -/
theorem inv_start {m : Messages} (hord : m.history.Ordered) (theme : Theme ρ) : (start m theme).Inv where
  ordered := hord
  tidy := rfl
  parts := ⟨rfl, nofun, fun _ => rfl⟩
  covered := ⟨[], rfl, .empty m.history⟩
  pending hne := absurd rfl hne
  current _ := trivial
  lost hlost := by cases hlost

/-- A page that arrives comes in directly above the replayed entries if the lobby is shown and has an
anchor, and then the cursor is still there. -/
theorem Inv.pane_receive (hinv : s.Inv) {autoShow : Bool} (h : Replay.step s (.receive autoShow) = some s') :
    ∃ page, s.flight = .answered page ∧
      if s.app.channel = "" ∧ s.app.historyAnchor.isSome then
        s.app.historyCursor ≠ none ∧ s'.app.lobby.pane = s.feed.above ++
          ((replaySlots autoShow page).drop
            ((replaySlots autoShow page).length - (Pane.historyLimit - s.app.lobby.pane.length)) ++
            s.feed.replayed) ++ s.feed.below
      else s'.app.lobby = s.app.lobby := by
  have hpane := (hinv.step (.receive autoShow) trivial h).parts.pane_eq
  unfold Replay.step at h
  dsimp only at h
  split at h
  · next page hflight =>
    obtain rfl := Option.some.inj h
    obtain ⟨-, -, -, hlobby⟩ := s.app.lobby_prependHistory (replaySlots autoShow page) page.start page.more
    refine ⟨page, hflight, ?_⟩
    split_ifs with hadd
    · obtain ⟨c, hc, -⟩ := hinv.current_answered hflight hadd.2
      refine ⟨Option.ne_none_iff_exists'.2 ⟨c, hc⟩, ?_⟩
      dsimp only at hpane ⊢
      rw [hpane, if_pos hadd, hinv.parts.pane_eq]
      rfl
    · rw [if_neg hadd] at hlobby
      exact hlobby
  · cases h
  · cases h

/-- **The anchor of the history.**  Over a history in order, in every run in which the counter of the
server does not run over: the anchor is in the lobby's pane, at the replayed entries; their ids
increase, and no message that is stored between the first and the last of them is missing but what was
deleted; a page that arrives while the lobby is shown and has the anchor comes in directly above them, as
far as there is room for it; and once one of them was lost to the cap, no
page is asked for and none comes in. -/
theorem history_anchor (theme : Theme ρ) (m : Messages) (hord : m.history.Ordered) (events : List ReplayEvent)
    (s : Replay ρ) (hmeets : Meets Replay.step Room (start m theme) events)
    (hexec : exec Replay.step (start m theme) events = some s) :
    (∀ anchor, s.app.historyAnchor = some anchor →
      anchor ≤ s.app.lobby.pane.length ∧ anchor = s.feed.above.length) ∧
    s.app.lobby.pane = s.feed.above ++ s.feed.replayed ++ s.feed.below ∧
    (∃ ids : List U64, s.feed.replayed.map Slot.messageId = ids.map some ∧ ids.Pairwise (· < ·) ∧
      ∀ r ∈ s.server.history.records, ∀ low ∈ ids, ∀ high ∈ ids, low ≤ r.id → r.id ≤ high →
        r.id ∈ ids ∨ r.id ∈ s.deleted) ∧
    (∀ autoShow s', Replay.step s (.receive autoShow) = some s' →
      ∃ page, s.flight = .answered page ∧
        if s.app.channel = "" ∧ s.app.historyAnchor.isSome then
          s'.app.lobby.pane = s.feed.above ++
            ((replaySlots autoShow page).drop
              ((replaySlots autoShow page).length - (Pane.historyLimit - s.app.lobby.pane.length)) ++
              s.feed.replayed) ++ s.feed.below
        else s'.app.lobby = s.app.lobby) ∧
    (s.feed.lost = true →
      (∀ withinReach, s.app.loadHistory withinReach = (s.app, none)) ∧
      ∀ autoShow s', Replay.step s (.receive autoShow) = some s' → s'.app.lobby = s.app.lobby) := by
  have hinv : s.Inv :=
    exec_induct (fun _ _ _ hinv hroom hstep => hinv.step _ hroom hstep) (inv_start hord theme) hmeets hexec
  refine ⟨fun anchor hanchor => ?_, hinv.parts.pane_eq, ?_, fun autoShow s' h => ?_,
    fun hlost => ⟨fun withinReach => ?_, fun autoShow s' h => ?_⟩⟩
  · have hlength : s.feed.above.length = anchor := hinv.parts.anchor_eq anchor hanchor
    refine ⟨?_, hlength.symm⟩
    rw [hinv.parts.pane_eq, ← hlength, Feed.all, List.length_append, List.length_append]
    omega
  · obtain ⟨ids, hids, hcov⟩ := hinv.covered
    exact ⟨ids, hids, hcov.increasing, fun r hr low hlow high hhigh hle hge =>
      hcov.full low hlow r hr hle ⟨high, hhigh, hge⟩⟩
  · obtain ⟨page, hflight, hpane⟩ := hinv.pane_receive h
    refine ⟨page, hflight, ?_⟩
    split_ifs at hpane ⊢
    · exact hpane.2
    · exact hpane
  · obtain hsame | ⟨cursor, -, -, hcursor, -⟩ := s.app.loadHistory_spec withinReach
    · exact hsame
    · exact absurd (hcursor.symm.trans (hinv.lost hlost).1) (Option.some_ne_none _)
  · obtain ⟨page, -, hpane⟩ := hinv.pane_receive h
    split_ifs at hpane
    · exact absurd (hinv.lost hlost).1 hpane.1
    · exact hpane

/-- Four messages in pages of two.  While the older page is on its way a message is deleted, another
channel is shown and left, and entries come in. -/
theorem history_anchor_run :
    ∃ s : Replay (List Char),
      exec Replay.step (start (.start ([0, 1, 2, 3].map (Ledger.note · []))) textTheme)
        [.push (lineOf 3), .login true true 2 true, .ask true, .answer true true 2, .delete 2, .switch "den",
          .park "" (lineOf 4), .switch "", .call (.delete 1), .receive true] = some s ∧
      s.feed.replayed.map Slot.messageId = [some 0, some 1, some 3] ∧
      s.app.lobby.pane = s.feed.above ++ s.feed.replayed ++ s.feed.below := by
  obtain ⟨s, hexec, hids⟩ := Option.map_eq_some_iff.1 (show
      (exec Replay.step (start (.start ([0, 1, 2, 3].map (Ledger.note · []))) textTheme)
        [.push (lineOf 3), .login true true 2 true, .ask true, .answer true true 2, .delete 2, .switch "den",
          .park "" (lineOf 4), .switch "", .call (.delete 1), .receive true]).map
        (fun s => s.feed.replayed.map Slot.messageId) = some [some 0, some 1, some 3] by decide +kernel)
  exact ⟨s, hexec, hids, (history_anchor textTheme _ (Ledger.ordered_new (by decide) (by decide)) _ s
    (by decide +kernel) hexec).2.1⟩

/-- **Not over every history.**  Past the last 64-bit number the ids start again at 0. -/
theorem replay_runs_over :
    ¬∀ (theme : Theme (List Char)) (m : Messages) (events : List ReplayEvent) (s : Replay (List Char)),
      m.history.Ordered → exec Replay.step (start m theme) events = some s →
        ∃ ids : List U64, s.feed.replayed.map Slot.messageId = ids.map some ∧ ids.Pairwise (· < ·) := by
  intro h
  obtain ⟨s, hexec, hreplayed⟩ := Option.map_eq_some_iff.1 (show
      (exec Replay.step (start (.start [Ledger.note (BitVec.allOnes 64 - 1) []]) textTheme)
        [.call (.store 100 "ben" "b" none none), .call (.store 100 "ben" "c" none none), .login true true 50 true]).map
        (fun s => s.feed.replayed.map Slot.messageId) =
          some ([BitVec.allOnes 64 - 1, BitVec.allOnes 64, 0].map some) by decide +kernel)
  obtain ⟨ids, hids, hincreasing⟩ := h textTheme _ _ s (Ledger.ordered_new (by decide) (by decide)) hexec
  rw [hreplayed] at hids
  rw [← List.map_injective_iff.2 (Option.some_injective U64) hids] at hincreasing
  exact absurd hincreasing (by decide)

end Replay

end Rows

end Why2
