/-
# The history in the lobby's pane

`start_history`, `prepend_history`, `push_entry`, `park_entry`, `delete_message`,
`clear_messages` and `switch_channel` (`chat/src/bin/client/tui/state.rs`), and the
first lines of `load_visible`, which ask for an older page.  The entries of the
lobby are in the pane that is shown or in a parked one, and the history is replayed
into them from an anchor on.

The calls are those on `App` of `Why2.Chat.PaneRows`.  To the lobby they do the same
whether it is shown or parked: what they do is an operation on its entries, the
anchor and the cursor (`Lobby`), or nothing.  What the entries are is kept apart as
the parts that lie above the replayed ones, the replayed ones, and those below
(`Feed`); the operations keep the parts in step with the pane and the anchor at the
replayed ones (`Parts`).
-/

import Why2.Chat.PaneRows

namespace Why2
namespace Rows

open Lib

variable {ρ : Type}

namespace App

/-- `park_entry`, the removal of the first entry. -/
def popParked (channel : String) (s : App ρ) : App ρ :=
  let anchor :=
    if channel = "" then s.historyAnchor.bind fun anchor => if 1 ≤ anchor then some (anchor - 1) else none
    else s.historyAnchor
  { s with
    panes := fun c => if c = channel then (s.panes channel).tail else s.panes c
    historyAnchor := anchor
    historyCursor := if channel = "" ∧ anchor = none then none else s.historyCursor }

/-- `park_entry`. -/
def parkEntry (channel : String) (slot : Slot) (s : App ρ) : App ρ :=
  (popParked channel)^[(s.panes channel).length + 1 - Pane.historyLimit]
    { s with panes := fun c => if c = channel then s.panes channel ++ [slot] else s.panes c }

/-- The first lines of `load_visible`: whether the top of the pane is within reach is an argument, and
`history_request` is returned. -/
def loadHistory (withinReach : Bool) (s : App ρ) : App ρ × Option U64 :=
  if withinReach ∧ s.channel = "" ∧ s.historyPending = false then
    match s.historyCursor with
    | some cursor => ({ s with historyPending := true }, some cursor)
    | none => (s, none)
  else (s, none)

/-- Where `delete_message` takes an entry out of the lobby's pane. -/
def lobbyIndex (id : U64) (s : App ρ) : Option ℕ :=
  match s.find id with
  | some index => if s.channel = "" then some index else none
  | none => (s.panes "").findIdx? fun slot => slot.messageId = some id

end App

/-! ### The lobby, shown or parked -/

/-- The entries of the lobby, where the replayed ones begin, and the cursor to ask with. -/
structure Lobby where
  pane : List Slot
  anchor : Option ℕ
  cursor : Option U64
deriving DecidableEq

/-- The lobby of a client. -/
def App.lobby (s : App ρ) : Lobby :=
  ⟨if s.channel = "" then s.messages else s.panes "", s.historyAnchor, s.historyCursor⟩

namespace Lobby

/-- The first entry goes: the replayed ones move up, or go. -/
def pop (l : Lobby) : Lobby :=
  let anchor := l.anchor.bind fun anchor => if 1 ≤ anchor then some (anchor - 1) else none
  ⟨l.pane.tail, anchor, if anchor = none then none else l.cursor⟩

/-- How many entries go when one comes in. -/
def excess (l : Lobby) : ℕ := l.pane.length + 1 - Pane.historyLimit

/-- An entry comes in below. -/
def push (slot : Slot) (l : Lobby) : Lobby := pop^[l.excess] { l with pane := l.pane ++ [slot] }

/-- The newest page comes in below. -/
def start (slots : List Slot) (first : U64) (more : Bool) (l : Lobby) : Lobby :=
  slots.foldl (fun l slot => l.push slot) ⟨l.pane, some l.pane.length, if more then some first else none⟩

/-- An older page comes in at the anchor. -/
def prepend (slots : List Slot) (first : U64) (more : Bool) (l : Lobby) : Lobby :=
  match l.anchor with
  | none => l
  | some anchor =>
    let skip := slots.length - (Pane.historyLimit - l.pane.length)
    ⟨l.pane.take anchor ++ slots.drop skip ++ l.pane.drop anchor, some anchor,
      if more ∧ skip = 0 then some first else none⟩

/-- An entry goes. -/
def erase (index : ℕ) (l : Lobby) : Lobby :=
  ⟨l.pane.eraseIdx index, App.shiftAnchor index l.anchor, l.cursor⟩

end Lobby

namespace App

variable {s : App ρ}

/-- The pane that is shown is not parked as well. -/
def Tidy (s : App ρ) : Prop := s.panes s.channel = []

/-- The lobby, while it is shown. -/
theorem lobby_of_shown (h : s.channel = "") : s.lobby = ⟨s.messages, s.historyAnchor, s.historyCursor⟩ := by
  rw [lobby, if_pos h]

/-- A change of what is shown is a change of the lobby. -/
theorem lobby_shown (h : s.channel = "") (messages : List Slot) (anchor : Option ℕ) (cursor : Option U64) :
    ({ s with messages, historyAnchor := anchor, historyCursor := cursor } : App ρ).lobby =
      ⟨messages, anchor, cursor⟩ :=
  lobby_of_shown (s := { s with messages, historyAnchor := anchor, historyCursor := cursor }) h

/-- The lobby, while it is parked. -/
theorem lobby_of_parked (h : s.channel ≠ "") : s.lobby = ⟨s.panes "", s.historyAnchor, s.historyCursor⟩ := by
  rw [lobby, if_neg h]

/-- A change of what is parked is a change of the lobby. -/
theorem lobby_parked (h : s.channel ≠ "") (messages : List Slot) (panes : String → List Slot) :
    ({ s with messages, panes } : App ρ).lobby = ⟨panes "", s.historyAnchor, s.historyCursor⟩ :=
  lobby_of_parked (s := { s with messages, panes }) h

/-! ### Entries that come in below -/

/-- A trim of what is shown, in terms of the lobby. -/
theorem lobby_popFront (n : ℕ) (s : App ρ) :
    ((popFront^[n] s).channel = s.channel ∧ (popFront^[n] s).panes = s.panes ∧
      (popFront^[n] s).historyPending = s.historyPending) ∧
      (popFront^[n] s).lobby = (if s.channel = "" then Lobby.pop else id)^[n] s.lobby := by
  refine iterate_view (fun t : App ρ => t.channel = s.channel ∧ t.panes = s.panes ∧
    t.historyPending = s.historyPending) lobby (f := popFront) (fun t ht => ht) (fun t ht => ?_) ⟨rfl, rfl, rfl⟩ n
  by_cases h : s.channel = ""
  · have hshown : t.channel = "" := ht.1.trans h
    rw [if_pos h, lobby_of_shown hshown, lobby_of_shown (show t.popFront.channel = "" from hshown), Lobby.pop]
    simp only [popFront, hshown, if_true, true_and]
  · have hparked : t.channel ≠ "" := fun hshown => h (ht.1.symm.trans hshown)
    rw [if_neg h, lobby_of_parked hparked, lobby_of_parked (show t.popFront.channel ≠ "" from hparked)]
    simp only [popFront, hparked, if_false, false_and, id_eq]

/-- What is trimmed is what is too much in the lobby. -/
theorem excess_of_shown (h : s.channel = "") : s.lobby.excess = s.trimmed := by
  rw [lobby_of_shown h, Lobby.excess, trimmed]

/-- `push_entry`, with the number of entries that go. -/
theorem pushEntry_of_trimmed {n : ℕ} (hn : s.trimmed = n) (slot : Slot) :
    s.pushEntry slot =
      { popFront^[n] { s with messages := s.messages ++ [slot] } with
        generation := s.generation + 1
        unread := if s.scroll.isSome then s.unread + 1 else s.unread } := by
  rw [pushEntry, hn]

/-- **An entry in the pane that is shown.** -/
theorem lobby_pushEntry (slot : Slot) (s : App ρ) :
    (s.pushEntry slot).channel = s.channel ∧ (s.pushEntry slot).panes = s.panes ∧
      (s.pushEntry slot).historyPending = s.historyPending ∧
      (s.pushEntry slot).lobby = if s.channel = "" then s.lobby.push slot else s.lobby := by
  -- the limit is a numeral, and the number of entries that go any number
  obtain ⟨n, hn⟩ : ∃ n, s.trimmed = n := ⟨_, rfl⟩
  rw [pushEntry_of_trimmed hn]
  obtain ⟨⟨hchannel, hpanes, hpending⟩, hlobby⟩ := lobby_popFront n { s with messages := s.messages ++ [slot] }
  refine ⟨hchannel, hpanes, hpending, hlobby.trans ?_⟩
  by_cases h : s.channel = ""
  · rw [if_pos h, if_pos h, Lobby.push, excess_of_shown h, hn, lobby_of_shown h, lobby_shown h]
  · rw [if_neg h, if_neg h, Function.iterate_id, lobby_of_parked h, lobby_parked h]
    rfl

/-- A trim of what is parked, in terms of the lobby. -/
theorem lobby_popParked {channel : String} (hne : channel ≠ s.channel) (n : ℕ) :
    (((popParked channel)^[n] s).channel = s.channel ∧
      ((popParked channel)^[n] s).panes s.channel = s.panes s.channel ∧
      ((popParked channel)^[n] s).historyPending = s.historyPending) ∧
      ((popParked channel)^[n] s).lobby = (if channel = "" then Lobby.pop else id)^[n] s.lobby := by
  refine iterate_view (fun t : App ρ => t.channel = s.channel ∧ t.panes s.channel = s.panes s.channel ∧
    t.historyPending = s.historyPending) lobby (f := popParked channel) (fun t ht => ?_) (fun t ht => ?_)
    ⟨rfl, rfl, rfl⟩ n
  · exact ⟨ht.1, (if_neg hne.symm).trans ht.2.1, ht.2.2⟩
  · by_cases hlobby : channel = ""
    · have hparked : t.channel ≠ "" := fun hshown => hne (hlobby.trans (hshown.symm.trans ht.1))
      rw [if_pos hlobby, lobby_of_parked hparked,
        lobby_of_parked (show (t.popParked channel).channel ≠ "" from hparked), Lobby.pop]
      simp only [popParked, hlobby, if_true, true_and]
    · rw [if_neg hlobby, lobby, lobby]
      simp only [popParked, hlobby, Ne.symm hlobby, if_false, false_and, id_eq]

/-- An entry is put into a parked pane. -/
theorem lobby_parked_append {channel : String} (hne : channel ≠ s.channel) (slot : Slot) :
    ({ s with panes := fun c => if c = channel then s.panes channel ++ [slot] else s.panes c } : App ρ).lobby =
      if channel = "" then { s.lobby with pane := s.lobby.pane ++ [slot] } else s.lobby := by
  split_ifs with hlobby
  · subst hlobby
    rw [lobby_of_parked hne.symm]
    exact (lobby_parked hne.symm _ _).trans rfl
  · rw [lobby, lobby]
    simp only [if_neg (Ne.symm hlobby)]

/-- **An entry in a parked pane.** -/
theorem lobby_parkEntry {channel : String} (hne : channel ≠ s.channel) (slot : Slot) :
    (s.parkEntry channel slot).channel = s.channel ∧ (s.Tidy → (s.parkEntry channel slot).Tidy) ∧
      (s.parkEntry channel slot).historyPending = s.historyPending ∧
      (s.parkEntry channel slot).lobby = if channel = "" then s.lobby.push slot else s.lobby := by
  obtain ⟨n, hn⟩ : ∃ n, (s.panes channel).length + 1 - Pane.historyLimit = n := ⟨_, rfl⟩
  have hexcess : channel = "" → s.lobby.excess = n := by
    rintro rfl
    rw [lobby_of_parked hne.symm, Lobby.excess, hn]
  rw [parkEntry, hn]
  obtain ⟨⟨hchannel, hpanes, hpending⟩, hlobby⟩ := lobby_popParked (n := n)
    (s := { s with panes := fun c => if c = channel then s.panes channel ++ [slot] else s.panes c }) hne
  refine ⟨hchannel, fun htidy => ?_, hpending, hlobby.trans ?_⟩
  · rw [Tidy, hchannel]
    exact hpanes.trans ((if_neg hne.symm).trans htidy)
  · rw [lobby_parked_append hne slot]
    split_ifs with h
    · rw [Lobby.push, hexcess h]
    · rw [Function.iterate_id]
      rfl

/-- Entries that are pushed come into the lobby while it is shown. -/
theorem lobby_foldl_pushEntry (slots : List Slot) (h : s.channel = "") :
    (slots.foldl (fun t slot => t.pushEntry slot) s).channel = s.channel ∧
      (slots.foldl (fun t slot => t.pushEntry slot) s).panes = s.panes ∧
      (slots.foldl (fun t slot => t.pushEntry slot) s).historyPending = s.historyPending ∧
      (slots.foldl (fun t slot => t.pushEntry slot) s).lobby = slots.foldl (fun l slot => l.push slot) s.lobby := by
  induction slots generalizing s with
  | nil => exact ⟨rfl, rfl, rfl, rfl⟩
  | cons slot slots ih =>
    obtain ⟨hchannel, hpanes, hpending, hlobby⟩ := lobby_pushEntry slot s
    rw [if_pos h] at hlobby
    have hrest := ih (hchannel.trans h)
    rw [hchannel, hpanes, hpending, hlobby] at hrest
    rw [List.foldl_cons, List.foldl_cons]
    exact hrest

/-- **The newest page.** -/
theorem lobby_startHistory (h : s.channel = "") (slots : List Slot) (first : U64) (more : Bool) :
    (s.startHistory slots first more).channel = s.channel ∧ (s.startHistory slots first more).panes = s.panes ∧
      (s.startHistory slots first more).historyPending = s.historyPending ∧
      (s.startHistory slots first more).lobby = s.lobby.start slots first more := by
  have hstart := lobby_foldl_pushEntry slots (s := { s with
    historyAnchor := some s.messages.length, historyCursor := if more then some first else none }) h
  rw [lobby_shown h] at hstart
  rw [startHistory, Lobby.start, lobby_of_shown h]
  exact hstart

/-! ### The other calls -/

/-- A wrap changes what is stored only. -/
theorem exists_rewrap (s : App ρ) (width : U16) : ∃ wrapped, s.rewrap width = { s with wrapped } := by
  unfold rewrap
  split
  · split_ifs
    · exact ⟨_, rfl⟩
    · exact ⟨_, rfl⟩
  · exact ⟨_, rfl⟩

/-- A wrap leaves the entries. -/
@[simp] theorem rewrap_messages (width : U16) (s : App ρ) : (s.rewrap width).messages = s.messages := by
  obtain ⟨wrapped, h⟩ := exists_rewrap s width
  rw [h]

/-- A wrap leaves the channel. -/
@[simp] theorem rewrap_channel (width : U16) (s : App ρ) : (s.rewrap width).channel = s.channel := by
  obtain ⟨wrapped, h⟩ := exists_rewrap s width
  rw [h]

/-- A wrap leaves what is parked. -/
@[simp] theorem rewrap_panes (width : U16) (s : App ρ) : (s.rewrap width).panes = s.panes := by
  obtain ⟨wrapped, h⟩ := exists_rewrap s width
  rw [h]

/-- A wrap leaves the anchor. -/
@[simp] theorem rewrap_historyAnchor (width : U16) (s : App ρ) : (s.rewrap width).historyAnchor = s.historyAnchor := by
  obtain ⟨wrapped, h⟩ := exists_rewrap s width
  rw [h]

/-- A wrap leaves the cursor. -/
@[simp] theorem rewrap_historyCursor (width : U16) (s : App ρ) : (s.rewrap width).historyCursor = s.historyCursor := by
  obtain ⟨wrapped, h⟩ := exists_rewrap s width
  rw [h]

/-- A wrap leaves the request. -/
@[simp] theorem rewrap_historyPending (width : U16) (s : App ρ) :
    (s.rewrap width).historyPending = s.historyPending := by
  obtain ⟨wrapped, h⟩ := exists_rewrap s width
  rw [h]

/-- A page at the anchor changes the entries only. -/
theorem prependAt_frame (anchor : ℕ) (slots : List Slot) (s : App ρ) :
    (s.prependAt anchor slots).channel = s.channel ∧ (s.prependAt anchor slots).panes = s.panes ∧
      (s.prependAt anchor slots).historyPending = s.historyPending ∧
      (s.prependAt anchor slots).historyAnchor = s.historyAnchor ∧
      (s.prependAt anchor slots).historyCursor = s.historyCursor ∧
      (s.prependAt anchor slots).messages = s.messages.take anchor ++ s.page slots ++ s.messages.drop anchor := by
  simp only [prependAt, mapRows, changed, page, rewrap_messages, rewrap_channel, rewrap_panes, rewrap_historyAnchor,
    rewrap_historyCursor, rewrap_historyPending, and_self]

/-- **An older page:** it comes in at the anchor while the lobby is shown. -/
theorem lobby_prependHistory (s : App ρ) (slots : List Slot) (first : U64) (more : Bool) :
    (s.prependHistory slots first more).channel = s.channel ∧ (s.prependHistory slots first more).panes = s.panes ∧
      (s.prependHistory slots first more).historyPending = false ∧
      (s.prependHistory slots first more).lobby =
        if s.channel = "" ∧ s.historyAnchor.isSome then s.lobby.prepend slots first more else s.lobby := by
  -- without an anchor nothing comes in
  have hadd : (if s.channel = "" ∧ s.historyAnchor.isSome then s.lobby.prepend slots first more else s.lobby) =
      if s.channel = "" then s.lobby.prepend slots first more else s.lobby := by
    cases hanchor : s.historyAnchor with
    | none =>
      rw [if_neg (fun hand => Bool.false_ne_true hand.2), Lobby.prepend, show s.lobby.anchor = none from hanchor]
      exact (ite_self _).symm
    | some anchor => simp only [Option.isSome_some, and_true]
  rw [hadd, prependHistory]
  dsimp only
  by_cases h : s.channel = ""
  · rw [if_pos h, if_pos h, lobby_of_shown h, Lobby.prepend]
    cases hanchor : s.historyAnchor with
    | none =>
      refine ⟨rfl, rfl, rfl, ?_⟩
      exact (lobby_of_shown (s := { s with historyPending := false, historyAnchor := none }) h).trans rfl
    | some anchor =>
      dsimp only
      generalize hcursor : (if more ∧ slots.length - (Pane.historyLimit - s.messages.length) = 0 then some first
        else none) = cursor
      obtain ⟨hchannel, hpanes, hpending, hanchor', hcursor', hmessages⟩ := prependAt_frame anchor slots
        { s with historyPending := false, historyAnchor := some anchor, historyCursor := cursor }
      refine ⟨hchannel, hpanes, hpending, ?_⟩
      rw [lobby_of_shown (hchannel.trans h), hanchor', hcursor', hmessages, page]
  · rw [if_neg h, if_neg h]
    exact ⟨rfl, rfl, rfl, rfl⟩

/-- A removed entry moves the anchor if it was before it. -/
theorem removeAt_frame (index : ℕ) (lobby : Bool) (s : App ρ) :
    (s.removeAt index lobby).2.2.channel = s.channel ∧ (s.removeAt index lobby).2.2.panes = s.panes ∧
      (s.removeAt index lobby).2.2.historyPending = s.historyPending ∧
      (s.removeAt index lobby).2.2.historyAnchor =
        (if lobby then shiftAnchor index s.historyAnchor else s.historyAnchor) ∧
      (s.removeAt index lobby).2.2.historyCursor = s.historyCursor ∧
      (s.removeAt index lobby).2.2.messages = s.messages.eraseIdx index := by
  simp only [removeAt, changed, rewrap_messages, rewrap_channel, rewrap_panes, rewrap_historyAnchor,
    rewrap_historyCursor, rewrap_historyPending, and_self]

/-- **A deletion.** -/
theorem lobby_deleteMessage (h : s.Tidy) (id : U64) :
    (s.deleteMessage id).channel = s.channel ∧ (s.deleteMessage id).Tidy ∧
      (s.deleteMessage id).historyPending = s.historyPending ∧
      (s.deleteMessage id).lobby =
        match s.lobbyIndex id with
        | some index => s.lobby.erase index
        | none => s.lobby := by
  unfold deleteMessage lobbyIndex
  cases hfind : s.find id with
  | some index =>
    obtain ⟨hchannel, hpanes, hpending, hanchor, hcursor, hmessages⟩ :=
      removeAt_frame index (s.channel = "") s
    have hlobby : (s.removeAt index (s.channel = "")).2.2.lobby =
        if s.channel = "" then s.lobby.erase index else s.lobby := by
      by_cases hshown : s.channel = ""
      · rw [lobby_of_shown (hchannel.trans hshown), hanchor, hcursor, hmessages, lobby_of_shown hshown, if_pos hshown,
          if_pos (decide_eq_true hshown), Lobby.erase]
      · rw [lobby_of_parked (fun h => hshown (hchannel.symm.trans h)), hanchor, hcursor, hpanes,
          lobby_of_parked hshown, if_neg hshown, if_neg (by simpa using hshown)]
    refine ⟨hchannel, ?_, hpending, hlobby.trans ?_⟩
    · have htidy : (s.removeAt index (s.channel = "")).2.2.Tidy := by
        rw [Tidy, hpanes, hchannel]
        exact h
      exact htidy
    · dsimp only
      split_ifs <;> rfl
  | none =>
    dsimp only
    cases hparked : (s.panes "").findIdx? (fun slot => slot.messageId = some id) with
    | none => exact ⟨rfl, h, rfl, rfl⟩
    | some index =>
      have hne : s.channel ≠ "" := by
        intro hshown
        rw [Tidy, hshown] at h
        rw [h] at hparked
        cases hparked
      refine ⟨rfl, (if_neg hne).trans h, rfl, ?_⟩
      rw [lobby_of_parked hne, lobby, if_neg hne]
      rfl

/-- What is deleted has the id. -/
theorem getElem?_lobbyIndex (htidy : s.Tidy) {id : U64} {index : ℕ} (h : s.lobbyIndex id = some index) :
    ∃ slot, s.lobby.pane[index]? = some slot ∧ slot.messageId = some id := by
  have hfound : ∀ {slots : List Slot}, slots.findIdx? (fun slot => slot.messageId = some id) = some index →
      ∃ slot, slots[index]? = some slot ∧ slot.messageId = some id := by
    intro slots hfind
    obtain ⟨hlt, hid, -⟩ := List.findIdx?_eq_some_iff_getElem.1 hfind
    exact ⟨slots[index], List.getElem?_eq_getElem hlt, of_decide_eq_true hid⟩
  unfold lobbyIndex at h
  cases hfind : s.find id with
  | some i =>
    rw [hfind] at h
    obtain ⟨hshown, hi⟩ := Option.ite_none_right_eq_some.1 h
    obtain rfl := Option.some.inj hi
    rw [lobby_of_shown hshown]
    exact hfound hfind
  | none =>
    rw [hfind] at h
    have hparked : s.channel ≠ "" := by
      intro hshown
      rw [Tidy, hshown] at htidy
      rw [htidy] at h
      cases h
    rw [lobby_of_parked hparked]
    exact hfound h

/-- **The pane is cleared.** -/
theorem lobby_clearMessages (s : App ρ) :
    s.clearMessages.channel = s.channel ∧ s.clearMessages.panes = s.panes ∧
      s.clearMessages.historyPending = s.historyPending ∧
      s.clearMessages.lobby = if s.channel = "" then ⟨[], none, none⟩ else s.lobby := by
  refine ⟨rfl, rfl, rfl, ?_⟩
  unfold clearMessages lobby
  split_ifs <;> rfl

/-- **Another channel:** the lobby stays as it is. -/
theorem lobby_switchChannel (h : s.Tidy) (channel : String) :
    (s.switchChannel channel).channel = channel ∧ (s.switchChannel channel).Tidy ∧
      (s.switchChannel channel).historyPending = s.historyPending ∧
      (s.switchChannel channel).lobby = s.lobby := by
  unfold switchChannel
  by_cases hsame : channel = s.channel
  · rw [if_pos hsame]
    exact ⟨hsame.symm, h, rfl, rfl⟩
  · rw [if_neg hsame]
    refine ⟨rfl, if_pos rfl, rfl, ?_⟩
    unfold lobby
    dsimp only
    by_cases hlobby : channel = ""
    · rw [if_pos hlobby, if_neg (hlobby ▸ Ne.symm hsame), hlobby]
    · rw [if_neg hlobby, if_neg (Ne.symm hlobby)]
      by_cases hshown : s.channel = ""
      · rw [if_pos hshown]
        by_cases hempty : s.messages = []
        · rw [Tidy, hshown] at h
          rw [if_neg (fun hand => hand.2 hempty), h, hempty]
        · rw [if_pos ⟨hshown.symm, hempty⟩]
      · rw [if_neg hshown, if_neg (fun hand => hshown hand.1.symm)]

/-- **An older page is asked for** only with the cursor, one at a time, while the lobby is shown. -/
theorem loadHistory_spec (withinReach : Bool) (s : App ρ) :
    s.loadHistory withinReach = (s, none) ∨
      ∃ cursor, s.channel = "" ∧ s.historyPending = false ∧ s.historyCursor = some cursor ∧
        s.loadHistory withinReach = ({ s with historyPending := true }, some cursor) := by
  unfold loadHistory
  split_ifs with h
  · obtain ⟨-, hshown, hpending⟩ := h
    cases hcursor : s.historyCursor with
    | none => exact .inl rfl
    | some cursor => exact .inr ⟨cursor, hshown, hpending, rfl, rfl⟩
  · exact .inl rfl

end App

/-! ### The parts of the lobby's pane -/

/-- What the lobby's pane is made of: what is above the replayed entries, these, and what is below
them; and whether the cap has taken one of them away. -/
structure Feed where
  above : List Slot
  replayed : List Slot
  below : List Slot
  lost : Bool
deriving DecidableEq

namespace Feed

/-- The pane. -/
def all (f : Feed) : List Slot := f.above ++ f.replayed ++ f.below

/-- The first entry goes. -/
def pop : Feed → Feed
  | ⟨_ :: above, replayed, below, lost⟩ => ⟨above, replayed, below, lost⟩
  | ⟨[], _ :: replayed, below, _⟩ => ⟨[], replayed, below, true⟩
  | ⟨[], [], below, lost⟩ => ⟨[], [], below.tail, lost⟩

/-- How many entries go when one comes in. -/
def excess (f : Feed) : ℕ := f.all.length + 1 - Pane.historyLimit

/-- An entry comes in below. -/
def push (slot : Slot) (f : Feed) : Feed := pop^[f.excess] { f with below := f.below ++ [slot] }

/-- An entry of the newest page, with nothing below it yet. -/
def replay (slot : Slot) (f : Feed) : Feed := pop^[f.excess] { f with replayed := f.replayed ++ [slot] }

/-- The newest page: what was there before is above it. -/
def start (slots : List Slot) (f : Feed) : Feed := slots.foldl (fun f slot => f.replay slot) ⟨f.all, [], [], false⟩

/-- An older page, directly above the entries that were replayed before.  What there is no room for is
lost. -/
def prepend (slots : List Slot) (f : Feed) : Feed :=
  let skip := slots.length - (Pane.historyLimit - f.all.length)
  { f with replayed := slots.drop skip ++ f.replayed, lost := f.lost || decide (0 < skip) }

/-- An entry goes. -/
def erase (index : ℕ) (f : Feed) : Feed :=
  if index < f.above.length then { f with above := f.above.eraseIdx index }
  else if index - f.above.length < f.replayed.length then
    { f with replayed := f.replayed.eraseIdx (index - f.above.length) }
  else { f with below := f.below.eraseIdx (index - f.above.length - f.replayed.length) }

/-- Every entry goes. -/
def clear (f : Feed) : Feed := { f with above := [], replayed := [], below := [] }

/-- A trim takes the first entry. -/
@[simp] theorem all_pop (f : Feed) : f.pop.all = f.all.tail := by
  obtain ⟨_ | ⟨x, above⟩, _ | ⟨y, replayed⟩, below, lost⟩ := f <;> rfl

/-- A trim brings nothing from below. -/
theorem below_pop {f : Feed} (h : f.below = []) : f.pop.below = [] := by
  obtain ⟨_ | ⟨x, above⟩, _ | ⟨y, replayed⟩, below, lost⟩ := f
  · exact (congrArg List.tail h).trans rfl
  all_goals exact h

/-- Nor do many. -/
theorem below_pops {f : Feed} (h : f.below = []) (n : ℕ) : (pop^[n] f).below = [] := by
  induction n generalizing f with
  | zero => exact h
  | succ n ih => exact ih (below_pop h)

/-- A replayed message is not below. -/
theorem below_replay {f : Feed} (h : f.below = []) (slot : Slot) : (f.replay slot).below = [] := by
  rw [replay]
  exact below_pops (f := { f with replayed := f.replayed ++ [slot] }) h _

/-- What `erase` takes out of the replayed entries is the entry at the index. -/
theorem replayed_erase (index : ℕ) (f : Feed) :
    (f.erase index).lost = f.lost ∧
      ((f.erase index).replayed = f.replayed ∨
        ∃ k, f.replayed[k]? = f.all[index]? ∧ (f.erase index).replayed = f.replayed.eraseIdx k) := by
  unfold erase
  split_ifs with habove hreplayed
  · exact ⟨rfl, .inl rfl⟩
  · refine ⟨rfl, .inr ⟨index - f.above.length, ?_, rfl⟩⟩
    rw [all, List.append_assoc, List.getElem?_append_right (by omega), List.getElem?_append_left hreplayed]
  · exact ⟨rfl, .inl rfl⟩

/-- An entry that is erased is erased of all. -/
theorem all_erase {index : ℕ} (f : Feed) : (f.erase index).all = f.all.eraseIdx index := by
  unfold erase
  split_ifs with habove hreplayed
  · rw [all, all, List.append_assoc, List.append_assoc, List.eraseIdx_append_of_lt_length habove]
  · rw [all, all, List.append_assoc, List.append_assoc, List.eraseIdx_append_of_length_le (by omega),
      List.eraseIdx_append_of_lt_length hreplayed]
  · rw [all, all, List.append_assoc, List.append_assoc, List.eraseIdx_append_of_length_le (by omega),
      List.eraseIdx_append_of_length_le (by omega)]

end Feed

/-- The pane is made of the parts, the anchor is where the replayed entries begin, and without an
anchor there is no cursor. -/
structure Parts (l : Lobby) (f : Feed) : Prop where
  pane_eq : l.pane = f.all
  anchor_eq : ∀ anchor, l.anchor = some anchor → f.above.length = anchor
  cursor_none : l.anchor = none → l.cursor = none

/-- What the cap does: replayed entries go from the top, and then the anchor is gone for good. -/
structure Trims (l : Lobby) (f : Feed) (l' : Lobby) (f' : Feed) : Prop where
  parts : Parts l' f'
  suffix : f'.replayed <:+ f.replayed
  kept : (f'.replayed = f.replayed ∧ f'.lost = f.lost ∧ l'.cursor = l.cursor) ∨ l'.anchor = none
  gone : l.anchor = none → l'.anchor = none

variable {l l' l'' : Lobby} {f f' f'' : Feed}

/-- A trim of nothing. -/
theorem Trims.refl (h : Parts l f) : Trims l f l f := ⟨h, List.suffix_rfl, .inl ⟨rfl, rfl, rfl⟩, id⟩

/-- Trims follow each other. -/
theorem Trims.trans (h : Trims l f l' f') (h' : Trims l' f' l'' f'') : Trims l f l'' f'' where
  parts := h'.parts
  suffix := h'.suffix.trans h.suffix
  kept := by
    obtain ⟨hreplayed, hlost, hcursor⟩ | hnone := h'.kept
    · rw [hreplayed, hlost, hcursor]
      exact h.kept.imp id h'.gone
    · exact .inr hnone
  gone hnone := h'.gone (h.gone hnone)

/-- **Every entry goes.** -/
theorem Trims.clear (l : Lobby) (f : Feed) : Trims l f ⟨[], none, none⟩ f.clear :=
  ⟨⟨rfl, nofun, fun _ => rfl⟩, List.nil_suffix, .inr rfl, fun _ => rfl⟩

/-- One entry of a page after the other. -/
theorem Trims.append {slot : Slot} {slots : List Slot}
    (h : Trims l { f with replayed := f.replayed ++ [slot] } l' f')
    (h' : Trims l' { f' with replayed := f'.replayed ++ slots } l'' f'') :
    Trims l { f with replayed := f.replayed ++ slot :: slots } l'' f'' := by
  obtain ⟨tail, htail⟩ := h.suffix
  have hkept := h.kept
  have hkept' := h'.kept
  dsimp only at htail hkept hkept'
  refine ⟨h'.parts, h'.suffix.trans ⟨tail, ?_⟩, ?_, fun hnone => h'.gone (h.gone hnone)⟩
  · rw [← List.append_assoc, htail, List.append_assoc, List.singleton_append]
  · obtain ⟨hreplayed, hlost, hcursor⟩ | hnone := hkept
    · rw [hreplayed, hlost, hcursor, List.append_assoc, List.singleton_append] at hkept'
      exact hkept'
    · exact .inr (h'.gone hnone)

namespace Parts

/-- **The first entry goes**, and with it the anchor if it was the first of the replayed ones. -/
theorem pop (h : Parts l f) : Trims l f l.pop f.pop := by
  have hpane : l.pop.pane = f.pop.all := by
    rw [Feed.all_pop, ← h.pane_eq]
    rfl
  have hcursor : l.pop.anchor = none → l.pop.cursor = none := fun hnone => if_pos hnone
  have hgone : l.anchor = none → l.pop.anchor = none := fun hnone => by rw [Lobby.pop, hnone, Option.bind_none]
  obtain ⟨above, replayed, below, lost⟩ := f
  cases above with
  | cons x above =>
    refine ⟨⟨hpane, fun anchor hanchor => ?_, hcursor⟩, List.suffix_rfl, ?_, hgone⟩
    · obtain ⟨a, ha, hbind⟩ := Option.bind_eq_some_iff.1 hanchor
      have hlength := h.anchor_eq a ha
      split_ifs at hbind
      rw [List.length_cons] at hlength
      have := Option.some.inj hbind
      change above.length = anchor
      omega
    · by_cases hnone : l.pop.anchor = none
      · exact .inr hnone
      · exact .inl ⟨rfl, rfl, if_neg hnone⟩
  | nil =>
    -- the anchor is at the top, or there is none
    have hnone : l.pop.anchor = none := by
      cases ha : l.anchor with
      | none => exact hgone ha
      | some a =>
        have hzero := h.anchor_eq a ha
        rw [Lobby.pop, ha, ← hzero]
        rfl
    have hanchor : ∀ f' : Feed, ∀ anchor, l.pop.anchor = some anchor → f'.above.length = anchor := by
      intro f' anchor hsome
      rw [hnone] at hsome
      cases hsome
    refine ⟨⟨hpane, hanchor _, hcursor⟩, ?_, .inr hnone, hgone⟩
    cases replayed with
    | cons y replayed => exact List.suffix_cons y replayed
    | nil => exact List.suffix_rfl

/-- Trims of the lobby are trims of the feed. -/
theorem pops (h : Parts l f) (n : ℕ) : Trims l f (Lobby.pop^[n] l) (Feed.pop^[n] f) := by
  induction n generalizing l f with
  | zero => exact .refl h
  | succ n ih => exact h.pop.trans (ih h.pop.parts)

/-- The lobby and the feed have as much too much. -/
theorem excess_eq (h : Parts l f) : l.excess = f.excess := by rw [Lobby.excess, Feed.excess, h.pane_eq]

/-- **An entry comes in below.** -/
theorem push (h : Parts l f) (slot : Slot) : Trims l f (l.push slot) (f.push slot) := by
  have hparts : Parts { l with pane := l.pane ++ [slot] } { f with below := f.below ++ [slot] } := by
    refine ⟨?_, h.anchor_eq, h.cursor_none⟩
    rw [h.pane_eq, Feed.all, Feed.all, List.append_assoc _ f.below]
  obtain ⟨hpushed, hsuffix, hkept, hgone⟩ := hparts.pops f.excess
  rw [Lobby.push, Feed.push, h.excess_eq]
  exact ⟨hpushed, hsuffix, hkept, hgone⟩

/-- **An entry of the newest page comes in.** -/
theorem replay (h : Parts l f) (hbelow : f.below = []) (slot : Slot) :
    Trims l { f with replayed := f.replayed ++ [slot] } (l.push slot) (f.replay slot) := by
  have hparts : Parts { l with pane := l.pane ++ [slot] } { f with replayed := f.replayed ++ [slot] } := by
    refine ⟨?_, h.anchor_eq, h.cursor_none⟩
    rw [h.pane_eq, Feed.all, Feed.all, hbelow, List.append_nil, List.append_nil, List.append_assoc]
  obtain ⟨hpushed, hsuffix, hkept, hgone⟩ := hparts.pops f.excess
  rw [Lobby.push, Feed.replay, h.excess_eq]
  exact ⟨hpushed, hsuffix, hkept, hgone⟩

/-- Messages that are replayed come where the feed has them. -/
theorem replays (h : Parts l f) (hbelow : f.below = []) (slots : List Slot) :
    Trims l { f with replayed := f.replayed ++ slots } (slots.foldl (fun l slot => l.push slot) l)
      (slots.foldl (fun f slot => f.replay slot) f) := by
  induction slots generalizing l f with
  | nil =>
    rw [List.append_nil]
    exact .refl h
  | cons slot slots ih =>
    have hfirst := h.replay hbelow slot
    rw [List.foldl_cons, List.foldl_cons]
    exact hfirst.append (ih hfirst.parts (Feed.below_replay hbelow slot))

/-- **The newest page comes in.** -/
theorem start (h : Parts l f) (slots : List Slot) (first : U64) (more : Bool) :
    Trims ⟨l.pane, some l.pane.length, if more then some first else none⟩ ⟨f.all, slots, [], false⟩
      (l.start slots first more) (f.start slots) := by
  have hparts :
      Parts ⟨l.pane, some l.pane.length, if more then some first else none⟩ ⟨f.all, [], [], false⟩ := by
    refine ⟨?_, fun anchor hanchor => ?_, fun hnone => ?_⟩
    · rw [h.pane_eq]
      exact ((List.append_nil _).trans (List.append_nil _)).symm
    · rw [← Option.some.inj hanchor, h.pane_eq]
    · cases hnone
  exact hparts.replays rfl slots

/-- **An older page comes in at the anchor**: directly above the replayed entries. -/
theorem prepend (h : Parts l f) {anchor : ℕ} (hanchor : l.anchor = some anchor) (slots : List Slot) (first : U64)
    (more : Bool) : Parts (l.prepend slots first more) (f.prepend slots) := by
  have hlength := h.anchor_eq anchor hanchor
  rw [Lobby.prepend, hanchor]
  refine ⟨?_, fun a ha => ?_, fun hnone => ?_⟩
  · dsimp only [Feed.prepend]
    rw [h.pane_eq, Feed.all, Feed.all, ← hlength, List.append_assoc f.above, List.take_left, List.drop_left]
    simp only [List.append_assoc]
  · rw [← Option.some.inj ha]
    exact hlength
  · cases hnone

/-- What a page does to the cursor: a page that is cut ends the paging. -/
theorem prepend_spec (h : Parts l f) {anchor : ℕ} (hanchor : l.anchor = some anchor) (slots : List Slot) (first : U64)
    (more : Bool) :
    ∃ skip, (l.prepend slots first more).cursor = (if more ∧ skip = 0 then some first else none) ∧
      f.prepend slots =
        { f with replayed := slots.drop skip ++ f.replayed, lost := f.lost || decide (0 < skip) } := by
  rw [Lobby.prepend, hanchor, h.pane_eq]
  exact ⟨_, rfl, rfl⟩

/-- **An entry goes.** -/
theorem erase (h : Parts l f) (index : ℕ) : Parts (l.erase index) (f.erase index) := by
  refine ⟨?_, fun anchor hanchor => ?_, fun hnone => ?_⟩
  · rw [Feed.all_erase, ← h.pane_eq]
    rfl
  · obtain ⟨a, ha, hshift⟩ := Option.map_eq_some_iff.1 hanchor
    rw [← h.anchor_eq a ha] at hshift
    unfold Feed.erase
    split_ifs at hshift ⊢ with habove hreplayed
    · exact (List.length_eraseIdx_of_lt habove).trans hshift
    · exact hshift
    · exact hshift
  · exact h.cursor_none (Option.map_eq_none_iff.1 hnone)

end Parts

end Rows
end Why2
