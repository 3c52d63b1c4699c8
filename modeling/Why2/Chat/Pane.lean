/-
# The lobby pane of a client

`chat/src/bin/client/tui/state.rs`: the entries of the lobby's pane, whether it is
the one being looked at or a parked one, and what the client does on the packets of
the server that name a message.  An entry of a message holds the server's id of it.
The calls look for the first entry with an id, and do nothing if there is none.

Colors, pictures and playback do not matter to these calls and are left out; so are
the rows on the screen, which follow the entries.
-/

import Why2.Chat.History

namespace Why2

/-- What the entries of all kinds of messages hold. -/
structure Shown where
  messageId : U64
  username : String
  timestamp : Option U64
  hearts : List String
  pinned : Bool
deriving DecidableEq

/-- `Entry`.  Styled lines, private messages and transfers have no id of the server. -/
inductive Entry
  | line (text : String)
  | message (shown : Shown) (id : ℕ) (text : String) (reply : Option U64) (edited : Bool)
  | history (shown : Shown) (text : String) (reply : Option U64) (edited : Bool)
  | image (shown : Shown) (filename : String) (hash : Option Hash)
  | voice (shown : Shown) (note : VoiceNote)
deriving DecidableEq

namespace Entry

/-- What the entry of a message holds. -/
def shown? : Entry → Option Shown
  | .line _ => none
  | .message shown .. | .history shown .. | .image shown .. | .voice shown _ => some shown

/-- `Entry::message_id`. -/
def messageId (e : Entry) : Option U64 := e.shown?.map (·.messageId)

/-- A change of what the entry of a message holds. -/
def mapShown (f : Shown → Shown) : Entry → Entry
  | .line text => .line text
  | .message shown id text reply edited => .message (f shown) id text reply edited
  | .history shown text reply edited => .history (f shown) text reply edited
  | .image shown filename hash => .image (f shown) filename hash
  | .voice shown note => .voice (f shown) note

/-- `Entry::set_hearts`. -/
def setHearts (hearts : List String) : Entry → Entry := mapShown fun shown => { shown with hearts }

/-- `Entry::set_pinned`. -/
def setPinned (pinned : Bool) : Entry → Entry := mapShown fun shown => { shown with pinned }

/-- `Entry::set_text`: a picture or a voice message has none. -/
def setText (text : String) : Entry → Entry
  | .message shown id _ reply _ => .message shown id text reply true
  | .history shown _ reply _ => .history shown text reply true
  | e => e

end Entry

/-- The entries of a pane, oldest first. -/
abbrev Pane := List Entry

namespace Pane

/-- `HISTORY_LIMIT`, `chat/src/bin/client/tui/consts.rs`. -/
def historyLimit : ℕ := 5000

/-- `push_entry`, and `park_entry` for the pane of another channel. -/
def pushEntry (e : Entry) (pane : Pane) : Pane :=
  (pane ++ [e]).drop ((pane ++ [e]).length - historyLimit)

/-- `delete_message`. -/
def deleteMessage (messageId : U64) (pane : Pane) : Pane :=
  pane.eraseP fun e => e.messageId = some messageId

/-- `update_message`: the first entry with the id is changed in place. -/
def updateMessage (messageId : U64) (change : Entry → Entry) : Pane → Pane
  | [] => []
  | e :: pane =>
    if e.messageId = some messageId then change e :: pane else e :: updateMessage messageId change pane

/-- `set_hearts`. -/
def setHearts (messageId : U64) (hearts : List String) : Pane → Pane :=
  updateMessage messageId (Entry.setHearts hearts)

/-- `set_pinned`. -/
def setPinned (messageId : U64) (pinned : Bool) : Pane → Pane :=
  updateMessage messageId (Entry.setPinned pinned)

/-- `edit_message`. -/
def editMessage (messageId : U64) (text : String) : Pane → Pane :=
  updateMessage messageId (Entry.setText text)

/-- `start_history`, with the heading that `ClientEvent::History` puts before it. -/
def startHistory (heading : String) (entries : List Entry) (pane : Pane) : Pane :=
  entries.foldl (fun pane e => pane.pushEntry e) (pane.pushEntry (.line heading))

end Pane

/-! ### What a pane shows of a message -/

/-- What clients and history hold of a text message. -/
structure View where
  text : String
  hearts : List String
  edited : Bool
  pinned : Bool
deriving DecidableEq

/-- What the history records of a message. -/
def Record.view (r : Record) : View := ⟨r.text, r.hearts, r.edited, r.pinned⟩

namespace Entry

/-- What an entry shows of a text message. -/
def view : Entry → Option View
  | .message shown _ text _ edited | .history shown text _ edited =>
    some ⟨text, shown.hearts, edited, shown.pinned⟩
  | .line _ | .image .. | .voice .. => none

/-- New hearts are of the same message. -/
@[simp] theorem messageId_setHearts (hearts : List String) (e : Entry) :
    (setHearts hearts e).messageId = e.messageId := by cases e <;> rfl

/-- A pin is of the same message. -/
@[simp] theorem messageId_setPinned (pinned : Bool) (e : Entry) :
    (setPinned pinned e).messageId = e.messageId := by cases e <;> rfl

/-- An edit is of the same message. -/
@[simp] theorem messageId_setText (text : String) (e : Entry) :
    (setText text e).messageId = e.messageId := by cases e <;> rfl

/-- What is seen of an entry with other hearts. -/
theorem view_setHearts (hearts : List String) (e : Entry) :
    (setHearts hearts e).view = e.view.map fun v => { v with hearts } := by cases e <;> rfl

/-- What is seen of an entry with another pin. -/
theorem view_setPinned (pinned : Bool) (e : Entry) :
    (setPinned pinned e).view = e.view.map fun v => { v with pinned } := by cases e <;> rfl

/-- What is seen of an entry with another text. -/
theorem view_setText (text : String) (e : Entry) :
    (setText text e).view = e.view.map fun v => { v with text, edited := true } := by cases e <;> rfl

end Entry

namespace Pane

variable {base m id : U64} {pane : Pane} {e : Entry}

/-- What the pane shows of a message. -/
def view (pane : Pane) (id : U64) : Option View :=
  (pane.find? fun e => e.messageId = some id).bind Entry.view

/-- The first entry of a message is the one that is seen. -/
theorem view_cons_self (he : e.messageId = some id) : view (e :: pane) id = e.view := by
  simp only [view, List.find?_cons, he, decide_true, Option.bind_some]

/-- An entry of another message hides nothing. -/
theorem view_cons_ne (he : e.messageId ≠ some id) : view (e :: pane) id = view pane id := by
  simp only [view, List.find?_cons, he, decide_false]

/-- Of a message without an entry nothing is seen. -/
theorem view_eq_none (h : ∀ e ∈ pane, e.messageId ≠ some id) : view pane id = none := by
  induction pane with
  | nil => rfl
  | cons e pane ih =>
    rw [view_cons_ne (h e List.mem_cons_self)]
    exact ih fun e' he' => h e' (List.mem_cons_of_mem e he')

/-- The ids in the pane from `base` on, in the order of the entries. -/
def recent (base : U64) (pane : Pane) : List U64 := (pane.filterMap Entry.messageId).filter (base ≤ ·)

/-- The recent messages of a pane are those of its entries from `base` on. -/
theorem mem_recent : id ∈ recent base pane ↔ (∃ e ∈ pane, e.messageId = some id) ∧ base ≤ id := by
  rw [recent, List.mem_filter, List.mem_filterMap, decide_eq_true_iff]

/-- Where there is room, nothing is trimmed. -/
theorem pushEntry_eq (hroom : pane.length < historyLimit) : pane.pushEntry e = pane ++ [e] := by
  have hzero : (pane ++ [e]).length - historyLimit = 0 := by
    rw [List.length_append, List.length_singleton]
    omega
  rw [pushEntry, hzero, List.drop_zero]

/-- A recent message comes last. -/
theorem recent_pushEntry (hroom : pane.length < historyLimit) (hid : e.messageId = some m)
    (hbase : base ≤ m) : recent base (pane.pushEntry e) = recent base pane ++ [m] := by
  rw [pushEntry_eq hroom, recent, List.filterMap_append, List.filter_append]
  simp only [List.filterMap_cons, hid, List.filterMap_nil, List.filter_cons, decide_eq_true hbase,
    if_true, List.filter_nil, recent]

/-- A new message is seen, and the others as before. -/
theorem view_pushEntry (hroom : pane.length < historyLimit) (hid : e.messageId = some m)
    (hnew : ∀ e ∈ pane, e.messageId ≠ some m) (id : U64) :
    view (pane.pushEntry e) id = if m = id then e.view else view pane id := by
  rw [pushEntry_eq hroom]
  clear hroom
  induction pane with
  | nil =>
    split
    · rename_i heq
      exact view_cons_self (heq ▸ hid)
    · rename_i hne
      exact view_cons_ne fun h => hne (Option.some.inj (hid.symm.trans h))
  | cons e' pane ih =>
    have hrest := ih fun e he => hnew e (List.mem_cons_of_mem e' he)
    by_cases he' : e'.messageId = some id
    · have hne : m ≠ id := fun h => hnew e' List.mem_cons_self (h ▸ he')
      rw [if_neg hne, List.cons_append, view_cons_self he', view_cons_self he']
    · rw [List.cons_append, view_cons_ne he', view_cons_ne he', hrest]

/-- A recent message comes first. -/
theorem recent_cons (he : e.messageId = some id) (hbase : base ≤ id) :
    recent base (e :: pane) = id :: recent base pane := by
  simp only [recent, List.filterMap_cons, he, List.filter_cons, decide_eq_true hbase, if_true]

/-- In a pane in order, what is shown of a message is what its entry shows. -/
theorem view_of_mem (hinc : (recent base pane).Pairwise (· < ·)) (hbase : base ≤ id) (he : e ∈ pane)
    (hid : e.messageId = some id) : view pane id = e.view := by
  induction pane with
  | nil => cases he
  | cons e' pane ih =>
    rcases List.mem_cons.1 he with rfl | he
    · exact view_cons_self hid
    · have hne : e'.messageId ≠ some id := by
        intro he'
        rw [recent_cons he' hbase, List.pairwise_cons] at hinc
        exact BitVec.lt_irrefl _ (hinc.1 id (mem_recent.2 ⟨⟨e, he, hid⟩, hbase⟩))
      rw [view_cons_ne hne]
      exact ih (hinc.sublist (((List.sublist_cons_self e' pane).filterMap _).filter _)) he

/-- What is seen has an entry. -/
theorem mem_of_view {v : View} (h : view pane id = some v) : ∃ e ∈ pane, e.messageId = some id := by
  obtain ⟨e, he, _⟩ := Option.bind_eq_some_iff.1 h
  exact ⟨e, List.mem_of_find?_eq_some he, by simpa using List.find?_some he⟩

/-- A deletion leaves the other recent messages in their order. -/
theorem recent_deleteMessage : (recent base (pane.deleteMessage m)).Sublist (recent base pane) :=
  (List.eraseP_sublist.filterMap _).filter _

/-- **A deleted message is not shown**: its id was in the pane once. -/
theorem view_deleteMessage (hinc : (recent base pane).Pairwise (· < ·)) (hbase : base ≤ id) :
    view (pane.deleteMessage m) id = if m = id then none else view pane id := by
  induction pane with
  | nil => simp [deleteMessage, view]
  | cons e pane ih =>
    have htail : (recent base pane).Pairwise (· < ·) :=
      hinc.sublist (((List.sublist_cons_self e pane).filterMap _).filter _)
    by_cases he : e.messageId = some m
    · have hdel : deleteMessage m (e :: pane) = pane := List.eraseP_cons_of_pos (decide_eq_true he)
      rw [hdel]
      split
      · rename_i heq
        subst heq
        -- Another entry with the id would come after itself.
        refine view_eq_none fun e' he' hid => ?_
        have hmem : m ∈ recent base pane := mem_recent.2 ⟨⟨e', he', hid⟩, hbase⟩
        rw [recent_cons he hbase, List.pairwise_cons] at hinc
        exact BitVec.lt_irrefl _ (hinc.1 m hmem)
      · rename_i hne
        rw [view_cons_ne fun h => hne (Option.some.inj (he.symm.trans h))]
    · have hdel : deleteMessage m (e :: pane) = e :: deleteMessage m pane :=
        List.eraseP_cons_of_neg (by rwa [decide_eq_true_iff])
      rw [hdel]
      by_cases hid : e.messageId = some id
      · have hne : m ≠ id := fun heq => he (heq ▸ hid)
        rw [if_neg hne, view_cons_self hid, view_cons_self hid]
      · rw [view_cons_ne hid, view_cons_ne hid]
        exact ih htail

/-- An update changes entries in their places. -/
theorem mem_updateMessage {change : Entry → Entry} (h : e ∈ updateMessage m change pane) :
    e ∈ pane ∨ ∃ e' ∈ pane, e = change e' := by
  induction pane with
  | nil => cases h
  | cons e' pane ih =>
    rw [updateMessage] at h
    split at h
    · rcases List.mem_cons.1 h with rfl | h
      · exact .inr ⟨e', List.mem_cons_self, rfl⟩
      · exact .inl (List.mem_cons_of_mem _ h)
    · rcases List.mem_cons.1 h with rfl | h
      · exact .inl List.mem_cons_self
      · rcases ih h with h | ⟨e'', he'', rfl⟩
        · exact .inl (List.mem_cons_of_mem _ h)
        · exact .inr ⟨e'', List.mem_cons_of_mem _ he'', rfl⟩

section

variable {change : Entry → Entry} (hid : ∀ e, (change e).messageId = e.messageId)

include hid

/-- An update leaves the messages as they are, in their order. -/
theorem filterMap_updateMessage : (updateMessage m change pane).filterMap Entry.messageId =
    pane.filterMap Entry.messageId := by
  induction pane with
  | nil => rfl
  | cons e pane ih =>
    rw [updateMessage]
    split
    · rw [List.filterMap_cons, List.filterMap_cons, hid]
    · rw [List.filterMap_cons, List.filterMap_cons, ih]

/-- An update leaves the recent messages as they are. -/
theorem recent_updateMessage : recent base (updateMessage m change pane) = recent base pane := by
  rw [recent, recent, filterMap_updateMessage hid]

/-- A change of the first entry with the id changes what is shown of this message alone. -/
theorem view_updateMessage {f : View → View} (hview : ∀ e, (change e).view = e.view.map f) (id : U64) :
    view (updateMessage m change pane) id = if m = id then (view pane id).map f else view pane id := by
  induction pane with
  | nil => simp [updateMessage, view]
  | cons e pane ih =>
    rw [updateMessage]
    by_cases he : e.messageId = some id
    · by_cases hm : m = id
      · subst hm
        rw [if_pos he, if_pos rfl, view_cons_self he, view_cons_self ((hid e).trans he), hview]
      · rw [if_neg hm, if_neg fun h => hm (Option.some.inj (h.symm.trans he)), view_cons_self he,
          view_cons_self he]
    · split
      · rename_i hm
        have hne : m ≠ id := fun h => he (h ▸ hm)
        rw [if_neg hne, view_cons_ne ((hid e).trans_ne he), view_cons_ne he]
      · rw [view_cons_ne he, view_cons_ne he]
        exact ih

end

end Pane

end Why2
