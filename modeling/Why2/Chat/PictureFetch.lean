/-
# Fetching pictures

The client fetches the pictures behind the captions of the pane, the picture of the
profile box and the one of the server (`chat/src/bin/client/tui/state.rs`, `event.rs`
and `mod.rs`, `chat/src/network/client/image.rs`).  A picture is looked up in the cache
by a task of its own.  One that is not there is asked of the server, a few at a time,
and what comes back is an event that fills a caption.

Over any run, every slot that is taken belongs to an answer that is on its way
(`slots_answered`), so what is outstanding can always be served until all slots are
free (`fetches_drain`).  A caption that waits for a picture has an answer to come as long as
the answers reach captions that wait (`captions_answered`).  One that the profile box or
an offered caption further up takes is missed (`caption_left_waiting`).

The tasks and the server may take any time and end in any order.  Which captions are
within reach is a parameter: it follows from the rows of the pane.  Entries that are no
captions are all one here.
-/

import Why2.Chat.Pane
import Why2.Lib.Lists
import Why2.Lib.Runs
import Mathlib.Algebra.GroupWithZero.Nat

namespace Why2
namespace Fetching

open Lib

/-- `MAX_IMAGE_FETCHES`. -/
def maxImageFetches : ℕ := 2

/-- `Picture`. -/
inductive Picture
  | absent
  | deferred
  | waiting
  | gone
  | ready
deriving DecidableEq

/-- `Entry`: the caption of a picture, or anything else. -/
inductive Entry
  | image (hash : Option Hash) (picture : Picture)
  | other
deriving DecidableEq

namespace Entry

/-- An entry with another picture. -/
def setPicture (picture : Picture) : Entry → Entry
  | .image hash _ => .image hash picture
  | .other => .other

/-- The caption waits, for some picture. -/
def isWaiting : Entry → Bool
  | .image _ .waiting => true
  | _ => false

end Entry

/-- The settings box: whether it is open and shows a profile, the picture that the profile
names, whether one is built, and which. -/
structure Settings where
  isOpen : Bool
  profile : Bool
  avatar : Option Hash
  picture : Bool
  pictureOf : Option Hash

namespace Settings

/-- `open_profile`. -/
def openProfile (avatar : Option Hash) (box : Settings) : Settings :=
  if box.pictureOf ≠ avatar then ⟨true, true, avatar, false, none⟩
  else { box with isOpen := true, profile := true, avatar }

/-- `open_client` and `open_server`. -/
def openSettings (box : Settings) : Settings := { box with isOpen := true, profile := false }

/-- `close`. -/
def close : Settings := ⟨false, false, none, false, none⟩

end Settings

/-- `App`: what fetching pictures is about. -/
structure App where
  messages : List Entry
  channel : String
  /-- The panes of other channels. -/
  panes : String → Option (List Entry)
  /-- Pictures to look up in the cache. -/
  imageLoads : List Hash
  /-- Pictures to ask the server for. -/
  imageRequests : List Hash
  /-- Pictures that the server was asked for. -/
  imageFetching : List Hash
  settings : Settings
  serverIcon : Option Hash
  iconOf : Option Hash

/-- `ClientEvent`: the ones about pictures, and the answer that the player of voice messages took. -/
inductive ClientEvent
  | imagePending (hash : Hash)
  | imageRequest (hash : Hash)
  | imageData (hash : Hash) (image : Bool)
  | voiceData (hash : Hash)
deriving DecidableEq

/-- What the loop of `take_image_requests` builds. -/
structure Taking where
  messages : List Entry
  fetching : List Hash
  send : List Hash
  queued : List Hash

namespace App

/-! ### The queue of requests -/

/-- The captions that wait for a picture. -/
def waitingFor (messages : List Entry) (hash : Hash) : List ℕ :=
  (List.range messages.length).filter fun i => messages[i]? = some (.image (some hash) .waiting)

/-- `take_image_requests`, one request. -/
def takeRequest (drawn : Bool) (visible : List ℕ) (t : Taking) (hash : Hash) : Taking :=
  let waiting := waitingFor t.messages hash
  if drawn ∧ waiting ≠ [] ∧ ¬waiting.any (· ∈ visible) then
    { t with messages := waiting.foldl (fun messages i => messages.modify i (Entry.setPicture .deferred)) t.messages }
  else if t.fetching.length < maxImageFetches then
    { t with fetching := t.fetching ++ [hash], send := t.send ++ [hash] }
  else { t with queued := t.queued ++ [hash] }

/-- `take_image_requests`, with the captions within reach. -/
def takeImageRequests (drawn : Bool) (visible : List ℕ) (s : App) : List Hash × App :=
  if s.imageRequests = [] then ([], s)
  else
    let visible := if drawn then visible else []
    let t := s.imageRequests.foldl (takeRequest drawn visible) ⟨s.messages, s.imageFetching, [], []⟩
    (t.send, { s with messages := t.messages, imageFetching := t.fetching, imageRequests := t.queued })

/-- `fetched`.  The order of the slots is never read. -/
def fetched (hash : Hash) (s : App) : App := { s with imageFetching := s.imageFetching.erase hash }

/-! ### The entries -/

/-- `push_entry`. -/
def pushEntry (entry : Entry) (s : App) : App :=
  let messages := s.messages ++ [entry]
  { s with messages := messages.drop (messages.length - Pane.historyLimit) }

/-- `request_image`. -/
def requestImage (entry : ℕ) (s : App) : Option Hash × App :=
  match s.messages[entry]? with
  | some (.image hash .absent) | some (.image hash .gone) =>
    (hash, { s with messages := s.messages.modify entry (Entry.setPicture .waiting) })
  | _ => (none, s)

/-- The caption that an answer fills. -/
def takes (hash : Hash) (image : Bool) (entry : Entry) : Bool :=
  entry = .image (some hash) .waiting || image && entry = .image (some hash) .absent

/-- `deliver_image`. -/
def deliverImage (hash : Hash) (image : Bool) (s : App) : App :=
  match s.messages.findIdx? (takes hash image) with
  | none => s
  | some entry =>
    { s with messages := s.messages.modify entry (Entry.setPicture (if image then .ready else .gone)) }

/-- `load_visible`, one caption within reach. -/
def loadEntry (s : App) (entry : ℕ) : App :=
  match s.messages[entry]? with
  | some (.image hash .deferred) =>
    { s with imageLoads := s.imageLoads ++ hash.toList
             messages := s.messages.modify entry (Entry.setPicture .waiting) }
  | _ => s

/-- `load_visible`, with the captions within reach. -/
def loadVisible (visible : List ℕ) (s : App) : App := visible.foldl loadEntry s

/-- `switch_channel`: an answer would land in the wrong pane. -/
def switchChannel (channel : String) (s : App) : App :=
  if channel = s.channel then s
  else
    let parked := s.messages.map fun entry => if entry.isWaiting then entry.setPicture .deferred else entry
    let panes := if parked = [] then s.panes else Function.update s.panes s.channel (some parked)
    { s with messages := (panes channel).getD [], panes := Function.update panes channel none, channel }

/-! ### The profile box and the icon -/

/-- `wants_avatar`. -/
def wantsAvatar (hash : Hash) (s : App) : Bool :=
  s.settings.isOpen && s.settings.avatar = some hash && s.settings.pictureOf ≠ some hash

/-- `deliver_avatar`. -/
def deliverAvatar (hash : Hash) (image : Bool) (s : App) : App :=
  if image then { s with settings := { s.settings with picture := true, pictureOf := some hash } } else s

/-- `wants_icon`. -/
def wantsIcon (hash : Hash) (s : App) : Bool := s.serverIcon = some hash && s.iconOf ≠ some hash

/-- `deliver_icon`. -/
def deliverIcon (hash : Hash) (image : Bool) (s : App) : App :=
  if image then { s with iconOf := some hash } else s

/-- `set_server_icon`. -/
def setServerIcon (hash : Option Hash) (s : App) : App :=
  if s.iconOf ≠ hash then { s with serverIcon := hash, iconOf := none, imageLoads := s.imageLoads ++ hash.toList }
  else { s with serverIcon := hash }

/-- `ClientEvent::Profile`. -/
def profile (avatar : Option Hash) (saved : Bool) (s : App) : App :=
  let s :=
    if saved then
      if s.settings.isOpen ∧ s.settings.profile then { s with settings := s.settings.openProfile avatar } else s
    else { s with settings := s.settings.openProfile avatar }
  if s.settings.isOpen ∧ ¬s.settings.picture then
    { s with imageLoads := s.imageLoads ++ s.settings.avatar.toList }
  else s

/-- `disconnected`. -/
def disconnected (s : App) : App :=
  { s with
    messages := [], panes := fun _ => none, channel := "", settings := Settings.close
    serverIcon := none, iconOf := none, imageRequests := [], imageLoads := [], imageFetching := [] }

/-- `event::handle`. -/
def handle (event : ClientEvent) (s : App) : App :=
  match event with
  | .imagePending hash =>
    let s := s.pushEntry (.image (some hash) .waiting)
    { s with imageRequests := s.imageRequests ++ [hash] }
  | .imageRequest hash => { s with imageRequests := s.imageRequests ++ [hash] }
  | .imageData hash image =>
    let s := s.fetched hash
    let s := if s.wantsIcon hash then s.deliverIcon hash image else s
    if s.wantsAvatar hash then s.deliverAvatar hash image else s.deliverImage hash image
  | .voiceData hash => s.fetched hash

end App

/-! ### The tasks and the server -/

/-- The client, with what is on its way. -/
structure Fetches where
  app : App
  /-- The tasks of `fetch_image`. -/
  loading : List Hash
  /-- `AWAITED`: clips that the player waits for. -/
  awaited : List Hash
  /-- The requests that the server has not answered. -/
  asked : List Hash
  /-- The answers that are decoded. -/
  decoding : List ClientEvent
  /-- The events that are not handled. -/
  events : List ClientEvent

/-- What the user, the server and the client's own tasks do. -/
inductive Action
  /-- A picture comes that is to be shown and is not held. -/
  | arrive (hash : Hash)
  /-- An entry that does not wait comes in, at the end or with older history. -/
  | insert (index : ℕ) (entry : Entry)
  /-- An entry is deleted or trimmed. -/
  | remove (index : ℕ)
  /-- An entry comes for another channel. -/
  | park (channel : String) (entries : List Entry)
  /-- The pane of a channel that is gone. -/
  | prune (channel : String)
  | click (entry : ℕ)
  | loadVisible (visible : List ℕ)
  /-- The loop of the interface, connected or not. -/
  | tick (connected drawn : Bool) (visible : List ℕ)
  /-- A task of `fetch_image` ends, with the picture or without. -/
  | loaded (hash : Hash) (hit : Bool)
  /-- The server answers; what it sends is a picture or not. -/
  | answer (hash : Hash) (image : Bool)
  | decoded (event : ClientEvent)
  | handle
  /-- `play`, for a clip that is not held. -/
  | play (hash : Hash)
  | switchChannel (channel : String)
  | serverIcon (hash : Option Hash)
  | profile (avatar : Option Hash) (saved : Bool)
  | openSettings
  | closeSettings
  | clearMessages
  | disconnected

namespace Fetches

/-- What comes back for an answer, once it is decoded. -/
def taken (awaited : List Hash) (hash : Hash) (image : Bool) : ClientEvent :=
  if hash ∈ awaited then .voiceData hash else .imageData hash image

/-- One action. -/
def step (s : Fetches) : Action → Option Fetches
  | .arrive hash => some { s with events := s.events ++ [.imagePending hash] }
  | .insert index entry =>
    if entry.isWaiting then none
    else some { s with app := { s.app with messages := s.app.messages.insertIdx index entry } }
  | .remove index => some { s with app := { s.app with messages := s.app.messages.eraseIdx index } }
  | .park channel entries =>
    if channel = s.app.channel ∨ entries.any Entry.isWaiting then none
    else some { s with app := { s.app with panes := Function.update s.app.panes channel (some entries) } }
  | .prune channel => some { s with app := { s.app with panes := Function.update s.app.panes channel none } }
  | .click entry =>
    let (hash, app) := s.app.requestImage entry
    some { s with app, loading := s.loading ++ hash.toList }
  | .loadVisible visible => some { s with app := s.app.loadVisible visible }
  | .tick connected drawn visible =>
    let loading := s.loading ++ s.app.imageLoads
    let app := { s.app with imageLoads := [] }
    if connected then
      let (send, app) := app.takeImageRequests drawn visible
      some { s with app, loading, asked := s.asked ++ send }
    else some { s with app, loading }
  | .loaded hash hit =>
    if hash ∈ s.loading then
      some { s with loading := s.loading.erase hash
                    events := s.events ++ [if hit then .imageData hash true else .imageRequest hash] }
    else none
  | .answer hash image =>
    if hash ∈ s.asked then
      some { s with asked := s.asked.erase hash, awaited := s.awaited.erase hash
                    decoding := s.decoding ++ [taken s.awaited hash image] }
    else none
  | .decoded event =>
    if event ∈ s.decoding then some { s with decoding := s.decoding.erase event, events := s.events ++ [event] }
    else none
  | .handle =>
    match s.events with
    | [] => none
    | event :: events => some { s with app := s.app.handle event, events }
  | .play hash => some { s with awaited := s.awaited ++ [hash], events := s.events ++ [.imageRequest hash] }
  | .switchChannel channel => some { s with app := s.app.switchChannel channel }
  | .serverIcon hash => some { s with app := s.app.setServerIcon hash }
  | .profile avatar saved => some { s with app := s.app.profile avatar saved }
  | .openSettings => some { s with app := { s.app with settings := s.app.settings.openSettings } }
  | .closeSettings => some { s with app := { s.app with settings := Settings.close } }
  | .clearMessages => some { s with app := { s.app with messages := [] } }
  -- the requests go with the connection, the tasks go on
  | .disconnected => some { s with app := s.app.disconnected, asked := [] }

/-- Before the first session. -/
def start : Fetches where
  app := ⟨[], "", fun _ => none, [], [], [], Settings.close, none, none⟩
  loading := []
  awaited := []
  asked := []
  decoding := []
  events := []

end Fetches

/-! ### The loops -/

/-- The caption of this picture no longer waits. -/
def putDown (hash : Hash) (entry : Entry) : Entry :=
  if entry = .image (some hash) .waiting then .image (some hash) .deferred else entry

/-- Captions that are put down do not wait. -/
theorem count_map_putDown (hash hash' : Hash) (messages : List Entry) :
    (messages.map (putDown hash)).count (.image (some hash') .waiting) =
      if hash' = hash then 0 else messages.count (.image (some hash') .waiting) := by
  induction messages with
  | nil => simp
  | cons entry messages ih =>
    rw [List.map_cons, List.count_cons, ih, List.count_cons]
    unfold putDown
    split_ifs <;> simp_all

/-- Those that wait for a picture are all put down. -/
theorem foldl_putDown (hash : Hash) (messages : List Entry) :
    (App.waitingFor messages hash).foldl (fun messages i => messages.modify i (Entry.setPicture .deferred)) messages =
      messages.map (putDown hash) := by
  refine List.ext_getElem? fun j => ?_
  have hmem : j ∈ App.waitingFor messages hash ↔ messages[j]? = some (.image (some hash) .waiting) := by
    rw [App.waitingFor, List.mem_filter, List.mem_range, decide_eq_true_iff]
    exact ⟨And.right, fun h => ⟨(List.getElem?_eq_some_iff.1 h).1, h⟩⟩
  rw [getElem?_foldl_modify (fun entry => by cases entry <;> rfl), List.getElem?_map]
  by_cases hj : messages[j]? = some (.image (some hash) .waiting)
  · rw [if_pos (hmem.2 hj), hj]
    simp [putDown, Entry.setPicture]
  · rw [if_neg fun h => hj (hmem.1 h)]
    cases hget : messages[j]? with
    | none => rfl
    | some entry =>
      have hne : entry ≠ .image (some hash) .waiting := fun h => hj (h ▸ hget)
      simp [putDown, hne]

namespace App

/-- **A request is dropped with the captions that wait for it, sent, or kept.** -/
theorem takeRequest_cases (drawn : Bool) (visible : List ℕ) (t : Taking) (hash : Hash) :
    takeRequest drawn visible t hash = { t with messages := t.messages.map (putDown hash) } ∨
    t.fetching.length < maxImageFetches ∧
      takeRequest drawn visible t hash = { t with fetching := t.fetching ++ [hash], send := t.send ++ [hash] } ∨
    maxImageFetches ≤ t.fetching.length ∧
      takeRequest drawn visible t hash = { t with queued := t.queued ++ [hash] } := by
  unfold takeRequest
  dsimp only
  split
  · rw [foldl_putDown]
    exact .inl rfl
  · split
    · rename_i hfree
      exact .inr (.inl ⟨hfree, rfl⟩)
    · rename_i hfull
      exact .inr (.inr ⟨Nat.le_of_not_lt hfull, rfl⟩)

/-- What the loop of `take_image_requests` does with some requests. -/
structure Took (requests : List Hash) (t t' : Taking) : Prop where
  slots : ∃ sent, t'.fetching = t.fetching ++ sent ∧ t'.send = t.send ++ sent
  free : t.fetching.length ≤ maxImageFetches → t'.fetching.length ≤ maxImageFetches
  fewer (hash : Hash) : t'.messages.count (.image (some hash) .waiting) ≤ t.messages.count (.image (some hash) .waiting)
  /-- A request goes only with the captions that wait for it. -/
  kept (hash : Hash) : t'.messages.count (.image (some hash) .waiting) = 0 ∨
    t'.send.count hash + t'.queued.count hash = t.send.count hash + t.queued.count hash + requests.count hash
  less : 3 * t'.send.length + 4 * t'.queued.length < 3 * t.send.length + 4 * t.queued.length + 4 * requests.length ∨
    t' = { t with queued := t.queued ++ requests } ∧ (requests ≠ [] → maxImageFetches ≤ t.fetching.length)

/-- The requests are taken one after the other. -/
theorem took_foldl (drawn : Bool) (visible : List ℕ) (requests : List Hash) (t : Taking) :
    Took requests t (requests.foldl (takeRequest drawn visible) t) := by
  induction requests generalizing t with
  | nil => exact ⟨⟨[], by simp⟩, id, fun _ => le_rfl, fun _ => .inr (by simp), .inr ⟨by simp, fun h => absurd rfl h⟩⟩
  | cons hash requests ih =>
    have h := ih (takeRequest drawn visible t hash)
    rw [List.foldl_cons]
    rcases takeRequest_cases drawn visible t hash with heq | ⟨hfree, heq⟩ | ⟨hfull, heq⟩
    · rw [heq] at h ⊢
      have hmap := fun hash' => count_map_putDown hash hash' t.messages
      refine ⟨h.slots, h.free, fun hash' => (h.fewer hash').trans ?_, fun hash' => ?_, .inl ?_⟩
      · rw [hmap]
        split <;> omega
      · by_cases hhash : hash' = hash
        · exact .inl (Nat.le_zero.1 ((h.fewer hash').trans (by rw [hmap, if_pos hhash])))
        · refine (h.kept hash').imp_right fun hcount => ?_
          rw [hcount, List.count_cons_of_ne (Ne.symm hhash)]
      · rcases h.less with hless | ⟨hsame, -⟩
        · simp only [List.length_cons] at hless ⊢
          omega
        · rw [hsame]
          simp only [List.length_append, List.length_cons]
          omega
    · rw [heq] at h ⊢
      obtain ⟨sent, hfetching, hsend⟩ := h.slots
      refine ⟨⟨hash :: sent, by simp [hfetching], by simp [hsend]⟩, fun _ => h.free ?_, h.fewer, fun hash' => ?_,
        .inl ?_⟩
      · rw [List.length_append, List.length_singleton]
        exact hfree
      · refine (h.kept hash').imp_right fun hcount => ?_
        rw [hcount]
        simp only [List.count_append, List.count_cons, List.count_nil]
        omega
      · rcases h.less with hless | ⟨hsame, -⟩
        · simp only [List.length_cons, List.length_append, List.length_nil] at hless ⊢
          omega
        · rw [hsame]
          simp only [List.length_append, List.length_cons, List.length_nil]
          omega
    · rw [heq] at h ⊢
      refine ⟨h.slots, h.free, h.fewer, fun hash' => ?_, ?_⟩
      · refine (h.kept hash').imp_right fun hcount => ?_
        rw [hcount]
        simp only [List.count_append, List.count_cons, List.count_nil]
        omega
      · rcases h.less with hless | ⟨hsame, -⟩
        · left
          simp only [List.length_cons, List.length_append, List.length_nil] at hless ⊢
          omega
        · right
          rw [hsame]
          exact ⟨by simp, fun _ => hfull⟩

/-- What `take_image_requests` does. -/
theorem takeImageRequests_spec (drawn : Bool) (visible : List ℕ) (s : App) :
    ∃ t, s.takeImageRequests drawn visible =
        (t.send, { s with messages := t.messages, imageFetching := t.fetching, imageRequests := t.queued }) ∧
      Took s.imageRequests ⟨s.messages, s.imageFetching, [], []⟩ t := by
  refine ⟨s.imageRequests.foldl (takeRequest drawn (if drawn then visible else []))
    ⟨s.messages, s.imageFetching, [], []⟩, ?_, took_foldl ..⟩
  unfold takeImageRequests
  split
  · rename_i hnone
    rw [hnone, List.foldl_nil, ← hnone]
  · rfl

end App

namespace App

/-- The captions that wait for a picture, counted. -/
def waiting (hash : Hash) (messages : List Entry) : ℕ := messages.count (.image (some hash) .waiting)

/-- `load_visible` looks up a picture for every caption that it lets wait. -/
theorem loadVisible_spec (visible : List ℕ) (s : App) :
    ∃ messages loads, s.loadVisible visible = { s with messages, imageLoads := s.imageLoads ++ loads } ∧
      ∀ hash, waiting hash messages = waiting hash s.messages + loads.count hash := by
  induction visible generalizing s with
  | nil => exact ⟨s.messages, [], by simp [loadVisible], fun _ => rfl⟩
  | cons entry visible ih =>
    rw [loadVisible, List.foldl_cons, ← loadVisible]
    unfold loadEntry
    split
    · rename_i hash hget
      obtain ⟨messages, loads, heq, hcount⟩ := ih { s with
        imageLoads := s.imageLoads ++ hash.toList, messages := s.messages.modify entry (Entry.setPicture .waiting) }
      refine ⟨messages, hash.toList ++ loads, heq.trans (by simp), fun hash' => (hcount hash').trans ?_⟩
      have hone := count_modify (Entry.setPicture .waiting) hget (.image (some hash') .waiting)
      rw [List.count_append]
      cases hash with
      | none => simpa [waiting, Entry.setPicture] using hone
      | some hash =>
        simp only [Entry.setPicture, reduceCtorEq, Entry.image.injEq, Option.some.injEq, and_true, and_false, if_false,
          Option.toList_some, List.count_singleton, beq_iff_eq, waiting] at hone ⊢
        omega
    · exact ih s

/-- A click looks up the picture of a caption that it lets wait. -/
theorem requestImage_spec (entry : ℕ) (s : App) :
    ∃ messages hash, s.requestImage entry = (hash, { s with messages }) ∧
      ∀ hash', waiting hash' messages = waiting hash' s.messages + hash.toList.count hash' := by
  have hcount {picture : Picture} {hash : Option Hash} (hget : s.messages[entry]? = some (.image hash picture))
      (hpicture : picture ≠ .waiting) (hash' : Hash) :
      waiting hash' (s.messages.modify entry (Entry.setPicture .waiting)) =
        waiting hash' s.messages + hash.toList.count hash' := by
    have hone := count_modify (Entry.setPicture .waiting) hget (.image (some hash') .waiting)
    cases hash with
    | none => simpa [waiting, Entry.setPicture] using hone
    | some hash =>
      simp only [Entry.setPicture, Entry.image.injEq, Option.some.injEq, hpicture, and_true, and_false, if_false,
        Option.toList_some, List.count_singleton, beq_iff_eq, waiting] at hone ⊢
      omega
  unfold requestImage
  split
  · rename_i hash hget
    exact ⟨_, _, rfl, hcount hget (by decide)⟩
  · rename_i hash hget
    exact ⟨_, _, rfl, hcount hget (by decide)⟩
  · exact ⟨s.messages, none, rfl, fun _ => rfl⟩

/-- `deliver_image` fills at most one caption, and no caption of another picture. -/
theorem deliverImage_spec (hash : Hash) (image : Bool) (s : App) :
    ∃ messages, s.deliverImage hash image = { s with messages } ∧
      (∀ hash', waiting hash' messages ≤ waiting hash' s.messages ∧
        (hash' ≠ hash → waiting hash' messages = waiting hash' s.messages)) ∧
      ((∀ i ∈ s.messages.findIdx? (takes hash image), s.messages[i]? = some (.image (some hash) .waiting)) →
        waiting hash messages ≤ waiting hash s.messages - 1) := by
  unfold deliverImage
  split
  · rename_i hnone
    refine ⟨s.messages, rfl, fun _ => ⟨le_rfl, fun _ => rfl⟩, fun _ => ?_⟩
    have hzero : waiting hash s.messages = 0 := by
      rw [waiting, List.count_eq_zero]
      intro hmem
      have := List.findIdx?_eq_none_iff.1 hnone _ hmem
      simp [takes] at this
    omega
  · rename_i i hi
    obtain ⟨hlt, htakes, -⟩ := List.findIdx?_eq_some_iff_getElem.1 hi
    have hget := List.getElem?_eq_getElem hlt
    have hone := fun hash' => count_modify (Entry.setPicture (if image then .ready else .gone)) hget
      (.image (some hash') .waiting)
    have hset (hash' : Hash) : s.messages[i].setPicture (if image then .ready else .gone) ≠
        .image (some hash') .waiting := by
      cases s.messages[i] with
      | image _ _ => cases image <;> simp [Entry.setPicture]
      | other => simp [Entry.setPicture]
    refine ⟨_, rfl, fun hash' => ⟨?_, fun hne => ?_⟩, fun hdirect => ?_⟩
    · have := hone hash'
      rw [if_neg (hset hash')] at this
      simp only [waiting]
      omega
    · have := hone hash'
      have hother : s.messages[i] ≠ .image (some hash') .waiting := by
        intro heq
        rw [heq] at htakes
        simp [takes, hne] at htakes
      rw [if_neg (hset hash'), if_neg hother] at this
      simpa [waiting] using this
    · have := hone hash
      have hwaits : s.messages[i] = .image (some hash) .waiting := Option.some.inj (hget ▸ hdirect i hi)
      rw [if_neg (hset hash), if_pos hwaits] at this
      simp only [waiting]
      omega

end App

/-! ### Slots -/

/-- The event brings an answer that takes a slot. -/
def ClientEvent.answers (hash : Hash) : ClientEvent → Bool
  | .imageData hash' _ | .voiceData hash' => hash' = hash
  | _ => false

namespace Fetches

/-- The answers for a picture that are on their way. -/
def coming (hash : Hash) (s : Fetches) : ℕ :=
  s.asked.count hash + s.decoding.countP (ClientEvent.answers hash) + s.events.countP (ClientEvent.answers hash)

/-- Every slot that is taken belongs to an answer that is on its way. -/
structure Answered (s : Fetches) : Prop where
  slots : s.app.imageFetching.length ≤ maxImageFetches
  coming (hash : Hash) : s.app.imageFetching.count hash ≤ s.coming hash

end Fetches

/-! ### What the steps do -/

namespace App

/-- No caption of a parked pane waits. -/
def Tidy (s : App) : Prop :=
  ∀ channel entries, s.panes channel = some entries → ∀ entry ∈ entries, entry.isWaiting = false

/-- If no caption waits, none waits for a picture. -/
theorem waiting_eq_zero {messages : List Entry} (h : ∀ entry ∈ messages, entry.isWaiting = false) (hash : Hash) :
    waiting hash messages = 0 := by
  rw [waiting, List.count_eq_zero]
  intro hmem
  cases h _ hmem

/-- The captions of the pane that is left no longer wait, and those of the one that is shown did not. -/
theorem switchChannel_spec (channel : String) (s : App) :
    ∃ messages panes channel', s.switchChannel channel = { s with messages, panes, channel := channel' } ∧
      (s.Tidy → (∀ hash, waiting hash messages ≤ waiting hash s.messages) ∧
        ({ s with messages, panes, channel := channel' } : App).Tidy) := by
  unfold switchChannel
  split
  · exact ⟨s.messages, s.panes, s.channel, rfl, fun h => ⟨fun _ => le_rfl, h⟩⟩
  · refine ⟨_, _, _, rfl, fun h => ?_⟩
    set parked := s.messages.map fun entry => if entry.isWaiting then entry.setPicture .deferred else entry with hparked
    set panes := if parked = [] then s.panes else Function.update s.panes s.channel (some parked) with hpanes
    have htidy : ∀ name entries, panes name = some entries → ∀ entry ∈ entries, entry.isWaiting = false := by
      intro name entries hentries
      have hdown : ∀ entry ∈ parked, entry.isWaiting = false := by
        intro entry hentry
        obtain ⟨old, -, rfl⟩ := List.mem_map.1 hentry
        split
        · cases old <;> rfl
        · rename_i hold
          exact Bool.eq_false_iff.2 hold
      rw [hpanes] at hentries
      split at hentries
      · exact h name entries hentries
      · by_cases hname : name = s.channel
        · rw [hname, Function.update_self] at hentries
          obtain rfl := Option.some.inj hentries
          exact hdown
        · rw [Function.update_of_ne hname] at hentries
          exact h name entries hentries
    refine ⟨fun hash => ?_, fun name entries hentries => ?_⟩
    · rw [waiting_eq_zero]
      · exact Nat.zero_le _
      · cases hshown : panes channel with
        | none => simp
        | some entries => exact htidy channel entries hshown
    · dsimp only at hentries
      by_cases hname : name = channel
      · rw [hname, Function.update_self] at hentries
        cases hentries
      · rw [Function.update_of_ne hname] at hentries
        exact htidy name entries hentries

/-- `set_server_icon` loads pictures, and changes no caption. -/
theorem setServerIcon_spec (hash : Option Hash) (s : App) :
    ∃ serverIcon iconOf loads,
      s.setServerIcon hash = { s with serverIcon, iconOf, imageLoads := s.imageLoads ++ loads } := by
  unfold setServerIcon
  split
  · exact ⟨_, _, _, rfl⟩
  · exact ⟨hash, s.iconOf, [], by rw [List.append_nil]⟩

/-- A profile loads pictures, and changes no caption. -/
theorem profile_spec (avatar : Option Hash) (saved : Bool) (s : App) :
    ∃ settings loads, s.profile avatar saved = { s with settings, imageLoads := s.imageLoads ++ loads } := by
  obtain ⟨settings, hsettings⟩ : ∃ settings, (if saved then
      if s.settings.isOpen ∧ s.settings.profile then { s with settings := s.settings.openProfile avatar } else s
    else { s with settings := s.settings.openProfile avatar }) = { s with settings } := by
    split_ifs
    · exact ⟨_, rfl⟩
    · exact ⟨_, rfl⟩
    · exact ⟨_, rfl⟩
  unfold profile
  rw [hsettings]
  dsimp only
  split
  · exact ⟨_, _, rfl⟩
  · exact ⟨settings, [], by rw [List.append_nil]⟩

/-- A caption is filled by an answer only if the profile box does not take it. -/
theorem handle_imageData (hash : Hash) (image : Bool) (s : App) :
    ∃ messages settings iconOf, s.handle (.imageData hash image) =
        { s with messages, settings, iconOf, imageFetching := s.imageFetching.erase hash } ∧
      (∀ hash', waiting hash' messages ≤ waiting hash' s.messages ∧
        (hash' ≠ hash → waiting hash' messages = waiting hash' s.messages)) ∧
      (s.wantsAvatar hash = false →
        (∀ i ∈ s.messages.findIdx? (takes hash image), s.messages[i]? = some (.image (some hash) .waiting)) →
        waiting hash messages ≤ waiting hash s.messages - 1) := by
  obtain ⟨iconOf, hicon⟩ : ∃ iconOf, (if (s.fetched hash).wantsIcon hash then (s.fetched hash).deliverIcon hash image
      else s.fetched hash) = { s with iconOf, imageFetching := s.imageFetching.erase hash } := by
    unfold deliverIcon
    split_ifs
    · exact ⟨_, rfl⟩
    · exact ⟨_, rfl⟩
    · exact ⟨_, rfl⟩
  unfold handle
  dsimp only
  rw [hicon]
  split
  · rename_i hwants
    have hwants : s.wantsAvatar hash = true := hwants
    obtain ⟨settings, hsettings⟩ : ∃ settings, deliverAvatar hash image
        { s with iconOf, imageFetching := s.imageFetching.erase hash } =
          { s with settings, iconOf, imageFetching := s.imageFetching.erase hash } := by
      unfold deliverAvatar
      split
      · exact ⟨_, rfl⟩
      · exact ⟨_, rfl⟩
    exact ⟨s.messages, settings, iconOf, hsettings, fun _ => ⟨le_rfl, fun _ => rfl⟩,
      fun hnot => absurd (hwants.symm.trans hnot) (by decide)⟩
  · obtain ⟨messages, hmessages, hothers, hdirect⟩ := deliverImage_spec hash image
      { s with iconOf, imageFetching := s.imageFetching.erase hash }
    exact ⟨messages, s.settings, iconOf, hmessages, hothers, fun _ => hdirect⟩

/-- A pushed entry comes last, and the first may go. -/
theorem pushEntry_spec (entry : Entry) (s : App) :
    ∃ trimmed, s.pushEntry entry = { s with messages := (s.messages ++ [entry]).drop trimmed } :=
  ⟨(s.messages ++ [entry]).length - Pane.historyLimit, rfl⟩

/-- A caption that comes waits, and its picture is requested. -/
theorem handle_imagePending (hash : Hash) (s : App) :
    ∃ messages, s.handle (.imagePending hash) = { s with messages, imageRequests := s.imageRequests ++ [hash] } ∧
      ∀ hash', waiting hash' messages ≤ waiting hash' s.messages + [hash].count hash' := by
  obtain ⟨trimmed, htrimmed⟩ := s.pushEntry_spec (.image (some hash) .waiting)
  refine ⟨(s.messages ++ [Entry.image (some hash) .waiting]).drop trimmed, ?_, fun hash' => ?_⟩
  · unfold handle
    dsimp only
    rw [htrimmed]
  · refine ((List.drop_sublist _ _).count_le _).trans (le_of_eq ?_)
    rw [List.count_append, waiting, List.count_singleton, List.count_singleton]
    simp

end App

/-- What the user, the pane and the boxes do. -/
def Action.edits : Action → Bool
  | .insert .. | .remove _ | .park .. | .prune _ | .click _ | .loadVisible _ | .switchChannel _ | .serverIcon _
  | .profile .. | .openSettings | .closeSettings | .clearMessages => true
  | _ => false

namespace Fetches

/-- The pictures that are looked up in the cache. -/
def lookups (hash : Hash) (s : Fetches) : ℕ := s.app.imageLoads.count hash + s.loading.count hash

/-- The pane, the boxes and what is looked up may change, and no request or answer does. -/
structure Edited (s s' : Fetches) : Prop where
  requests : s'.app.imageRequests = s.app.imageRequests
  fetching : s'.app.imageFetching = s.app.imageFetching
  asked : s'.asked = s.asked
  decoding : s'.decoding = s.decoding
  events : s'.events = s.events
  tidy : s.app.Tidy → s'.app.Tidy
  waiting (hash : Hash) : s.app.Tidy → App.waiting hash s'.app.messages + s.lookups hash ≤
    App.waiting hash s.app.messages + s'.lookups hash

/-- What the user does changes the captions only. -/
theorem edited_of_step {s s' : Fetches} {a : Action} (ha : a.edits = true) (hstep : s.step a = some s') :
    Edited s s' := by
  cases a with
  | arrive _ | tick _ _ _ | loaded _ _ | answer _ _ | decoded _ | handle | play _ | disconnected => cases ha
  | insert index entry =>
    rw [step] at hstep
    split at hstep
    · cases hstep
    · rename_i hentry
      obtain rfl := Option.some.inj hstep
      refine ⟨rfl, rfl, rfl, rfl, rfl, id, fun hash _ => Nat.add_le_add_right ?_ _⟩
      dsimp only
      rw [App.waiting, App.waiting]
      by_cases hindex : index ≤ s.app.messages.length
      · have hne : entry ≠ .image (some hash) .waiting := fun heq => hentry (heq ▸ rfl)
        rw [(List.perm_insertIdx entry s.app.messages hindex).count_eq, List.count_cons_of_ne hne]
      · rw [List.insertIdx_of_length_lt (Nat.lt_of_not_le hindex)]
  | remove index =>
    obtain rfl := Option.some.inj hstep
    exact ⟨rfl, rfl, rfl, rfl, rfl, id,
      fun hash _ => Nat.add_le_add_right ((List.eraseIdx_sublist _ _).count_le _) _⟩
  | park channel entries =>
    rw [step] at hstep
    split at hstep
    · cases hstep
    · rename_i hentries
      obtain rfl := Option.some.inj hstep
      refine ⟨rfl, rfl, rfl, rfl, rfl, fun htidy name entries' hname => ?_, fun hash _ => le_rfl⟩
      dsimp only at hname
      by_cases hchannel : name = channel
      · rw [hchannel, Function.update_self] at hname
        obtain rfl := Option.some.inj hname
        exact fun entry hentry => Bool.eq_false_iff.2 fun hwaits =>
          hentries (.inr (List.any_eq_true.2 ⟨entry, hentry, hwaits⟩))
      · rw [Function.update_of_ne hchannel] at hname
        exact htidy name entries' hname
  | prune channel =>
    obtain rfl := Option.some.inj hstep
    refine ⟨rfl, rfl, rfl, rfl, rfl, fun htidy name entries hname => ?_, fun hash _ => le_rfl⟩
    dsimp only at hname
    by_cases hchannel : name = channel
    · rw [hchannel, Function.update_self] at hname
      cases hname
    · rw [Function.update_of_ne hchannel] at hname
      exact htidy name entries hname
  | click entry =>
    obtain ⟨messages, hash, heq, hcount⟩ := s.app.requestImage_spec entry
    rw [step, heq] at hstep
    obtain rfl := Option.some.inj hstep
    refine ⟨rfl, rfl, rfl, rfl, rfl, id, fun hash' _ => ?_⟩
    simp only [lookups, List.count_append, hcount hash']
    omega
  | loadVisible visible =>
    obtain ⟨messages, loads, heq, hcount⟩ := s.app.loadVisible_spec visible
    rw [step, heq] at hstep
    obtain rfl := Option.some.inj hstep
    refine ⟨rfl, rfl, rfl, rfl, rfl, id, fun hash _ => ?_⟩
    simp only [lookups, List.count_append, hcount hash]
    omega
  | switchChannel channel =>
    obtain ⟨messages, panes, channel', heq, htidy⟩ := s.app.switchChannel_spec channel
    rw [step, heq] at hstep
    obtain rfl := Option.some.inj hstep
    exact ⟨rfl, rfl, rfl, rfl, rfl, fun h => (htidy h).2, fun hash h => Nat.add_le_add_right ((htidy h).1 hash) _⟩
  | serverIcon hash =>
    obtain ⟨serverIcon, iconOf, loads, heq⟩ := s.app.setServerIcon_spec hash
    rw [step, heq] at hstep
    obtain rfl := Option.some.inj hstep
    refine ⟨rfl, rfl, rfl, rfl, rfl, id, fun hash' _ => ?_⟩
    simp only [lookups, List.count_append]
    omega
  | profile avatar saved =>
    obtain ⟨settings, loads, heq⟩ := s.app.profile_spec avatar saved
    rw [step, heq] at hstep
    obtain rfl := Option.some.inj hstep
    refine ⟨rfl, rfl, rfl, rfl, rfl, id, fun hash' _ => ?_⟩
    simp only [lookups, List.count_append]
    omega
  | openSettings | closeSettings =>
    obtain rfl := Option.some.inj hstep
    exact ⟨rfl, rfl, rfl, rfl, rfl, id, fun _ _ => le_rfl⟩
  | clearMessages =>
    obtain rfl := Option.some.inj hstep
    exact ⟨rfl, rfl, rfl, rfl, rfl, id, fun hash _ => Nat.add_le_add_right (Nat.zero_le _) _⟩

/-- What the loop of the interface does. -/
theorem tick_spec (s : Fetches) (drawn : Bool) (visible : List ℕ) :
    ∃ t, s.step (.tick true drawn visible) = some { s with
        app := { s.app with
          imageLoads := [], messages := t.messages, imageFetching := t.fetching, imageRequests := t.queued }
        loading := s.loading ++ s.app.imageLoads, asked := s.asked ++ t.send } ∧
      App.Took s.app.imageRequests ⟨s.app.messages, s.app.imageFetching, [], []⟩ t := by
  obtain ⟨t, heq, htook⟩ := App.takeImageRequests_spec drawn visible { s.app with imageLoads := [] }
  refine ⟨t, ?_, htook⟩
  rw [step, if_pos rfl, heq]

end Fetches

/-! ### Slots and answers -/

namespace Fetches

/-- Nothing was asked for. -/
theorem Answered.start : Answered start := ⟨Nat.zero_le _, fun _ => le_rfl⟩

/-- **Every slot that is taken is answered once.** -/
theorem Answered.step {s s' : Fetches} {a : Action} (h : s.Answered) (hstep : s.step a = some s') : s'.Answered := by
  by_cases hedits : a.edits = true
  · have hsame := edited_of_step hedits hstep
    refine ⟨hsame.fetching ▸ h.slots, fun hash => ?_⟩
    rw [hsame.fetching, Fetches.coming, hsame.asked, hsame.decoding, hsame.events]
    exact h.coming hash
  cases a with
  | insert _ _ | remove _ | park _ _ | prune _ | click _ | loadVisible _ | switchChannel _ | serverIcon _ | profile _ _
  | openSettings | closeSettings | clearMessages => exact absurd rfl hedits
  | arrive hash | play hash =>
    obtain rfl := Option.some.inj hstep
    refine ⟨h.slots, fun hash => (h.coming hash).trans ?_⟩
    simp only [Fetches.coming, List.countP_append]
    omega
  | tick connected drawn visible =>
    cases connected with
    | false =>
      obtain rfl := Option.some.inj hstep
      exact ⟨h.slots, h.coming⟩
    | true =>
      obtain ⟨t, heq, htook⟩ := s.tick_spec drawn visible
      obtain rfl := Option.some.inj (heq.symm.trans hstep)
      obtain ⟨sent, hfetching, hsend⟩ := htook.slots
      refine ⟨htook.free h.slots, fun hash => ?_⟩
      have hcoming := h.coming hash
      simp only [Fetches.coming, hfetching, hsend, List.nil_append, List.count_append] at hcoming ⊢
      omega
  | loaded hash hit =>
    rw [Fetches.step] at hstep
    split at hstep
    · obtain rfl := Option.some.inj hstep
      refine ⟨h.slots, fun hash => (h.coming hash).trans ?_⟩
      simp only [Fetches.coming, List.countP_append]
      omega
    · cases hstep
  | answer hash image =>
    rw [Fetches.step] at hstep
    split at hstep
    · rename_i hasked
      obtain rfl := Option.some.inj hstep
      refine ⟨h.slots, fun hash' => (h.coming hash').trans ?_⟩
      -- the request goes, and what is decoded for it answers it
      have htaken : ClientEvent.answers hash' (taken s.awaited hash image) = decide (hash = hash') := by
        unfold taken
        split <;> rfl
      have hpos := List.count_pos_iff.2 hasked
      simp only [Fetches.coming, List.countP_append, List.countP_singleton, htaken, List.count_erase, beq_iff_eq,
        decide_eq_true_iff]
      split
      · rename_i heq
        subst heq
        omega
      · omega
    · cases hstep
  | decoded event =>
    rw [Fetches.step] at hstep
    split at hstep
    · rename_i hdecoding
      obtain rfl := Option.some.inj hstep
      refine ⟨h.slots, fun hash => (h.coming hash).trans (le_of_eq ?_)⟩
      have hperm := (List.perm_cons_erase hdecoding).countP_eq (ClientEvent.answers hash)
      simp only [Fetches.coming, List.countP_append, List.countP_cons, List.countP_nil] at hperm ⊢
      omega
    · cases hstep
  | handle =>
    rw [Fetches.step] at hstep
    split at hstep
    · cases hstep
    · rename_i event events hevents
      obtain rfl := Option.some.inj hstep
      have hcoming := fun hash => h.coming hash
      simp only [Fetches.coming, hevents, List.countP_cons] at hcoming
      cases event with
      | imagePending hash =>
        obtain ⟨messages, heq, -⟩ := s.app.handle_imagePending hash
        rw [heq]
        exact ⟨h.slots, hcoming⟩
      | imageRequest hash => exact ⟨h.slots, hcoming⟩
      | imageData hash image =>
        obtain ⟨messages, settings, iconOf, heq, -, -⟩ := s.app.handle_imageData hash image
        rw [heq]
        refine ⟨(List.length_erase_le).trans h.slots, fun hash' => ?_⟩
        have hcoming := hcoming hash'
        simp only [Fetches.coming, ClientEvent.answers, decide_eq_true_iff, List.count_erase, beq_iff_eq] at hcoming ⊢
        split at hcoming <;> simp_all
        omega
      | voiceData hash =>
        refine ⟨(List.length_erase_le).trans h.slots, fun hash' => ?_⟩
        have hcoming := hcoming hash'
        simp only [Fetches.coming, ClientEvent.answers, decide_eq_true_iff, App.handle, App.fetched, List.count_erase,
          beq_iff_eq] at hcoming ⊢
        split at hcoming <;> simp_all
        omega
  | disconnected =>
    obtain rfl := Option.some.inj hstep
    exact ⟨Nat.zero_le _, fun _ => Nat.zero_le _⟩

/-- Every reachable state. -/
theorem answered_of_exec {s : Fetches} {actions : List Action} (hexec : exec step start actions = some s) :
    s.Answered :=
  exec_induct (fun _ _ _ h _ hstep => h.step hstep) .start (meets_true _ _ actions) hexec

/-- **No slot is lost.**  In every run, at most `MAX_IMAGE_FETCHES` slots are taken, and each
by a picture whose answer is on its way. -/
theorem slots_answered {s : Fetches} {actions : List Action} (hexec : exec step start actions = some s) :
    s.app.imageFetching.length ≤ maxImageFetches ∧ ∀ hash, s.app.imageFetching.count hash ≤
      s.asked.count hash + s.decoding.countP (ClientEvent.answers hash) + s.events.countP (ClientEvent.answers hash) :=
  ⟨(answered_of_exec hexec).slots, (answered_of_exec hexec).coming⟩

/-- A picture. -/
def someHash : Hash := .replicate 32 0

/-- The same picture comes twice, and the first answer is on its way. -/
def twice : List Action :=
  [.arrive someHash, .arrive someHash, .handle, .handle, .tick true true [0, 1], .answer someHash true]

/-- Two requests for one picture take two slots. -/
theorem slots_answered_twice :
    ∃ s : Fetches, s.app.imageFetching = [someHash, someHash] ∧
      ∀ hash, s.app.imageFetching.count hash ≤ s.asked.count hash + s.decoding.countP (ClientEvent.answers hash) +
        s.events.countP (ClientEvent.answers hash) := by
  have hrun : (exec step start twice).map (·.app.imageFetching) = some [someHash, someHash] := by decide +kernel
  obtain ⟨s, hs, hfetching⟩ := Option.map_eq_some_iff.1 hrun
  exact ⟨s, hfetching, (slots_answered hs).2⟩

end Fetches

/-! ### Everything comes to rest -/

/-- The steps that an event is away from having no more to do. -/
def ClientEvent.work : ClientEvent → ℕ
  | .imagePending _ | .imageRequest _ => 5
  | .imageData _ _ | .voiceData _ => 1

/-- A task ends, the server answers, or an event is handled. -/
def Action.outside : Action → Bool
  | .loaded .. | .answer .. | .decoded _ | .handle => true
  | _ => false

/-- What the client and the server do for pictures that are asked for, with the captions that are
within reach. -/
def Action.Serves (drawn : Bool) (visible : List ℕ) (a : Action) : Prop :=
  a = .tick true drawn visible ∨ a.outside = true

namespace Fetches

/-- The steps that are outstanding. -/
def work (s : Fetches) : ℕ :=
  7 * s.app.imageLoads.length + 6 * s.loading.length + 4 * s.app.imageRequests.length + 3 * s.asked.length +
    (s.decoding.map fun event => event.work + 1).sum + (s.events.map ClientEvent.work).sum

/-- The loop of the interface takes up what it can. -/
theorem tick_work (s : Fetches) (drawn : Bool) (visible : List ℕ) :
    ∃ s', s.step (.tick true drawn visible) = some s' ∧ (s'.work < s.work ∨ s' = s ∧ s.app.imageLoads = [] ∧
      (s.app.imageRequests ≠ [] → maxImageFetches ≤ s.app.imageFetching.length)) := by
  obtain ⟨t, heq, htook⟩ := s.tick_spec drawn visible
  refine ⟨_, heq, ?_⟩
  have hloads : s.app.imageLoads = [] ∨ 0 < s.app.imageLoads.length :=
    s.app.imageLoads.eq_nil_or_concat.imp_right fun ⟨l, b, h⟩ => by simp [h]
  rcases htook.less with hless | ⟨rfl, hfull⟩
  · left
    simp only [List.length_nil, work, List.length_append] at hless ⊢
    omega
  · rcases hloads with hnone | hsome
    · right
      refine ⟨?_, hnone, hfull⟩
      simp only [hnone, List.append_nil, List.nil_append]
      rw [← hnone]
    · left
      simp only [work, List.length_append, List.length_nil, List.nil_append]
      omega

/-- What comes from outside leaves less work. -/
theorem outside_work {s s' : Fetches} {a : Action} (ha : a.outside = true) (hstep : s.step a = some s') :
    s'.work < s.work := by
  cases a with
  | arrive _ | insert _ _ | remove _ | park _ _ | prune _ | click _ | loadVisible _ | tick _ _ _ | play _
  | switchChannel _ | serverIcon _ | profile _ _ | openSettings | closeSettings | clearMessages | disconnected =>
    cases ha
  | loaded hash hit =>
    rw [step] at hstep
    split at hstep
    · rename_i hloading
      obtain rfl := Option.some.inj hstep
      have hlen := List.length_erase_of_mem hloading
      have hpos := List.length_pos_of_mem hloading
      have hevent : (if hit = true then ClientEvent.imageData hash true else .imageRequest hash).work ≤ 5 := by
        split
        · show 1 ≤ 5
          omega
        · show 5 ≤ 5
          exact le_rfl
      simp only [work, List.map_append, List.map_singleton, List.sum_append, List.sum_singleton]
      omega
    · cases hstep
  | answer hash image =>
    rw [step] at hstep
    split at hstep
    · rename_i hasked
      obtain rfl := Option.some.inj hstep
      have hlen := List.length_erase_of_mem hasked
      have hpos := List.length_pos_of_mem hasked
      have hevent : (taken s.awaited hash image).work = 1 := by
        unfold taken
        split <;> rfl
      simp only [work, List.map_append, List.map_singleton, List.sum_append, List.sum_singleton]
      omega
    · cases hstep
  | decoded event =>
    rw [step] at hstep
    split at hstep
    · rename_i hdecoding
      obtain rfl := Option.some.inj hstep
      have hsum := ((List.perm_cons_erase hdecoding).map fun event => event.work + 1).sum_nat
      simp only [List.map_cons, List.sum_cons] at hsum
      simp only [work, List.map_append, List.map_singleton, List.sum_append, List.sum_singleton]
      omega
    · cases hstep
  | handle =>
    rw [step] at hstep
    split at hstep
    · cases hstep
    · rename_i event events hevents
      obtain rfl := Option.some.inj hstep
      cases event with
      | imagePending hash =>
        obtain ⟨messages, heq, -⟩ := s.app.handle_imagePending hash
        rw [heq]
        simp only [work, hevents, List.map_cons, List.sum_cons, ClientEvent.work, List.length_append,
          List.length_singleton]
        omega
      | imageRequest hash =>
        simp only [work, hevents, List.map_cons, List.sum_cons, ClientEvent.work, App.handle, List.length_append,
          List.length_singleton]
        omega
      | imageData hash image =>
        obtain ⟨messages, settings, iconOf, heq, -, -⟩ := s.app.handle_imageData hash image
        rw [heq]
        simp only [work, hevents, List.map_cons, List.sum_cons, ClientEvent.work]
        omega
      | voiceData hash =>
        simp only [work, hevents, List.map_cons, List.sum_cons, ClientEvent.work, App.handle, App.fetched]
        omega

/-- **What is outstanding can always be served.**  In every state that can be reached, what the
client and the server do for it brings it forward or changes nothing, something that they can
do brings it forward, and when nothing is outstanding all slots are free. -/
theorem fetches_drain {s : Fetches} {actions : List Action} (hexec : exec step start actions = some s) (drawn : Bool)
    (visible : List ℕ) :
    (∀ a s', a.Serves drawn visible → s.step a = some s' → s'.work < s.work ∨ s' = s) ∧
    (0 < s.work → ∃ a s', a.Serves drawn visible ∧ s.step a = some s' ∧ s'.work < s.work) ∧
    (s.work = 0 → s.app.imageFetching = []) := by
  have hanswered := answered_of_exec hexec
  have hfree (hasked : s.asked = []) (hdecoding : s.decoding = []) (hevents : s.events = []) :
      s.app.imageFetching = [] := by
    refine List.eq_nil_iff_forall_not_mem.2 fun hash hmem => ?_
    have hcoming := hanswered.coming hash
    rw [Fetches.coming, hasked, hdecoding, hevents] at hcoming
    exact absurd (List.count_pos_iff.2 hmem) (Nat.not_lt.2 hcoming)
  obtain ⟨s'', htick, hwork⟩ := s.tick_work drawn visible
  refine ⟨fun a s' ha hstep => ?_, fun hpos => ?_, fun hzero => ?_⟩
  · rcases ha with rfl | houtside
    · obtain rfl := Option.some.inj (htick.symm.trans hstep)
      exact hwork.imp_right And.left
    · exact .inl (outside_work houtside hstep)
  · rcases hwork with hless | ⟨-, hloads, hfull⟩
    · exact ⟨_, _, .inl rfl, htick, hless⟩
    · -- the loop has nothing to do: something else is on its way, or a slot is free
      have hany : ∃ a s', a.outside = true ∧ s.step a = some s' := by
        rcases hloading : s.loading with _ | ⟨hash, loading⟩
        · rcases hasked : s.asked with _ | ⟨hash, asked⟩
          · rcases hdecoding : s.decoding with _ | ⟨event, decoding⟩
            · rcases hevents : s.events with _ | ⟨event, events⟩
              · have hrequests : s.app.imageRequests ≠ [] := by
                  intro hrequests
                  simp [work, hloads, hloading, hasked, hdecoding, hevents, hrequests] at hpos
                have hslots := hfull hrequests
                rw [hfree hasked hdecoding hevents] at hslots
                exact absurd hslots (by decide)
              · exact ⟨.handle, _, rfl, by rw [step, hevents]⟩
            · exact ⟨.decoded event, _, rfl, by rw [step, if_pos (hdecoding ▸ List.mem_cons_self)]⟩
          · exact ⟨.answer hash true, _, rfl, by rw [step, if_pos (hasked ▸ List.mem_cons_self)]⟩
        · exact ⟨.loaded hash true, _, rfl, by rw [step, if_pos (hloading ▸ List.mem_cons_self)]⟩
      obtain ⟨a, s', ha, hstep⟩ := hany
      exact ⟨a, s', .inr ha, hstep, outside_work ha hstep⟩
  · have hlist {α : Type} {l : List α} {f : α → ℕ} (hf : ∀ a, 0 < f a) (hsum : (l.map f).sum = 0) : l = [] := by
      cases l with
      | nil => rfl
      | cons a l =>
        have := hf a
        simp only [List.map_cons, List.sum_cons] at hsum
        omega
    obtain ⟨hasked, hdecoding, hevents⟩ : s.asked.length = 0 ∧ (s.decoding.map fun event => event.work + 1).sum = 0 ∧
        (s.events.map ClientEvent.work).sum = 0 := by
      rw [work] at hzero
      omega
    refine hfree (List.length_eq_zero_iff.1 hasked) (hlist (fun _ => Nat.succ_pos _) hdecoding)
      (hlist (fun event => ?_) hevents)
    cases event <;> exact Nat.succ_pos _

/-- With two requests under way, something serves, and there is less work after it. -/
theorem fetches_drain_twice :
    ∃ s : Fetches, s.work = 5 ∧ ∃ a s', a.Serves true [] ∧ s.step a = some s' ∧ s'.work < s.work := by
  have hrun : (exec step start twice).map work = some 5 := by decide +kernel
  obtain ⟨s, hs, hwork⟩ := Option.map_eq_some_iff.1 hrun
  exact ⟨s, hwork, (fetches_drain hs true []).2.1 (hwork ▸ by decide)⟩

end Fetches

/-! ### Captions that wait -/

/-- The event is about a picture that a caption may wait for. -/
def ClientEvent.concerns (hash : Hash) : ClientEvent → Bool
  | .imageRequest hash' | .imageData hash' _ => hash' = hash
  | _ => false

namespace Fetches

/-- What is asked for and has not come. -/
def outstanding (hash : Hash) (s : Fetches) : ℕ :=
  s.lookups hash + s.app.imageRequests.count hash + s.asked.count hash +
    s.decoding.countP (ClientEvent.concerns hash) + s.events.countP (ClientEvent.concerns hash)

/-- An answer that comes while a caption waits for it goes to one that waits: not to the player
of voice messages, not to the profile box, and not to an offered caption further up. -/
def Reaches (hash : Hash) (s : Fetches) : Action → Prop
  | .answer hash' _ => hash' = hash → hash ∈ s.awaited → App.waiting hash s.app.messages = 0
  | .handle =>
    match s.events with
    | .imageData hash' image :: _ => hash' = hash → App.waiting hash s.app.messages = 0 ∨
      s.app.wantsAvatar hash = false ∧ ∀ i ∈ s.app.messages.findIdx? (App.takes hash image),
        s.app.messages[i]? = some (.image (some hash) .waiting)
    | _ => True
  | _ => True

instance (hash : Hash) (s : Fetches) (a : Action) : Decidable (Reaches hash s a) :=
  match a with
  | .answer hash' _ =>
    inferInstanceAs (Decidable (hash' = hash → hash ∈ s.awaited → App.waiting hash s.app.messages = 0))
  | .handle =>
    match h : s.events with
    | .imageData hash' image :: _ =>
      decidable_of_iff (hash' = hash → App.waiting hash s.app.messages = 0 ∨ s.app.wantsAvatar hash = false ∧
        ∀ i ∈ s.app.messages.findIdx? (App.takes hash image),
          s.app.messages[i]? = some (.image (some hash) .waiting)) (by rw [Reaches, h])
    | [] | .imagePending _ :: _ | .imageRequest _ :: _ | .voiceData _ :: _ => .isTrue (by simp only [Reaches, h])
  | .arrive _ | .insert _ _ | .remove _ | .park _ _ | .prune _ | .click _ | .loadVisible _ | .tick _ _ _ | .loaded _ _
  | .decoded _ | .play _ | .switchChannel _ | .serverIcon _ | .profile _ _ | .openSettings | .closeSettings
  | .clearMessages | .disconnected => .isTrue trivial

/-- For every caption that waits, something is outstanding. -/
structure Expected (hash : Hash) (s : Fetches) : Prop where
  tidy : s.app.Tidy
  waiting : App.waiting hash s.app.messages ≤ s.outstanding hash

/-- No caption waits at the start. -/
theorem Expected.start (hash : Hash) : Expected hash start :=
  ⟨fun _ _ h => (nomatch h), le_rfl⟩

/-- **A caption that waits stays expected**, if the requests reach the server. -/
theorem Expected.step {hash : Hash} {s s' : Fetches} {a : Action} (h : s.Expected hash) (hreaches : s.Reaches hash a)
    (hstep : s.step a = some s') : s'.Expected hash := by
  have hwaiting := h.waiting
  by_cases hedits : a.edits = true
  · have hsame := edited_of_step hedits hstep
    refine ⟨hsame.tidy h.tidy, ?_⟩
    have := hsame.waiting hash h.tidy
    simp only [outstanding, hsame.requests, hsame.asked, hsame.decoding, hsame.events] at hwaiting ⊢
    omega
  cases a with
  | insert _ _ | remove _ | park _ _ | prune _ | click _ | loadVisible _ | switchChannel _ | serverIcon _ | profile _ _
  | openSettings | closeSettings | clearMessages => exact absurd rfl hedits
  | arrive hash' | play hash' =>
    obtain rfl := Option.some.inj hstep
    refine ⟨h.tidy, hwaiting.trans ?_⟩
    simp only [outstanding, lookups, List.countP_append]
    omega
  | tick connected drawn visible =>
    cases connected with
    | false =>
      obtain rfl := Option.some.inj hstep
      refine ⟨h.tidy, hwaiting.trans ?_⟩
      simp only [outstanding, lookups, List.count_append, List.count_nil]
      omega
    | true =>
      obtain ⟨t, heq, htook⟩ := s.tick_spec drawn visible
      obtain rfl := Option.some.inj (heq.symm.trans hstep)
      refine ⟨h.tidy, ?_⟩
      have hfewer := htook.fewer hash
      rcases htook.kept hash with hzero | hkept
      · exact (le_of_eq hzero).trans (Nat.zero_le _)
      · simp only [outstanding, lookups, App.waiting, List.count_append, List.count_nil] at hfewer hkept hwaiting ⊢
        omega
  | loaded hash' hit =>
    rw [Fetches.step] at hstep
    split at hstep
    · rename_i hloading
      obtain rfl := Option.some.inj hstep
      refine ⟨h.tidy, hwaiting.trans ?_⟩
      have hconcerns : (if hit = true then ClientEvent.imageData hash' true else .imageRequest hash').concerns hash =
          decide (hash' = hash) := by
        split <;> rfl
      have hcount := (List.perm_cons_erase hloading).count_eq hash
      simp only [outstanding, lookups, List.countP_append, List.countP_singleton, hconcerns, List.count_cons,
        beq_iff_eq, decide_eq_true_iff] at hcount ⊢
      omega
    · cases hstep
  | answer hash' image =>
    rw [Fetches.step] at hstep
    split at hstep
    · rename_i hasked
      obtain rfl := Option.some.inj hstep
      refine ⟨h.tidy, ?_⟩
      have hcount := (List.perm_cons_erase hasked).count_eq hash
      simp only [outstanding, lookups, List.countP_append, List.countP_singleton, List.count_cons, beq_iff_eq]
        at hcount hwaiting ⊢
      by_cases heq : hash' = hash
      · by_cases hawaited : hash' ∈ s.awaited
        · have := hreaches heq (heq ▸ hawaited)
          omega
        · simp only [taken, if_neg hawaited, ClientEvent.concerns, decide_eq_true_iff]
          omega
      · rw [if_neg heq] at hcount
        omega
    · cases hstep
  | decoded event =>
    rw [Fetches.step] at hstep
    split at hstep
    · rename_i hdecoding
      obtain rfl := Option.some.inj hstep
      refine ⟨h.tidy, hwaiting.trans (le_of_eq ?_)⟩
      have hperm := (List.perm_cons_erase hdecoding).countP_eq (ClientEvent.concerns hash)
      simp only [outstanding, lookups, List.countP_append, List.countP_cons, List.countP_nil] at hperm ⊢
      omega
    · cases hstep
  | handle =>
    rw [Fetches.step] at hstep
    rw [Reaches] at hreaches
    split at hstep
    · cases hstep
    · rename_i event events hevents
      obtain rfl := Option.some.inj hstep
      simp only [outstanding, lookups, hevents, List.countP_cons] at hwaiting
      rw [hevents] at hreaches
      cases event with
      | imagePending hash' =>
        obtain ⟨messages, heq, hmessages⟩ := s.app.handle_imagePending hash'
        have hone := hmessages hash
        refine ⟨?_, ?_⟩
        · rw [heq]
          exact h.tidy
        · simp only [outstanding, lookups, heq, List.count_append, ClientEvent.concerns, Bool.false_eq_true, if_false]
            at hwaiting ⊢
          omega
      | imageRequest hash' =>
        refine ⟨h.tidy, ?_⟩
        simp only [outstanding, lookups, App.handle, ClientEvent.concerns, decide_eq_true_iff, List.count_append,
          List.count_singleton, beq_iff_eq] at hwaiting ⊢
        omega
      | imageData hash' image =>
        obtain ⟨messages, settings, iconOf, heq, hothers, hdirect⟩ := s.app.handle_imageData hash' image
        refine ⟨?_, ?_⟩
        · rw [heq]
          exact h.tidy
        · have hone := hothers hash
          simp only [outstanding, lookups, heq, ClientEvent.concerns, decide_eq_true_iff] at hwaiting ⊢
          by_cases hhash : hash' = hash
          · subst hhash
            rw [if_pos rfl] at hwaiting
            rcases hreaches rfl with hzero | ⟨hwants, hfirst⟩
            · omega
            · have := hdirect hwants hfirst
              omega
          · rw [if_neg hhash] at hwaiting
            omega
      | voiceData hash' =>
        refine ⟨h.tidy, ?_⟩
        simp only [outstanding, lookups, App.handle, App.fetched, ClientEvent.concerns] at hwaiting ⊢
        exact hwaiting
  | disconnected =>
    obtain rfl := Option.some.inj hstep
    exact ⟨fun _ _ h => (nomatch h), Nat.zero_le _⟩

/-- **No caption waits in vain.**  In a run in which the answers for a picture reach the captions that
wait for it, as many answers are outstanding as captions wait. -/
theorem captions_answered {hash : Hash} {s : Fetches} {actions : List Action}
    (hmeets : Meets step (Reaches hash) start actions) (hexec : exec step start actions = some s) :
    App.waiting hash s.app.messages ≤ s.outstanding hash := by
  have h : s.Expected hash :=
    exec_induct (fun _ _ _ h hreaches hstep => Expected.step h hreaches hstep) (Expected.start hash) hmeets hexec
  exact h.waiting

/-- The first answer fills the first caption, and the second one is still to come. -/
theorem captions_answered_twice :
    ∃ s : Fetches, App.waiting someHash s.app.messages = 1 ∧
      App.waiting someHash s.app.messages ≤ s.outstanding someHash := by
  have hrun : (exec step start (twice ++ [.decoded (.imageData someHash true), .handle])).map
      (fun s => App.waiting someHash s.app.messages) = some 1 := by decide +kernel
  obtain ⟨s, hs, hwaiting⟩ := Option.map_eq_some_iff.1 hrun
  exact ⟨s, hwaiting, captions_answered (by decide +kernel) hs⟩

/-- **An offered caption further up takes the answer.**  The caption that was clicked waits,
and nothing is outstanding. -/
theorem caption_left_waiting :
    (exec step start [.insert 0 (.image (some someHash) .absent), .insert 1 (.image (some someHash) .absent), .click 1,
      .loaded someHash true, .handle]).map (fun s => (s.app.messages, s.work)) =
        some ([.image (some someHash) .ready, .image (some someHash) .waiting], 0) := by
  decide +kernel

end Fetches

end Fetching
end Why2
