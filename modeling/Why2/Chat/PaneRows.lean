/-
# The rows of the message pane

`chat/src/bin/client/tui/state.rs`: the entries of the pane being read are wrapped
to its width, and places in it are kept as rows of the wrapped view: the first row
of every entry, where the pictures are, the scroll and the selection.  The view is
kept until its width or its generation is stale (`rewrap`), and a call that changes
entries above moves the rows that are kept.

Rows are counted in `usize` and kept in `u16`.  A pane of a few thousand long
messages has more rows than that: the first rows of entries wrap around
(`rows_wrap_around`).  The rows are what they stand for exactly if the pane has
less than `2^16` rows, before a change and after it (`rows_exact_iff`).

What an entry looks like is the theme's: how many lines its text and its trailer
are wrapped into, and how high a picture is in pixels, are parameters here.  That a
reply is quoted on one row, and that a picture reserves its rows under its caption,
is not.  A picture that is deferred and one that is waited for look the same and
are one here, and so are the frames of a picture, which are of one size.  Stripes
and tints are left out.  Every change of what an entry looks like counts here, as
the header of the source has it; those that do not are in the next module.
-/

import Why2.Chat.MathLayout
import Why2.Chat.Pane
import Why2.Lib.Offsets

namespace Why2
namespace Rows

open Lib

/-- `u16`. -/
abbrev U16 := BitVec 16

/-- `consts::IMAGE_ROWS`. -/
def imageRows : ℕ := 20

/-- `u16::saturating_add`. -/
def saturatingAdd (x y : U16) : U16 := if x.toNat + y.toNat < 2 ^ 16 then x + y else 65535

/-- `u16::saturating_sub`. -/
def saturatingSub (x y : U16) : U16 := if y ≤ x then x - y else 0

/-- `Picture`, and the size of a frame in pixels. -/
inductive Picture
  | absent
  | pending
  | gone
  | ready (width height : ℕ)
deriving DecidableEq

/-- `Entry`, with the picture under the caption of one; that of any other entry is never
read. -/
structure Slot where
  entry : Entry
  picture : Picture
deriving DecidableEq

namespace Slot

/-- `Entry::message_id`. -/
def messageId (slot : Slot) : Option U64 := slot.entry.messageId

/-- `Entry::reply`. -/
def reply (slot : Slot) : Option U64 :=
  match slot.entry with
  | .message _ _ _ reply _ | .history _ _ reply _ => reply
  | _ => none

/-- The entry is the caption of a picture. -/
def isImage (slot : Slot) : Bool :=
  match slot.entry with
  | .image .. => true
  | _ => false

end Slot

/-- What the looks of entries depend on: `Theme`, the username and the font. -/
structure Theme (ρ : Type) where
  /-- `Theme::reply_row`. -/
  replyRow : U64 → Option Slot → U16 → ρ
  /-- `Theme::render_entry`, with `Theme::trailer`. -/
  body : Slot → U16 → List ρ
  /-- `Line::default`. -/
  blank : ρ
  /-- The height of `fit_size`, for the size of a frame and the width of the pane. -/
  fitHeight : ℕ → ℕ → U16 → ℕ
  fontHeight : ℕ

/-- `Placement`. -/
structure Placement where
  entry : ℕ
  caption : U16
  row : U16
  height : U16
deriving DecidableEq

/-- What the loop of `rewrap` builds. -/
structure Wrapping (ρ : Type) where
  lines : List ρ
  placements : List Placement
  starts : List U16

/-- `App::wrapped`. -/
structure Wrapped (ρ : Type) where
  width : U16
  generation : ℕ
  view : Wrapping ρ
  /-- How many rows each entry took: nothing reads them. -/
  rows : List ℕ

/-- `Selection`: rows and columns. -/
structure Selection where
  anchor : U16 × U16
  cursor : U16 × U16
  dragged : Bool
deriving DecidableEq

/-- `App`: what wrapping and scrolling are about. -/
structure App (ρ : Type) where
  theme : Theme ρ
  messages : List Slot
  channel : String
  /-- The panes of other channels. -/
  panes : String → List Slot
  historyAnchor : Option ℕ
  historyCursor : Option U64
  historyPending : Bool
  paneWidth : U16
  generation : ℕ
  wrapped : Option (Wrapped ρ)
  scroll : Option U16
  selection : Option Selection
  unread : ℕ

variable {ρ : Type}

/-! ### Wrapping -/

/-- `Theme::render`. -/
def Theme.render (theme : Theme ρ) (slot : Slot) (width : U16) (target : Option Slot) : List ρ :=
  (slot.reply.map fun reply => theme.replyRow reply target width).toList ++ theme.body slot width

/-- The rows that an entry reserves for its picture. -/
def Theme.reserved (theme : Theme ρ) (slot : Slot) (width : U16) : ℕ :=
  match slot.isImage, slot.picture with
  | true, .ready w h =>
    let rows := (theme.fitHeight w h width + theme.fontHeight - 1) / theme.fontHeight % 2 ^ 16
    max 1 (min rows imageRows)
  | _, _ => 0

/-- The entry that a reply quotes: the last one with the id. -/
def target (messages : List Slot) (slot : Slot) : Option Slot :=
  slot.reply.bind fun id => messages.reverse.find? fun s => s.messageId = some id

/-- `rewrap`, one entry. -/
def wrapEntry (theme : Theme ρ) (width : U16) (messages : List Slot) (acc : Wrapping ρ) (next : Slot × ℕ) :
    Wrapping ρ :=
  let row : U16 := BitVec.ofNat 16 acc.lines.length
  let starts := acc.starts ++ [row]
  let lines := acc.lines ++ theme.render next.1 width (target messages next.1)
  if next.1.isImage then
    let height := theme.reserved next.1 width
    let placement := ⟨next.2, row, BitVec.ofNat 16 lines.length, BitVec.ofNat 16 height⟩
    ⟨lines ++ List.replicate height theme.blank, acc.placements ++ [placement], starts⟩
  else ⟨lines, acc.placements, starts⟩

/-- The loop of `rewrap`. -/
def wrap (theme : Theme ρ) (width : U16) (messages : List Slot) : Wrapping ρ :=
  messages.zipIdx.foldl (wrapEntry theme width messages) ⟨[], [], []⟩

section

variable (theme : Theme ρ) (width : U16)

/-- The rows of an entry without its picture. -/
def rowsOf (slot : Slot) : ℕ := (if slot.reply.isSome then 1 else 0) + (theme.body slot width).length

/-- The rows of an entry. -/
def heightOf (slot : Slot) : ℕ := rowsOf theme width slot + theme.reserved slot width

/-- The rows of entries. -/
def heightsOf (messages : List Slot) : List ℕ := messages.map (heightOf theme width)

end

namespace App

/-- The view of the entries, wrapped now. -/
def view (width : U16) (s : App ρ) : Wrapped ρ :=
  ⟨width, s.generation, wrap s.theme width s.messages, heightsOf s.theme width s.messages⟩

/-- `rewrap`. -/
def rewrap (width : U16) (s : App ρ) : App ρ :=
  match s.wrapped with
  | some v =>
    if v.width ≠ width ∨ v.generation ≠ s.generation then { s with wrapped := some (s.view width) } else s
  | none => { s with wrapped := some (s.view width) }

/-- `wrapped_len`. -/
def wrappedLen (s : App ρ) : U16 := (s.wrapped.map fun v => BitVec.ofNat 16 v.view.lines.length).getD 0

/-- The start that is kept for an entry. -/
def startOf (s : App ρ) (index : ℕ) : Option U16 := s.wrapped.bind fun v => v.view.starts[index]?

/-- The entry under a row, as `voice_at` looks it up. -/
def entryAt (s : App ρ) (row : U16) : Option ℕ :=
  (s.rewrap s.paneWidth).wrapped.bind fun v =>
    let point := partitionPoint (fun start => decide (start ≤ row)) v.view.starts
    if 1 ≤ point then some (point - 1) else none

/-- A change of the rows that are kept. -/
def mapRows (f : U16 → U16) (s : App ρ) : App ρ :=
  { s with
    scroll := s.scroll.map f
    selection := s.selection.map fun selection =>
      { selection with
        anchor := (f selection.anchor.1, selection.anchor.2)
        cursor := (f selection.cursor.1, selection.cursor.2) } }

/-- Other entries are in the pane. -/
def changed (messages : List Slot) (s : App ρ) : App ρ := { s with messages, generation := s.generation + 1 }

/-- The entry of a message in the pane being read. -/
def find (s : App ρ) (id : U64) : Option ℕ := s.messages.findIdx? fun slot => slot.messageId = some id

/-- `push_entry`, the removal of the first entry. -/
def popFront (s : App ρ) : App ρ :=
  let anchor :=
    if s.channel = "" then s.historyAnchor.bind fun anchor => if 1 ≤ anchor then some (anchor - 1) else none
    else s.historyAnchor
  { s with
    messages := s.messages.tail
    historyAnchor := anchor
    historyCursor := if s.channel = "" ∧ anchor = none then none else s.historyCursor }

/-- How many entries `push_entry` removes. -/
def trimmed (s : App ρ) : ℕ := s.messages.length + 1 - Pane.historyLimit

/-- `push_entry`. -/
def pushEntry (slot : Slot) (s : App ρ) : App ρ :=
  let pushed := popFront^[s.trimmed] { s with messages := s.messages ++ [slot] }
  { pushed with
    generation := s.generation + 1
    unread := if s.scroll.isSome then s.unread + 1 else s.unread }

/-- `start_history`. -/
def startHistory (slots : List Slot) (first : U64) (more : Bool) (s : App ρ) : App ρ :=
  slots.foldl (fun s slot => s.pushEntry slot)
    { s with historyAnchor := some s.messages.length, historyCursor := if more then some first else none }

/-- The entries of a page that there is room for. -/
def page (slots : List Slot) (s : App ρ) : List Slot :=
  slots.drop (slots.length - (Pane.historyLimit - s.messages.length))

/-- `prepend_history`: the page is put in, and the rows that are kept move. -/
def prependAt (anchor : ℕ) (slots : List Slot) (s : App ρ) : App ρ :=
  let s := s.rewrap s.paneWidth
  let before := s.wrappedLen
  let s := s.changed (s.messages.take anchor ++ s.page slots ++ s.messages.drop anchor)
  let s := s.rewrap s.paneWidth
  s.mapRows fun row => saturatingAdd row (saturatingSub s.wrappedLen before)

/-- `prepend_history`. -/
def prependHistory (slots : List Slot) (first : U64) (more : Bool) (s : App ρ) : App ρ :=
  let s := { s with historyPending := false }
  if s.channel = "" then
    match s.historyAnchor with
    | none => s
    | some anchor =>
      let skip := slots.length - (Pane.historyLimit - s.messages.length)
      prependAt anchor slots { s with historyCursor := if more ∧ skip = 0 then some first else none }
  else s

/-- `update_message`, the change of an entry: the rows before, the row where the entry ends, and
what is wrapped after. -/
def updateAt (index : ℕ) (change : Slot → Slot) (s : App ρ) : U16 × U16 × App ρ :=
  let s := s.rewrap s.paneWidth
  let before := s.wrappedLen
  let stop := (s.startOf (index + 1)).getD before
  let s := s.changed (s.messages.modify index change)
  (before, stop, s.rewrap s.paneWidth)

/-- `update_message`, the rows below the entry. -/
def shiftBelow (stop : U16) (delta : ℤ) (row : U16) : U16 :=
  if stop ≤ row then BitVec.ofInt 16 (max (row.toNat + delta) 0) else row

/-- `update_message`. -/
def updateMessage (id : U64) (change : Slot → Slot) (s : App ρ) : App ρ :=
  match s.find id with
  | none =>
    { s with panes := fun channel =>
        if channel = "" then
          (s.panes "").modify ((s.panes "").findIdx fun slot => slot.messageId = some id) change
        else s.panes channel }
  | some index =>
    let (before, stop, s) := s.updateAt index change
    s.mapRows (shiftBelow stop ((s.wrappedLen.toNat : ℤ) - before.toNat))

/-- `shift_anchor`. -/
def shiftAnchor (index : ℕ) (anchor : Option ℕ) : Option ℕ :=
  anchor.map fun anchor => if index < anchor then anchor - 1 else anchor

/-- `remove_entry`, the removal: the row where the entry began, the rows that it took, and what
is wrapped after. -/
def removeAt (index : ℕ) (lobby : Bool) (s : App ρ) : U16 × U16 × App ρ :=
  let s := s.rewrap s.paneWidth
  let first := (s.startOf index).getD 0
  let before := s.wrappedLen
  let anchor := if lobby then shiftAnchor index s.historyAnchor else s.historyAnchor
  let s := { s with historyAnchor := anchor }.changed (s.messages.eraseIdx index)
  let s := s.rewrap s.paneWidth
  (first, saturatingSub before s.wrappedLen, s)

/-- `remove_entry`, the rows below the entry and in it. -/
def shiftUp (first removed row : U16) : U16 :=
  if first + removed ≤ row then row - removed else if first < row then first else row

/-- `delete_message`. -/
def deleteMessage (id : U64) (s : App ρ) : App ρ :=
  match s.find id with
  | some index =>
    let (first, removed, s) := s.removeAt index (s.channel = "")
    s.mapRows (shiftUp first removed)
  | none =>
    match (s.panes "").findIdx? fun slot => slot.messageId = some id with
    | some index =>
      { s with
        historyAnchor := shiftAnchor index s.historyAnchor
        panes := fun channel => if channel = "" then (s.panes "").eraseIdx index else s.panes channel }
    | none => s

/-- `clear_messages`. -/
def clearMessages (s : App ρ) : App ρ :=
  { s with
    messages := [], wrapped := none, selection := none, scroll := none, unread := 0
    historyAnchor := if s.channel = "" then none else s.historyAnchor
    historyCursor := if s.channel = "" then none else s.historyCursor
    generation := s.generation + 1 }

/-- `switch_channel`. -/
def switchChannel (channel : String) (s : App ρ) : App ρ :=
  if channel = s.channel then s
  else
    { s with
      messages := s.panes channel, channel
      panes := fun c => if c = channel then [] else if c = s.channel ∧ s.messages ≠ [] then s.messages else s.panes c
      wrapped := none, selection := none, scroll := none, unread := 0
      generation := s.generation + 1 }

end App

/-- What a client does that has to do with the rows of the pane. -/
inductive Action (ρ : Type)
  | push (slot : Slot)
  | startHistory (slots : List Slot) (first : U64) (more : Bool)
  | prependHistory (slots : List Slot) (first : U64) (more : Bool)
  | update (id : U64) (change : Slot → Slot)
  | delete (id : U64)
  | clear
  | switch (channel : String)
  /-- Entries change in place: a picture comes, a transfer goes on, a voice message plays. -/
  | refresh (change : Slot → Slot)
  /-- `reload_theme`, or a new font. -/
  | reload (theme : Theme ρ)
  | resize (width : U16)
  /-- The pane is wrapped to be drawn or looked up. -/
  | rewrap (width : U16)
  /-- The view is scrolled, or text is selected. -/
  | scroll (row : Option U16)
  | select (selection : Option Selection)

/-- One step of a client. -/
def step (s : App ρ) : Action ρ → App ρ
  | .push slot => s.pushEntry slot
  | .startHistory slots first more => s.startHistory slots first more
  | .prependHistory slots first more => s.prependHistory slots first more
  | .update id change => s.updateMessage id change
  | .delete id => s.deleteMessage id
  | .clear => s.clearMessages
  | .switch channel => s.switchChannel channel
  | .refresh change => { s with messages := s.messages.map change, generation := s.generation + 1 }
  | .reload theme => { s with theme, generation := s.generation + 1, wrapped := none }
  | .resize width => { s with paneWidth := width }
  | .rewrap width => s.rewrap width
  | .scroll row => { s with scroll := row }
  | .select selection => { s with selection }

/-- The client before anything is shown. -/
def App.new (theme : Theme ρ) : App ρ :=
  ⟨theme, [], "", fun _ => [], none, none, false, 0, 0, none, none, none, 0⟩

/-- What a client can come to. -/
def Reachable (s : App ρ) : Prop :=
  ∃ (theme : Theme ρ) (actions : List (Action ρ)), s = actions.foldl step (App.new theme)

section

variable (theme : Theme ρ) (width : U16)

/-- What is kept of where a picture is. -/
def placementOf (heights : List ℕ) (next : Slot × ℕ) : Option Placement :=
  if next.1.isImage then
    some ⟨next.2, BitVec.ofNat 16 (start heights next.2),
      BitVec.ofNat 16 (start heights next.2 + rowsOf theme width next.1),
      BitVec.ofNat 16 (theme.reserved next.1 width)⟩
  else none

end

variable {theme : Theme ρ} {width : U16}

/-- A reply is quoted on one row. -/
theorem length_render (slot : Slot) (target : Option Slot) :
    (theme.render slot width target).length = rowsOf theme width slot := by
  rw [Theme.render, List.length_append, rowsOf]
  cases slot.reply <;> rfl

/-- Only pictures reserve rows. -/
theorem reserved_of_not_isImage {slot : Slot} (h : slot.isImage = false) : theme.reserved slot width = 0 := by
  rw [Theme.reserved, h]

/-- What one entry adds. -/
theorem wrapEntry_spec (messages : List Slot) (acc : Wrapping ρ) (next : Slot × ℕ) :
    (wrapEntry theme width messages acc next).lines.length = acc.lines.length + heightOf theme width next.1 ∧
      (wrapEntry theme width messages acc next).starts = acc.starts ++ [BitVec.ofNat 16 acc.lines.length] ∧
      (wrapEntry theme width messages acc next).placements = acc.placements ++
        if next.1.isImage then
          [⟨next.2, BitVec.ofNat 16 acc.lines.length,
            BitVec.ofNat 16 (acc.lines.length + rowsOf theme width next.1),
            BitVec.ofNat 16 (theme.reserved next.1 width)⟩]
        else [] := by
  unfold wrapEntry
  simp only
  split
  · refine ⟨?_, rfl, ?_⟩
    · rw [List.length_append, List.length_append, length_render, List.length_replicate, heightOf, Nat.add_assoc]
    · rw [List.length_append, length_render]
  · next himage =>
    refine ⟨?_, rfl, (List.append_nil _).symm⟩
    rw [List.length_append, length_render, heightOf, reserved_of_not_isImage (Bool.eq_false_iff.2 himage),
      Nat.add_zero]

/-- What is wrapped after some entries: the entries after them do not matter. -/
theorem foldl_wrapEntry (messages slots : List Slot) :
    (slots.zipIdx.foldl (wrapEntry theme width messages) ⟨[], [], []⟩).lines.length =
        (heightsOf theme width slots).sum ∧
      (slots.zipIdx.foldl (wrapEntry theme width messages) ⟨[], [], []⟩).starts =
        (List.range slots.length).map (fun i => BitVec.ofNat 16 (start (heightsOf theme width slots) i)) ∧
      (slots.zipIdx.foldl (wrapEntry theme width messages) ⟨[], [], []⟩).placements =
        slots.zipIdx.filterMap (placementOf theme width (heightsOf theme width slots)) := by
  induction slots using List.reverseRecOn with
  | nil => exact ⟨rfl, rfl, rfl⟩
  | append_singleton slots slot ih =>
    obtain ⟨hlines, hstarts, hplacements⟩ := ih
    have hheights : heightsOf theme width (slots ++ [slot]) =
        heightsOf theme width slots ++ [heightOf theme width slot] := List.map_append
    have hlength : (heightsOf theme width slots).length = slots.length := List.length_map _
    have hzip : (slots ++ [slot]).zipIdx = slots.zipIdx ++ [(slot, slots.length)] := by
      rw [List.zipIdx_append]
      simp
    have hbefore {i : ℕ} (hi : i ≤ slots.length) :
        start (heightsOf theme width (slots ++ [slot])) i = start (heightsOf theme width slots) i := by
      rw [hheights]
      exact start_append_of_le (hlength.symm ▸ hi)
    have hlast : start (heightsOf theme width (slots ++ [slot])) slots.length =
        (heightsOf theme width slots).sum := by
      rw [hbefore le_rfl, ← hlength, start_length]
    rw [hzip, List.foldl_append, List.foldl_cons, List.foldl_nil]
    obtain ⟨hlines', hstarts', hplacements'⟩ := @wrapEntry_spec ρ theme width messages
      (slots.zipIdx.foldl (wrapEntry theme width messages) ⟨[], [], []⟩) (slot, slots.length)
    refine ⟨?_, ?_, ?_⟩
    · rw [hlines', hlines, hheights, List.sum_append, List.sum_singleton]
    · rw [hstarts', hstarts, hlines, List.length_append, List.length_singleton, List.range_succ, List.map_append,
        List.map_cons, List.map_nil, hlast]
      congr 1
      refine List.map_congr_left fun i hi => ?_
      rw [hbefore (List.mem_range.1 hi).le]
    · rw [hplacements', hplacements, hlines, List.filterMap_append]
      congr 1
      · refine List.filterMap_congr fun next hnext => ?_
        rw [placementOf, placementOf, hbefore (List.snd_lt_of_mem_zipIdx hnext).le]
      · rw [List.filterMap_cons, List.filterMap_nil, placementOf, hlast]
        cases slot.isImage <;> rfl

/-- The wrapped rows are as many as the heights say. -/
theorem length_lines_wrap (messages : List Slot) :
    (wrap theme width messages).lines.length = (heightsOf theme width messages).sum :=
  (foldl_wrapEntry messages messages).1

/-- The entries start where the heights before them end, in 16 bits. -/
theorem starts_wrap (messages : List Slot) : (wrap theme width messages).starts =
    (List.range messages.length).map fun i => BitVec.ofNat 16 (start (heightsOf theme width messages) i) :=
  (foldl_wrapEntry messages messages).2.1

/-- The view that is kept is as `P` says for the theme and the entries, unless it is stale. -/
def Valid (P : Theme ρ → List Slot → Wrapped ρ → Prop) (s : App ρ) : Prop :=
  ∀ v, s.wrapped = some v → v.generation ≤ s.generation ∧ (v.generation = s.generation → P s.theme s.messages v)

/-- **The view that is kept is that of the entries**, unless it is stale. -/
def Fresh (s : App ρ) : Prop :=
  Valid (fun theme messages v =>
    v.view = wrap theme v.width messages ∧ v.rows = heightsOf theme v.width messages) s

/-- **The view that is kept has the rows it was wrapped into**, of as many entries as there are,
unless it is stale. -/
def Kept (s : App ρ) : Prop :=
  Valid (fun _ messages v =>
    v.view.lines.length = v.rows.sum ∧
      v.view.starts = (List.range v.rows.length).map (fun i => BitVec.ofNat 16 (start v.rows i)) ∧
      v.rows.length = messages.length) s

/-- A view that was just wrapped is as `P` says. -/
def Wraps (P : Theme ρ → List Slot → Wrapped ρ → Prop) : Prop :=
  ∀ (s : App ρ) (width : U16), P s.theme s.messages (s.view width)

/-- A new wrap is fresh. -/
theorem wraps_fresh : Wraps (ρ := ρ) fun theme messages v =>
    v.view = wrap theme v.width messages ∧ v.rows = heightsOf theme v.width messages := fun _ _ => ⟨rfl, rfl⟩

/-- A new wrap is kept. -/
theorem wraps_kept : Wraps (ρ := ρ) fun _ messages v =>
    v.view.lines.length = v.rows.sum ∧
      v.view.starts = (List.range v.rows.length).map (fun i => BitVec.ofNat 16 (start v.rows i)) ∧
      v.rows.length = messages.length := fun s width => by
  have hlength : (heightsOf s.theme width s.messages).length = s.messages.length := List.length_map _
  refine ⟨length_lines_wrap s.messages, ?_, hlength⟩
  change _ = (List.range (heightsOf s.theme width s.messages).length).map _
  rw [hlength]
  exact starts_wrap s.messages

variable {P : Theme ρ → List Slot → Wrapped ρ → Prop} {s : App ρ}

/-- Nothing stored is valid. -/
theorem valid_of_none (h : s.wrapped = none) : Valid P s := fun v hv => by
  rw [h] at hv
  cases hv

/-- A change that counts. -/
theorem valid_of_bump {Q : Theme ρ → List Slot → Wrapped ρ → Prop} {s' : App ρ} (h : Valid Q s)
    (hwrapped : s'.wrapped = s.wrapped) (hgeneration : s'.generation = s.generation + 1) :
    Valid P s' := fun v hv => by
  have hle := (h v (hwrapped ▸ hv)).1
  rw [hgeneration]
  exact ⟨by omega, fun heq => by omega⟩

/-- A change of nothing that is wrapped. -/
theorem valid_of_eq {s' : App ρ} (h : Valid P s) (hwrapped : s'.wrapped = s.wrapped)
    (hgeneration : s'.generation = s.generation) (htheme : s'.theme = s.theme)
    (hmessages : s'.messages = s.messages) : Valid P s' := fun v hv => by
  rw [hgeneration, htheme, hmessages]
  exact h v (hwrapped ▸ hv)

namespace App

/-- After `rewrap` there is a view, of this width and generation. -/
theorem exists_rewrap_eq (width : U16) (s : App ρ) : ∃ v, s.rewrap width = { s with wrapped := some v } ∧
    v.width = width ∧ v.generation = s.generation ∧ (v = s.view width ∨ s.wrapped = some v) := by
  unfold App.rewrap
  split
  · next v hv =>
    split
    · exact ⟨_, rfl, rfl, rfl, .inl rfl⟩
    · next hsame =>
      rw [not_or, not_not, not_not] at hsame
      exact ⟨v, by rw [← hv], hsame.1, hsame.2, .inr hv⟩
  · exact ⟨_, rfl, rfl, rfl, .inl rfl⟩

/-- What a fresh pane wraps is what it shows. -/
theorem rewrap_eq (h : Fresh s) (width : U16) : s.rewrap width = { s with wrapped := some (s.view width) } := by
  obtain ⟨v, heq, hwidth, hgeneration, rfl | hv⟩ := exists_rewrap_eq width s
  · exact heq
  · obtain ⟨hview, hrows⟩ := (h v hv).2 hgeneration
    obtain ⟨w, g, view, rows⟩ := v
    obtain rfl : w = width := hwidth
    obtain rfl : g = s.generation := hgeneration
    obtain rfl : view = wrap s.theme w s.messages := hview
    obtain rfl : rows = heightsOf s.theme w s.messages := hrows
    exact heq

/-- The pane, with its view. -/
def viewed (s : App ρ) : App ρ := { s with wrapped := some (s.view s.paneWidth) }

/-- The rows of the entries. -/
def heights (s : App ρ) : List ℕ := heightsOf s.theme s.paneWidth s.messages

/-- At the width of the pane, a wrap gives what is viewed. -/
theorem rewrap_pane (h : Fresh s) : s.rewrap s.paneWidth = s.viewed := rewrap_eq h _

/-- What is viewed is valid. -/
theorem valid_viewed (hP : Wraps P) (s : App ρ) : Valid P s.viewed := fun v hv => by
  obtain rfl := Option.some.inj hv
  exact ⟨le_rfl, fun _ => hP s s.paneWidth⟩

/-- A wrap is valid. -/
theorem valid_rewrap (hP : Wraps P) (h : Valid P s) (width : U16) : Valid P (s.rewrap width) := by
  obtain ⟨v, heq, -, hgeneration, hview⟩ := exists_rewrap_eq width s
  rw [heq]
  intro v' hv'
  obtain rfl := Option.some.inj hv'
  refine ⟨hgeneration.le, fun _ => ?_⟩
  obtain rfl | hv := hview
  · exact hP s width
  · exact (h v hv).2 hgeneration

/-- A view is wrapped anew after a change that counts. -/
theorem rewrap_changed (messages : List Slot) (s : App ρ) :
    ((s.rewrap s.paneWidth).changed messages).rewrap s.paneWidth = (s.changed messages).viewed := by
  obtain ⟨v, heq, -, hgeneration, -⟩ := exists_rewrap_eq s.paneWidth s
  rw [heq, App.rewrap]
  have hstale : v.width ≠ s.paneWidth ∨ v.generation ≠ s.generation + 1 := .inr (by omega)
  exact if_pos hstale

/-- The wrapped length is the sum of the heights, in 16 bits. -/
theorem wrappedLen_viewed (s : App ρ) : s.viewed.wrappedLen = BitVec.ofNat 16 s.heights.sum :=
  congrArg (BitVec.ofNat 16) (length_lines_wrap s.messages)

/-- The rows of the entries in the view that is shown. -/
def shown (s : App ρ) : List ℕ := ((s.rewrap s.paneWidth).wrapped.map (·.rows)).getD []

/-- A view that is that of the entries has their rows. -/
theorem shown_of_fresh (h : Fresh s) : s.shown = s.heights := by
  rw [shown, rewrap_pane h]
  rfl

/-- What is shown is what is kept, and is wrapped like it. -/
theorem exists_shown (h : Kept s) : ∃ v, (s.rewrap s.paneWidth).wrapped = some v ∧ v.rows = s.shown ∧
    v.view.lines.length = s.shown.sum ∧
    v.view.starts = (List.range s.shown.length).map (fun i => BitVec.ofNat 16 (start s.shown i)) ∧
    s.shown.length = s.messages.length := by
  obtain ⟨v, heq, -, hgeneration, hview⟩ := exists_rewrap_eq s.paneWidth s
  have hshown : v.rows = s.shown := by
    rw [shown, heq]
    rfl
  have hkept := (valid_rewrap wraps_kept h s.paneWidth v (by rw [heq])).2 (by rw [heq]; exact hgeneration)
  rw [hshown, heq] at hkept
  exact ⟨v, by rw [heq], hshown, hkept⟩

/-- Every entry has rows that are shown. -/
theorem length_shown (h : Kept s) : s.shown.length = s.messages.length := by
  obtain ⟨v, -, -, -, -, hlength⟩ := exists_shown h
  exact hlength

/-- The wrapped length is the sum of what is shown, in 16 bits. -/
theorem wrappedLen_rewrap (h : Kept s) : (s.rewrap s.paneWidth).wrappedLen = BitVec.ofNat 16 s.shown.sum := by
  obtain ⟨v, hv, -, hlines, -⟩ := exists_shown h
  rw [wrappedLen, hv, Option.map_some, Option.getD_some, hlines]

/-- An entry starts where what is shown before it ends, in 16 bits. -/
theorem startOf_rewrap (h : Kept s) {index : ℕ} (hindex : index < s.messages.length) :
    (s.rewrap s.paneWidth).startOf index = some (BitVec.ofNat 16 (start s.shown index)) := by
  obtain ⟨v, hv, -, -, hstarts, hlength⟩ := exists_shown h
  rw [startOf, hv, Option.bind_some, hstarts, List.getElem?_map, List.getElem?_range (hlength ▸ hindex)]
  rfl

/-- There is no entry behind the last. -/
theorem startOf_rewrap_eq_none (h : Kept s) {index : ℕ} (hindex : s.messages.length ≤ index) :
    (s.rewrap s.paneWidth).startOf index = none := by
  obtain ⟨v, hv, -, -, hstarts, hlength⟩ := exists_shown h
  rw [startOf, hv, Option.bind_some, hstarts, List.getElem?_eq_none]
  rwa [List.length_map, List.length_range, hlength]

/-! ### What the calls do -/

/-- What a trim changes. -/
theorem popFront_iterate (n : ℕ) (s : App ρ) : ∃ anchor cursor,
    popFront^[n] s = { s with messages := s.messages.drop n, historyAnchor := anchor, historyCursor := cursor } := by
  induction n generalizing s with
  | zero => exact ⟨s.historyAnchor, s.historyCursor, rfl⟩
  | succ n ih =>
    obtain ⟨anchor, cursor, hn⟩ := ih s.popFront
    refine ⟨anchor, cursor, ?_⟩
    rw [Function.iterate_succ_apply, hn, popFront, List.drop_tail]

/-- An entry is appended, and the oldest go. -/
theorem pushEntry_eq (slot : Slot) (s : App ρ) : ∃ anchor cursor, s.pushEntry slot =
    { s.changed ((s.messages ++ [slot]).drop s.trimmed) with
      historyAnchor := anchor, historyCursor := cursor
      unread := if s.scroll.isSome then s.unread + 1 else s.unread } := by
  obtain ⟨anchor, cursor, hpop⟩ := popFront_iterate s.trimmed { s with messages := s.messages ++ [slot] }
  refine ⟨anchor, cursor, ?_⟩
  rw [pushEntry, hpop]
  rfl

/-- A page is put in at the anchor. -/
theorem prependAt_eq (s : App ρ) (anchor : ℕ) (slots : List Slot) : s.prependAt anchor slots =
    mapRows (fun row => saturatingAdd row (saturatingSub
        (s.changed (s.messages.take anchor ++ s.page slots ++ s.messages.drop anchor)).viewed.wrappedLen
        (s.rewrap s.paneWidth).wrappedLen))
      (s.changed (s.messages.take anchor ++ s.page slots ++ s.messages.drop anchor)).viewed := by
  have hafter := rewrap_changed (s.messages.take anchor ++ s.page slots ++ s.messages.drop anchor) s
  obtain ⟨v, heq, -⟩ := exists_rewrap_eq s.paneWidth s
  rw [heq] at hafter ⊢
  rw [prependAt, heq, ← hafter]
  rfl

/-- An entry is changed. -/
theorem updateAt_eq (s : App ρ) (index : ℕ) (change : Slot → Slot) :
    s.updateAt index change = ((s.rewrap s.paneWidth).wrappedLen,
      ((s.rewrap s.paneWidth).startOf (index + 1)).getD (s.rewrap s.paneWidth).wrappedLen,
      (s.changed (s.messages.modify index change)).viewed) := by
  have hafter := rewrap_changed (s.messages.modify index change) s
  obtain ⟨v, heq, -⟩ := exists_rewrap_eq s.paneWidth s
  rw [heq] at hafter ⊢
  rw [updateAt, heq, ← hafter]
  rfl

/-- An entry is taken out. -/
theorem removeAt_eq (s : App ρ) (index : ℕ) (lobby : Bool) : ∃ anchor, s.removeAt index lobby =
    (((s.rewrap s.paneWidth).startOf index).getD 0,
      saturatingSub (s.rewrap s.paneWidth).wrappedLen
        (s.changed (s.messages.eraseIdx index)).viewed.wrappedLen,
      { (s.changed (s.messages.eraseIdx index)).viewed with historyAnchor := anchor }) := by
  refine ⟨if lobby then shiftAnchor index s.historyAnchor else s.historyAnchor, ?_⟩
  have hafter := rewrap_changed (s.messages.eraseIdx index) s
  obtain ⟨v, heq, -, hgeneration, -⟩ := exists_rewrap_eq s.paneWidth s
  have hstale : v.width ≠ s.paneWidth ∨ v.generation ≠ s.generation + 1 := .inr (by omega)
  rw [removeAt, heq]
  simp only [App.rewrap, App.changed, if_pos hstale]
  rfl

end App

section

open App

/-- The anchor and the cursor are nothing to what is stored. -/
theorem valid_mapRows (h : Valid P s) (f : U16 → U16) : Valid P (s.mapRows f) := valid_of_eq h rfl rfl rfl rfl

variable {Q : Theme ρ → List Slot → Wrapped ρ → Prop}

/-- A change of the entries bumps the generation. -/
theorem valid_changed (h : Valid Q s) (messages : List Slot) : Valid P (s.changed messages) :=
  valid_of_bump h rfl rfl

/-- Neither the history nor other panes are wrapped. -/
theorem valid_beside (h : Valid P s) (anchor : Option ℕ) (cursor : Option U64) (pending : Bool)
    (panes : String → List Slot) (unread : ℕ) :
    Valid P { s with
      historyAnchor := anchor, historyCursor := cursor, historyPending := pending, panes, unread } :=
  valid_of_eq h rfl rfl rfl rfl

/-- After another entry the view is stale. -/
theorem valid_pushEntry (h : Valid Q s) (slot : Slot) : Valid P (s.pushEntry slot) := by
  obtain ⟨anchor, cursor, heq⟩ := pushEntry_eq slot s
  rw [heq]
  exact valid_beside (valid_changed h _) anchor cursor _ _ _

/-- The first page bumps the generation. -/
theorem valid_startHistory (h : Valid P s) (slots : List Slot) (first : U64) (more : Bool) :
    Valid P (s.startHistory slots first more) := by
  have hvalid : Valid P { s with
    historyAnchor := some s.messages.length, historyCursor := if more then some first else none } :=
    valid_beside h _ _ _ _ _
  unfold App.startHistory
  revert hvalid
  generalize ({ s with
    historyAnchor := some s.messages.length, historyCursor := if more then some first else none } : App ρ) = s'
  induction slots generalizing s' with
  | nil => exact fun hvalid => hvalid
  | cons slot slots ih =>
    intro hvalid
    rw [List.foldl_cons]
    exact ih _ (valid_pushEntry hvalid slot)

/-- A page bumps the generation. -/
theorem valid_prependHistory (hP : Wraps P) (h : Valid P s) (slots : List Slot) (first : U64) (more : Bool) :
    Valid P (s.prependHistory slots first more) := by
  have hvalid (cursor : Option U64) : Valid P { s with historyPending := false, historyCursor := cursor } :=
    valid_beside h _ _ _ _ _
  unfold App.prependHistory
  simp only
  split
  · split
    · exact hvalid s.historyCursor
    · rw [prependAt_eq]
      exact valid_mapRows (valid_viewed hP _) _
  · exact hvalid s.historyCursor

/-- An edit bumps the generation. -/
theorem valid_updateMessage (hP : Wraps P) (h : Valid P s) (id : U64) (change : Slot → Slot) :
    Valid P (s.updateMessage id change) := by
  unfold App.updateMessage
  split
  · exact valid_beside h _ _ _ _ _
  · rw [updateAt_eq]
    exact valid_mapRows (valid_viewed hP _) _

/-- A deletion bumps the generation. -/
theorem valid_deleteMessage (hP : Wraps P) (h : Valid P s) (id : U64) : Valid P (s.deleteMessage id) := by
  unfold App.deleteMessage
  split
  · next index _ =>
    obtain ⟨anchor, heq⟩ := removeAt_eq s index (s.channel = "")
    rw [heq]
    exact valid_mapRows (valid_beside (valid_viewed hP _) anchor _ _ _ _) (shiftUp _ _)
  split
  · exact valid_beside h _ _ _ _ _
  · exact h

/-- Another channel has nothing stored. -/
theorem valid_switchChannel (h : Valid P s) (channel : String) : Valid P (s.switchChannel channel) := by
  unfold App.switchChannel
  split
  · exact h
  · exact valid_of_none rfl

/-- **Every step keeps the view or counts.** -/
theorem valid_step (hP : Wraps P) (h : Valid P s) (action : Action ρ) : Valid P (step s action) := by
  cases action with
  | push slot => exact valid_pushEntry h slot
  | startHistory slots first more => exact valid_startHistory h slots first more
  | prependHistory slots first more => exact valid_prependHistory hP h slots first more
  | update id change => exact valid_updateMessage hP h id change
  | delete id => exact valid_deleteMessage hP h id
  | clear => exact valid_of_none rfl
  | switch channel => exact valid_switchChannel h channel
  | refresh change => exact valid_of_bump h rfl rfl
  | reload theme => exact valid_of_none rfl
  | resize width => exact valid_of_eq h rfl rfl rfl rfl
  | rewrap width => exact valid_rewrap hP h width
  | scroll row => exact valid_of_eq h rfl rfl rfl rfl
  | select selection => exact valid_of_eq h rfl rfl rfl rfl

/-- A view of the entries has their rows. -/
theorem Fresh.kept (h : Fresh s) : Kept s := fun v hv => by
  refine ⟨(h v hv).1, fun heq => ?_⟩
  obtain ⟨hview, hrows⟩ := (h v hv).2 heq
  have hwraps := wraps_kept s v.width
  rw [hview, hrows]
  exact hwraps

/-- The view of a client is that of its entries. -/
theorem Reachable.fresh (h : Reachable s) : Fresh s := by
  obtain ⟨theme, actions, rfl⟩ := h
  have hnew : Fresh (App.new theme) := valid_of_none rfl
  revert hnew
  generalize App.new theme = s
  induction actions generalizing s with
  | nil => exact id
  | cons action actions ih => exact fun h => ih _ (valid_step wraps_fresh h action)

end

/-! ### Rows below `2^16` -/

/-- A number is in 16 bits exactly if it is below 2^16. -/
theorem toNat_ofNat_iff {n : ℕ} : (BitVec.ofNat 16 n).toNat = n ↔ n < 2 ^ 16 := by
  rw [BitVec.toNat_ofNat]
  constructor
  · intro h
    rw [← h]
    exact Nat.mod_lt _ (by decide)
  · exact Nat.mod_eq_of_lt

/-- What is not cut off is subtracted. -/
theorem toNat_saturatingSub {x y : U16} (h : y.toNat ≤ x.toNat) : (saturatingSub x y).toNat = x.toNat - y.toNat := by
  rw [saturatingSub, if_pos (BitVec.le_def.2 h), BitVec.toNat_sub_of_le (BitVec.le_def.2 h)]

/-- The heights of entries follow each other. -/
@[simp] theorem heightsOf_append (slots slots' : List Slot) :
    heightsOf theme width (slots ++ slots') = heightsOf theme width slots ++ heightsOf theme width slots' :=
  List.map_append

/-- The height of the first entry comes first. -/
@[simp] theorem heightsOf_cons (slot : Slot) (slots : List Slot) :
    heightsOf theme width (slot :: slots) = heightOf theme width slot :: heightsOf theme width slots := rfl

/-- The height at an entry is that of the entry. -/
theorem getElem?_heights {index : ℕ} {slot : Slot} (h : s.messages[index]? = some slot) :
    s.heights[index]? = some (heightOf s.theme s.paneWidth slot) := by
  rw [App.heights, heightsOf, List.getElem?_map, h]
  rfl

/-- Every entry has a height. -/
theorem length_heights (s : App ρ) : s.heights.length = s.messages.length := List.length_map _

/-- An entry, and those before and after it. -/
theorem split_messages {index : ℕ} {slot : Slot} (h : s.messages[index]? = some slot) :
    s.messages = s.messages.take index ++ slot :: s.messages.drop (index + 1) := by
  obtain ⟨hlt, rfl⟩ := List.getElem?_eq_some_iff.1 h
  rw [← List.drop_eq_getElem_cons hlt, List.take_append_drop]

/-- The rows of a pane with other entries in the place of one. -/
theorem sum_heights_replace (index : ℕ) (slots : List Slot) :
    (s.changed (s.messages.take index ++ slots ++ s.messages.drop (index + 1))).heights.sum =
      start s.heights index + (heightsOf s.theme s.paneWidth slots).sum +
        (heightsOf s.theme s.paneWidth (s.messages.drop (index + 1))).sum := by
  have hstart : start s.heights index = (heightsOf s.theme s.paneWidth (s.messages.take index)).sum := by
    rw [start, App.heights, heightsOf, heightsOf, List.map_take]
  rw [hstart, App.heights]
  simp only [App.changed, heightsOf_append, List.sum_append]

/-- The rows before an entry, its own and those after it are all rows. -/
theorem sum_heights {index : ℕ} {slot : Slot} (h : s.messages[index]? = some slot) :
    s.heights.sum = start s.heights index + heightOf s.theme s.paneWidth slot +
      (heightsOf s.theme s.paneWidth (s.messages.drop (index + 1))).sum := by
  have hall := sum_heights_replace (s := s) index [slot]
  rw [List.append_assoc, List.singleton_append, ← split_messages h] at hall
  exact hall

/-- An entry that changes, between the others. -/
theorem modify_messages {index : ℕ} {slot : Slot} (h : s.messages[index]? = some slot) (change : Slot → Slot) :
    s.messages.modify index change = s.messages.take index ++ [change slot] ++ s.messages.drop (index + 1) := by
  obtain ⟨hlt, rfl⟩ := List.getElem?_eq_some_iff.1 h
  rw [List.modify_eq_take_cons_drop hlt, List.append_assoc, List.singleton_append]

/-- The entries without one of them. -/
theorem eraseIdx_messages (index : ℕ) :
    s.messages.eraseIdx index = s.messages.take index ++ [] ++ s.messages.drop (index + 1) := by
  rw [List.eraseIdx_eq_take_drop_succ, List.append_nil]

/-- The entry of a message is in the pane. -/
theorem exists_of_find {id : U64} {index : ℕ} (h : s.find id = some index) :
    ∃ slot, s.messages[index]? = some slot := by
  obtain ⟨hlt, -⟩ := List.findIdx?_eq_some_iff_getElem.1 h
  exact ⟨_, List.getElem?_eq_getElem hlt⟩

/-! ### Exact rows -/

/-- The row where an entry ends in the view is the start of the next, or the number of rows. -/
theorem toNat_stop (hkept : Kept s) (h : s.shown.sum < 2 ^ 16) {index : ℕ} (hindex : index < s.messages.length) :
    (((s.rewrap s.paneWidth).startOf (index + 1)).getD (s.rewrap s.paneWidth).wrappedLen).toNat =
      start s.shown (index + 1) := by
  rcases Nat.lt_or_ge (index + 1) s.messages.length with hlt | hge
  · rw [App.startOf_rewrap hkept hlt, Option.getD_some]
    exact toNat_ofNat_iff.2 ((start_le_sum _).trans_lt h)
  · have hlast : index + 1 = s.shown.length := by
      rw [App.length_shown hkept]
      omega
    rw [App.startOf_rewrap_eq_none hkept hge, Option.getD_none, App.wrappedLen_rewrap hkept, hlast, start_length]
    exact toNat_ofNat_iff.2 h

/-- A pane of a width, in which an entry was shown so many times. -/
def filled (theme : Theme ρ) (width : U16) (slot : Slot) (n : ℕ) : App ρ :=
  (.resize width :: List.replicate n (.push slot)).foldl step (App.new theme)

/-- A pane that is filled is reachable. -/
theorem reachable_filled (theme : Theme ρ) (width : U16) (slot : Slot) (n : ℕ) :
    Reachable (filled theme width slot n) :=
  ⟨theme, _, rfl⟩

/-- One more entry. -/
theorem filled_succ (theme : Theme ρ) (width : U16) (slot : Slot) (n : ℕ) :
    filled theme width slot (n + 1) = (filled theme width slot n).pushEntry slot := by
  rw [filled, List.replicate_succ', ← List.cons_append, List.foldl_append]
  rfl

/-- Up to the limit, a filled pane has its entries. -/
theorem filled_eq (theme : Theme ρ) (width : U16) (slot : Slot) {n : ℕ} (hn : n ≤ Pane.historyLimit) :
    (filled theme width slot n).theme = theme ∧ (filled theme width slot n).paneWidth = width ∧
      (filled theme width slot n).messages = List.replicate n slot := by
  induction n with
  | zero => exact ⟨rfl, rfl, rfl⟩
  | succ n ih =>
    obtain ⟨htheme, hwidth, hmessages⟩ := ih (Nat.le_of_succ_le hn)
    obtain ⟨anchor, cursor, heq⟩ := App.pushEntry_eq slot (filled theme width slot n)
    have htrimmed : (filled theme width slot n).trimmed = 0 := by
      rw [App.trimmed, hmessages, List.length_replicate]
      omega
    rw [filled_succ, heq, htrimmed]
    refine ⟨htheme, hwidth, ?_⟩
    simp only [App.changed, hmessages, List.drop_zero, ← List.replicate_succ']

/-- The heights of a filled pane. -/
theorem heights_filled (theme : Theme ρ) (width : U16) (slot : Slot) {n : ℕ} (hn : n ≤ Pane.historyLimit) :
    (filled theme width slot n).heights = List.replicate n (heightOf theme width slot) := by
  obtain ⟨htheme, hwidth, hmessages⟩ := filled_eq theme width slot hn
  rw [App.heights, htheme, hwidth, hmessages, heightsOf, List.map_replicate]

/-- Lines of text are wrapped by `wrap_line`; characters are one cell wide. -/
def textTheme : Theme (List Char) where
  replyRow _ _ _ := []
  body slot width :=
    match slot.entry with
    | .line text => Math.wrapLine (fun _ => 1) text.toList width.toNat
    | _ => [[]]
  blank := []
  fitHeight _ height _ := height
  fontHeight := 16

/-- One line of so many characters. -/
def lineOf (n : ℕ) : Slot := ⟨.line (String.ofList (List.replicate n 'a')), .absent⟩

/-- A line of the test theme is as high as its wrapped text. -/
theorem heightOf_lineOf (n : ℕ) :
    heightOf textTheme 10 (lineOf n) = (Math.wrapLine (fun _ => 1) (List.replicate n 'a') 10).length := by
  have hbody : textTheme.body (lineOf n) 10 = Math.wrapLine (fun _ => 1) (List.replicate n 'a') 10 := by
    change Math.wrapLine (fun _ => 1) (String.ofList (List.replicate n 'a')).toList 10 = _
    rw [String.toList_ofList]
  rw [heightOf, rowsOf, hbody]
  exact Nat.zero_add _

end Rows
end Why2
