/-
# The view stays on its text

The scroll and the ends of a selection are rows of the wrapped pane
(`chat/src/bin/client/tui/state.rs`).  Each call that changes entries moves them in
its own way: `prepend_history` by the rows that came, `update_message` by those
that came or went if they are below, `remove_entry` by those that went.
`push_entry` moves nothing, although it takes the oldest entries out of a full
pane: the text under the view goes up by the rows that they took
(`view_slips_on_trim`).

The view is wrapped anew when its generation is stale, and two changes of what an
entry looks like do not count as one: `update_transfer` keeps the generation while
the percentage of a transfer is the same, although the row also names its bytes,
and a timestamp of today gets a date at midnight (`Theme::timestamp`).  The view
that is shown is then not what the entries render to, and the next call that counts
moves the text by the difference (`view_slips_on_transfer`).

A row that is kept in row `k` of an entry is in row `k` of it after a call exactly
if the call shifts it there (`row_kept_iff`): a row that stays, if the entries above
render to as many rows as they take in the view, and a row that is moved by what the
pane has more or fewer, if those from the entry on do.  Where the view shows the
entries as they are, this says that the rows are counted, below `2^16`, and that no
entry that takes rows is trimmed away (`Change.fits_iff_counted`).
-/

import Mathlib.Data.Nat.ModEq
import Why2.Chat.PaneRows

namespace Why2
namespace Rows

open Lib

variable {ρ : Type} {s : App ρ} {row : U16} {i j k : ℕ}

/-! ### Changes that do not count -/

/-- What a client does, with what changes an entry and keeps the generation. -/
inductive Happening (ρ : Type)
  | act (action : Action ρ)
  /-- `update_transfer` with the same percentage: a line names other bytes. -/
  | transfer (index : ℕ) (text : String)
  /-- Another day: timestamps are written in another way. -/
  | midnight (theme : Theme ρ)

/-- The line of a transfer, with other bytes. -/
def Slot.withText (text : String) (slot : Slot) : Slot :=
  match slot.entry with
  | .line _ => { slot with entry := .line text }
  | _ => slot

/-- One step of a client, or of its clock. -/
def happen (s : App ρ) : Happening ρ → App ρ
  | .act action => step s action
  | .transfer index text => { s with messages := s.messages.modify index (Slot.withText text) }
  | .midnight theme => { s with theme }

/-- What a client can come to, with changes that do not count. -/
def Reached (s : App ρ) : Prop :=
  ∃ (theme : Theme ρ) (happenings : List (Happening ρ)), s = happenings.foldl happen (App.new theme)

/-- A change of the looks of as many entries. -/
theorem Kept.of_length {s' : App ρ} (h : Kept s) (hwrapped : s'.wrapped = s.wrapped)
    (hgeneration : s'.generation = s.generation) (hlength : s'.messages.length = s.messages.length) :
    Kept s' := fun v hv => by
  obtain ⟨hle, hkept⟩ := h v (hwrapped ▸ hv)
  rw [hgeneration]
  refine ⟨hle, fun heq => ?_⟩
  obtain ⟨hlines, hstarts, hrows⟩ := hkept heq
  exact ⟨hlines, hstarts, hrows.trans hlength.symm⟩

/-- What happens between the actions leaves what is stored kept. -/
theorem kept_happen (h : Kept s) (happening : Happening ρ) : Kept (happen s happening) := by
  cases happening with
  | act action => exact valid_step wraps_kept h action
  | transfer index text => exact h.of_length rfl rfl (List.length_modify _ _ _)
  | midnight theme => exact h.of_length rfl rfl rfl

/-- **The view of a client has the rows that it was wrapped into**, of as many entries as there are. -/
theorem Reached.kept (h : Reached s) : Kept s := by
  obtain ⟨theme, happenings, rfl⟩ := h
  have hnew : Kept (App.new theme) := valid_of_none rfl
  revert hnew
  generalize App.new theme = s
  induction happenings generalizing s with
  | nil => exact id
  | cons happening happenings ih => exact fun h => ih _ (kept_happen h happening)

/-- The view is of nothing but what is wrapped. -/
theorem shown_eq {s' : App ρ} (hwrapped : s'.wrapped = s.wrapped) (hgeneration : s'.generation = s.generation)
    (htheme : s'.theme = s.theme) (hmessages : s'.messages = s.messages) (hwidth : s'.paneWidth = s.paneWidth) :
    s'.shown = s.shown := by
  simp only [App.shown, App.rewrap, App.view, hwrapped, hgeneration, htheme, hmessages, hwidth]
  cases s.wrapped with
  | none => rfl
  | some v =>
    simp only
    split
    · rfl
    · rw [hwrapped]

/-! ### Places and calls -/

/-- The places where a row is kept. -/
inductive Place
  | scroll
  | anchor
  | cursor
deriving DecidableEq

/-- The row that is kept in a place. -/
def App.stored (place : Place) (s : App ρ) : Option U16 :=
  match place with
  | .scroll => s.scroll
  | .anchor => s.selection.map (·.anchor.1)
  | .cursor => s.selection.map (·.cursor.1)

/-- The calls that change entries while the pane is read. -/
inductive Change
  | prepend (slots : List Slot) (first : U64) (more : Bool)
  | update (id : U64) (change : Slot → Slot)
  | delete (id : U64)
  | push (slot : Slot)

/-- What a call makes of a row that is kept. -/
inductive Shift
  /-- It is moved by the rows that the pane has more or fewer, in 16 bits. -/
  | moves
  | stays
  | lands (row : ℕ)

namespace Shift

/-- The row becomes the other one, if the pane had `before` rows and has `after`. -/
def Shifts (before after : ℕ) (row row' : U16) : Shift → Prop
  | .moves => row'.toNat + before ≡ row.toNat + after [MOD 2 ^ 16]
  | .stays => row' = row
  | .lands row₀ => row'.toNat = row₀

/-- A row of entry `i` that is shown is shifted to row `k` of entry `index` of the rows after the call: a
row that is moved, if the rows from the entry on are as many, in 16 bits, and there is such a row; a row that
stays, if the rows above the entry are as many. -/
def Fits (shown heights : List ℕ) (i index k : ℕ) : Shift → Prop
  | .moves => (heights.drop index).sum ≡ (shown.drop i).sum [MOD 2 ^ 16] ∧ start heights index + k < 2 ^ 16
  | .stays => start heights index = start shown i
  | .lands row => start heights index + k = row

/-- **A row is shifted to where it belongs exactly if the shift fits.** -/
theorem fits_iff {shift : Shift} {shown heights : List ℕ} {row row' : U16} {i k : ℕ} (index : ℕ)
    (hlies : Lies shown row.toNat i k) (hshifts : shift.Shifts shown.sum heights.sum row row') :
    row'.toNat = start heights index + k ↔ shift.Fits shown heights i index k := by
  obtain ⟨-, -, -, hrow⟩ := hlies
  have hshown := start_add_sum_drop shown i
  have hheights := start_add_sum_drop heights index
  have hlt := row'.isLt
  cases shift with
  | moves =>
    have hmod : (row'.toNat + shown.sum) % 2 ^ 16 = (row.toNat + heights.sum) % 2 ^ 16 := hshifts
    change _ ↔ (heights.drop index).sum % 2 ^ 16 = (shown.drop i).sum % 2 ^ 16 ∧ _
    omega
  | stays =>
    obtain rfl : row' = row := hshifts
    change _ ↔ start heights index = start shown i
    omega
  | lands row₀ =>
    obtain rfl : row'.toNat = row₀ := hshifts
    exact eq_comm

end Shift

namespace Change

/-- The call. -/
def apply (change : Change) (s : App ρ) : App ρ :=
  match change with
  | .prepend slots first more => s.prependHistory slots first more
  | .update id f => s.updateMessage id f
  | .delete id => s.deleteMessage id
  | .push slot => s.pushEntry slot

/-- The entry is not the one that the call is about: older pages go before it, another message is
changed or deleted, it is not trimmed away. -/
def Spares (change : Change) (s : App ρ) (i : ℕ) : Prop :=
  match change with
  | .prepend _ _ _ => s.channel = "" → ∀ anchor, s.historyAnchor = some anchor → anchor ≤ i
  | .update id _ => s.find id ≠ some i
  | .delete id => s.find id ≠ some i
  | .push _ => s.trimmed ≤ i

/-- Where the entry is after the call. -/
def index (change : Change) (s : App ρ) (i : ℕ) : ℕ :=
  match change with
  | .prepend slots _ _ => if s.channel = "" ∧ s.historyAnchor.isSome then i + (s.page slots).length else i
  | .update _ _ => i
  | .delete id => if (s.find id).any (· < i) then i - 1 else i
  | .push _ => i - s.trimmed

/-- The entries after the call, if it changes the pane. -/
def messages (change : Change) (s : App ρ) : Option (List Slot) :=
  match change with
  | .prepend slots _ _ =>
    if s.channel = "" then
      s.historyAnchor.map fun anchor => s.messages.take anchor ++ s.page slots ++ s.messages.drop anchor
    else none
  | .update id f => (s.find id).map fun j => s.messages.modify j f
  | .delete id => (s.find id).map s.messages.eraseIdx
  | .push slot => some ((s.messages ++ [slot]).drop s.trimmed)

/-- What the call makes of row `k` of entry `i` of the view, if it leaves `after` rows.  Rows are counted in
16 bits.  A page moves the row unless the pane seems to have lost rows, a change above it moves it unless it
would come to be above the first row, and a deletion moves it from behind the rows that seem to have gone,
and from one of them to the first of them. -/
def shift (change : Change) (s : App ρ) (after i k : ℕ) : Shift :=
  let before := s.shown.sum
  let row := start s.shown i + k
  match change with
  | .prepend _ _ _ => if before ≤ after % 2 ^ 16 then .moves else .stays
  | .update id _ =>
    if (s.find id).any (· < i) then if before ≤ row + after % 2 ^ 16 then .moves else .lands 0
    else .stays
  | .delete id =>
    let first := start s.shown ((s.find id).getD 0)
    if (first + (before - after % 2 ^ 16)) % 2 ^ 16 ≤ row then if after % 2 ^ 16 ≤ before then .moves else .stays
    else if first < row then .lands first
    else .stays
  | .push _ => .stays

/-- The entry still has a row `k`, and the call shifts the row to it. -/
def Fits (change : Change) (s : App ρ) (i k : ℕ) : Prop :=
  ∀ messages, change.messages s = some messages →
    (∃ h, s.heights[i]? = some h ∧ k < h) ∧
      let heights := heightsOf s.theme s.paneWidth messages
      (change.shift s heights.sum i k).Fits s.shown heights i (change.index s i) k

/-- The rows are counted, and none that takes rows is trimmed away. -/
def Counted (change : Change) (s : App ρ) (i : ℕ) : Prop :=
  match change with
  | .prepend slots _ _ => s.channel = "" → s.historyAnchor.isSome →
      s.heights.sum + (heightsOf s.theme s.paneWidth (s.page slots)).sum < 2 ^ 16
  | .update id f => ∀ j < i, s.find id = some j → (s.changed (s.messages.modify j f)).heights.sum < 2 ^ 16
  | .delete _ => True
  | .push _ => (s.heights.take s.trimmed).sum = 0

end Change

variable {place : Place}

/-- What is stored is mapped. -/
theorem stored_mapRows (place : Place) (f : U16 → U16) (s : App ρ) :
    (s.mapRows f).stored place = (s.stored place).map f := by
  cases place with
  | scroll => rfl
  | anchor => simp only [App.stored, App.mapRows, Option.map_map]; rfl
  | cursor => simp only [App.stored, App.mapRows, Option.map_map]; rfl

/-- What is stored is the scroll and the selection. -/
theorem stored_eq {s' : App ρ} (hscroll : s'.scroll = s.scroll) (hselection : s'.selection = s.selection)
    (place : Place) : s'.stored place = s.stored place := by
  cases place <;> simp only [App.stored, hscroll, hselection]

/-! ### How the calls shift rows -/

section

variable {before : ℕ}

/-- `prepend_history`: a row moves by the rows that came. -/
theorem shifts_grown (after : ℕ) (hrow : row.toNat < before) (hbefore : before < 2 ^ 16) :
    (if before ≤ after % 2 ^ 16 then Shift.moves else .stays).Shifts before after row
      (saturatingAdd row (saturatingSub (BitVec.ofNat 16 after) (BitVec.ofNat 16 before))) := by
  have hbefore' : (BitVec.ofNat 16 before).toNat = before := toNat_ofNat_iff.2 hbefore
  have hafter : (BitVec.ofNat 16 after).toNat = after % 2 ^ 16 := BitVec.toNat_ofNat _ _
  split
  · next hle =>
    have hgrown := toNat_saturatingSub (x := BitVec.ofNat 16 after) (y := BitVec.ofNat 16 before)
      (by rwa [hbefore', hafter])
    rw [hbefore', hafter] at hgrown
    have hlt : row.toNat + (saturatingSub (BitVec.ofNat 16 after) (BitVec.ofNat 16 before)).toNat < 2 ^ 16 := by omega
    change (_ + before) % 2 ^ 16 = (row.toNat + after) % 2 ^ 16
    rw [saturatingAdd, if_pos hlt, BitVec.toNat_add_of_lt hlt, hgrown]
    omega
  · next hlt =>
    have hnone : saturatingSub (BitVec.ofNat 16 after) (BitVec.ofNat 16 before) = 0 := by
      rw [saturatingSub, if_neg (by rwa [BitVec.le_def, hbefore', hafter])]
    change saturatingAdd row _ = row
    rw [hnone, saturatingAdd, if_pos (show row.toNat + (0 : U16).toNat < 2 ^ 16 from row.isLt)]
    exact BitVec.add_zero row

/-- `update_message`: a row below the entry moves by the rows that came and went. -/
theorem shifts_below (stop : U16) (after : ℕ) (hrow : row.toNat < before) (hbefore : before < 2 ^ 16) :
    (if stop ≤ row then if before ≤ row.toNat + after % 2 ^ 16 then Shift.moves else .lands 0 else .stays).Shifts
      before after row
      (App.shiftBelow stop (((BitVec.ofNat 16 after).toNat : ℤ) - (BitVec.ofNat 16 before).toNat) row) := by
  have hbefore' : (BitVec.ofNat 16 before).toNat = before := toNat_ofNat_iff.2 hbefore
  have hafter : (BitVec.ofNat 16 after).toNat = after % 2 ^ 16 := BitVec.toNat_ofNat _ _
  rw [App.shiftBelow, hbefore', hafter]
  split
  · split
    · change (_ + before) % 2 ^ 16 = (row.toNat + after) % 2 ^ 16
      rw [BitVec.toNat_ofInt]
      omega
    · change BitVec.toNat _ = 0
      rw [BitVec.toNat_ofInt]
      omega
  · rfl

/-- `remove_entry`: a row behind those that went moves up, and one of them to where they began. -/
theorem shifts_up (first row : U16) (after : ℕ) (hbefore : before < 2 ^ 16) :
    (if (first.toNat + (before - after % 2 ^ 16)) % 2 ^ 16 ≤ row.toNat then
      if after % 2 ^ 16 ≤ before then Shift.moves else .stays
    else if first.toNat < row.toNat then .lands first.toNat
    else .stays).Shifts before after row
      (App.shiftUp first (saturatingSub (BitVec.ofNat 16 before) (BitVec.ofNat 16 after)) row) := by
  have hbefore' : (BitVec.ofNat 16 before).toNat = before := toNat_ofNat_iff.2 hbefore
  have hafter : (BitVec.ofNat 16 after).toNat = after % 2 ^ 16 := BitVec.toNat_ofNat _ _
  have hremoved : (saturatingSub (BitVec.ofNat 16 before) (BitVec.ofNat 16 after)).toNat =
      before - after % 2 ^ 16 := by
    rw [saturatingSub]
    split
    · next hle => rw [BitVec.toNat_sub_of_le hle, hbefore', hafter]
    · next hnot =>
      rw [BitVec.le_def, hbefore', hafter] at hnot
      change 0 = _
      omega
  have hrow := row.isLt
  simp only [App.shiftUp, BitVec.le_def, BitVec.lt_def, BitVec.toNat_add, hremoved]
  split
  · split
    · change (_ + before) % 2 ^ 16 = (row.toNat + after) % 2 ^ 16
      rw [BitVec.toNat_sub, hremoved]
      omega
    · change row - _ = row
      refine BitVec.eq_of_toNat_eq ?_
      rw [BitVec.toNat_sub, hremoved]
      omega
  · split
    · rfl
    · rfl

end

/-! ### What the calls leave -/

/-- A place keeps row `k` of entry `i` of what is shown. -/
def Keeps (place : Place) (i k : ℕ) (s : App ρ) : Prop :=
  ∃ row, s.stored place = some row ∧ Lies s.shown row.toNat i k

/-- These entries are left in the pane, wrapped anew, and this row in a place. -/
structure Leaves (place : Place) (s : App ρ) (left : List Slot) (row' : U16) (s' : App ρ) : Prop where
  fresh : Fresh s'
  messages : s'.messages = left
  heights : s'.heights = heightsOf s.theme s.paneWidth left
  stored : s'.stored place = some row'

/-- What a call that moves rows leaves. -/
theorem leaves_mapRows (hstored : s.stored place = some row) (messages : List Slot) (anchor : Option ℕ)
    (f : U16 → U16) : Leaves place s messages (f row)
      (App.mapRows f { (s.changed messages).viewed with historyAnchor := anchor }) where
  fresh := valid_mapRows (valid_beside (App.valid_viewed wraps_fresh _) anchor _ _ _ _) f
  messages := rfl
  heights := rfl
  stored := by
    have hsame : App.stored place { (s.changed messages).viewed with historyAnchor := anchor } = s.stored place :=
      stored_eq rfl rfl place
    rw [stored_mapRows, hsame, hstored, Option.map_some]

/-- `prepend_history`. -/
theorem prependAt_leaves (hkept : Kept s) (hrows : s.shown.sum < 2 ^ 16) (hstored : s.stored place = some row)
    (hlies : Lies s.shown row.toNat i k) (anchor : ℕ) (slots : List Slot) (first : U64) (more : Bool) :
    let messages := s.messages.take anchor ++ s.page slots ++ s.messages.drop anchor
    let after := (heightsOf s.theme s.paneWidth messages).sum
    ∃ row', ((Change.prepend slots first more).shift s after i k).Shifts s.shown.sum after row row' ∧
      Leaves place s messages row' (s.prependAt anchor slots) := by
  intro messages after
  refine ⟨_, shifts_grown after hlies.lt_sum hrows, ?_⟩
  rw [App.prependAt_eq, App.wrappedLen_viewed, App.wrappedLen_rewrap hkept]
  exact leaves_mapRows hstored messages s.historyAnchor fun row =>
    saturatingAdd row (saturatingSub (BitVec.ofNat 16 after) (BitVec.ofNat 16 s.shown.sum))

/-- `update_message` in the pane being read. -/
theorem updateMessage_leaves (hkept : Kept s) (hrows : s.shown.sum < 2 ^ 16) (hstored : s.stored place = some row)
    (hlies : Lies s.shown row.toNat i k) {id : U64} (hfind : s.find id = some j) (f : Slot → Slot) :
    let messages := s.messages.modify j f
    let after := (heightsOf s.theme s.paneWidth messages).sum
    ∃ row', ((Change.update id f).shift s after i k).Shifts s.shown.sum after row row' ∧
      Leaves place s messages row' (s.updateMessage id f) := by
  intro messages after
  obtain ⟨slot, hslot⟩ := exists_of_find hfind
  have hstop := toNat_stop hkept hrows (List.getElem?_eq_some_iff.1 hslot).1
  obtain ⟨stop, heq⟩ : ∃ stop,
    stop = ((s.rewrap s.paneWidth).startOf (j + 1)).getD (s.rewrap s.paneWidth).wrappedLen := ⟨_, rfl⟩
  rw [← heq] at hstop
  have hbelow : stop ≤ row ↔ j < i := by
    rw [BitVec.le_def, hstop]
    constructor
    · intro hle
      by_contra hji
      exact absurd (hlies.lt_start (show i < j + 1 by omega)) (Nat.not_lt.2 hle)
    · exact fun hji => hlies.start_le hji
  refine ⟨App.shiftBelow stop (((BitVec.ofNat 16 after).toNat : ℤ) - (BitVec.ofNat 16 s.shown.sum).toNat) row, ?_, ?_⟩
  · have hshifts := shifts_below stop after hlies.lt_sum hrows
    obtain ⟨-, -, -, hrow⟩ := hlies
    simp only [hbelow] at hshifts
    simpa only [Change.shift, hfind, Option.any_some, decide_eq_true_eq, ← hrow] using hshifts
  · rw [App.updateMessage, hfind]
    simp only [App.updateAt_eq, ← heq]
    rw [App.wrappedLen_viewed, App.wrappedLen_rewrap hkept]
    exact leaves_mapRows hstored messages s.historyAnchor _

/-- `delete_message` in the pane being read. -/
theorem deleteMessage_leaves (hkept : Kept s) (hrows : s.shown.sum < 2 ^ 16) (hstored : s.stored place = some row)
    (hlies : Lies s.shown row.toNat i k) {id : U64} (hfind : s.find id = some j) :
    let messages := s.messages.eraseIdx j
    let after := (heightsOf s.theme s.paneWidth messages).sum
    ∃ row', ((Change.delete id : Change).shift s after i k).Shifts s.shown.sum after row row' ∧
      Leaves place s messages row' (s.deleteMessage id) := by
  intro messages after
  obtain ⟨slot, hslot⟩ := exists_of_find hfind
  obtain ⟨anchor, heq⟩ := App.removeAt_eq s j (s.channel = "")
  have hfirst : (BitVec.ofNat 16 (start s.shown j)).toNat = start s.shown j :=
    toNat_ofNat_iff.2 ((start_le_sum j).trans_lt hrows)
  refine ⟨App.shiftUp (BitVec.ofNat 16 (start s.shown j))
    (saturatingSub (BitVec.ofNat 16 s.shown.sum) (BitVec.ofNat 16 after)) row, ?_, ?_⟩
  · have hshifts := shifts_up (BitVec.ofNat 16 (start s.shown j)) row after hrows
    obtain ⟨-, -, -, hrow⟩ := hlies
    simpa only [Change.shift, hfind, Option.getD_some, ← hrow, hfirst] using hshifts
  · rw [App.deleteMessage, hfind]
    simp only [heq]
    rw [App.startOf_rewrap hkept (List.getElem?_eq_some_iff.1 hslot).1, Option.getD_some, App.wrappedLen_viewed,
      App.wrappedLen_rewrap hkept]
    exact leaves_mapRows hstored messages anchor _

/-- What a call leaves that moves no row. -/
theorem leaves_of_changed {s' : App ρ} {left : List Slot} {anchor : Option ℕ} {cursor : Option U64} {unread : ℕ}
    (hstored : s.stored place = some row) (hfresh : Fresh s')
    (heq : s' = { s.changed left with historyAnchor := anchor, historyCursor := cursor, unread }) :
    Leaves place s left row s' := by
  subst heq
  exact ⟨hfresh, rfl, rfl, (stored_eq rfl rfl place).trans hstored⟩

/-- `push_entry` moves no row. -/
theorem pushEntry_leaves (hkept : Kept s) (hstored : s.stored place = some row) (slot : Slot) :
    Leaves place s ((s.messages ++ [slot]).drop s.trimmed) row (s.pushEntry slot) := by
  obtain ⟨anchor, cursor, heq⟩ := App.pushEntry_eq slot s
  exact leaves_of_changed hstored (valid_pushEntry hkept slot) heq

/-- **What a call leaves that changes the pane.** -/
theorem Change.leaves (hkept : Kept s) (hrows : s.shown.sum < 2 ^ 16) (hstored : s.stored place = some row)
    (hlies : Lies s.shown row.toNat i k) {change : Change} {messages : List Slot}
    (hmessages : change.messages s = some messages) :
    let after := (heightsOf s.theme s.paneWidth messages).sum
    ∃ row', (change.shift s after i k).Shifts s.shown.sum after row row' ∧
      Leaves place s messages row' (change.apply s) := by
  cases change with
  | prepend slots first more =>
    obtain ⟨hlobby, hmessages⟩ := Option.ite_none_right_eq_some.1 hmessages
    obtain ⟨anchor, hanchor, rfl⟩ := Option.map_eq_some_iff.1 hmessages
    obtain ⟨cursor, heq⟩ : ∃ cursor, s.prependHistory slots first more =
        App.prependAt anchor slots { s with historyPending := false, historyCursor := cursor } := by
      simp only [App.prependHistory, hlobby, hanchor, if_true]
      exact ⟨_, rfl⟩
    have hkept' : Kept { s with historyPending := false, historyCursor := cursor } := valid_beside hkept _ _ _ _ _
    have hshown : App.shown { s with historyPending := false, historyCursor := cursor } = s.shown :=
      shown_eq rfl rfl rfl rfl rfl
    have hstored' : App.stored place { s with historyPending := false, historyCursor := cursor } = some row :=
      (stored_eq rfl rfl place).trans hstored
    have hleaves := prependAt_leaves hkept' (hshown ▸ hrows) hstored' (hshown ▸ hlies) anchor slots first more
    rw [Change.apply, heq]
    simp only [Change.shift, hshown] at hleaves ⊢
    obtain ⟨row', hshifts, hleaves⟩ := hleaves
    exact ⟨row', hshifts, hleaves.fresh, hleaves.messages, hleaves.heights, hleaves.stored⟩
  | update id f =>
    obtain ⟨j, hfind, rfl⟩ := Option.map_eq_some_iff.1 hmessages
    exact updateMessage_leaves hkept hrows hstored hlies hfind f
  | delete id =>
    obtain ⟨j, hfind, rfl⟩ := Option.map_eq_some_iff.1 hmessages
    exact deleteMessage_leaves hkept hrows hstored hlies hfind
  | push slot =>
    obtain rfl := Option.some.inj hmessages
    exact ⟨row, rfl, pushEntry_leaves hkept hstored slot⟩

/-- A call that changes nothing in the pane. -/
theorem Change.idle {change : Change} (h : change.messages s = none) :
    (change.apply s).messages = s.messages ∧ (change.apply s).shown = s.shown ∧
      (∀ place, (change.apply s).stored place = s.stored place) ∧ change.index s i = i := by
  have hsame {s' : App ρ} {pending : Bool} {panes : String → List Slot} {anchor : Option ℕ}
      (heq : s' = { s with historyAnchor := anchor, historyPending := pending, panes }) :
      s'.messages = s.messages ∧ s'.shown = s.shown ∧ ∀ place, s'.stored place = s.stored place := by
    subst heq
    exact ⟨rfl, shown_eq rfl rfl rfl rfl rfl, stored_eq rfl rfl⟩
  cases change with
  | prepend slots first more =>
    by_cases hlobby : s.channel = ""
    · have hanchor : s.historyAnchor = none := Option.map_eq_none_iff.1 ((if_pos hlobby).symm.trans h)
      have heq : s.prependHistory slots first more = { s with historyPending := false } := by
        simp only [App.prependHistory, hlobby, hanchor, if_true]
      obtain ⟨hmessages, hshown, hplaces⟩ := hsame heq
      refine ⟨hmessages, hshown, hplaces, if_neg ?_⟩
      rw [hanchor]
      exact fun h => Bool.noConfusion h.2
    · have heq : s.prependHistory slots first more = { s with historyPending := false } := by
        simp only [App.prependHistory, hlobby, if_false]
      obtain ⟨hmessages, hshown, hplaces⟩ := hsame heq
      exact ⟨hmessages, hshown, hplaces, if_neg fun h => hlobby h.1⟩
  | update id f =>
    have hfind : s.find id = none := Option.map_eq_none_iff.1 h
    rw [Change.apply, App.updateMessage, hfind]
    obtain ⟨hmessages, hshown, hplaces⟩ := hsame rfl
    exact ⟨hmessages, hshown, hplaces, rfl⟩
  | delete id =>
    have hfind : s.find id = none := Option.map_eq_none_iff.1 h
    have hindex : (Change.delete id).index s i = i := by
      rw [Change.index, hfind]
      rfl
    rw [Change.apply, App.deleteMessage, hfind]
    simp only
    split
    · obtain ⟨hmessages, hshown, hplaces⟩ := hsame rfl
      exact ⟨hmessages, hshown, hplaces, hindex⟩
    · exact ⟨rfl, rfl, fun _ => rfl, hindex⟩
  | push slot => cases h

/-- **The entry is where it should be.** -/
theorem Change.getElem?_index {change : Change} (hspares : change.Spares s i) (hi : i < s.messages.length)
    {messages : List Slot} (h : change.messages s = some messages) :
    messages[change.index s i]? = s.messages[i]? := by
  cases change with
  | prepend slots first more =>
    obtain ⟨hlobby, h⟩ := Option.ite_none_right_eq_some.1 h
    obtain ⟨anchor, hanchor, rfl⟩ := Option.map_eq_some_iff.1 h
    have hle : anchor ≤ i := hspares hlobby anchor hanchor
    have htake : (s.messages.take anchor).length = anchor := List.length_take_of_le (hle.trans hi.le)
    have hindex : (Change.prepend slots first more).index s i = i + (s.page slots).length :=
      if_pos ⟨hlobby, by rw [hanchor]; rfl⟩
    rw [hindex, List.getElem?_append_right (by rw [List.length_append, htake]; omega), List.length_append, htake,
      List.getElem?_drop]
    congr 1
    omega
  | update id f =>
    obtain ⟨j, hfind, rfl⟩ := Option.map_eq_some_iff.1 h
    exact List.getElem?_modify_ne f s.messages fun hji : j = i => hspares (hji ▸ hfind)
  | delete id =>
    obtain ⟨j, hfind, rfl⟩ := Option.map_eq_some_iff.1 h
    have hij : i ≠ j := fun hij => hspares (hij ▸ hfind)
    rw [Change.index, hfind, Option.any_some]
    simp only [decide_eq_true_eq]
    split
    · next hji =>
      rw [List.getElem?_eraseIdx_of_ge (by omega), Nat.sub_add_cancel (Nat.one_le_of_lt hji)]
    · next hji => exact List.getElem?_eraseIdx_of_lt (by omega)
  | push slot =>
    obtain rfl := Option.some.inj h
    have hle : s.trimmed ≤ i := hspares
    rw [Change.index, List.getElem?_drop, Nat.add_sub_cancel' hle, List.getElem?_append_left hi]

/-- **A call leaves the view on its text exactly if it fits.** -/
theorem Change.kept_iff (hkept : Kept s) (hrows : s.shown.sum < 2 ^ 16) (hstored : s.stored place = some row)
    (hlies : Lies s.shown row.toNat i k) {change : Change} (hspares : change.Spares s i) :
    (change.apply s).messages[change.index s i]? = s.messages[i]? ∧
      (Keeps place (change.index s i) k (change.apply s) ↔ change.Fits s i k) := by
  have hi : i < s.messages.length := App.length_shown hkept ▸ hlies.lt_length
  cases hmessages : change.messages s with
  | none =>
    obtain ⟨hsame, hshown, hplaces, hindex⟩ := Change.idle (i := i) hmessages
    rw [hindex, hsame]
    refine ⟨rfl, iff_of_true ⟨row, (hplaces place).trans hstored, by rwa [hshown]⟩ fun left hleft => ?_⟩
    rw [hmessages] at hleft
    cases hleft
  | some left =>
    have hentry := Change.getElem?_index hspares hi hmessages
    obtain ⟨row', hshifts, hleaves⟩ := Change.leaves hkept hrows hstored hlies hmessages
    have hheight : (heightsOf s.theme s.paneWidth left)[change.index s i]? = s.heights[i]? := by
      rw [App.heights, heightsOf, heightsOf, List.getElem?_map, List.getElem?_map, hentry]
    refine ⟨by rw [hleaves.messages, hentry], ?_⟩
    have hfits := Shift.fits_iff (change.index s i) hlies hshifts
    constructor
    · rintro ⟨row'', hrow'', h, hget, hk, hrow⟩ left' hleft'
      obtain rfl := Option.some.inj (hmessages.symm.trans hleft')
      obtain rfl := Option.some.inj (hleaves.stored.symm.trans hrow'')
      rw [App.shown_of_fresh hleaves.fresh, hleaves.heights] at hget hrow
      exact ⟨⟨h, hheight ▸ hget, hk⟩, hfits.1 hrow⟩
    · intro h
      obtain ⟨⟨h, hget, hk⟩, hshift⟩ := h left hmessages
      refine ⟨row', hleaves.stored, ?_⟩
      rw [App.shown_of_fresh hleaves.fresh, hleaves.heights]
      exact ⟨h, hheight.trans hget, hk, hfits.2 hshift⟩

/-! ### Without uncounted changes -/

/-- The height of one entry. -/
theorem sum_heightsOf_singleton (slot : Slot) :
    (heightsOf s.theme s.paneWidth [slot]).sum = heightOf s.theme s.paneWidth slot := Nat.add_zero _

/-- Entries are put in the place of some before the entry. -/
theorem replaced_above (hlies : Lies s.heights row.toNat i k) {a d b : List Slot} (c : List Slot)
    (hmessages : s.messages = a ++ d ++ b) (hi : (a ++ d).length ≤ i) :
    (heightsOf s.theme s.paneWidth d).sum ≤ row.toNat ∧
      Lies (heightsOf s.theme s.paneWidth (a ++ c ++ b))
        (row.toNat - (heightsOf s.theme s.paneWidth d).sum + (heightsOf s.theme s.paneWidth c).sum)
        (i - d.length + c.length) k := by
  have hlength (slots : List Slot) : (heightsOf s.theme s.paneWidth slots).length = slots.length := List.length_map _
  rw [App.heights, hmessages, heightsOf_append, heightsOf_append] at hlies
  obtain ⟨hle, hlies'⟩ := hlies.replace_above (c := heightsOf s.theme s.paneWidth c)
    (by rw [← heightsOf_append, hlength]; exact hi)
  rw [hlength, hlength] at hlies'
  refine ⟨hle, ?_⟩
  rw [heightsOf_append, heightsOf_append]
  exact hlies'

/-- Entries are put in the place of one before the entry. -/
theorem replaced_one_above (hlies : Lies s.heights row.toNat i k) {slot : Slot} (hslot : s.messages[j]? = some slot)
    (hji : j < i) (c : List Slot) :
    heightOf s.theme s.paneWidth slot ≤ row.toNat ∧
      Lies (heightsOf s.theme s.paneWidth (s.messages.take j ++ c ++ s.messages.drop (j + 1)))
        (row.toNat - heightOf s.theme s.paneWidth slot + (heightsOf s.theme s.paneWidth c).sum)
        (i - 1 + c.length) k := by
  have hsplit : s.messages = s.messages.take j ++ [slot] ++ s.messages.drop (j + 1) := by
    rw [List.append_assoc]
    exact split_messages hslot
  have hlength : (s.messages.take j ++ [slot]).length ≤ i := by
    rw [List.length_append, List.length_take, List.length_singleton]
    omega
  rw [← sum_heightsOf_singleton slot]
  exact replaced_above hlies c hsplit hlength

/-- Entries are put in the place of one after the entry. -/
theorem replaced_one_below (hlies : Lies s.heights row.toNat i k) {slot : Slot} (hslot : s.messages[j]? = some slot)
    (hij : i < j) (c : List Slot) :
    Lies (heightsOf s.theme s.paneWidth (s.messages.take j ++ c ++ s.messages.drop (j + 1))) row.toNat i k := by
  have hj := (List.getElem?_eq_some_iff.1 hslot).1
  have hlength : i < (heightsOf s.theme s.paneWidth (s.messages.take j)).length := by
    rw [heightsOf, List.length_map, List.length_take]
    omega
  rw [App.heights, split_messages hslot, heightsOf_append] at hlies
  rw [List.append_assoc, heightsOf_append]
  exact hlies.replace_below hlength

/-- What fits in entries that are left. -/
theorem Change.fits_iff {change : Change} {left : List Slot} (h : change.messages s = some left)
    (hentry : ∃ h, s.heights[i]? = some h ∧ k < h) : change.Fits s i k ↔
      (change.shift s (heightsOf s.theme s.paneWidth left).sum i k).Fits s.shown
        (heightsOf s.theme s.paneWidth left) i (change.index s i) k := by
  constructor
  · exact fun hfits => (hfits left h).2
  · intro hfits left' hleft'
    obtain rfl := Option.some.inj (h.symm.trans hleft')
    exact ⟨hentry, hfits⟩

/-- A row that stays, where its entry comes to lie in the same row. -/
theorem stays_fits {shown heights : List ℕ} {index row : ℕ} (hlies : Lies shown row i k)
    (hlies' : Lies heights row index k) : Shift.stays.Fits shown heights i index k := by
  obtain ⟨-, -, -, hrow⟩ := hlies
  obtain ⟨-, -, -, hrow'⟩ := hlies'
  change start heights index = start shown i
  omega

/-- A page fits if the rows are counted with it. -/
theorem prepend_fits_iff (hshown : s.shown = s.heights) (hrows : s.shown.sum < 2 ^ 16)
    (hlies : Lies s.shown row.toNat i k) {anchor : ℕ} (hanchor : anchor ≤ i) (slots : List Slot) (first : U64)
    (more : Bool) :
    let heights := heightsOf s.theme s.paneWidth (s.messages.take anchor ++ s.page slots ++ s.messages.drop anchor)
    ((Change.prepend slots first more).shift s heights.sum i k).Fits s.shown heights i (i + (s.page slots).length) k ↔
      s.heights.sum + (heightsOf s.theme s.paneWidth (s.page slots)).sum < 2 ^ 16 := by
  intro heights
  rw [Change.shift, hshown]
  rw [hshown] at hlies hrows
  have hsplit : s.messages = s.messages.take anchor ++ [] ++ s.messages.drop anchor := by
    rw [List.append_nil, List.take_append_drop]
  have hlength : (s.messages.take anchor ++ []).length ≤ i := by
    rw [List.append_nil, List.length_take]
    omega
  have hnone : (heightsOf s.theme s.paneWidth []).sum = 0 := rfl
  have hlies' : Lies heights (row.toNat + (heightsOf s.theme s.paneWidth (s.page slots)).sum)
      (i + (s.page slots).length) k := by
    have hreplaced := (replaced_above hlies (s.page slots) hsplit hlength).2
    rwa [hnone, List.length_nil, Nat.sub_zero, Nat.sub_zero] at hreplaced
  obtain ⟨-, -, -, hrow'⟩ := hlies'
  have hsum : heights.sum = s.heights.sum + (heightsOf s.theme s.paneWidth (s.page slots)).sum := by
    conv_rhs => rw [App.heights, hsplit]
    simp only [heights, heightsOf_append, List.sum_append, hnone]
    omega
  have hall := start_add_sum_drop s.heights i
  have hall' := start_add_sum_drop heights (i + (s.page slots).length)
  have hlt := hlies.lt_sum
  obtain ⟨-, -, -, hrow⟩ := hlies
  split
  · change _ % 2 ^ 16 = _ % 2 ^ 16 ∧ _ ↔ _
    omega
  · change start heights (i + (s.page slots).length) = start s.heights i ↔ _
    omega

/-- A change of another message fits if it is below the entry, or else the rows are counted with it. -/
theorem update_fits_iff (hshown : s.shown = s.heights) (hrows : s.shown.sum < 2 ^ 16)
    (hlies : Lies s.shown row.toNat i k) {id : U64} (hfind : s.find id = some j) (hij : i ≠ j) (f : Slot → Slot) :
    let heights := heightsOf s.theme s.paneWidth (s.messages.modify j f)
    ((Change.update id f).shift s heights.sum i k).Fits s.shown heights i i k ↔ (j < i → heights.sum < 2 ^ 16) := by
  intro heights
  obtain ⟨slot, hslot⟩ := exists_of_find hfind
  have hsplit := modify_messages hslot f
  rw [Change.shift, hshown, hfind, Option.any_some]
  rw [hshown] at hlies hrows
  rcases Nat.lt_or_gt_of_ne hij with hlt | hji
  · have hlies' := replaced_one_below hlies hslot hlt [f slot]
    rw [← hsplit] at hlies'
    rw [if_neg (by simpa using hlt.le)]
    exact iff_of_true (stays_fits hlies hlies') fun hji => absurd hji (Nat.lt_asymm hlt)
  · have hsum := sum_heights hslot
    have hsum' := sum_heights_replace (s := s) j [f slot]
    rw [← hsplit, sum_heightsOf_singleton] at hsum'
    change heights.sum = _ at hsum'
    obtain ⟨hle, hlies'⟩ := replaced_one_above hlies hslot hji [f slot]
    rw [sum_heightsOf_singleton, List.length_singleton, Nat.sub_add_cancel (Nat.one_le_of_lt hji), ← hsplit] at hlies'
    change Lies heights _ _ _ at hlies'
    obtain ⟨-, -, -, hrow'⟩ := hlies'
    have hall := start_add_sum_drop s.heights i
    have hall' := start_add_sum_drop heights i
    have hlt := hlies.lt_sum
    obtain ⟨-, -, -, hrow⟩ := hlies
    rw [if_pos (by simpa using hji), imp_iff_right hji]
    split
    · change _ % 2 ^ 16 = _ % 2 ^ 16 ∧ _ ↔ _
      omega
    · change start heights i + k = 0 ↔ _
      omega

/-- A deletion of another message fits. -/
theorem delete_fits (hshown : s.shown = s.heights) (hrows : s.shown.sum < 2 ^ 16) (hlies : Lies s.shown row.toNat i k)
    {id : U64} (hfind : s.find id = some j) (hij : i ≠ j) :
    let heights := heightsOf s.theme s.paneWidth (s.messages.eraseIdx j)
    ((Change.delete id).shift s heights.sum i k).Fits s.shown heights i (if j < i then i - 1 else i) k := by
  intro heights
  obtain ⟨slot, hslot⟩ := exists_of_find hfind
  have hsplit := eraseIdx_messages (s := s) j
  have hnone : (heightsOf s.theme s.paneWidth []).sum = 0 := rfl
  have hsum := sum_heights hslot
  have hsum' := sum_heights_replace (s := s) j []
  rw [← hsplit, hnone] at hsum'
  change heights.sum = _ at hsum'
  rw [Change.shift, hshown, hfind, Option.getD_some]
  rw [hshown] at hlies hrows
  have hrow : row.toNat = start s.heights i + k := by
    obtain ⟨-, -, -, hrow⟩ := hlies
    exact hrow
  -- The rows that went are those of the message, and end where the next entry began.
  have hremoved : s.heights.sum - heights.sum % 2 ^ 16 = heightOf s.theme s.paneWidth slot := by omega
  have hstop : (start s.heights j + heightOf s.theme s.paneWidth slot) % 2 ^ 16 = start s.heights (j + 1) := by
    rw [start_succ (getElem?_heights hslot)]
    omega
  simp only [hremoved, hstop, ← hrow]
  rcases Nat.lt_or_gt_of_ne hij with hlt | hji
  · have hlies' := replaced_one_below hlies hslot hlt []
    rw [← hsplit] at hlies'
    have hnext := hlies.lt_start (Nat.lt_succ_of_lt hlt)
    rw [if_neg (Nat.not_le.2 hnext), if_neg (Nat.lt_asymm (hlies.lt_start hlt)), if_neg (Nat.lt_asymm hlt)]
    exact stays_fits hlies hlies'
  · have hreplaced := replaced_one_above hlies hslot hji []
    rw [← hsplit] at hreplaced
    obtain ⟨hle, -, -, -, hrow'⟩ := hreplaced
    have hrow' : row.toNat - heightOf s.theme s.paneWidth slot = start heights (i - 1) + k := hrow'
    have hall := start_add_sum_drop s.heights i
    have hall' := start_add_sum_drop heights (i - 1)
    have hfewer : heights.sum % 2 ^ 16 ≤ s.heights.sum := (Nat.mod_le _ _).trans (by omega)
    rw [if_pos hji, if_pos (hlies.start_le hji), if_pos hfewer]
    change _ % 2 ^ 16 = _ % 2 ^ 16 ∧ _
    omega

/-- An entry that is appended fits if none that takes rows is trimmed away. -/
theorem push_fits_iff (hshown : s.shown = s.heights) (hi : i < s.messages.length) (hspares : s.trimmed ≤ i)
    (slot : Slot) :
    Shift.stays.Fits s.shown (heightsOf s.theme s.paneWidth ((s.messages ++ [slot]).drop s.trimmed)) i
      (i - s.trimmed) k ↔ (s.heights.take s.trimmed).sum = 0 := by
  have hlength : s.trimmed ≤ s.heights.length := hspares.trans (length_heights s ▸ hi.le)
  have hheights : heightsOf s.theme s.paneWidth ((s.messages ++ [slot]).drop s.trimmed) =
      s.heights.drop s.trimmed ++ [heightOf s.theme s.paneWidth slot] := by
    rw [App.heights, heightsOf, heightsOf, List.map_drop, List.map_append]
    exact List.drop_append_of_le_length hlength
  have htaken : (s.heights.take s.trimmed).length = s.trimmed := List.length_take_of_le hlength
  have hstart := @start_drop_append (s.heights.drop s.trimmed) [heightOf s.theme s.paneWidth slot]
    (s.heights.take s.trimmed) i (htaken.symm ▸ hspares) (by rw [List.take_append_drop, length_heights]; exact hi.le)
  rw [htaken, List.take_append_drop] at hstart
  have hsplit : start s.heights i = (s.heights.take s.trimmed).sum + ((s.heights.take i).drop s.trimmed).sum := by
    rw [start, ← List.sum_append, ← Nat.min_eq_left hspares, ← List.take_take, Nat.min_eq_left hspares,
      List.take_append_drop]
  change start _ (i - s.trimmed) = start s.shown i ↔ _
  rw [hheights, hstart, hshown, hsplit]
  omega

/-- **Where the view shows the entries as they are, a call fits if the rows are counted** and none that
takes rows is trimmed away. -/
theorem Change.fits_iff_counted (hkept : Kept s) (hshown : s.shown = s.heights) (hrows : s.shown.sum < 2 ^ 16)
    (hlies : Lies s.shown row.toNat i k) {change : Change} (hspares : change.Spares s i) :
    change.Fits s i k ↔ change.Counted s i := by
  have hentry : ∃ h, s.heights[i]? = some h ∧ k < h := by
    obtain ⟨h, hget, hk, -⟩ := hlies
    exact ⟨h, hshown ▸ hget, hk⟩
  cases hmessages : change.messages s with
  | none =>
    refine iff_of_true (fun left hleft => ?_) ?_
    · rw [hmessages] at hleft
      cases hleft
    · cases change with
      | prepend slots first more =>
        intro hlobby hanchor
        rw [Option.map_eq_none_iff.1 ((if_pos hlobby).symm.trans hmessages)] at hanchor
        cases hanchor
      | update id f =>
        intro j hji hfind
        rw [Option.map_eq_none_iff.1 hmessages] at hfind
        cases hfind
      | delete id => trivial
      | push slot => cases hmessages
  | some left =>
    rw [Change.fits_iff hmessages hentry]
    cases change with
    | prepend slots first more =>
      obtain ⟨hlobby, hmessages⟩ := Option.ite_none_right_eq_some.1 hmessages
      obtain ⟨anchor, hanchor, rfl⟩ := Option.map_eq_some_iff.1 hmessages
      have hindex : (Change.prepend slots first more).index s i = i + (s.page slots).length :=
        if_pos ⟨hlobby, by rw [hanchor]; rfl⟩
      rw [hindex]
      refine (prepend_fits_iff hshown hrows hlies (hspares hlobby anchor hanchor) slots first more).trans ?_
      exact ⟨fun h _ _ => h, fun h => h hlobby (by rw [hanchor]; rfl)⟩
    | update id f =>
      obtain ⟨j, hfind, rfl⟩ := Option.map_eq_some_iff.1 hmessages
      refine (update_fits_iff hshown hrows hlies hfind (fun h => hspares (h ▸ hfind)) f).trans ?_
      constructor
      · intro h j' hj' hfind'
        obtain rfl := Option.some.inj (hfind.symm.trans hfind')
        exact h hj'
      · exact fun h hji => h j hji hfind
    | delete id =>
      obtain ⟨j, hfind, rfl⟩ := Option.map_eq_some_iff.1 hmessages
      have hindex : (Change.delete id).index s i = if j < i then i - 1 else i := by
        rw [Change.index, hfind, Option.any_some]
        simp only [decide_eq_true_eq]
      rw [hindex]
      exact iff_of_true (delete_fits hshown hrows hlies hfind fun h => hspares (h ▸ hfind)) trivial
    | push slot =>
      obtain rfl := Option.some.inj hmessages
      have hi : i < s.messages.length := App.length_shown hkept ▸ hlies.lt_length
      exact push_fits_iff hshown hi hspares slot

/-! ### The view -/

/-- **The view stays on its text exactly if the call shifts the row to it.**  In every state of a client
whose view has less than `2^16` rows, for every place that keeps row `k` of an entry and every call that
spares the entry: the entry is where it should be, and the place keeps row `k` of it if and only if the call
fits the rows that the entries render to.  Where the view shows them as they are, it fits if the rows are
counted, and none that takes rows is trimmed away. -/
theorem row_kept_iff (hs : Reached s) (hrows : s.shown.sum < 2 ^ 16) (change : Change)
    (hstored : s.stored place = some row) (hlies : Lies s.shown row.toNat i k) (hspares : change.Spares s i) :
    (change.apply s).messages[change.index s i]? = s.messages[i]? ∧
      (Keeps place (change.index s i) k (change.apply s) ↔ change.Fits s i k) ∧
      (s.shown = s.heights → (change.Fits s i k ↔ change.Counted s i)) := by
  obtain ⟨hentry, hkeeps⟩ := Change.kept_iff hs.kept hrows hstored hlies hspares
  exact ⟨hentry, hkeeps, fun hshown => Change.fits_iff_counted hs.kept hshown hrows hlies hspares⟩

/-! ### A full pane, and a transfer -/

/-- A client without changes that do not count. -/
theorem Reachable.reached (h : Reachable s) : Reached s := by
  obtain ⟨theme, actions, rfl⟩ := h
  refine ⟨theme, actions.map .act, ?_⟩
  rw [List.foldl_map]
  rfl

/-- What happens leads on to a pane that is reached. -/
theorem Reached.happen (h : Reached s) (happening : Happening ρ) : Reached (happen s happening) := by
  obtain ⟨theme, happenings, rfl⟩ := h
  refine ⟨theme, happenings ++ [happening], ?_⟩
  rw [List.foldl_append]
  rfl

/-- A pane of lines of one row, scrolled to the second. -/
def scrolledPane (n : ℕ) : App (List Char) := step (filled textTheme 10 (lineOf 1) n) (.scroll (some 1))

/-- A pane of lines is reachable. -/
theorem reachable_scrolledPane (n : ℕ) : Reachable (scrolledPane n) := by
  obtain ⟨theme, actions, heq⟩ := reachable_filled textTheme 10 (lineOf 1) n
  refine ⟨theme, actions ++ [.scroll (some 1)], ?_⟩
  rw [List.foldl_append, ← heq]
  rfl

/-- A line of one character is a row. -/
theorem heightOf_lineOf_one : heightOf textTheme 10 (lineOf 1) = 1 := by
  rw [heightOf_lineOf]
  decide +kernel

variable {n : ℕ}

/-- Every line is a row. -/
theorem heights_scrolledPane (hn : n ≤ Pane.historyLimit) : (scrolledPane n).heights = List.replicate n 1 := by
  have hheights := heights_filled textTheme 10 (lineOf 1) hn
  rw [heightOf_lineOf_one] at hheights
  exact hheights

/-- Every line is shown as it is. -/
theorem shown_scrolledPane (n : ℕ) : (scrolledPane n).shown = (scrolledPane n).heights :=
  App.shown_of_fresh (reachable_scrolledPane n).fresh

/-- What is above the limit is trimmed. -/
theorem trimmed_scrolledPane (hn : n ≤ Pane.historyLimit) :
    (scrolledPane n).trimmed = n + 1 - Pane.historyLimit := by
  rw [App.trimmed, ← length_heights, heights_scrolledPane hn, List.length_replicate]

/-- The scroll of the pane is the row of its second line. -/
theorem lies_scrolledPane (hn : n ≤ Pane.historyLimit) (htwo : 2 ≤ n) :
    Lies (scrolledPane n).shown (1 : U16).toNat 1 0 := by
  rw [shown_scrolledPane, heights_scrolledPane hn]
  refine ⟨1, ?_, Nat.one_pos, ?_⟩
  · rw [List.getElem?_replicate, if_pos (Nat.lt_of_succ_le htwo)]
  · rw [start, List.take_replicate, List.sum_replicate_nat, Nat.min_eq_left (by omega)]
    rfl

/-- **A full pane slips under the view**: another line, and the scroll is on the third of the
lines that it was on the second of. -/
theorem view_slips_on_trim : ¬∀ (s : App (List Char)), Reached s → s.shown.sum < 2 ^ 16 →
    ∀ (change : Change) (place : Place) (row : U16) (i k : ℕ), s.stored place = some row →
      Lies s.shown row.toNat i k → change.Spares s i → Keeps place (change.index s i) k (change.apply s) := by
  intro h
  obtain ⟨n, hn⟩ : ∃ n, n = Pane.historyLimit := ⟨_, rfl⟩
  have hfull : n = 5000 := hn
  have htrimmed : (scrolledPane n).trimmed = 1 := by
    rw [trimmed_scrolledPane hn.le]
    omega
  have hreached := (reachable_scrolledPane n).reached
  have hlies := lies_scrolledPane hn.le (by omega)
  have hrows : (scrolledPane n).shown.sum < 2 ^ 16 := by
    rw [shown_scrolledPane, heights_scrolledPane hn.le, List.sum_replicate_nat]
    omega
  have hspares : (Change.push (lineOf 1)).Spares (scrolledPane n) 1 := htrimmed.le
  have hkeeps := h (scrolledPane n) hreached hrows (.push (lineOf 1)) .scroll 1 1 0 rfl hlies hspares
  have hstored : (scrolledPane n).stored .scroll = some 1 := rfl
  have hfits := (Change.kept_iff hreached.kept hrows hstored hlies hspares).2.1 hkeeps
  have hzero : ((scrolledPane n).heights.take (scrolledPane n).trimmed).sum = 0 :=
    (Change.fits_iff_counted hreached.kept (shown_scrolledPane n) hrows hlies hspares).1 hfits
  rw [htrimmed, heights_scrolledPane hn.le, List.take_replicate, List.sum_replicate_nat] at hzero
  omega

/-- A third line comes, and the scroll stays on the second. -/
theorem row_kept_push : (scrolledPane 2).shown.sum < 2 ^ 16 ∧
    Keeps .scroll 1 0 ((Change.push (lineOf 1)).apply (scrolledPane 2)) := by
  have hrows : (scrolledPane 2).shown.sum < 2 ^ 16 := by decide +kernel
  have hlies := lies_scrolledPane (show 2 ≤ Pane.historyLimit by decide) le_rfl
  have hspares : (scrolledPane 2).trimmed ≤ 1 := Nat.zero_le 1
  have hstored : (scrolledPane 2).stored .scroll = some 1 := rfl
  obtain ⟨-, hkeeps, hfits⟩ := row_kept_iff (reachable_scrolledPane 2).reached hrows (.push (lineOf 1)) hstored hlies
    hspares
  have hcounted : (Change.push (lineOf 1)).Counted (scrolledPane 2) 1 :=
    show ((scrolledPane 2).heights.take (scrolledPane 2).trimmed).sum = 0 by decide +kernel
  exact ⟨hrows, hkeeps.2 ((hfits (shown_scrolledPane 2)).2 hcounted)⟩

/-- Two lines that were drawn, scrolled to the second; then the first names more bytes, on two rows. -/
def transferPane : App (List Char) :=
  happen (step (scrolledPane 2) (.rewrap 10)) (.transfer 0 (String.ofList (List.replicate 20 'a')))

/-- **A line that grows without counting slips under the view**: a third line comes, and the scroll is on
the first. -/
theorem view_slips_on_transfer : Reached transferPane ∧ transferPane.shown = [1, 1] ∧
    transferPane.heights = [2, 1] ∧ Lies transferPane.shown (1 : U16).toNat 1 0 ∧
    ¬Keeps .scroll 1 0 (transferPane.pushEntry (lineOf 1)) := by
  have hreached : Reached transferPane :=
    ((reachable_scrolledPane 2).reached.happen (.act (.rewrap 10))).happen (.transfer 0 _)
  have hshown : transferPane.shown = [1, 1] := by decide +kernel
  have hheights : transferPane.heights = [2, 1] := by decide +kernel
  have hlies : Lies transferPane.shown (1 : U16).toNat 1 0 := by
    rw [hshown]
    exact ⟨1, rfl, Nat.one_pos, rfl⟩
  have hstored : transferPane.stored .scroll = some 1 := by decide +kernel
  have htrimmed : transferPane.trimmed = 0 := by decide +kernel
  refine ⟨hreached, hshown, hheights, hlies, fun hkeeps => ?_⟩
  have hrows : transferPane.shown.sum < 2 ^ 16 := by
    rw [hshown]
    decide
  have hspares : (Change.push (lineOf 1)).Spares transferPane 1 := htrimmed.le.trans (Nat.zero_le 1)
  have hindex : (Change.push (lineOf 1)).index transferPane 1 = 1 := by
    rw [Change.index, htrimmed]
  have hpushed := (Change.kept_iff hreached.kept hrows hstored hlies hspares).2
  rw [hindex] at hpushed
  obtain ⟨-, hstays⟩ := hpushed.1 hkeeps _ rfl
  have hstart : start (heightsOf transferPane.theme transferPane.paneWidth
      ((transferPane.messages ++ [lineOf 1]).drop transferPane.trimmed)) 1 = start transferPane.shown 1 := by
    rwa [hindex] at hstays
  rw [hshown] at hstart
  exact absurd hstart (by decide +kernel)

end Rows
end Why2
