/-
# The input line

`InputBuffer` (`chat/src/bin/client/tui/input.rs`): a text of one or several lines
with a cursor, the lines that were sent, and a position among them while they are
paged through.  A slice, a removal or an insertion past the end of a vector stops
the client: the operations return `none` there.

No run of operations gets that far: the cursor stays within the text and the
position within the history (`Bounded.run`).  The line that is typed is parked when
the first line is recalled and comes back when the search is left at its newest
end.  A recalled line that has several lines is never left, since `up` and `down`
then move inside it (`chars_of_run`): what was typed comes back exactly if none of the
lines that were recalled is one of those.
-/

import Why2.Chat.Text
import Mathlib.Data.List.TakeWhile
import Mathlib.Data.List.Basic
import Mathlib.Algebra.GroupWithZero.Nat

namespace Why2
namespace Input

variable {α : Type}

/-! ### Vectors -/

/-- `v[..n]`. -/
def sliceTo (v : List α) (n : ℕ) : Option (List α) := if n ≤ v.length then some (v.take n) else none

/-- `v[n..]`. -/
def sliceFrom (v : List α) (n : ℕ) : Option (List α) := if n ≤ v.length then some (v.drop n) else none

/-- `v.insert(i, a)`. -/
def insertAt (v : List α) (i : ℕ) (a : α) : Option (List α) :=
  if i ≤ v.length then some (v.take i ++ a :: v.drop i) else none

/-- `v.drain(start..stop)`: what is left. -/
def drain (v : List α) (start stop : ℕ) : Option (List α) :=
  if start ≤ stop ∧ stop ≤ v.length then some (v.take start ++ v.drop stop) else none

/-- `v.remove(i)`: what is left. -/
def remove (v : List α) (i : ℕ) : Option (List α) := if i < v.length then some (v.eraseIdx i) else none

/-- `v.iter().rposition(p)`: the last index of an element with `p`. -/
def rposition (p : α → Bool) (v : List α) : Option ℕ := (v.reverse.findIdx? p).map (v.length - 1 - ·)

/-- There is nothing in an empty list. -/
@[simp] theorem rposition_nil (p : α → Bool) : rposition p [] = none := rfl

/-- The last one comes first. -/
theorem rposition_concat (p : α → Bool) (v : List α) (a : α) :
    rposition p (v ++ [a]) = if p a then some v.length else rposition p v := by
  unfold rposition
  rw [List.reverse_append, List.reverse_singleton, List.singleton_append, List.findIdx?_cons,
    List.length_append, List.length_singleton]
  split_ifs with ha
  · simp
  · rw [Option.map_map]
    congr 1
    funext j
    simp only [Function.comp_apply]
    omega

/-- **What `rposition` finds, the elements with `p` read from the last one on:** the head of
them, with the rest of them in front of it. -/
theorem rposition_spec (p : α → Bool) (v : List α) :
    (rposition p v = none ∧ v.reverse.filter p = []) ∨
      ∃ i a, rposition p v = some i ∧ v[i]? = some a ∧ (∀ j b, i < j → v[j]? = some b → ¬p b) ∧
        v.reverse.filter p = a :: (v.take i).reverse.filter p := by
  induction v using List.reverseRecOn with
  | nil => exact .inl ⟨rfl, rfl⟩
  | append_singleton v a ih =>
    rw [rposition_concat, List.reverse_append, List.reverse_singleton, List.singleton_append]
    by_cases ha : p a = true
    · refine .inr ⟨v.length, a, if_pos ha, by simp, fun j b hj hb => ?_, by simp [ha]⟩
      have := (List.getElem?_eq_some_iff.1 hb).1
      rw [List.length_append, List.length_singleton] at this
      omega
    · rw [if_neg ha, List.filter_cons_of_neg ha]
      obtain h | ⟨i, b, hi, hb, hlast, heq⟩ := ih
      · exact .inl h
      · have hlt : i < v.length := (List.getElem?_eq_some_iff.1 hb).1
        refine .inr ⟨i, b, hi, ?_, fun j d hj hd => ?_, ?_⟩
        · rw [List.getElem?_append_left hlt, hb]
        · obtain hin | hout := Nat.lt_or_ge j v.length
          · exact hlast j d hj (by rwa [List.getElem?_append_left hin] at hd)
          · rw [List.getElem?_append_right hout] at hd
            obtain rfl := List.mem_singleton.1 (List.mem_of_getElem? hd)
            exact ha
        · rw [heq, List.take_append_of_le_length hlt.le]

/-- What is found is in the list. -/
theorem rposition_lt {p : α → Bool} {v : List α} {i : ℕ} (h : rposition p v = some i) : i < v.length := by
  obtain ⟨hnone, -⟩ | ⟨j, a, hj, ha, -⟩ := rposition_spec p v
  · rw [hnone] at h
    cases h
  · rw [hj] at h
    obtain rfl := Option.some.inj h
    exact (List.getElem?_eq_some_iff.1 ha).1

/-! ### The buffer -/

/-- `InputBuffer`.  `locked` is the field `prefix`. -/
structure InputBuffer where
  chars : List Char
  cursor : ℕ
  history : List (List Char)
  historyPos : ℕ
  stash : Option (List Char)
  locked : Option (List Char)
  revision : ℕ
deriving DecidableEq, Repr

namespace InputBuffer

/-- `InputBuffer::new`. -/
def new : InputBuffer :=
  { chars := [], cursor := 0, history := [], historyPos := 0, stash := none, locked := none, revision := 0 }

/-- `revision += 1`, a `u64`. -/
def edited (s : InputBuffer) : InputBuffer := { s with revision := (s.revision + 1) % 2 ^ 64 }

/-! ### Lines and words -/

/-- `is_multiline`. -/
def isMultiline (s : InputBuffer) : Bool := s.chars.contains '\n'

/-- `matches`: whether a sent line is a candidate for the running search. -/
def «matches» (s : InputBuffer) (entry : List Char) : Bool := s.locked.all (·.isPrefixOf entry)

/-- `set`: the text, the cursor at its end. -/
def set (s : InputBuffer) (text : List Char) : InputBuffer := { s with chars := text, cursor := text.length }

/-- `line_start`. -/
def lineStart (s : InputBuffer) : Option ℕ :=
  (sliceTo s.chars s.cursor).map fun before => ((rposition (· == '\n') before).map (· + 1)).getD 0

/-- `line_end`. -/
def lineEnd (s : InputBuffer) : Option ℕ :=
  (sliceFrom s.chars s.cursor).map fun after =>
    ((after.findIdx? (· == '\n')).map (s.cursor + ·)).getD s.chars.length

/-- `while i > 0 && p(chars[i - 1]) { i -= 1 }`. -/
def retreat (p : Char → Bool) (chars : List Char) : ℕ → Option ℕ
  | 0 => some 0
  | i + 1 =>
    match chars[i]? with
    | none => none
    | some c => if p c then retreat p chars i else some (i + 1)

/-- `while i < len && p(chars[i]) { i += 1 }`. -/
def advance (p : Char → Bool) (chars : List Char) (i : ℕ) : ℕ := i + ((chars.drop i).takeWhile p).length

/-- `word_start`. -/
def wordStart (s : InputBuffer) : Option ℕ := do
  let i ← retreat isWhitespace s.chars s.cursor
  retreat (fun c => !isWhitespace c) s.chars i

/-! ### Editing -/

/-- `insert`. -/
def insert (s : InputBuffer) (c : Char) : Option InputBuffer :=
  (insertAt s.chars s.cursor c).map fun chars => ({ s with chars, cursor := s.cursor + 1 } : InputBuffer).edited

/-- `insert_str`. -/
def insertStr (s : InputBuffer) (text : List Char) : Option InputBuffer := text.foldlM insert s

/-- `backspace`. -/
def backspace (s : InputBuffer) : Option InputBuffer :=
  if 0 < s.cursor then
    (remove s.chars (s.cursor - 1)).map fun chars =>
      ({ s with chars, cursor := s.cursor - 1 } : InputBuffer).edited
  else some s

/-- `delete`. -/
def delete (s : InputBuffer) : Option InputBuffer :=
  if s.cursor < s.chars.length then
    (remove s.chars s.cursor).map fun chars => ({ s with chars } : InputBuffer).edited
  else some s

/-- `self.chars.drain(start..self.cursor); self.cursor = start`. -/
def drainTo (s : InputBuffer) (start : ℕ) : Option InputBuffer :=
  (drain s.chars start s.cursor).map fun chars => ({ s with chars, cursor := start } : InputBuffer).edited

/-- `delete_word`. -/
def deleteWord (s : InputBuffer) : Option InputBuffer := s.wordStart.bind s.drainTo

/-- `kill_to_start`. -/
def killToStart (s : InputBuffer) : Option InputBuffer := s.lineStart.bind s.drainTo

/-- `kill_to_end`. -/
def killToEnd (s : InputBuffer) : Option InputBuffer := do
  let stop ← s.lineEnd
  let chars ← drain s.chars s.cursor stop
  some ({ s with chars } : InputBuffer).edited

/-! ### Motion -/

/-- The cursor at `i`. -/
def moveTo (s : InputBuffer) (i : ℕ) : InputBuffer := { s with cursor := i }

/-- `left`. -/
def left (s : InputBuffer) : InputBuffer := s.moveTo (s.cursor - 1)

/-- `right`. -/
def right (s : InputBuffer) : InputBuffer := if s.cursor < s.chars.length then s.moveTo (s.cursor + 1) else s

/-- `home`. -/
def home (s : InputBuffer) : Option InputBuffer := s.lineStart.map s.moveTo

/-- `end`. -/
def «end» (s : InputBuffer) : Option InputBuffer := s.lineEnd.map s.moveTo

/-- `word_left`. -/
def wordLeft (s : InputBuffer) : Option InputBuffer := s.wordStart.map s.moveTo

/-- `word_right`. -/
def wordRight (s : InputBuffer) : InputBuffer :=
  s.moveTo (advance (fun c => !isWhitespace c) s.chars (advance isWhitespace s.chars s.cursor))

/-! ### History -/

/-- The prefix a search is locked to that starts from `typed`: none for a command or an empty
line. -/
def lockOf (typed : List Char) : Option (List Char) :=
  if typed ≠ [] ∧ typed.head? ≠ some '/' then some typed else none

/-- The first lines of `history_up`: at the newest end the line is parked. -/
def park (s : InputBuffer) : InputBuffer :=
  if s.historyPos = s.history.length then { s with locked := lockOf s.chars, stash := some s.chars } else s

/-- `self.history_pos = i; self.set(entry)`. -/
def showing (s : InputBuffer) (i : ℕ) (entry : List Char) : InputBuffer :=
  ({ s with historyPos := i } : InputBuffer).set entry

/-- The text is the sent line `i`. -/
def recallAt (s : InputBuffer) (i : ℕ) : Option InputBuffer := s.history[i]?.map (s.showing i)

/-- `history_up`. -/
def historyUp (s : InputBuffer) : Option InputBuffer :=
  if s.history = [] ∨ s.historyPos = 0 then some s
  else
    (sliceTo s.park.history s.park.historyPos).bind fun older =>
      match rposition s.park.matches older with
      | none => some s.park
      | some found => s.park.recallAt found

/-- The branch of `history_down` that is back at the line that started the search. -/
def unpark (s : InputBuffer) : InputBuffer :=
  ({ s with historyPos := s.history.length, locked := none, stash := none } : InputBuffer).set (s.stash.getD [])

/-- `history_down`. -/
def historyDown (s : InputBuffer) : Option InputBuffer :=
  if s.history.length ≤ s.historyPos then some s
  else
    match ((s.history.drop (s.historyPos + 1)).findIdx? s.matches).map (s.historyPos + 1 + ·) with
    | some i => s.recallAt i
    | none => some s.unpark

/-- `up`. -/
def up (s : InputBuffer) : Option InputBuffer :=
  if !s.isMultiline then s.historyUp
  else do
    let start ← s.lineStart
    if start = 0 then some (s.moveTo 0)
    else
      -- the line starts at or before the cursor: the subtraction does not wrap
      let column := s.cursor - start
      let above ← sliceTo s.chars (start - 1)
      let previous := ((rposition (· == '\n') above).map (· + 1)).getD 0
      some (s.moveTo (min (previous + column) (start - 1)))

/-- `down`. -/
def down (s : InputBuffer) : Option InputBuffer :=
  if !s.isMultiline then s.historyDown
  else do
    let stop ← s.lineEnd
    if stop = s.chars.length then some (s.moveTo stop)
    else
      let start ← s.lineStart
      let column := s.cursor - start
      let next := stop + 1
      let below ← sliceFrom s.chars next
      let nextEnd := ((below.findIdx? (· == '\n')).map (next + ·)).getD s.chars.length
      some (s.moveTo (min (next + column) nextEnd))

/-- `reset_history_position`. -/
def resetHistoryPosition (s : InputBuffer) : InputBuffer :=
  { s with historyPos := s.history.length, stash := none, locked := none }

/-- `push_history`. -/
def pushHistory (s : InputBuffer) (input : List Char) : InputBuffer :=
  let history := if s.history.getLast? = some input then s.history else s.history ++ [input]
  ({ s with history } : InputBuffer).resetHistoryPosition

/-- `clear`. -/
def clear (s : InputBuffer) : InputBuffer := ({ s with chars := [], cursor := 0 } : InputBuffer).edited

/-- `take`: the buffer it leaves, the text being `s.chars`. -/
def take (s : InputBuffer) : InputBuffer := s.clear.resetHistoryPosition

end InputBuffer

/-- The calls on the buffer. -/
inductive Op
  | insert (c : Char)
  | insertStr (text : List Char)
  | backspace
  | delete
  | deleteWord
  | killToStart
  | killToEnd
  | left
  | right
  | home
  | «end»
  | wordLeft
  | wordRight
  | up
  | down
  | pushHistory (input : List Char)
  | resetHistoryPosition
  | clear
  | take
deriving DecidableEq, Repr

open InputBuffer

/-- What a call makes of the buffer. -/
def step (s : InputBuffer) : Op → Option InputBuffer
  | .insert c => s.insert c
  | .insertStr text => s.insertStr text
  | .backspace => s.backspace
  | .delete => s.delete
  | .deleteWord => s.deleteWord
  | .killToStart => s.killToStart
  | .killToEnd => s.killToEnd
  | .left => some s.left
  | .right => some s.right
  | .home => s.home
  | .end => s.end
  | .wordLeft => s.wordLeft
  | .wordRight => some s.wordRight
  | .up => s.up
  | .down => s.down
  | .pushHistory input => some (s.pushHistory input)
  | .resetHistoryPosition => some s.resetHistoryPosition
  | .clear => some s.clear
  | .take => some s.take

/-- A run of calls. -/
def run (ops : List Op) (s : InputBuffer) : Option InputBuffer := ops.foldlM step s

/-! ### The cursor and the position stay in range -/

/-- The cursor is in the text and the position in the history. -/
structure Bounded (s : InputBuffer) : Prop where
  cursor_le : s.cursor ≤ s.chars.length
  pos_le : s.historyPos ≤ s.history.length

/-- An empty line is bounded. -/
theorem bounded_new : Bounded InputBuffer.new := ⟨le_rfl, le_rfl⟩

namespace Bounded

variable {s : InputBuffer}

/-- The cursor may be anywhere in the line. -/
theorem moveTo (h : Bounded s) {i : ℕ} (hi : i ≤ s.chars.length) : Bounded (s.moveTo i) := ⟨hi, h.pos_le⟩

/-- An edit leaves a cursor in the line. -/
theorem edited {chars : List Char} {i : ℕ} (h : Bounded s) (hi : i ≤ chars.length) :
    Bounded ({ s with chars := chars, cursor := i } : InputBuffer).edited := ⟨hi, h.pos_le⟩

/-- Leaving the history is behind all of it. -/
theorem resetHistoryPosition (h : Bounded s) : Bounded s.resetHistoryPosition := ⟨h.cursor_le, le_rfl⟩

/-- The line of the cursor starts at or before it. -/
theorem lineStart (h : Bounded s) : ∃ start ≤ s.cursor, s.lineStart = some start := by
  unfold InputBuffer.lineStart
  rw [sliceTo, if_pos h.cursor_le, Option.map_some]
  refine ⟨_, ?_, rfl⟩
  cases hpos : rposition (· == '\n') (s.chars.take s.cursor) with
  | none => exact Nat.zero_le _
  | some i =>
    have := rposition_lt hpos
    rw [List.length_take] at this
    simp only [Option.map_some, Option.getD_some]
    omega

/-- What is searched for on the right is in the line, or its end is. -/
theorem findIdx_le (p : Char → Bool) (v : List Char) (i : ℕ) (hi : i ≤ v.length) :
    i ≤ (((v.drop i).findIdx? p).map (i + ·)).getD v.length ∧
      (((v.drop i).findIdx? p).map (i + ·)).getD v.length ≤ v.length := by
  cases hpos : (v.drop i).findIdx? p with
  | none => exact ⟨hi, le_rfl⟩
  | some j =>
    have hj : j < (v.drop i).length := (List.findIdx?_eq_some_iff_findIdx_eq.1 hpos).1
    rw [List.length_drop] at hj
    simp only [Option.map_some, Option.getD_some]
    omega

/-- The line of the cursor ends at or behind it. -/
theorem lineEnd (h : Bounded s) : ∃ stop, s.cursor ≤ stop ∧ stop ≤ s.chars.length ∧ s.lineEnd = some stop := by
  unfold InputBuffer.lineEnd
  rw [sliceFrom, if_pos h.cursor_le, Option.map_some]
  exact ⟨_, (findIdx_le _ _ _ h.cursor_le).1, (findIdx_le _ _ _ h.cursor_le).2, rfl⟩

/-- A word to the left begins in the line. -/
theorem retreat_le (p : Char → Bool) (chars : List Char) (i : ℕ) (hi : i ≤ chars.length) :
    ∃ j ≤ i, retreat p chars i = some j := by
  induction i with
  | zero => exact ⟨0, le_rfl, rfl⟩
  | succ i ih =>
    simp only [retreat, List.getElem?_eq_getElem hi]
    split_ifs
    · obtain ⟨j, hj, heq⟩ := ih (Nat.le_of_succ_le hi)
      exact ⟨j, Nat.le_succ_of_le hj, heq⟩
    · exact ⟨i + 1, le_rfl, rfl⟩

/-- The word before the cursor starts at or before it. -/
theorem wordStart (h : Bounded s) : ∃ start ≤ s.cursor, s.wordStart = some start := by
  obtain ⟨i, hi, hblank⟩ := retreat_le isWhitespace s.chars s.cursor h.cursor_le
  obtain ⟨j, hj, hword⟩ := retreat_le (fun c => !isWhitespace c) s.chars i (hi.trans h.cursor_le)
  exact ⟨j, hj.trans hi, by simp only [InputBuffer.wordStart, hblank, Option.bind_eq_bind, Option.bind_some, hword]⟩

/-- A word to the right ends in the line. -/
theorem advance_le (p : Char → Bool) (chars : List Char) (i : ℕ) (hi : i ≤ chars.length) :
    advance p chars i ≤ chars.length := by
  have := (List.takeWhile_prefix p (l := chars.drop i)).length_le
  rw [List.length_drop] at this
  unfold advance
  omega

/-- What is drained to the left leaves a bounded line, without a panic. -/
theorem drainTo (h : Bounded s) {start : ℕ} (hstart : start ≤ s.cursor) :
    ∃ s', s.drainTo start = some s' ∧ Bounded s' := by
  have hcursor := h.cursor_le
  refine ⟨_, by rw [InputBuffer.drainTo, drain, if_pos ⟨hstart, hcursor⟩, Option.map_some], h.edited ?_⟩
  rw [List.length_append, List.length_take]
  omega

/-- So does a character that is typed. -/
theorem insert (h : Bounded s) (c : Char) : ∃ s', s.insert c = some s' ∧ Bounded s' := by
  have hcursor := h.cursor_le
  refine ⟨_, by rw [InputBuffer.insert, insertAt, if_pos hcursor, Option.map_some], h.edited ?_⟩
  rw [List.length_append, List.length_take, List.length_cons, List.length_drop]
  omega

/-- So does a text that is pasted. -/
theorem insertStr (h : Bounded s) (text : List Char) : ∃ s', s.insertStr text = some s' ∧ Bounded s' := by
  induction text generalizing s with
  | nil => exact ⟨s, rfl, h⟩
  | cons c text ih =>
    obtain ⟨s₁, h₁, hb₁⟩ := h.insert c
    obtain ⟨s', h', hb'⟩ := ih hb₁
    refine ⟨s', ?_, hb'⟩
    rw [InputBuffer.insertStr, List.foldlM_cons, h₁]
    exact h'

/-- So does `backspace`. -/
theorem backspace (h : Bounded s) : ∃ s', s.backspace = some s' ∧ Bounded s' := by
  have hcursor := h.cursor_le
  unfold InputBuffer.backspace
  split_ifs with hpos
  · have hlt : s.cursor - 1 < s.chars.length := by omega
    refine ⟨_, by rw [remove, if_pos hlt, Option.map_some], h.edited ?_⟩
    rw [List.length_eraseIdx_of_lt hlt]
    omega
  · exact ⟨s, rfl, h⟩

/-- So does `delete`. -/
theorem delete (h : Bounded s) : ∃ s', s.delete = some s' ∧ Bounded s' := by
  unfold InputBuffer.delete
  split_ifs with hlt
  · refine ⟨_, by rw [remove, if_pos hlt, Option.map_some], h.edited ?_⟩
    rw [List.length_eraseIdx_of_lt hlt]
    omega
  · exact ⟨s, rfl, h⟩

/-- So does `kill_to_end`. -/
theorem killToEnd (h : Bounded s) : ∃ s', s.killToEnd = some s' ∧ Bounded s' := by
  obtain ⟨stop, hle, hstop, heq⟩ := h.lineEnd
  have hcursor := h.cursor_le
  refine ⟨_, by simp only [InputBuffer.killToEnd, heq, drain, if_pos (And.intro hle hstop), Option.bind_eq_bind,
    Option.bind_some]; rfl, h.edited ?_⟩
  rw [List.length_append, List.length_take]
  omega

/-- An entry of the history is recalled with the cursor at its end. -/
theorem recallAt {i : ℕ} (hi : i < s.history.length) : ∃ s', s.recallAt i = some s' ∧ Bounded s' := by
  refine ⟨_, by rw [InputBuffer.recallAt, List.getElem?_eq_getElem hi, Option.map_some], ?_⟩
  exact ⟨le_rfl, hi.le⟩

/-- Parking a line is bounded. -/
theorem park (h : Bounded s) : Bounded s.park := by
  unfold InputBuffer.park
  split_ifs
  · exact ⟨h.cursor_le, h.pos_le⟩
  · exact h

/-- Paging up in the history does not panic. -/
theorem historyUp (h : Bounded s) : ∃ s', s.historyUp = some s' ∧ Bounded s' := by
  unfold InputBuffer.historyUp
  split_ifs
  · exact ⟨s, rfl, h⟩
  · rw [sliceTo, if_pos h.park.pos_le, Option.bind_some]
    cases hfound : rposition s.park.matches (s.park.history.take s.park.historyPos) with
    | none => exact ⟨_, rfl, h.park⟩
    | some i =>
      have hi := rposition_lt hfound
      rw [List.length_take] at hi
      exact Bounded.recallAt (by omega)

/-- Paging down in the history does not panic. -/
theorem historyDown (h : Bounded s) : ∃ s', s.historyDown = some s' ∧ Bounded s' := by
  unfold InputBuffer.historyDown
  split_ifs with hpos
  · exact ⟨s, rfl, h⟩
  · cases hnext : (s.history.drop (s.historyPos + 1)).findIdx? s.matches with
    | none => exact ⟨_, rfl, ⟨le_rfl, le_rfl⟩⟩
    | some j =>
      have hj := (List.findIdx?_eq_some_iff_findIdx_eq.1 hnext).1
      rw [List.length_drop] at hj
      exact Bounded.recallAt (show s.historyPos + 1 + j < _ by omega)

/-- `up` does not panic. -/
theorem up (h : Bounded s) : ∃ s', s.up = some s' ∧ Bounded s' := by
  unfold InputBuffer.up
  split_ifs
  · exact h.historyUp
  · obtain ⟨start, hle, heq⟩ := h.lineStart
    have hcursor := h.cursor_le
    simp only [heq, Option.bind_eq_bind, Option.bind_some]
    split_ifs
    · exact ⟨_, rfl, h.moveTo (Nat.zero_le _)⟩
    · have habove : start - 1 ≤ s.chars.length := by omega
      rw [sliceTo, if_pos habove, Option.bind_some]
      exact ⟨_, rfl, h.moveTo ((min_le_right _ _).trans habove)⟩

/-- `down` does not panic. -/
theorem down (h : Bounded s) : ∃ s', s.down = some s' ∧ Bounded s' := by
  unfold InputBuffer.down
  split_ifs
  · exact h.historyDown
  · obtain ⟨stop, -, hstop, hend⟩ := h.lineEnd
    obtain ⟨start, -, hstart⟩ := h.lineStart
    simp only [hend, hstart, Option.bind_eq_bind, Option.bind_some]
    split_ifs with hlast
    · exact ⟨_, rfl, h.moveTo hstop⟩
    · have hnext : stop + 1 ≤ s.chars.length := by omega
      rw [sliceFrom, if_pos hnext, Option.bind_some]
      exact ⟨_, rfl, h.moveTo ((min_le_right _ _).trans (findIdx_le _ _ _ hnext).2)⟩

/-- One call stays in range, and does not stop the client. -/
theorem step (h : Bounded s) (op : Op) : ∃ s', Input.step s op = some s' ∧ Bounded s' := by
  have hcursor := h.cursor_le
  cases op with
  | insert c => exact h.insert c
  | insertStr text => exact h.insertStr text
  | backspace => exact h.backspace
  | delete => exact h.delete
  | deleteWord =>
    obtain ⟨start, hle, heq⟩ := h.wordStart
    simp only [Input.step, InputBuffer.deleteWord, heq, Option.bind_some]
    exact h.drainTo hle
  | killToStart =>
    obtain ⟨start, hle, heq⟩ := h.lineStart
    simp only [Input.step, InputBuffer.killToStart, heq, Option.bind_some]
    exact h.drainTo hle
  | killToEnd => exact h.killToEnd
  | left => exact ⟨_, rfl, h.moveTo (by omega)⟩
  | right =>
    refine ⟨_, rfl, ?_⟩
    unfold InputBuffer.right
    split_ifs with hlt
    · exact h.moveTo hlt
    · exact h
  | home =>
    obtain ⟨start, hle, heq⟩ := h.lineStart
    exact ⟨_, by simp only [Input.step, InputBuffer.home, heq, Option.map_some], h.moveTo (hle.trans hcursor)⟩
  | «end» =>
    obtain ⟨stop, -, hle, heq⟩ := h.lineEnd
    exact ⟨_, by simp only [Input.step, InputBuffer.end, heq, Option.map_some], h.moveTo hle⟩
  | wordLeft =>
    obtain ⟨start, hle, heq⟩ := h.wordStart
    exact ⟨_, by simp only [Input.step, InputBuffer.wordLeft, heq, Option.map_some], h.moveTo (hle.trans hcursor)⟩
  | wordRight => exact ⟨_, rfl, h.moveTo (advance_le _ _ _ (advance_le _ _ _ hcursor))⟩
  | up => exact h.up
  | down => exact h.down
  | pushHistory input => exact ⟨_, rfl, ⟨hcursor, le_rfl⟩⟩
  | resetHistoryPosition => exact ⟨_, rfl, h.resetHistoryPosition⟩
  | clear => exact ⟨_, rfl, ⟨le_rfl, h.pos_le⟩⟩
  | take => exact ⟨_, rfl, ⟨le_rfl, le_rfl⟩⟩

/-- **A run stays in range.** -/
theorem run (h : Bounded s) (ops : List Op) : ∃ s', Input.run ops s = some s' ∧ Bounded s' := by
  induction ops generalizing s with
  | nil => exact ⟨s, rfl, h⟩
  | cons op ops ih =>
    obtain ⟨s₁, h₁, hb₁⟩ := h.step op
    obtain ⟨s', h', hb'⟩ := ih hb₁
    refine ⟨s', ?_, hb'⟩
    rw [Input.run, List.foldlM_cons, h₁]
    exact h'

end Bounded

/-! ### What was typed comes back -/

/-- After `n` calls of `up` some number of calls of `down` brings back the text of `s`. -/
def Returns (s : InputBuffer) (n : ℕ) : Prop :=
  ∃ m s', run (List.replicate n .up ++ List.replicate m .down) s = some s' ∧ s'.chars = s.chars

/-- The sent lines that a search from the text of `s` goes through, the newest one first. -/
def searched (s : InputBuffer) : List (List Char) :=
  s.history.reverse.filter fun entry => (lockOf s.chars).all (·.isPrefixOf entry)

namespace InputBuffer

variable {s s' : InputBuffer}

/-- Parking leaves the history alone. -/
@[simp] theorem park_history (s : InputBuffer) : s.park.history = s.history := by
  unfold park
  split_ifs <;> rfl

/-- Parking does not page. -/
@[simp] theorem park_historyPos (s : InputBuffer) : s.park.historyPos = s.historyPos := by
  unfold park
  split_ifs <;> rfl

/-- Parking leaves the line in place. -/
@[simp] theorem park_chars (s : InputBuffer) : s.park.chars = s.chars := by
  unfold park
  split_ifs <;> rfl

/-- A line is parked once. -/
@[simp] theorem park_park (s : InputBuffer) : s.park.park = s.park := by
  unfold park
  split_ifs <;> rfl

/-- While a line of the history is shown, nothing is parked. -/
theorem park_of_ne (h : s.historyPos ≠ s.history.length) : s.park = s := if_neg h

/-- A line has several rows exactly if it has a line break. -/
theorem isMultiline_iff : s.isMultiline = true ↔ '\n' ∈ s.chars := List.contains_iff_mem

/-- In a text of several lines `up` only moves the cursor. -/
theorem chars_of_up (hlines : '\n' ∈ s.chars) (h : s.up = some s') : s'.chars = s.chars := by
  unfold up at h
  rw [isMultiline_iff.2 hlines, if_neg (by decide)] at h
  obtain ⟨start, -, h⟩ := Option.bind_eq_some_iff.1 h
  split_ifs at h
  · rw [← Option.some.inj h, moveTo]
  · obtain ⟨above, -, h⟩ := Option.bind_eq_some_iff.1 h
    rw [← Option.some.inj h, moveTo]

/-- In a text of several lines `down` only moves the cursor. -/
theorem chars_of_down (hlines : '\n' ∈ s.chars) (h : s.down = some s') : s'.chars = s.chars := by
  unfold down at h
  rw [isMultiline_iff.2 hlines, if_neg (by decide)] at h
  obtain ⟨stop, -, h⟩ := Option.bind_eq_some_iff.1 h
  split_ifs at h
  · rw [← Option.some.inj h, moveTo]
  · obtain ⟨start, -, h⟩ := Option.bind_eq_some_iff.1 h
    obtain ⟨below, -, h⟩ := Option.bind_eq_some_iff.1 h
    rw [← Option.some.inj h, moveTo]

/-- The sent lines that `up` goes through from `s`, the newest one first. -/
def older (s : InputBuffer) : List (List Char) := (s.history.take s.historyPos).reverse.filter s.park.matches

/-- Parking leaves the older entries as they are. -/
theorem older_park (s : InputBuffer) : s.park.older = s.older := by
  unfold older
  rw [park_park, park_history, park_historyPos]

/-- At the newest line, the older entries are those that are searched. -/
theorem older_of_newest (h : s.historyPos = s.history.length) : s.older = searched s := by
  unfold older park
  rw [h, if_pos rfl, List.take_length]
  rfl

end InputBuffer

/-- A run is its first key, and then the others. -/
theorem run_cons (op : Op) (ops : List Op) (s : InputBuffer) : run (op :: ops) s = (step s op).bind (run ops) :=
  List.foldlM_cons

/-- **A text of several lines is not left by `up` and `down`.** -/
theorem chars_of_run {ops : List Op} (hops : ∀ op ∈ ops, op = .up ∨ op = .down) {s s' : InputBuffer}
    (hlines : '\n' ∈ s.chars) (h : run ops s = some s') : s'.chars = s.chars := by
  induction ops generalizing s with
  | nil => rw [← Option.some.inj h]
  | cons op ops ih =>
    rw [run_cons] at h
    obtain ⟨s₁, h₁, h⟩ := Option.bind_eq_some_iff.1 h
    have hchars : s₁.chars = s.chars := by
      obtain rfl | rfl := hops op (List.mem_cons_self ..)
      · exact chars_of_up hlines h₁
      · exact chars_of_down hlines h₁
    rw [ih (fun op hop => hops op (List.mem_cons_of_mem _ hop)) (hchars ▸ hlines) h, hchars]

/-- These keys are all `up` or `down`. -/
theorem up_or_down {n m : ℕ} : ∀ op ∈ List.replicate n Op.up ++ List.replicate m Op.down, op = .up ∨ op = .down := by
  intro op hop
  obtain h | h := List.mem_append.1 hop
  · exact .inl (List.eq_of_mem_replicate h)
  · exact .inr (List.eq_of_mem_replicate h)

/-- The history is paged through, with `typed` parked, and no candidate that is newer than the
recalled line has several lines. -/
structure Paging (typed : List Char) (s : InputBuffer) : Prop where
  stash : s.stash = some typed
  text : s.history[s.historyPos]? = some s.chars
  newer : ∀ i entry, s.historyPos < i → s.history[i]? = some entry → s.matches entry = true → '\n' ∉ entry

/-- `typed` is in the line or can be got back to. -/
structure Search (typed : List Char) (s : InputBuffer) : Prop where
  line : '\n' ∉ s.chars
  typed_or_paging : (s.historyPos = s.history.length ∧ s.chars = typed) ∨ Paging typed s

variable {typed : List Char} {s : InputBuffer}

/-- Paging is at an entry. -/
theorem Paging.pos_lt (h : Paging typed s) : s.historyPos < s.history.length :=
  (List.getElem?_eq_some_iff.1 h.text).1

/-- From a recalled line `down` leads to the line that was typed. -/
theorem Paging.down (h : Paging typed s) (hline : '\n' ∉ s.chars) :
    ∃ m s', run (List.replicate m .down) s = some s' ∧ s'.chars = typed := by
  -- on the number of newer lines: every call goes to a newer candidate, or to the parked line
  induction hk : s.history.length - s.historyPos using Nat.strong_induction_on generalizing s with
  | _ k ih =>
    have hlt := h.pos_lt
    have hsingle : s.isMultiline = false := by rwa [← Bool.not_eq_true, isMultiline_iff]
    have hdown : step s .down = s.historyDown := by simp only [step, InputBuffer.down, hsingle]; rfl
    cases hnext : (s.history.drop (s.historyPos + 1)).findIdx? s.matches with
    | none =>
      refine ⟨1, s.unpark, ?_, ?_⟩
      · rw [List.replicate_one, run_cons, hdown, historyDown, if_neg (not_le.2 hlt), hnext]
        rfl
      · simp only [unpark, InputBuffer.set, h.stash, Option.getD_some]
    | some j =>
      obtain ⟨hj, hmatch, -⟩ := List.findIdx?_eq_some_iff_getElem.1 hnext
      rw [List.getElem_drop] at hmatch
      rw [List.length_drop] at hj
      have hi : s.historyPos + 1 + j < s.history.length := by omega
      have hget := List.getElem?_eq_getElem hi
      have hentry := h.newer _ _ (by omega) hget hmatch
      have hpaging : Paging typed (s.showing (s.historyPos + 1 + j) s.history[s.historyPos + 1 + j]) :=
        ⟨h.stash, hget, fun i entry hlt => h.newer i entry ((Nat.lt_add_right j (Nat.lt_succ_self _)).trans hlt)⟩
      obtain ⟨m, s', hrun, hs'⟩ := ih _ (by rw [← hk]; simp only [showing, InputBuffer.set]; omega) hpaging hentry rfl
      refine ⟨m + 1, s', ?_, hs'⟩
      rw [List.replicate_succ, run_cons, hdown, historyDown, if_neg (not_le.2 hlt), hnext]
      simp only [Option.map_some, recallAt, hget, Option.bind_some]
      exact hrun

/-- The typed line is parked. -/
theorem Search.park_stash (h : Search typed s) : s.park.stash = some typed := by
  obtain ⟨hpos, hchars⟩ | hpaging := h.typed_or_paging
  · rw [park, if_pos hpos, ← hchars]
  · rw [park_of_ne hpaging.pos_lt.ne, hpaging.stash]

/-- A search is in the history, or at its end. -/
theorem Search.pos_le (h : Search typed s) : s.historyPos ≤ s.history.length := by
  obtain ⟨hpos, -⟩ | hpaging := h.typed_or_paging
  · exact hpos.le
  · exact hpaging.pos_lt.le

/-- No candidate from the position on has several lines. -/
theorem Search.from_pos (h : Search typed s) {i : ℕ} {entry : List Char} (hi : s.historyPos ≤ i)
    (hget : s.history[i]? = some entry) (hmatch : s.park.matches entry = true) : '\n' ∉ entry := by
  obtain ⟨hpos, -⟩ | hpaging := h.typed_or_paging
  · have := (List.getElem?_eq_some_iff.1 hget).1
    omega
  · rw [park_of_ne hpaging.pos_lt.ne] at hmatch
    obtain rfl | hlt := hi.eq_or_lt
    · rw [hpaging.text] at hget
      exact Option.some.inj hget ▸ h.line
    · exact hpaging.newer i entry hlt hget hmatch

/-- Parking goes on with a search. -/
theorem Search.park (h : Search typed s) : Search typed s.park := by
  obtain ⟨hpos, hchars⟩ | hpaging := h.typed_or_paging
  · refine ⟨by rw [park_chars]; exact h.line, .inl ⟨?_, by rw [park_chars, hchars]⟩⟩
    rw [park_historyPos, park_history, hpos]
  · rwa [park_of_ne hpaging.pos_lt.ne]

/-- **One call of `up`:** it recalls the newest of the older candidates, or there is none. -/
theorem Search.up (h : Search typed s) :
    ∃ s₁, step s .up = some s₁ ∧
      ((s.older = [] ∧ s₁.older = [] ∧ Search typed s₁) ∨
        (s.older = s₁.chars :: s₁.older ∧ ('\n' ∉ s₁.chars → Search typed s₁))) := by
  have hsingle : s.isMultiline = false := by
    rw [← Bool.not_eq_true, isMultiline_iff]
    exact h.line
  have hup : step s .up = s.historyUp := by simp only [step, InputBuffer.up, hsingle]; rfl
  rw [hup, historyUp]
  split_ifs with hempty
  · have hnone : s.older = [] := by
      unfold older
      obtain hempty | hzero := hempty
      · rw [hempty, List.take_nil]
        rfl
      · rw [hzero, List.take_zero]
        rfl
    exact ⟨s, rfl, .inl ⟨hnone, hnone, h⟩⟩
  · rw [park_history, park_historyPos, sliceTo, if_pos h.pos_le, Option.bind_some]
    obtain ⟨hnone, hold⟩ | ⟨i, entry, hi, hget, hlast, hold⟩ :=
      rposition_spec s.park.matches (s.history.take s.historyPos)
    · rw [hnone]
      exact ⟨s.park, rfl, .inl ⟨hold, (older_park s).trans hold, h.park⟩⟩
    · have hlt := rposition_lt hi
      rw [List.length_take] at hlt
      rw [List.take_take, min_eq_left (by omega)] at hold
      rw [List.getElem?_take_of_lt (by omega)] at hget
      have hne : (s.park.showing i entry).historyPos ≠ (s.park.showing i entry).history.length := by
        simp only [showing, InputBuffer.set, park_history]
        omega
      rw [hi]
      simp only [recallAt, park_history, hget, Option.map_some]
      refine ⟨_, rfl, .inr ⟨?_, fun hline => ⟨hline, .inr ⟨h.park_stash, ?_, ?_⟩⟩⟩⟩
      · rw [older, hold, older, park_of_ne hne]
        simp only [showing, InputBuffer.set, park_history]
        rfl
      · simp only [showing, InputBuffer.set, park_history, hget]
      · -- between the two positions there is no candidate
        intro j other hj hother hmatch
        simp only [showing, InputBuffer.set, park_history] at hj hother
        obtain hbetween | hnew := Nat.lt_or_ge j s.historyPos
        · exact absurd hmatch (hlast j other hj (by rwa [List.getElem?_take_of_lt hbetween]))
        · exact h.from_pos hnew hother hmatch

/-- **The typed line comes back exactly if no entry on the way has a line break.** -/
theorem Search.returns_iff (h : Search typed s) (htyped : '\n' ∉ typed) (n : ℕ) :
    (∃ m s', run (List.replicate n .up ++ List.replicate m .down) s = some s' ∧ s'.chars = typed) ↔
      ∀ entry ∈ s.older.take n, '\n' ∉ entry := by
  induction n generalizing s with
  | zero =>
    simp only [List.replicate_zero, List.nil_append, List.take_zero, List.not_mem_nil, false_imp_iff,
      implies_true, iff_true]
    obtain ⟨-, hchars⟩ | hpaging := h.typed_or_paging
    · exact ⟨0, s, rfl, hchars⟩
    · exact hpaging.down h.line
  | succ n ih =>
    obtain ⟨s₁, hup, hcases⟩ := h.up
    simp only [List.replicate_succ, List.cons_append, run_cons, hup, Option.bind_some]
    obtain ⟨hnone, hnone₁, h₁⟩ | ⟨hold, hnext⟩ := hcases
    · rw [ih h₁, hnone, hnone₁]
      simp only [List.take_nil]
    · rw [hold, List.take_succ_cons, List.forall_mem_cons]
      by_cases hlines : '\n' ∈ s₁.chars
      · refine iff_of_false ?_ fun hall => hall.1 hlines
        rintro ⟨m, s', hrun, hs'⟩
        exact htyped (hs' ▸ chars_of_run up_or_down hlines hrun ▸ hlines)
      · rw [ih (hnext hlines), and_iff_right hlines]

/-- **The input line:** every run of calls returns, with the cursor in the text and the position
in the history; and what is typed in one line at the newest end comes back after `n` calls of
`up` exactly if none of the first `n` candidates has several lines. -/
theorem input_line_history (ops : List Op) (s : InputBuffer) (n : ℕ) (hpos : s.historyPos = s.history.length)
    (hline : '\n' ∉ s.chars) :
    (∃ t, run ops InputBuffer.new = some t ∧ t.cursor ≤ t.chars.length ∧ t.historyPos ≤ t.history.length) ∧
      (Returns s n ↔ ∀ entry ∈ (searched s).take n, '\n' ∉ entry) := by
  obtain ⟨t, hrun, ht⟩ := bounded_new.run ops
  refine ⟨⟨t, hrun, ht.cursor_le, ht.pos_le⟩, ?_⟩
  rw [← older_of_newest hpos]
  exact Search.returns_iff ⟨hline, .inl ⟨hpos, rfl⟩⟩ hline n

/-- Of two sent lines the older one has several lines; `a` is typed and one call of `up` is
made. -/
theorem typed_line_returns :
    ∃ s, run [.pushHistory ['a', '\n', 'b'], .pushHistory ['a', 'c'], .insert 'a'] InputBuffer.new = some s ∧
      Returns s 1 ∧ ¬Returns s 2 := by
  refine ⟨_, rfl, ?_, ?_⟩
  · exact (input_line_history [] _ 1 rfl (by decide)).2.2 (by decide)
  · exact fun h => absurd ((input_line_history [] _ 2 rfl (by decide)).2.1 h) (by decide)

/-- A line with a newline is sent, then nothing is typed: one call of `up`, and the empty line
does not come back. -/
theorem multiline_entry_traps :
    ∃ s, run [.insertStr ['a', '\n', 'b'], .take, .pushHistory ['a', '\n', 'b']] InputBuffer.new = some s ∧
      s.historyPos = s.history.length ∧ s.chars = [] ∧ ¬Returns s 1 := by
  refine ⟨_, rfl, rfl, rfl, ?_⟩
  rintro ⟨m, s', hrun, hs'⟩
  rw [List.replicate_one, List.singleton_append, run_cons] at hrun
  have hops : ∀ op ∈ List.replicate m Op.down, op = .up ∨ op = .down :=
    fun op hop => .inr (List.eq_of_mem_replicate hop)
  have hchars := chars_of_run hops (by decide) hrun
  rw [hs'] at hchars
  exact absurd hchars (by decide)

end Input
end Why2
