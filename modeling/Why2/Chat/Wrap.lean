/-
# Lines wrapped to a width

`wrap_line` (`chat/src/bin/client/tui/state.rs`) sets a line of styled spans in rows.
A word that does not fit behind what stands in the row opens a new one, and a word
that is wider than a row is broken where it runs out of cells.  Nothing is lost but
runs of whitespace: one that does not fit is dropped with the break
(`wrap_line_lossless`).

How wide a character is shown is a parameter, `w`; it may be nothing.  A row is
wider than asked for only if one character of it is (`RowFits`).
-/

import Why2.Chat.MathLayout
import Why2.Lib.Breaks

namespace Why2
namespace Wrap

open Lib
open Math (textWidth splitWords)

/-- A `Span`: a text in one style. -/
structure Span (σ : Type) where
  style : σ
  content : List Char
deriving DecidableEq, Repr

variable {σ : Type}

/-- The characters of a line, each with its style. -/
def cells (line : List (Span σ)) : List (σ × Char) := line.flatMap fun span => span.content.map (span.style, ·)

section

variable (w : Char → ℕ)

/-- The locals of `wrap_line`. -/
structure State (σ : Type) where
  out : List (List (Span σ))
  current : List (Span σ)
  column : ℕ

/-- `out.push(Line::from(mem::take(&mut current))); column = 0`. -/
def State.push (s : State σ) : State σ := ⟨s.out ++ [s.current], [], 0⟩

/-- `current.push(Span::styled(text, style))`. -/
def State.put (s : State σ) (style : σ) (text : List Char) : State σ :=
  { s with current := s.current ++ [⟨style, text⟩] }

/-- A character of a word that is wider than the row; `chunk` is the part of the word in this row. -/
def splitChar (width : ℕ) (style : σ) (a : State σ × List Char) (c : Char) : State σ × List Char :=
  let (s, chunk) := if a.1.column + w c > width ∧ a.1.column > 0 then ((a.1.put style a.2).push, []) else a
  ({ s with column := s.column + w c }, chunk ++ [c])

/-- A word that is wider than the row. -/
def hardSplit (width : ℕ) (style : σ) (s : State σ) (word : List Char) : State σ :=
  let (s, chunk) := word.foldl (splitChar w width style) (s, [])
  if chunk ≠ [] then s.put style chunk else s

/-- A word, in the row where it begins. -/
def putWord (width : ℕ) (style : σ) (s : State σ) (word : List Char) : State σ :=
  if textWidth w word > width then hardSplit w width style s word
  else { s.put style word with column := s.column + textWidth w word }

/-- A word. -/
def wrapWord (width : ℕ) (s : State σ) (next : σ × List Char) : State σ :=
  let (style, word) := next
  let breaks := decide (s.column + textWidth w word > width ∧ s.column > 0)
  let s := if breaks then s.push else s
  if breaks && word.all isWhitespace then s else putWord w width style s word

/-- The words of a span. -/
def wrapSpan (width : ℕ) (s : State σ) (span : Span σ) : State σ :=
  ((splitWords span.content).map (span.style, ·)).foldl (wrapWord w width) s

/-- `wrap_line`. -/
def wrapLine (line : List (Span σ)) (width : ℕ) : List (List (Span σ)) :=
  let s := line.foldl (wrapSpan w (max width 1)) ⟨[], [], 0⟩
  s.out ++ [s.current]

end

/-! ### The words of a line -/

/-- The words of a line with their styles, as `split_words` makes them of each span. -/
def styledWords (line : List (Span σ)) : List (σ × List Char) :=
  line.flatMap fun span => (splitWords span.content).map (span.style, ·)

/-- A word as cells. -/
def word (next : σ × List Char) : List (σ × Char) := next.2.map (next.1, ·)

/-- The words of a line, as cells. -/
def runs (line : List (Span σ)) : List (List (σ × Char)) := (styledWords line).map word

/-- The pieces are the runs of whitespace and of other characters in the spans of a line, as long
as they are in their span. -/
def IsRuns (line : List (Span σ)) (pieces : List (List (σ × Char))) : Prop :=
  ∃ texts : Span σ → List (List Char), (∀ span ∈ line, MaximalRuns isWhitespace span.content (texts span)) ∧
    pieces = line.flatMap fun span => (texts span).map fun text => text.map (span.style, ·)

/-- Whitespace only. -/
def Blank (run : List (σ × Char)) : Prop := ∀ x ∈ run, isWhitespace x.2 = true

/-- The cells of spans follow each other. -/
theorem cells_append (a b : List (Span σ)) : cells (a ++ b) = cells a ++ cells b := List.flatMap_append

/-- The cells of one span. -/
theorem cells_singleton (style : σ) (text : List Char) : cells [⟨style, text⟩] = text.map (style, ·) := by
  simp only [cells, List.flatMap_cons, List.flatMap_nil, List.append_nil]

/-- The words of a line are the line. -/
theorem flatten_runs (line : List (Span σ)) : (runs line).flatten = cells line := by
  induction line with
  | nil => rfl
  | cons span line ih =>
    have hspan : (((splitWords span.content).map (span.style, ·)).map word).flatten =
        span.content.map (span.style, ·) := by
      rw [List.map_map]
      change ((splitWords span.content).map (List.map (span.style, ·))).flatten = _
      rw [← List.map_flatten]
      exact congrArg (List.map _) (List.flatten_splitBy _ _)
    rw [runs, styledWords, List.flatMap_cons, List.map_append, List.flatten_append, hspan]
    exact congrArg _ ih

/-- **The words are the runs**: `split_words` cuts a span where whitespace begins and ends. -/
theorem isRuns_iff {line : List (Span σ)} {pieces : List (List (σ × Char))} :
    IsRuns line pieces ↔ pieces = runs line := by
  have hwords : line.flatMap (fun span => (splitWords span.content).map fun text => text.map (span.style, ·)) =
      runs line := by
    rw [runs, styledWords, List.map_flatMap]
    simp only [List.map_map]
    rfl
  rw [← hwords]
  constructor
  · rintro ⟨texts, htexts, rfl⟩
    refine List.flatMap_congr fun span hspan => ?_
    rw [← maximalRuns_iff.1 (htexts span hspan)]
    rfl
  · rintro rfl
    exact ⟨fun span => splitWords span.content, fun span _ => maximalRuns_iff.2 rfl, rfl⟩

/-- The loop over the spans is a loop over their words. -/
theorem foldl_wrapSpan (w : Char → ℕ) (width : ℕ) (line : List (Span σ)) (s : State σ) :
    line.foldl (wrapSpan w width) s = (styledWords line).foldl (wrapWord w width) s :=
  (List.foldl_flatMap ..).symm

/-! ### What the loop keeps -/

variable {w : Char → ℕ} {width column : ℕ} {pieces out : List (List (σ × Char))} {text current : List (σ × Char)}

/-- How wide cells are shown. -/
def cellsWidth (w : Char → ℕ) (row : List (σ × Char)) : ℕ := textWidth w (row.map (·.2))

/-- The widths of cells add up. -/
theorem cellsWidth_append (a b : List (σ × Char)) : cellsWidth w (a ++ b) = cellsWidth w a + cellsWidth w b := by
  rw [cellsWidth, List.map_append, Math.textWidth_append, cellsWidth, cellsWidth]

/-- A style is nothing to the width. -/
theorem cellsWidth_styled (style : σ) (text : List Char) :
    cellsWidth w (text.map (style, ·)) = textWidth w text := by
  rw [cellsWidth, List.map_map]
  exact congrArg _ (List.map_id _)

/-- A row is as wide as asked for, or as one of its characters. -/
def RowFits (w : Char → ℕ) (width : ℕ) (row : List (σ × Char)) : Prop :=
  cellsWidth w row ≤ width ∨ ∃ x ∈ row, cellsWidth w row = w x.2

/-- **The invariant of the loop:** of the text that was read, nothing but whole blank runs is
missing, the column is the width of the row, and the rows fit. -/
structure Progress (w : Char → ℕ) (width : ℕ) (pieces : List (List (σ × Char))) (text : List (σ × Char))
    (out : List (List (σ × Char))) (current : List (σ × Char)) (column : ℕ) : Prop where
  broken : ∃ gaps, Broken pieces Blank (out ++ [current]) gaps text
  column_eq : column = cellsWidth w current
  out_fits : ∀ row ∈ out, RowFits w width row
  fits : RowFits w width current

namespace Progress

/-- Nothing was read. -/
theorem start : Progress w width pieces [] [] [] 0 where
  broken := ⟨[], .start⟩
  column_eq := rfl
  out_fits := fun _ h => by cases h
  fits := .inl (Nat.zero_le _)

/-- A row is closed, and a gap may be left out behind it. -/
theorem push (h : Progress w width pieces text out current column) {gap : List (σ × Char)}
    (hgap : Gap pieces Blank text gap) : Progress w width pieces (text ++ gap) (out ++ [current]) [] 0 where
  broken := h.broken.elim fun gaps hb => ⟨gaps ++ [gap], hb.push hgap⟩
  column_eq := rfl
  out_fits := List.forall_mem_append.2 ⟨h.out_fits, List.forall_mem_singleton.2 h.fits⟩
  fits := .inl (Nat.zero_le _)

/-- A break inside a word: nothing is left out. -/
theorem break_word (h : Progress w width pieces text out current column) :
    Progress w width pieces text (out ++ [current]) [] 0 := by
  have := h.push (.inl rfl)
  rwa [List.append_nil] at this

/-- A text that fits comes into the row. -/
theorem put (h : Progress w width pieces text out current column) (style : σ) {more : List Char}
    (hfits : column + textWidth w more ≤ width) :
    Progress w width pieces (text ++ more.map (style, ·)) out (current ++ more.map (style, ·))
      (column + textWidth w more) where
  broken := h.broken.elim fun gaps hb => ⟨gaps, hb.extend _⟩
  column_eq := by rw [cellsWidth_append, cellsWidth_styled, h.column_eq]
  out_fits := h.out_fits
  fits := .inl (by rwa [cellsWidth_append, cellsWidth_styled, ← h.column_eq])

/-- A character comes into the row if it fits or the row is empty. -/
theorem put_char (h : Progress w width pieces text out current column) (style : σ) {c : Char}
    (hfits : column + w c ≤ width ∨ column = 0) :
    Progress w width pieces (text ++ [(style, c)]) out (current ++ [(style, c)]) (column + w c) := by
  have hc : textWidth w [c] = w c := Nat.add_zero _
  obtain hle | hzero := hfits
  · have hput := h.put style (show column + textWidth w [c] ≤ width by rwa [hc])
    rwa [hc] at hput
  · have hwidth : cellsWidth w (current ++ [(style, c)]) = column + w c := by
      rw [cellsWidth_append, ← h.column_eq]
      exact congrArg _ hc
    refine ⟨h.broken.elim fun gaps hb => ⟨gaps, hb.extend _⟩, hwidth.symm, h.out_fits, .inr ⟨(style, c), ?_, ?_⟩⟩
    · exact List.mem_append_right _ (List.mem_singleton_self _)
    · rw [hwidth, hzero, Nat.zero_add]

end Progress

/-! ### Words -/

/-- The state holds what was read. -/
def Holds (w : Char → ℕ) (width : ℕ) (pieces : List (List (σ × Char))) (text : List (σ × Char)) (s : State σ) : Prop :=
  Progress w width pieces text (s.out.map cells) (cells s.current) s.column

/-- The state and the part of a word that is not in it yet hold what was read. -/
def HoldsChunk (w : Char → ℕ) (width : ℕ) (pieces : List (List (σ × Char))) (text : List (σ × Char)) (style : σ)
    (a : State σ × List Char) : Prop :=
  Progress w width pieces text (a.1.out.map cells) (cells a.1.current ++ a.2.map (style, ·)) a.1.column

variable {s : State σ} {style : σ}

/-- `push` closes a row. -/
theorem Holds.push (h : Holds w width pieces text s) {gap : List (σ × Char)} (hgap : Gap pieces Blank text gap) :
    Holds w width pieces (text ++ gap) s.push := by
  have := Progress.push h hgap
  rwa [Holds, State.push, List.map_append, List.map_singleton]

/-- One character of a word that is broken. -/
theorem HoldsChunk.splitChar {a : State σ × List Char} (h : HoldsChunk w width pieces text style a) (c : Char) :
    HoldsChunk w width pieces (text ++ [(style, c)]) style (splitChar w width style a c) := by
  unfold Wrap.splitChar
  split_ifs with hbreak
  · have hnext := (Progress.break_word h).put_char style (c := c) (.inr rfl)
    simp only [HoldsChunk, State.put, State.push, List.map_append, List.map_singleton, cells_append,
      cells_singleton]
    exact hnext
  · have hfits : a.1.column + w c ≤ width ∨ a.1.column = 0 := by omega
    have hnext := Progress.put_char h style hfits
    rw [HoldsChunk, List.map_append, ← List.append_assoc]
    exact hnext

/-- The characters of a word that is broken. -/
theorem HoldsChunk.foldl {a : State σ × List Char} (h : HoldsChunk w width pieces text style a) (word : List Char) :
    HoldsChunk w width pieces (text ++ word.map (style, ·)) style (word.foldl (Wrap.splitChar w width style) a) := by
  induction word generalizing a text with
  | nil => rwa [List.map_nil, List.append_nil]
  | cons c word ih =>
    have := ih (h.splitChar c)
    rwa [List.append_assoc] at this

/-- A word that is wider than a row is in the rows, piece by piece. -/
theorem Holds.hardSplit (h : Holds w width pieces text s) (word : List Char) :
    Holds w width pieces (text ++ word.map (style, ·)) (hardSplit w width style s word) := by
  have hstart : HoldsChunk w width pieces text style (s, []) := by
    rw [HoldsChunk, List.map_nil, List.append_nil]
    exact h
  have hend := hstart.foldl word
  unfold Wrap.hardSplit
  generalize word.foldl (Wrap.splitChar w width style) (s, []) = a at hend
  obtain ⟨t, chunk⟩ := a
  dsimp only
  split_ifs with hchunk
  · rw [Holds, State.put, cells_append, cells_singleton]
    exact hend
  · rw [not_not.1 hchunk, HoldsChunk, List.map_nil, List.append_nil] at hend
    exact hend

/-- A word that fits, or begins a row, is in the rows. -/
theorem Holds.putWord {word : List Char} (h : Holds w width pieces text s)
    (hfits : s.column + textWidth w word ≤ width ∨ s.column = 0) :
    Holds w width pieces (text ++ word.map (style, ·)) (putWord w width style s word) := by
  unfold Wrap.putWord
  split_ifs with hwide
  · exact h.hardSplit word
  · rw [Holds, State.put, cells_append, cells_singleton]
    exact Progress.put h style (by omega)

/-- **One word:** it is in the rows, or it is a blank run that was dropped with a break. -/
theorem Holds.wrapWord {k : ℕ} (next : σ × List Char) (hpiece : pieces[k]? = some (word next))
    (h : Holds w width pieces (pieces.take k).flatten s) :
    Holds w width pieces (pieces.take (k + 1)).flatten (wrapWord w width s next) := by
  obtain ⟨style, text⟩ := next
  have htake : (pieces.take (k + 1)).flatten = (pieces.take k).flatten ++ text.map (style, ·) := by
    rw [List.take_add_one, hpiece, List.flatten_append]
    exact congrArg _ (List.append_nil _)
  rw [htake]
  unfold Wrap.wrapWord
  by_cases hbreak : s.column + textWidth w text > width ∧ s.column > 0
  · simp only [decide_eq_true hbreak, if_true, Bool.true_and]
    split_ifs with hblank
    · refine h.push (.inr ⟨k, hpiece, ?_, rfl⟩)
      intro x hx
      obtain ⟨c, hc, rfl⟩ := List.mem_map.1 hx
      exact List.all_eq_true.1 hblank c hc
    · have hpushed := h.push (.inl rfl)
      rw [List.append_nil] at hpushed
      exact hpushed.putWord (.inr rfl)
  · simp only [decide_eq_false hbreak, Bool.false_and, Bool.false_eq_true, if_false]
    exact h.putWord (by omega)

/-- The words one after the other. -/
theorem Holds.foldl {done : List (List (σ × Char))} (h : Holds w width pieces done.flatten s)
    (words : List (σ × List Char)) (hpieces : pieces = done ++ words.map word) :
    Holds w width pieces pieces.flatten (words.foldl (Wrap.wrapWord w width) s) := by
  induction words generalizing done s with
  | nil =>
    rw [List.map_nil, List.append_nil] at hpieces
    rw [hpieces] at h ⊢
    exact h
  | cons next words ih =>
    have hpiece : pieces[done.length]? = some (word next) := by
      rw [hpieces, List.getElem?_append_right le_rfl, Nat.sub_self]
      rfl
    have htake : pieces.take done.length = done := by rw [hpieces, List.take_left]
    have htake' : pieces.take (done.length + 1) = done ++ [word next] := by
      rw [List.take_add_one, htake, hpiece]
      rfl
    have hnext := Holds.wrapWord next hpiece (by rwa [htake])
    rw [htake'] at hnext
    exact ih hnext (by rw [hpieces, List.append_assoc]; rfl)

/-- What holds of a line that is wrapped. -/
theorem holds_line (w : Char → ℕ) (width : ℕ) (line : List (Span σ)) :
    Holds w width (runs line) (cells line) (line.foldl (wrapSpan w width) ⟨[], [], 0⟩) := by
  have hstart : Holds w width (runs line) ([] : List (List (σ × Char))).flatten ⟨[], [], 0⟩ := .start
  rw [foldl_wrapSpan, ← flatten_runs]
  exact hstart.foldl (styledWords line) rfl

/-! ### The rows of a line -/

/-- The rows are those that were closed, and the last one. -/
theorem wrapLine_eq (w : Char → ℕ) (line : List (Span σ)) (width : ℕ) :
    (wrapLine w line width).map cells =
      (line.foldl (wrapSpan w (max width 1)) ⟨[], [], 0⟩).out.map cells ++
        [cells (line.foldl (wrapSpan w (max width 1)) ⟨[], [], 0⟩).current] := by
  rw [wrapLine, List.map_append, List.map_singleton]

/-- The rows of a line are broken out of its runs. -/
theorem broken_wrapLine (w : Char → ℕ) (line : List (Span σ)) (width : ℕ) :
    ∃ gaps, Broken (runs line) Blank ((wrapLine w line width).map cells) gaps (cells line) := by
  rw [wrapLine_eq]
  exact (holds_line w (max width 1) line).broken

/-- A row is as wide as asked for, or as one of its characters. -/
theorem rowFits_wrapLine (w : Char → ℕ) (line : List (Span σ)) (width : ℕ) :
    ∀ row ∈ wrapLine w line width, RowFits w (max width 1) (cells row) := by
  have h := holds_line w (max width 1) line
  refine List.forall_mem_append.2 ⟨fun row hrow => ?_, List.forall_mem_singleton.2 h.fits⟩
  exact h.out_fits _ (List.mem_map_of_mem hrow)

/-- What stands in a row stands in the line. -/
theorem cells_subset {line row : List (Span σ)} (hrow : row ∈ wrapLine w line width) : cells row ⊆ cells line := by
  obtain ⟨gaps, hbroken⟩ := broken_wrapLine w line width
  rw [← hbroken.interleave_eq]
  exact subset_interleave (List.mem_map_of_mem hrow)

/-- The widest character of a line. -/
def widest (w : Char → ℕ) (line : List (Span σ)) : ℕ := ((cells line).map fun x => w x.2).foldr max 0

/-- No character is wider than the widest. -/
theorem le_widest {line : List (Span σ)} {x : σ × Char} (hx : x ∈ cells line) : w x.2 ≤ widest w line :=
  List.le_max_of_le' 0 (List.mem_map_of_mem hx) le_rfl

/-- **Wrapping loses nothing:** there is a row, every row is as wide as asked for or as the widest
character of the line, and the rows are the line with its styles, less whole runs of whitespace
that went at the end of a row. -/
theorem wrap_line_lossless (w : Char → ℕ) (line : List (Span σ)) (width : ℕ) :
    1 ≤ (wrapLine w line width).length ∧
      (∀ row ∈ wrapLine w line width, cellsWidth w (cells row) ≤ max (max width 1) (widest w line)) ∧
      ∃ pieces gaps, IsRuns line pieces ∧
        Broken pieces Blank ((wrapLine w line width).map cells) gaps (cells line) := by
  obtain ⟨gaps, hbroken⟩ := broken_wrapLine w line width
  refine ⟨?_, fun row hrow => ?_, runs line, gaps, isRuns_iff.2 rfl, hbroken⟩
  · rw [wrapLine, List.length_append, List.length_singleton]
    exact Nat.le_add_left _ _
  · obtain hle | ⟨x, hx, heq⟩ := rowFits_wrapLine w line width row hrow
    · exact hle.trans (le_max_left _ _)
    · rw [heq]
      exact (le_widest (cells_subset hrow hx)).trans (le_max_right _ _)

/-! ### A line of one style

`Why2.Chat.MathLayout` wraps formulas, which have one style, as texts. -/

/-- The text of a row. -/
def rowText (row : List (Span σ)) : List Char := row.flatMap (·.content)

/-- The state without its styles, with the part of a word that is not in it yet. -/
def State.texts (s : State σ) (chunk : List Char) : Math.Wrap :=
  ⟨s.out.map rowText, rowText s.current ++ chunk, s.column⟩

/-- The texts of spans follow each other. -/
theorem rowText_append (a b : List (Span σ)) : rowText (a ++ b) = rowText a ++ rowText b := List.flatMap_append

/-- Without styles, `push` is that of `Math`. -/
theorem texts_push (s : State σ) : s.push.texts [] = (s.texts []).push := by
  simp only [State.texts, State.push, Math.Wrap.push, List.map_append, List.map_singleton, List.append_nil]
  rfl

/-- A part of a word that is put is no longer waiting. -/
theorem texts_put (s : State σ) (style : σ) (chunk : List Char) : (s.put style chunk).texts [] = s.texts chunk := by
  simp only [State.texts, State.put, rowText_append, List.append_nil]
  simp only [rowText, List.flatMap_singleton]

/-- Without styles, a character of a broken word is that of `Math`. -/
theorem texts_splitChar (w : Char → ℕ) (width : ℕ) (style : σ) (a : State σ × List Char) (c : Char) :
    (splitChar w width style a c).1.texts (splitChar w width style a c).2 =
      Math.wrapChar w width (a.1.texts a.2) c := by
  unfold splitChar Math.wrapChar
  by_cases hbreak : a.1.column + w c > width ∧ a.1.column > 0
  · rw [if_pos hbreak, if_pos (by exact hbreak), ← texts_put a.1 style a.2, ← texts_push]
    simp only [State.texts, List.nil_append, List.append_nil]
  · rw [if_neg hbreak, if_neg (by exact hbreak)]
    simp only [State.texts, List.append_assoc]

/-- So are the characters of a word. -/
theorem texts_foldl (w : Char → ℕ) (width : ℕ) (style : σ) (word : List Char) (a : State σ × List Char) :
    (word.foldl (splitChar w width style) a).1.texts (word.foldl (splitChar w width style) a).2 =
      word.foldl (Math.wrapChar w width) (a.1.texts a.2) := by
  induction word generalizing a with
  | nil => rfl
  | cons c word ih => rw [List.foldl_cons, List.foldl_cons, ih, texts_splitChar]

/-- So is a word that is broken. -/
theorem texts_hardSplit (w : Char → ℕ) (width : ℕ) (style : σ) (s : State σ) (word : List Char) :
    (hardSplit w width style s word).texts [] = word.foldl (Math.wrapChar w width) (s.texts []) := by
  rw [← texts_foldl w width style word (s, [])]
  unfold hardSplit
  dsimp only
  split_ifs with hchunk
  · exact texts_put ..
  · rw [not_not.1 hchunk]

/-- So is every word. -/
theorem texts_wrapWord (w : Char → ℕ) (width : ℕ) (s : State σ) (next : σ × List Char) :
    (wrapWord w width s next).texts [] = Math.wrapWord w width (s.texts []) next.2 := by
  obtain ⟨style, word⟩ := next
  have hput : ∀ t : State σ, (putWord w width style t word).texts [] =
      if textWidth w word > width then word.foldl (Math.wrapChar w width) (t.texts [])
      else ⟨(t.texts []).out, (t.texts []).current ++ word, (t.texts []).column + textWidth w word⟩ := by
    intro t
    unfold putWord
    split_ifs
    · exact texts_hardSplit ..
    · simp only [State.texts, State.put, rowText_append, List.append_nil]
      simp only [rowText, List.flatMap_singleton]
  unfold wrapWord Math.wrapWord
  have hcolumn : (s.texts []).column = s.column := rfl
  rw [hcolumn]
  by_cases hbreak : s.column + textWidth w word > width ∧ s.column > 0
  · simp only [decide_eq_true hbreak, if_true, Bool.true_and]
    by_cases hblank : word.all isWhitespace = true
    · rw [if_pos hblank, if_pos hblank]
      exact texts_push s
    · rw [if_neg hblank, if_neg hblank, hput, texts_push]
  · simp only [decide_eq_false hbreak, Bool.false_and, Bool.false_eq_true, if_false]
    exact hput s

/-- **The texts of the rows** of a line of one style are those of `Math.wrapLine`. -/
theorem rowText_wrapLine (w : Char → ℕ) (style : σ) (text : List Char) (width : ℕ) :
    (wrapLine w [⟨style, text⟩] width).map rowText = Math.wrapLine w text width := by
  have hfold : ∀ (words : List (List Char)) (s : State σ),
      ((words.map (style, ·)).foldl (wrapWord w (max width 1)) s).texts [] =
        words.foldl (Math.wrapWord w (max width 1)) (s.texts []) := by
    intro words
    induction words with
    | nil => exact fun _ => rfl
    | cons word words ih =>
      intro s
      rw [List.map_cons, List.foldl_cons, List.foldl_cons, ih, texts_wrapWord]
  have hend : (wrapSpan w (max width 1) ⟨[], [], 0⟩ ⟨style, text⟩).texts [] =
      (splitWords text).foldl (Math.wrapWord w (max width 1)) ⟨[], [], 0⟩ := hfold (splitWords text) ⟨[], [], 0⟩
  rw [Math.wrapLine, ← hend, wrapLine, List.map_append, List.map_singleton]
  simp only [State.texts, List.append_nil]
  rfl

end Wrap
end Why2
