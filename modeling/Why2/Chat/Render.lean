/-
# Messages as rows

`markup::render` (`chat/src/bin/client/tui/markup.rs`): the segments of a message are
put on a line, behind what stands in front of the message; a newline, a code block
and display math end it.  A line is wrapped to the pane (`flush`).  If it opens with
a heading, a quote or a list marker, the rows it wraps onto open with a hanging
prefix: the prefix is taken off the width before the line is wrapped, and put in
front of the rows after it.

The width that is left is at least one cell, whatever the prefix takes, and the
prefix is as long as the message says (`hanging_prefix_overflows`).  Rows fit
exactly if the prefixes of lines that wrap leave room for every single character
behind them (`render_fits_iff`); all other rows fit.

How wide a character is shown is a parameter, `w`, with what is known of it in
`Widths`.  Styles are a parameter too (`Styles`).
-/

import Why2.Chat.Wrap
import Why2.Chat.Markup
import Mathlib.Algebra.GroupWithZero.Nat
import Mathlib.Algebra.Order.BigOperators.Group.List
import Mathlib.Algebra.Order.Group.Nat

namespace Why2
namespace Render

open Math (textWidth blanks)
open Markup (Modifier Segment maxLang)
open Wrap (Span wrapLine cells cellsWidth widest)

variable {σ : Type}

/-- `ratatui::style::Style` and the styles of `theme`. -/
structure Styles (σ : Type) where
  raw : σ
  code : σ
  codeBar : σ
  codeLang : σ
  codeBlock : σ
  link : σ
  dim : σ
  quote : σ
  bullet : σ
  rule : σ
  heading : σ
  math : σ
  hasFg : σ → Bool
  patch : σ → σ → σ
  addModifier : σ → Modifier → σ

/-- `Modifier::bitor`. -/
def union (a b : Modifier) : Modifier :=
  ⟨a.bold || b.bold, a.italic || b.italic, a.underlined || b.underlined, a.crossedOut || b.crossedOut⟩

/-- `active`; the innermost emphasis is last. -/
def active (stack : List Modifier) : Modifier := stack.foldl union {}

/-- `consts::GUTTER`. -/
def gutter : ℕ := 2

/-- `consts::TAB`. -/
def tab : ℕ := 4

/-- `consts::MAX_HEADING`. -/
def maxHeading : ℕ := 3

/-- `consts::MAX_ORDINAL`. -/
def maxOrdinal : ℕ := 9

/-- `consts::MIN_RULE`. -/
def minRule : ℕ := 3

/-- `consts::BULLET`. -/
def bullet : List Char := ['•', ' ']

/-- `consts::QUOTE`, and what a row of a code block opens with. -/
def bar : List Char := ['▏', ' ']

/-- The message as the loop of `render` sees it. -/
structure State (σ : Type) where
  out : List (List (Span σ))
  current : List (Span σ)
  isOpen : Bool
  start : Bool
  line : σ
  hanging : List (Span σ)
  stack : List Modifier
  /-- The lines that were wrapped with their hanging prefixes: nothing reads them. -/
  wrapped : List (List (Span σ) × List (Span σ))

/-! ### Line markers -/

/-- `Marker`. -/
structure Marker (σ : Type) where
  spans : List (Span σ)
  hanging : List (Span σ)
  style : σ
  rest : List Char

/-- `str::trim_start_matches(' ')`. -/
def trimBlanks (text : List Char) : List Char := text.dropWhile (· = ' ')

section

variable (styles : Styles σ)

/-- `heading`. -/
def heading (style : σ) (level : ℕ) : σ :=
  let style := if styles.hasFg style then style else styles.patch style styles.heading
  styles.addModifier style (if level = 1 then { bold := true, underlined := true } else { bold := true })

/-- `marker`.  `w` is read for the bullet, which is drawn in another character than it was typed in. -/
def marker (w : Char → ℕ) (part : List Char) (style : σ) : Option (Marker σ) :=
  let body := trimBlanks part
  let spaces := part.length - body.length
  let indent : Span σ := ⟨styles.raw, blanks spaces⟩
  let hashes := (body.takeWhile (· = '#')).length
  let digits := (body.takeWhile Char.isDigit).length
  if 1 ≤ hashes ∧ hashes ≤ maxHeading ∧ (body.drop hashes).head? = some ' ' then
    some ⟨[indent], [indent], heading styles style hashes, trimBlanks (body.drop hashes)⟩
  else if body.take 2 = ['>', ' '] ∨ body = ['>'] then
    some ⟨[indent, ⟨styles.quote, bar⟩], [indent, ⟨styles.quote, bar⟩], style, body.drop 2⟩
  else if body.take 2 = ['-', ' '] ∨ body.take 2 = ['*', ' '] ∨ body.take 2 = ['+', ' '] then
    some ⟨[indent, ⟨styles.bullet, bullet⟩], [⟨styles.raw, blanks (spaces + textWidth w bullet)⟩], style,
      trimBlanks (body.drop 2)⟩
  else if 1 ≤ digits ∧ digits ≤ maxOrdinal ∧ (body[digits]? = some '.' ∨ body[digits]? = some ')') ∧
      body[digits + 1]? = some ' ' then
    some ⟨[indent, ⟨styles.bullet, body.take (digits + 2)⟩], [⟨styles.raw, blanks (spaces + digits + 2)⟩], style,
      trimBlanks (body.drop (digits + 2))⟩
  else none

/-- `is_rule`. -/
def isRule (text : List Char) : Bool :=
  let text := (text.dropWhile isWhitespace).rdropWhile isWhitespace
  match text.head? with
  | none => false
  | some first =>
    (first = '-' || first = '*' || first = '_') && minRule ≤ text.length && text.all (· = first)

/-! ### Rows -/

variable (w : Char → ℕ) (width : ℕ)

/-- How wide spans are shown. -/
def spansWidth (spans : List (Span σ)) : ℕ := (spans.map fun span => textWidth w span.content).sum

/-- `rule`. -/
def rule (current : List (Span σ)) : Span σ := ⟨styles.rule, .replicate (width - spansWidth w current) '─'⟩

/-- The rows of `flush`: the line is wrapped, and the rows but the first one open with the prefix.
The prefix is counted in a `u16`. -/
def flushRows (current hanging : List (Span σ)) : List (List (Span σ)) :=
  let hang := spansWidth w hanging % 2 ^ 16
  (wrapLine w current (width - hang)).zipIdx.map fun (row, i) =>
    if i > 0 ∧ hanging ≠ [] then hanging ++ row else row

/-- `flush`. -/
def flush (s : State σ) : State σ :=
  if !s.isOpen then s
  else
    { s with
      out := s.out ++ flushRows w width s.current s.hanging
      current := []
      isOpen := false
      wrapped := s.wrapped ++ [(s.current, s.hanging)] }

/-- `close`. -/
def close (s : State σ) : State σ := if s.current = [] then { s with isOpen := false } else flush w width s

/-- `pad`. -/
def pad (text : List Char) (width : ℕ) : List Char := text ++ blanks (width - textWidth w text)

/-- `expand_tabs`. -/
def expandTabs (line : List Char) : List Char :=
  line.foldl (fun out c =>
    if c = '\t' then out ++ blanks (tab - out.length % tab) else if c = '\r' then out else out ++ [c]) []

/-- The locals of `split_cells`. -/
structure Cells where
  out : List (List Char)
  chunk : List Char
  column : ℕ

/-- `split_cells`, a character. -/
def splitCell (width : ℕ) (s : Cells) (c : Char) : Cells :=
  let s := if s.column + w c > width ∧ s.column > 0 then ⟨s.out ++ [s.chunk], [], 0⟩ else s
  ⟨s.out, s.chunk ++ [c], s.column + w c⟩

/-- `split_cells`. -/
def splitCells (text : List Char) (width : ℕ) : List (List Char) :=
  let s := text.foldl (splitCell w width) ⟨[], [], 0⟩
  s.out ++ [s.chunk]

/-- `row`. -/
def row (content : List Char) (style : σ) : List (Span σ) := [⟨styles.codeBar, bar⟩, ⟨style, content⟩]

/-- `block`: the rows of a code block. -/
def block (lang : Option (List Char)) (body : List Char) : List (List (Span σ)) :=
  let inner := max (width - gutter) 1
  let head := (lang.filter (· ≠ [])).toList.map fun lang => row styles (pad w lang inner) styles.codeLang
  head ++ (body.splitOn '\n').flatMap fun line =>
    (splitCells w (expandTabs line) inner).map fun chunk => row styles (pad w chunk inner) styles.codeBlock

/-- `math::math_style`. -/
def mathStyle (style : σ) : σ := if styles.hasFg style then style else styles.math

/-- `math::display`, with the style of a formula.  `none` where it stops the client. -/
def display (source : List Char) : Option (List (List (Span σ))) := do
  let nodes ← (Math.parse (String.ofList source)).toOption
  let block ← Math.layout w nodes true
  if block.width w + Math.indent.length > max width 1 then
    return wrapLine w [⟨styles.math, Math.linear nodes⟩] width
  else return block.rows.map fun row => [⟨styles.math, Math.indent ++ Math.trimEnd row⟩]

/-! ### The loop -/

/-- `current.push(Span::styled(text, style))`, on a line that has something on it now. -/
def State.put (s : State σ) (style : σ) (text : List Char) : State σ :=
  { s with current := s.current ++ [⟨style, text⟩], isOpen := true, start := false }

/-- `line.add_modifier(active(&stack))`. -/
def State.style (s : State σ) : σ := styles.addModifier s.line (active s.stack)

/-- What comes after the rows of a code block or of display math. -/
def State.own (s : State σ) (style : σ) (rows : List (List (Span σ))) : State σ :=
  { s with out := s.out ++ rows, line := style, start := true, hanging := [] }

/-- A newline in a text: the line is done. -/
def newline (style : σ) (s : State σ) : State σ :=
  { flush w width s with isOpen := true, start := true, line := style, hanging := [] }

/-- A part of a text, up to a newline. -/
def part (style : σ) (s : State σ) (text : List Char) : State σ :=
  if s.start && isRule text then
    { flush w width { s with isOpen := true, current := s.current ++ [rule styles w width s.current] } with
      start := false }
  else
    match if s.start then marker styles w text style else none with
    | some found =>
      let s := { s with
        current := s.current ++ found.spans
        hanging := found.hanging
        line := found.style
        start := false
        isOpen := true }
      if found.rest ≠ [] then s.put (s.style styles) found.rest else s
    | none => if text ≠ [] then s.put (s.style styles) text else s

/-- A segment. -/
def segment (style : σ) (s : State σ) : Segment → Option (State σ)
  | .text text =>
    match text.splitOn '\n' with
    | [] => some s
    | first :: rest =>
      some (rest.foldl (fun s text => part styles w width style (newline w width style s) text)
        (part styles w width style s first))
  | .raw text => some (s.put (s.style styles) text)
  | .code code =>
    some (s.put (styles.addModifier styles.code (active s.stack)) (code.map fun c => if c = '\n' then ' ' else c))
  | .link text url =>
    let s := s.put styles.link text
    some (if url ≠ text then s.put styles.dim ([' ', '('] ++ url ++ [')']) else s)
  | .math source => do
    let text ← Math.inline w (String.ofList source)
    return s.put (mathStyle styles (s.style styles)) text
  | .block lang body => some ((close w width s).own style (block styles w width lang body))
  | .display source => do
    let rows ← display styles w width source
    return (close w width s).own style rows
  | .opens modifier => some { s with stack := s.stack ++ [modifier] }
  | .closes modifier =>
    some (if s.stack.getLast? = some modifier then { s with stack := s.stack.dropLast } else s)

/-- The state before the first segment. -/
def init (lead : List (Span σ)) (style : σ) : State σ := ⟨[], lead, true, true, style, [], [], []⟩

/-- The loop of `render` and the line that is left, with the lines that were wrapped.  `lead` is the
parameter `prefix`. -/
def run (alnum : Char → Bool) (lead : List (Span σ)) (text : String) (style : σ) (math : Bool) : Option (State σ) := do
  let s ← (Markup.parse alnum text math).foldlM (segment styles w width style) (init lead style)
  return if s.isOpen || s.out.isEmpty then flush w width s else s

/-- `render`.  `none` where math in the message stops the client. -/
def render (alnum : Char → Bool) (lead : List (Span σ)) (text : String) (style : σ) (math : Bool) :
    Option (List (List (Span σ))) := (run styles w width alnum lead text style math).map (·.out)

end

/-! ### Widths -/

/-- What is known of the width of a character (`unicode_width`): a printable one of ASCII takes one
cell and so does the bar, and none takes more than three. -/
structure Widths (w : Char → ℕ) : Prop where
  ascii : ∀ c, ' ' ≤ c → c ≤ '~' → w c = 1
  bar : w '▏' = 1
  le_three : ∀ c, w c ≤ 3

/-- A row is no wider than the pane, or than its widest character. -/
def Fits (w : Char → ℕ) (width : ℕ) (row : List (Span σ)) : Prop := spansWidth w row ≤ max width (widest w row)

variable {w : Char → ℕ} {width : ℕ}

/-- The widths of spans add up. -/
theorem spansWidth_append (a b : List (Span σ)) : spansWidth w (a ++ b) = spansWidth w a + spansWidth w b := by
  rw [spansWidth, List.map_append, List.sum_append, spansWidth, spansWidth]

/-- The width of spans is that of their cells. -/
theorem cellsWidth_cells (spans : List (Span σ)) : cellsWidth w (cells spans) = spansWidth w spans := by
  induction spans with
  | nil => rfl
  | cons span spans ih =>
    have hcells : cells (span :: spans) = span.content.map (span.style, ·) ++ cells spans := List.flatMap_cons
    rw [hcells, Wrap.cellsWidth_append, Wrap.cellsWidth_styled, ih]
    exact (List.sum_cons ..).symm

/-- No character is wider than three cells. -/
theorem Widths.widest_le (h : Widths w) (row : List (Span σ)) : widest w row ≤ 3 :=
  List.max_le_of_forall_le _ _ fun n hn => by
    obtain ⟨x, -, rfl⟩ := List.mem_map.1 hn
    exact h.le_three x.2

/-- In a pane of the least width, a row fits exactly if it is not wider than the pane. -/
theorem fits_iff (h : Widths w) (hwidth : gutter + maxLang ≤ width) (row : List (Span σ)) :
    Fits w width row ↔ spansWidth w row ≤ width := by
  have hwide : widest w row ≤ width := (h.widest_le row).trans (le_trans (by decide) hwidth)
  rw [Fits, max_eq_left hwide]

/-- A row is at least as wide as each of its characters. -/
theorem le_cellsWidth {row : List (σ × Char)} {x : σ × Char} (hx : x ∈ row) : w x.2 ≤ cellsWidth w row := by
  refine List.single_le_sum (fun _ _ => Nat.zero_le _) _ ?_
  rw [List.map_map]
  exact List.mem_map_of_mem hx

/-- A row as wide as one of its characters, or no wider than the pane, fits. -/
theorem Widths.spansWidth_le (h : Widths w) (hwidth : gutter + maxLang ≤ width) {row : List (Span σ)} {n : ℕ}
    (hn : n ≤ width) (hrow : Wrap.RowFits w n (cells row)) : spansWidth w row ≤ width := by
  have hthree : 3 ≤ width := le_trans (by decide) hwidth
  rw [Wrap.RowFits, cellsWidth_cells] at hrow
  obtain hle | ⟨x, -, heq⟩ := hrow
  · exact hle.trans hn
  · rw [heq]
    exact (h.le_three x.2).trans hthree

/-! ### Lines that wrap -/

/-- The prefix leaves room, in the pane, for every character that the line has on the rows it wraps
onto. -/
def Room (w : Char → ℕ) (width : ℕ) (line : List (Span σ) × List (Span σ)) : Prop :=
  ∀ row ∈ (wrapLine w line.1 (width - spansWidth w line.2 % 2 ^ 16)).tail,
    spansWidth w line.2 ≤ width ∧ ∀ x ∈ cells row, spansWidth w line.2 + w x.2 ≤ width

/-- The rows of a text are a first one, and others behind the hanging indent. -/
theorem flushRows_eq (w : Char → ℕ) (width : ℕ) (current hanging : List (Span σ)) :
    ∃ first rest, wrapLine w current (width - spansWidth w hanging % 2 ^ 16) = first :: rest ∧
      flushRows w width current hanging = first :: rest.map (hanging ++ ·) := by
  have hne : wrapLine w current (width - spansWidth w hanging % 2 ^ 16) ≠ [] := by
    rw [wrapLine]
    exact List.append_ne_nil_of_right_ne_nil _ (List.cons_ne_nil _ _)
  obtain ⟨first, rest, hrows⟩ := List.exists_cons_of_ne_nil hne
  refine ⟨first, rest, hrows, ?_⟩
  have hrest : ∀ k, 0 < k → (rest.zipIdx k).map
      (fun (row, i) => if i > 0 ∧ hanging ≠ [] then hanging ++ row else row) = rest.map (hanging ++ ·) := by
    clear hrows
    induction rest with
    | nil => exact fun _ _ => rfl
    | cons row rest ih =>
      intro k hk
      rw [List.zipIdx_cons, List.map_cons, ih (k + 1) (Nat.succ_pos k), List.map_cons]
      by_cases hempty : hanging = []
      · simp only [hempty, ne_eq, not_true_eq_false, and_false, if_false, List.nil_append]
      · simp only [hk, hempty, ne_eq, not_false_eq_true, and_self, if_true]
  rw [flushRows, hrows, List.zipIdx_cons, List.map_cons, hrest _ (Nat.succ_pos 0)]
  simp only [gt_iff_lt, Nat.lt_irrefl, false_and, if_false]

/-- A row behind the prefix is in the pane exactly if there is room for its characters. -/
theorem hanging_row_iff (hu16 : width < 2 ^ 16) {hang : ℕ} {row : List (Span σ)}
    (hrow : Wrap.RowFits w (max (width - hang % 2 ^ 16) 1) (cells row)) :
    hang + spansWidth w row ≤ width ↔ hang ≤ width ∧ ∀ x ∈ cells row, hang + w x.2 ≤ width := by
  rw [← cellsWidth_cells]
  constructor
  · intro hle
    refine ⟨(Nat.le_add_right _ _).trans hle, fun x hx => ?_⟩
    exact (Nat.add_le_add_left (le_cellsWidth hx) _).trans hle
  · rintro ⟨hhang, hroom⟩
    rw [Nat.mod_eq_of_lt (hhang.trans_lt hu16)] at hrow
    obtain hle | ⟨x, hx, heq⟩ := hrow
    · obtain rfl | hlt := hhang.eq_or_lt
      · -- no cell is left: nothing on the row is shown
        have hzero : cellsWidth w (cells row) = 0 := by
          refine List.sum_eq_zero fun n hn => ?_
          obtain ⟨c, hc, rfl⟩ := List.mem_map.1 hn
          obtain ⟨x, hx, rfl⟩ := List.mem_map.1 hc
          have := hroom x hx
          omega
        rw [hzero, Nat.add_zero]
      · omega
    · rw [heq]
      exact hroom x hx

/-- **A line that is wrapped** fits the pane exactly if its prefix leaves room. -/
theorem flushRows_fit_iff (h : Widths w) (hwidth : gutter + maxLang ≤ width) (hu16 : width < 2 ^ 16)
    (line : List (Span σ) × List (Span σ)) :
    (∀ row ∈ flushRows w width line.1 line.2, spansWidth w row ≤ width) ↔ Room w width line := by
  obtain ⟨first, rest, hrows, heq⟩ := flushRows_eq w width line.1 line.2
  have hfits := Wrap.rowFits_wrapLine w line.1 (width - spansWidth w line.2 % 2 ^ 16)
  rw [hrows, List.forall_mem_cons] at hfits
  have hone : 1 ≤ width := le_trans (by decide) hwidth
  have hfirst : spansWidth w first ≤ width :=
    h.spansWidth_le hwidth (max_le (Nat.sub_le _ _) hone) hfits.1
  rw [Room, heq, hrows, List.forall_mem_cons, List.forall_mem_map, List.tail_cons, and_iff_right hfirst]
  refine forall₂_congr fun row hrow => ?_
  rw [spansWidth_append]
  exact hanging_row_iff hu16 (hfits.2 row hrow)

/-! ### Code blocks -/

/-- A space takes one cell. -/
theorem Widths.blank (h : Widths w) : w ' ' = 1 := h.ascii ' ' (by decide) (by decide)

/-- A text of narrow characters is as wide as it is long. -/
theorem textWidth_eq_length {text : List Char} (h : ∀ c ∈ text, w c = 1) : textWidth w text = text.length := by
  induction text with
  | nil => rfl
  | cons c text ih =>
    have hcons : textWidth w (c :: text) = w c + textWidth w text := List.sum_cons ..
    rw [List.forall_mem_cons] at h
    rw [hcons, h.1, ih h.2, List.length_cons, Nat.add_comm]

/-- A padded text is as wide as asked for. -/
theorem textWidth_pad (h : Widths w) {text : List Char} {inner : ℕ} (htext : textWidth w text ≤ inner) :
    textWidth w (pad w text inner) = inner := by
  rw [pad, Math.textWidth_append, Math.textWidth_blanks h.blank]
  omega

/-- A row of a code block takes the pane. -/
theorem spansWidth_row (h : Widths w) (styles : Styles σ) (style : σ) {text : List Char} {inner : ℕ}
    (htext : textWidth w text ≤ inner) : spansWidth w (row styles (pad w text inner) style) = gutter + inner := by
  have hbar : textWidth w bar = gutter := by
    change w '▏' + (w ' ' + 0) = 2
    rw [h.bar, h.blank]
  have hrow : spansWidth w (row styles (pad w text inner) style) =
      textWidth w bar + (textWidth w (pad w text inner) + 0) := rfl
  rw [hrow, hbar, textWidth_pad h htext, Nat.add_zero]

/-- What the loop of `split_cells` keeps. -/
structure Cells.Within (w : Char → ℕ) (inner : ℕ) (s : Cells) : Prop where
  column_eq : s.column = textWidth w s.chunk
  column_le : s.column ≤ inner
  out_le : ∀ chunk ∈ s.out, textWidth w chunk ≤ inner

/-- One more character keeps the chunks within the width. -/
theorem Cells.Within.splitCell {inner : ℕ} {s : Cells} (hs : s.Within w inner) {c : Char} (hc : w c ≤ inner) :
    (splitCell w inner s c).Within w inner := by
  have happend : ∀ chunk : List Char, textWidth w (chunk ++ [c]) = textWidth w chunk + w c := fun chunk => by
    rw [Math.textWidth_append]
    exact congrArg _ (Nat.add_zero _)
  unfold Render.splitCell
  split_ifs with hbreak
  · refine ⟨(happend []).symm ▸ rfl, (Nat.zero_add _).trans_le hc, ?_⟩
    refine List.forall_mem_append.2 ⟨hs.out_le, List.forall_mem_singleton.2 ?_⟩
    rw [← hs.column_eq]
    exact hs.column_le
  · have hle : s.column + w c ≤ inner := by omega
    exact ⟨by rw [happend, ← hs.column_eq], hle, hs.out_le⟩

/-- The chunks of a text are within the width. -/
theorem splitCells_le {inner : ℕ} (hall : ∀ c, w c ≤ inner) (text : List Char) :
    ∀ chunk ∈ splitCells w text inner, textWidth w chunk ≤ inner := by
  have hfold : ∀ s : Cells, s.Within w inner → (text.foldl (splitCell w inner) s).Within w inner := by
    induction text with
    | nil => exact fun _ hs => hs
    | cons c text ih => exact fun s hs => ih _ (hs.splitCell (hall c))
  have hend := hfold ⟨[], [], 0⟩ ⟨rfl, Nat.zero_le _, fun _ h => by cases h⟩
  refine List.forall_mem_append.2 ⟨hend.out_le, List.forall_mem_singleton.2 ?_⟩
  rw [← hend.column_eq]
  exact hend.column_le

/-- The language of a code block is short enough for the narrowest pane. -/
def Labelled : Segment → Prop
  | .block lang _ => ∀ text ∈ lang, text.length ≤ maxLang ∧ ∀ c ∈ text, ' ' ≤ c ∧ c ≤ '~'
  | _ => True

/-- **The rows of a block fit**, with its border. -/
theorem block_fits (h : Widths w) (hwidth : gutter + maxLang ≤ width) (styles : Styles σ) {lang : Option (List Char)}
    {body : List Char} (hlang : Labelled (.block lang body)) :
    ∀ row ∈ block styles w width lang body, spansWidth w row ≤ width := by
  have hgutter : gutter = 2 := rfl
  have hmax : maxLang = 20 := rfl
  have hinner : max (width - gutter) 1 = width - gutter := max_eq_left (by omega)
  have hsum : gutter + (width - gutter) = width := by omega
  rw [block, hinner]
  refine List.forall_mem_append.2 ⟨fun row hrow => ?_, fun row hrow => ?_⟩
  · obtain ⟨text, htext, rfl⟩ := List.mem_map.1 hrow
    have hmem : text ∈ lang := (Option.mem_filter_iff.1 (Option.mem_toList.1 htext)).1
    obtain ⟨hlength, hascii⟩ := hlang text hmem
    have hone := textWidth_eq_length fun c hc => h.ascii c (hascii c hc).1 (hascii c hc).2
    rw [spansWidth_row h styles _ (by omega), hsum]
  · obtain ⟨line, -, hrow⟩ := List.mem_flatMap.1 hrow
    obtain ⟨chunk, hchunk, rfl⟩ := List.mem_map.1 hrow
    have hall : ∀ c, w c ≤ width - gutter := fun c => (h.le_three c).trans (by omega)
    rw [spansWidth_row h styles _ (splitCells_le hall _ chunk hchunk), hsum]

/-! ### Display math -/

/-- The texts of the rows are those of `Math.display`. -/
theorem rowText_display (styles : Styles σ) (w : Char → ℕ) (width : ℕ) (source : List Char) :
    (display styles w width source).map (·.map Wrap.rowText) = Math.display w (String.ofList source) width := by
  unfold display Math.display
  cases (Math.parse (String.ofList source)).toOption with
  | none => rfl
  | some nodes =>
    simp only [Option.bind_eq_bind, Option.bind_some]
    cases Math.layout w nodes true with
    | none => rfl
    | some block =>
      simp only [Option.bind_some]
      split_ifs
      · exact congrArg some (Wrap.rowText_wrapLine ..)
      · refine congrArg some ((List.map_map ..).trans ?_)
        refine List.map_congr_left fun row _ => ?_
        exact List.flatMap_singleton ..

/-- The width of a row is that of its text. -/
theorem spansWidth_eq_rowText (row : List (Span σ)) : spansWidth w row = textWidth w (Wrap.rowText row) := by
  induction row with
  | nil => rfl
  | cons span row ih =>
    have htext : Wrap.rowText (span :: row) = span.content ++ Wrap.rowText row := List.flatMap_cons
    rw [htext, Math.textWidth_append, ← ih]
    exact List.sum_cons ..

/-- **The rows of a formula fit.** -/
theorem display_fits (h : Widths w) (hwidth : gutter + maxLang ≤ width) (styles : Styles σ) {source : List Char}
    {rows : List (List (Span σ))} (hrows : display styles w width source = some rows) :
    ∀ row ∈ rows, spansWidth w row ≤ width := by
  have hone : 1 ≤ width := le_trans (by decide) hwidth
  have htexts := rowText_display styles w width source
  rw [hrows, Option.map_some] at htexts
  unfold display at hrows
  obtain ⟨nodes, hnodes, hrows⟩ := Option.bind_eq_some_iff.1 hrows
  obtain ⟨block, hblock, hrows⟩ := Option.bind_eq_some_iff.1 hrows
  split_ifs at hrows with hwide
  · obtain rfl := Option.some.inj hrows
    intro row hrow
    exact h.spansWidth_le hwidth (max_le le_rfl hone) (Wrap.rowFits_wrapLine w _ width row hrow)
  · have hparse : Math.parse (String.ofList source) = .ok nodes := by
      cases hres : Math.parse (String.ofList source) with
      | error e =>
        rw [hres] at hnodes
        cases hnodes
      | ok parsed =>
        rw [hres] at hnodes
        rw [Option.some.inj hnodes]
    obtain ⟨lines, hlines, hfit⟩ := Math.display_fits h.blank ⟨nodes, block, hparse, hblock, Nat.not_lt.1 hwide⟩
    rw [← htexts] at hlines
    intro row hrow
    rw [spansWidth_eq_rowText]
    exact hfit _ (Option.some.inj hlines ▸ List.mem_map_of_mem hrow)

/-! ### The languages the parser finds -/

open Markup (Pass)

/-- The characters of a language are in ASCII. -/
theorem ascii_of_isLanguage {c : Char}
    (h : (c.isAlphanum || c = '+' || c = '#' || c = '-' || c = '_' || c = '.') = true) : ' ' ≤ c ∧ c ≤ '~' := by
  have halnum : c.isAlphanum = (decide (c.val ≥ 'A'.val ∧ c.val ≤ 'Z'.val) ||
      (decide (c.val ≥ 'a'.val) && decide (c.val ≤ 'z'.val)) ||
      (decide (c.val ≥ '0'.val) && decide (c.val ≤ '9'.val))) := rfl
  have hle : 32 ≤ c.val.toNat ∧ c.val.toNat ≤ 126 := by
    simp only [halnum, Bool.or_eq_true, decide_eq_true_eq, Bool.and_eq_true, UInt32.le_iff_toNat_le, ge_iff_le] at h
    obtain ((((h | rfl) | rfl) | rfl) | rfl) | rfl := h
    · change (65 ≤ c.val.toNat ∧ c.val.toNat ≤ 90 ∨ 97 ≤ c.val.toNat ∧ c.val.toNat ≤ 122) ∨
        48 ≤ c.val.toNat ∧ c.val.toNat ≤ 57 at h
      omega
    all_goals decide
  exact ⟨UInt32.le_iff_toNat_le.2 hle.1, UInt32.le_iff_toNat_le.2 hle.2⟩

/-- A text has at most as many characters as bytes. -/
theorem length_le_utf8Size (text : List Char) : text.length ≤ (text.map Char.utf8Size).sum := by
  induction text with
  | nil => exact le_rfl
  | cons c text ih =>
    have hpos := Char.utf8Size_pos c
    rw [List.length_cons, List.map_cons, List.sum_cons]
    omega

/-- The language of a fence is short and in ASCII. -/
theorem labelled_fence (inner : List Char) : Labelled (Markup.fence inner) := by
  unfold Markup.fence
  by_cases hlang : '\n' ∈ inner ∧ Markup.isLanguage (inner.takeWhile (· ≠ '\n'))
  · simp only [if_pos hlang]
    intro text htext
    obtain rfl := Option.some.inj htext
    have hword := hlang.2
    simp only [Markup.isLanguage, Bool.and_eq_true, decide_eq_true_eq, List.all_eq_true] at hword
    exact ⟨(length_le_utf8Size _).trans hword.1.2, fun c hc => ascii_of_isLanguage (hword.2 c hc)⟩
  · simp only [if_neg hlang]
    intro text htext
    cases htext

/-- Every segment so far is labelled. -/
def AllLabelled (s : Pass) : Prop := ∀ segment ∈ s.out, Labelled segment

namespace AllLabelled

variable {s : Pass} {chars : List Char} {alnum : Char → Bool} {memo math : Bool}

/-- Text has no label. -/
theorem flushText (h : AllLabelled s) : AllLabelled s.flushText := by
  unfold Pass.flushText
  split_ifs
  · exact h
  · exact List.forall_mem_append.2 ⟨h, List.forall_mem_singleton.2 trivial⟩

/-- One more segment with a right label. -/
theorem push (h : AllLabelled s) {segment : Segment} (hsegment : Labelled segment) :
    AllLabelled (s.push segment) := List.forall_mem_append.2 ⟨h, List.forall_mem_singleton.2 hsegment⟩

/-- The table has no labels. -/
theorem seen (h : AllLabelled s) (kind : ℕ) (found : Option ℕ) : AllLabelled (s.seen kind found) := h

/-- `backtick` gives right labels. -/
theorem backtick (h : AllLabelled s) : AllLabelled (Markup.backtick memo chars s).1 := by
  unfold Markup.backtick
  simp only
  split_ifs
  · exact h
  · split
    · exact h.seen _ _
    · exact (h.seen _ _).flushText.push (labelled_fence _)
  · split
    · exact h.seen _ _
    · split_ifs
      · exact h.seen _ _
      · exact (h.seen _ _).flushText.push trivial

/-- `dollar` gives no labels. -/
theorem dollar (h : AllLabelled s) : AllLabelled (Markup.dollar memo chars s).1 := by
  unfold Markup.dollar
  simp only
  repeat' split
  all_goals first
    | exact h
    | exact h.seen _ _
    | exact (h.seen _ _).flushText.push trivial

/-- `link` gives no labels. -/
theorem link (h : AllLabelled s) : AllLabelled (Markup.link memo chars s).1 := by
  unfold Markup.link
  simp only
  split
  · exact h
  split
  · exact h.seen _ _
  split
  · exact h.seen _ _
  split
  · exact h.seen _ _
  split
  · exact h.seen _ _
  · exact (h.seen _ _).flushText.push trivial

/-- A run that opens gives no labels. -/
theorem openRun (h : AllLabelled s) (c : Char) :
    AllLabelled (Markup.emphasis.openRun alnum memo chars math c s).1 := by
  unfold Markup.emphasis.openRun
  simp only
  split
  · exact h
  split
  · exact h
  split
  · exact h
  split
  · exact h
  split
  · exact h.seen _ _
  split
  · exact h.seen _ _
  · exact (h.seen _ _).flushText.push trivial

/-- `emphasis` gives no labels. -/
theorem emphasis (h : AllLabelled s) (c : Char) : AllLabelled (Markup.emphasis alnum memo chars math c s).1 := by
  unfold Markup.emphasis
  split
  · split_ifs
    · exact h.flushText.push trivial
    · exact h.openRun c
  · exact h.openRun c

/-- A turn gives right labels. -/
theorem step (h : AllLabelled s) : AllLabelled (Markup.step alnum memo chars math s) := by
  have hadvance : ∀ (c : Char) (r : Pass × Option ℕ), AllLabelled r.1 → AllLabelled (Markup.advance c r) := by
    rintro c ⟨t, _ | next⟩ ht <;> exact ht
  unfold Markup.step
  split
  · exact h
  · split_ifs
    · exact h.flushText.push trivial
    · refine hadvance _ _ ?_
      unfold Markup.take
      split_ifs
      · exact h.backtick
      · exact h.dollar
      · exact h.link
      · exact h.emphasis _
      · exact h

end AllLabelled

/-- **The language of every code block is short.** -/
theorem labelled_parse (alnum : Char → Bool) (text : String) (math : Bool) :
    ∀ segment ∈ Markup.parse alnum text math, Labelled segment := by
  have hpass : ∀ n, AllLabelled (Markup.pass alnum true text.toList math n) := by
    intro n
    induction n with
    | zero => exact fun _ h => by cases h
    | succ n ih =>
      rw [Markup.pass, Function.iterate_succ_apply']
      exact ih.step
  exact (hpass _).flushText

/-! ### Runs -/

/-- The rows so far are in the pane exactly if the lines that were wrapped left room. -/
def Balanced (w : Char → ℕ) (width : ℕ) (s : State σ) : Prop :=
  (∀ row ∈ s.out, spansWidth w row ≤ width) ↔ ∀ line ∈ s.wrapped, Room w width line

/-- At the start there are no rows. -/
theorem balanced_init (lead : List (Span σ)) (style : σ) : Balanced w width (init lead style) :=
  iff_of_true (fun _ h => by cases h) (fun _ h => by cases h)

section

variable (h : Widths w) (hwidth : gutter + maxLang ≤ width) (hu16 : width < 2 ^ 16) {s : State σ}
include h hwidth hu16

/-- Rows that are flushed fit. -/
theorem balanced_flush (hs : Balanced w width s) : Balanced w width (flush w width s) := by
  unfold flush
  split_ifs
  · exact hs
  · refine List.forall_mem_append.trans (Iff.trans ?_ List.forall_mem_append.symm)
    rw [List.forall_mem_singleton, ← flushRows_fit_iff h hwidth hu16]
    exact and_congr_left' hs

/-- So do rows that fit by themselves. -/
theorem balanced_own (hs : Balanced w width s) {rows : List (List (Span σ))}
    (hrows : ∀ row ∈ rows, spansWidth w row ≤ width) (style : σ) :
    Balanced w width ((close w width s).own style rows) := by
  have hclose : Balanced w width (close w width s) := by
    unfold close
    split_ifs
    · exact hs
    · exact balanced_flush h hwidth hu16 hs
  refine List.forall_mem_append.trans ?_
  rw [and_iff_left hrows]
  exact hclose

/-- A part of a text keeps the rows within the width. -/
theorem balanced_part (hs : Balanced w width s) (styles : Styles σ) (style : σ) (text : List Char) :
    Balanced w width (part styles w width style s text) := by
  unfold part
  split
  · exact balanced_flush h hwidth hu16 hs
  · generalize (if s.start = true then marker styles w text style else none) = found
    cases found with
    | none =>
      dsimp only
      split_ifs <;> exact hs
    | some found =>
      dsimp only
      split_ifs <;> exact hs

/-- A segment keeps the rows within the width. -/
theorem balanced_segment (hs : Balanced w width s) (styles : Styles σ) (style : σ) {next : Segment}
    (hlabel : Labelled next) {s' : State σ} (hnext : segment styles w width style s next = some s') :
    Balanced w width s' := by
  cases next with
  | text text =>
    have hrest : ∀ (rest : List (List Char)) (s : State σ), Balanced w width s → Balanced w width
        (rest.foldl (fun s text => part styles w width style (newline w width style s) text) s) := by
      intro rest
      induction rest with
      | nil => exact fun _ hs => hs
      | cons text rest ih =>
        intro s hs
        have hnewline : Balanced w width (newline w width style s) := balanced_flush h hwidth hu16 hs
        exact ih _ (balanced_part h hwidth hu16 hnewline styles style text)
    simp only [segment] at hnext
    split at hnext
    · exact Option.some.inj hnext ▸ hs
    · exact Option.some.inj hnext ▸ hrest _ _ (balanced_part h hwidth hu16 hs styles style _)
  | raw text => exact Option.some.inj hnext ▸ hs
  | code code => exact Option.some.inj hnext ▸ hs
  | link text url =>
    rw [← Option.some.inj hnext]
    split_ifs <;> exact hs
  | math source =>
    obtain ⟨text, -, hnext⟩ := Option.bind_eq_some_iff.1 hnext
    exact Option.some.inj hnext ▸ hs
  | block lang body =>
    exact Option.some.inj hnext ▸ balanced_own h hwidth hu16 hs (block_fits h hwidth styles hlabel) style
  | display source =>
    obtain ⟨rows, hrows, hnext⟩ := Option.bind_eq_some_iff.1 hnext
    exact Option.some.inj hnext ▸ balanced_own h hwidth hu16 hs (display_fits h hwidth styles hrows) style
  | opens modifier => exact Option.some.inj hnext ▸ hs
  | closes modifier =>
    rw [← Option.some.inj hnext]
    split_ifs <;> exact hs

/-- So do the segments of a message. -/
theorem balanced_foldlM (styles : Styles σ) (style : σ) {segments : List Segment}
    (hlabels : ∀ next ∈ segments, Labelled next) {s s' : State σ} (hs : Balanced w width s)
    (hrun : segments.foldlM (segment styles w width style) s = some s') : Balanced w width s' := by
  induction segments generalizing s with
  | nil => exact Option.some.inj hrun ▸ hs
  | cons next segments ih =>
    rw [List.forall_mem_cons] at hlabels
    rw [List.foldlM_cons] at hrun
    obtain ⟨t, ht, hrun⟩ := Option.bind_eq_some_iff.1 hrun
    exact ih hlabels.2 (balanced_segment h hwidth hu16 hs styles style hlabels.1 ht) hrun

/-- **The rows of a message fit**, at every moment of the run. -/
theorem balanced_run (styles : Styles σ) (alnum : Char → Bool) (lead : List (Span σ)) (text : String) (style : σ)
    (math : Bool) {s : State σ} (hrun : run styles w width alnum lead text style math = some s) :
    Balanced w width s := by
  obtain ⟨t, ht, hrun⟩ := Option.bind_eq_some_iff.1 hrun
  have hbalanced := balanced_foldlM h hwidth hu16 styles style (labelled_parse alnum text math)
    (balanced_init lead style) ht
  rw [← Option.some.inj hrun]
  split_ifs
  · exact balanced_flush h hwidth hu16 hbalanced
  · exact hbalanced

end

/-- The lines of a message as `render` wraps them, each with the prefix of the rows it wraps onto. -/
def lines (styles : Styles σ) (w : Char → ℕ) (width : ℕ) (alnum : Char → Bool) (lead : List (Span σ)) (text : String)
    (style : σ) (math : Bool) : Option (List (List (Span σ) × List (Span σ))) :=
  (run styles w width alnum lead text style math).map (·.wrapped)

/-- **The rows of a message fit the pane** exactly if every line of it that wraps has a hanging
prefix that leaves room for each character on the rows it wraps onto. -/
theorem render_fits_iff (h : Widths w) (hwidth : gutter + maxLang ≤ width) (hu16 : width < 2 ^ 16) (styles : Styles σ)
    (alnum : Char → Bool) (lead : List (Span σ)) (text : String) (style : σ) (math : Bool) :
    (∀ rows, render styles w width alnum lead text style math = some rows → ∀ row ∈ rows, Fits w width row) ↔
      ∀ wrapped, lines styles w width alnum lead text style math = some wrapped →
        ∀ line ∈ wrapped, Room w width line := by
  unfold render lines
  cases hrun : run styles w width alnum lead text style math with
  | none => exact iff_of_true (fun _ h => by cases h) (fun _ h => by cases h)
  | some s =>
    simp only [Option.map_some, Option.some.injEq, forall_eq', fits_iff h hwidth]
    exact balanced_run h hwidth hu16 styles alnum lead text style math hrun

/-- Styles that say nothing. -/
def plain : Styles Unit :=
  ⟨(), (), (), (), (), (), (), (), (), (), (), (), fun _ => true, fun _ _ => (), fun _ _ => ()⟩

/-- One cell for every character that is no control character. -/
def narrow (c : Char) : ℕ := if isControl c then 0 else 1

/-- Characters of one cell are such widths. -/
theorem widths_narrow : Widths narrow where
  ascii c hle hge := by
    have hlow : 32 ≤ c.val.toNat := UInt32.le_iff_toNat_le.1 hle
    have hhigh : c.val.toNat ≤ 126 := UInt32.le_iff_toNat_le.1 hge
    refine if_neg fun hcontrol => ?_
    rw [isControl, Bool.or_eq_true, Bool.and_eq_true, decide_eq_true_eq, decide_eq_true_eq, decide_eq_true_eq] at hcontrol
    obtain hc | ⟨hc, -⟩ := hcontrol
    · have : c.val.toNat ≤ 31 := UInt32.le_iff_toNat_le.1 hc
      omega
    · have : 127 ≤ c.val.toNat := UInt32.le_iff_toNat_le.1 hc
      omega
  bar := by decide
  le_three c := by
    unfold narrow
    split_ifs <;> decide

instance (w : Char → ℕ) (width : ℕ) (row : List (Span σ)) : Decidable (Fits w width row) :=
  inferInstanceAs (Decidable (_ ≤ _))

instance (w : Char → ℕ) (width : ℕ) (line : List (Span σ) × List (Span σ)) : Decidable (Room w width line) :=
  inferInstanceAs (Decidable (∀ row ∈ _, _ ∧ ∀ x ∈ _, _))

/-- A list item that wraps in the narrowest pane. -/
theorem list_item_fits :
    (render plain narrow 22 Char.isAlphanum [] "- one two three four five six" () true).isSome = true ∧
      ∀ rows, render plain narrow 22 Char.isAlphanum [] "- one two three four five six" () true = some rows →
        ∀ row ∈ rows, Fits narrow 22 row := by
  refine ⟨by decide +kernel, ?_⟩
  refine (render_fits_iff widths_narrow (by decide) (by decide) plain _ _ _ _ _).2 fun wrapped hwrapped => ?_
  have hroom : (lines plain narrow 22 Char.isAlphanum [] "- one two three four five six" () true).all
      (fun wrapped => wrapped.all fun line => decide (Room narrow 22 line)) = true := by decide +kernel
  rw [hwrapped] at hroom
  exact fun line hline => of_decide_eq_true (List.all_eq_true.1 hroom line hline)

/-- In the narrowest pane, a list item under an indentation as wide as the pane: the rows that it
wraps onto are wider than the pane. -/
theorem hanging_prefix_overflows :
    ∃ rows, render plain narrow 22 Char.isAlphanum [] "x\n                      - y" () true = some rows ∧
      ∃ row ∈ rows, ¬Fits narrow 22 row := by
  have hover : (render plain narrow 22 Char.isAlphanum [] "x\n                      - y" () true).any
      (fun rows => rows.any fun row => !decide (Fits narrow 22 row)) = true := by decide +kernel
  obtain ⟨rows, hrows, hany⟩ := Option.any_eq_true _ _ |>.1 hover
  obtain ⟨row, hrow, hwide⟩ := List.any_eq_true.1 hany
  exact ⟨rows, hrows, row, hrow, by simpa using hwide⟩

end Render
end Why2
