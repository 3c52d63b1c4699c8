/-
# The layout of formulas

`inline` and `display` of `chat/src/bin/client/tui/math.rs`, over the parser of
`Why2.Chat.MathParse` and the blocks of `Why2.Chat.MathBlock`: nodes are laid out
in two dimensions, or on one row where there is no room.  Of a line only its text
is kept.  `none` stands for a panic, of the parser or of the layout.

The layout recurses over nodes, so a property of blocks that texts have and that
the operations keep holds of every block it returns (`one_closed`).  Two such
properties are used: that the baseline is in the block, whatever the widths of
characters are, and that all rows are of one width, where the blank is one cell
wide.  From the first, the layout never fails, and a formula is shown unless a
raw argument has its brace at the end of the source (`shown_iff_no_slip`); from
the second, blocks are rectangles and rows fit the pane (`blocks_rectangular`).
-/

import Why2.Chat.MathBlock
import Why2.Chat.MathReads
import Why2.Chat.Text

namespace Why2
namespace Math

/-- The characters of a text. -/
def plain (text : List Glyph) : List Char := text.map (·.char)

/-! ### One row -/

/-- `map_chars`. -/
def mapChars (text keys values : List Char) : Option (List Char) :=
  if text = [] then none
  else text.mapM fun c => (keys.findIdx? (· = c)).bind fun i => values[i]?

/-- `superscript`. -/
def superscript (text : List Char) : Option (List Char) :=
  mapChars text "0123456789+-=()abcdefghijklmnoprstuvwxyz".toList "⁰¹²³⁴⁵⁶⁷⁸⁹⁺⁻⁼⁽⁾ᵃᵇᶜᵈᵉᶠᵍʰⁱʲᵏˡᵐⁿᵒᵖʳˢᵗᵘᵛʷˣʸᶻ".toList

/-- `subscript`. -/
def subscript (text : List Char) : Option (List Char) :=
  mapChars text "0123456789+-=()aehijklmnoprstuvx".toList "₀₁₂₃₄₅₆₇₈₉₊₋₌₍₎ₐₑₕᵢⱼₖₗₘₙₒₚᵣₛₜᵤᵥₓ".toList

/-- A degree, as it is set before a root. -/
def degreeText (degree : Option (List Glyph)) : List Char :=
  (degree.bind fun text => superscript (plain text)).getD []

/-- A delimiter on one row: the invisible one is a blank. -/
def flatDelim (delim : Char) : Char := if delim = '.' then ' ' else delim

/-- `bracketed`, given the text of the node. -/
def bracketed (node : Node) (text : List Char) : List Char :=
  let isDelim := match node with
    | .delim .. => true
    | _ => false
  if text.length > 1 ∧ isDelim = false then '(' :: text ++ [')'] else text

/-- A script on one row; an empty one is nothing. -/
def linearScript (mark : Char) (small : List Char → Option (List Char)) (script : Option (List Char)) : List Char :=
  match script with
  | none => []
  | some text => if text = [] then [] else (small text).getD (mark :: '(' :: text ++ [')'])

mutual

/-- `linear_one`. -/
def linearOne : Node → List Char
  | .sym text => plain text
  | .big op => plain op
  | .list nodes => linear nodes
  | .frac num den => bracketed num (linearOne num) ++ '/' :: bracketed den (linearOne den)
  | .sqrt inner degree => degreeText degree ++ '√' :: '(' :: linearOne inner ++ [')']
  | .delim opening closing inner => flatDelim opening :: linearOne inner ++ [flatDelim closing]
  | .script base sup sub =>
    linearOne base ++ linearScript '_' subscript (linearOption sub) ++
      linearScript '^' superscript (linearOption sup)

/-- `linear`. -/
def linear : List Node → List Char
  | [] => []
  | node :: nodes => linearOne node ++ linear nodes

/-- `linear_one` of a script, if there is one. -/
def linearOption : Option Node → Option (List Char)
  | none => none
  | some node => some (linearOne node)

end

/-! ### Two dimensions -/

/-- The pieces of a tall bracket, top, middle and bottom. -/
def pieces (delim : Char) : Char × Char × Char :=
  if delim = '(' then ('⎛', '⎜', '⎝')
  else if delim = ')' then ('⎞', '⎟', '⎠')
  else if delim = '[' then ('⎡', '⎢', '⎣')
  else if delim = ']' then ('⎤', '⎥', '⎦')
  else if delim = '{' then ('⎧', '⎪', '⎩')
  else if delim = '}' then ('⎫', '⎪', '⎭')
  else if delim = '.' then (' ', ' ', ' ')
  else (delim, delim, delim)

/-- `stretch_delim`. -/
def stretchDelim (delim : Char) (height : ℕ) : Option (List (List Char)) :=
  (List.range height).mapM fun row =>
    if row = 0 then some [(pieces delim).1]
    else do
      let last ← checkedSub height 1
      return if row = last then [(pieces delim).2.2] else [(pieces delim).2.1]

/-- The bracket of `delimited`, as tall as what it holds. -/
def bar (delim : Char) (inner : Block) : Option Block := do
  return ⟨← stretchDelim delim inner.height, inner.baseline⟩

section

variable (w : Char → ℕ)

/-- `delimited`. -/
def delimited (opening closing : Char) (inner : Block) : Option Block :=
  if inner.isFlat ∨ opening = '.' ∧ closing = '.' then do
    (← (Block.text [flatDelim opening]).beside w inner).beside w (.text [flatDelim closing])
  else do
    let left ← bar opening inner
    let right ← bar closing inner
    (← left.beside w inner).beside w right

/-- A script that is flat, in small characters. -/
def smallScript (small : List Char → Option (List Char)) (script : Option (Block × List Char)) : Option (List Char) :=
  (script.filter fun s => s.1.isFlat).bind fun s => small s.2

/-- A script behind its mark. -/
def markedScript (mark : Char) (script : Option (Block × List Char)) : List Char :=
  match script with
  | none => []
  | some (_, text) => if text = [] then [] else mark :: '(' :: text ++ [')']

/-- `scripts`, of scripts that are laid out. -/
def scripts (sup sub : Option (Block × List Char)) (display : Bool) : Option Block :=
  match smallScript superscript sup, smallScript subscript sub, sup, sub with
  | some up, some down, _, _ => some (.text (down ++ up))
  | some up, none, _, none => some (.text up)
  | none, some down, none, _ => some (.text down)
  | _, _, sup, sub =>
    if display then Block.stack w (sup.toList.map (·.1)) .empty (sub.toList.map (·.1))
    else some (.text (markedScript '_' sub ++ markedScript '^' sup))

/-- Whether scripts go over and under a node. -/
def Node.isBig : Node → Bool
  | .big _ => true
  | _ => false

mutual

/-- `one`. -/
def one : Node → Bool → Option Block
  | .sym text, _ => some (.text (plain text))
  | .list nodes, display => layoutFrom .empty nodes display
  | .big op, _ => some (.text (plain op))
  | .frac num den, display => do
    let num ← one num display
    let den ← one den display
    let width := max (num.width w) (den.width w) + if !num.isFlat || !den.isFlat then 2 else 0
    Block.stack w [num] (.text (List.replicate width '─')) [den]
  | .sqrt inner degree, display => do
    let inner ← one inner display
    let root := degreeText degree
    if inner.isFlat then
      let row ← inner.rows[0]?
      let rule := blanks (textWidth w root + 1) ++ List.replicate (inner.width w) '─'
      Block.stack w [.text rule] (.text (root ++ '√' :: row)) []
    else
      let held ← delimited w '(' ')' inner
      (Block.text (root ++ ['√'])).beside w held
  | .delim opening closing inner, display => do
    let inner ← one inner display
    delimited w opening closing inner
  | .script base sup sub, display => do
    let block ← one base display
    let raised ← script sup
    let lowered ← script sub
    if base.isBig ∧ display then Block.stack w (raised.toList.map (·.1)) block (lowered.toList.map (·.1))
    else
      let held ← scripts w raised lowered display
      block.beside w held

/-- The loop of `layout`. -/
def layoutFrom : Block → List Node → Bool → Option Block
  | block, [], _ => some block
  | block, node :: nodes, display => do
    let next ← one node display
    let block ← block.beside w next
    layoutFrom block nodes display

/-- A script, laid out and on one row. -/
def script : Option Node → Option (Option (Block × List Char))
  | none => some none
  | some node => do
    let block ← one node false
    return some (block, linearOne node)

end

/-- `layout`. -/
def layout (nodes : List Node) (display : Bool) : Option Block := layoutFrom w .empty nodes display

/-! ### Lines -/

/-- `str::trim_end`. -/
def trimEnd (text : List Char) : List Char := text.rdropWhile isWhitespace

/-- `inline`. -/
def inline (source : String) : Option (List Char) := do
  let nodes ← (parse source).toOption
  let block ← layout w nodes false
  if block.isFlat then return trimEnd (← block.rows[0]?) else return linear nodes

/-- `consts::INDENT`. -/
def indent : List Char := blanks 2

/-- The state of `wrap_line`: the lines that are done, and the one that is not. -/
structure Wrap where
  out : List (List Char)
  current : List Char
  column : ℕ

/-- The line is done. -/
def Wrap.push (s : Wrap) : Wrap := ⟨s.out ++ [s.current], [], 0⟩

/-- `wrap_line`, a character of a word that is longer than the pane. -/
def wrapChar (width : ℕ) (s : Wrap) (c : Char) : Wrap :=
  let s := if s.column + w c > width ∧ s.column > 0 then s.push else s
  { s with current := s.current ++ [c], column := s.column + w c }

/-- `wrap_line`, a word. -/
def wrapWord (width : ℕ) (s : Wrap) (word : List Char) : Wrap :=
  let breaks := decide (s.column + textWidth w word > width ∧ s.column > 0)
  let s := if breaks then s.push else s
  if breaks && word.all isWhitespace then s
  else if textWidth w word > width then word.foldl (wrapChar w width) s
  else { s with current := s.current ++ word, column := s.column + textWidth w word }

/-- `split_words`. -/
def splitWords (text : List Char) : List (List Char) := text.splitBy fun c d => isWhitespace c == isWhitespace d

/-- `wrap_line`. -/
def wrapLine (text : List Char) (width : ℕ) : List (List Char) :=
  let s := (splitWords text).foldl (wrapWord w (max width 1)) ⟨[], [], 0⟩
  s.out ++ [s.current]

/-- `display`. -/
def display (source : String) (width : ℕ) : Option (List (List Char)) := do
  let nodes ← (parse source).toOption
  let block ← layout w nodes true
  if block.width w + indent.length > max width 1 then return wrapLine w (linear nodes) width
  else return block.rows.map fun row => indent ++ trimEnd row

end

/-! ### What the layout returns -/

section

variable {w : Char → ℕ}

/-- The rows of a tall bracket. -/
def barRow (delim : Char) (height row : ℕ) : List Char :=
  if row = 0 then [(pieces delim).1]
  else if row = height - 1 then [(pieces delim).2.2] else [(pieces delim).2.1]

/-- A stretched delimiter has a piece in every row. -/
theorem stretchDelim_eq (delim : Char) (height : ℕ) :
    stretchDelim delim height = some ((List.range height).map (barRow delim height)) := by
  cases height with
  | zero => rfl
  | succ n =>
    have hrow : (fun row => if row = 0 then some [(pieces delim).1]
        else do
          let last ← checkedSub (n + 1) 1
          return if row = last then [(pieces delim).2.2] else [(pieces delim).2.1]) =
        fun row => (pure (barRow delim (n + 1) row) : Option (List Char)) := by
      funext row
      simp only [checkedSub_of_le (Nat.le_add_left 1 n), Option.bind_eq_bind, Option.bind_some, barRow]
      split <;> rfl
    rw [stretchDelim, hrow]
    exact List.mapM_pure

/-- A tall bracket has the height and the baseline of what it holds. -/
theorem bar_eq (delim : Char) (inner : Block) :
    bar delim inner = some ⟨(List.range inner.height).map (barRow delim inner.height), inner.baseline⟩ := by
  rw [bar, stretchDelim_eq]
  rfl

/-- A delimiter is as high as what it encloses. -/
theorem sound_bar (delim : Char) {inner : Block} (h : inner.Sound) :
    ∃ b, bar delim inner = some b ∧ b.Sound ∧ (¬inner.isFlat → ¬b.isFlat) := by
  have hlength : ((List.range inner.height).map (barRow delim inner.height)).length = inner.rows.length := by
    rw [List.length_map, List.length_range, Block.height]
  refine ⟨_, bar_eq delim inner, ?_, ?_⟩
  · rw [Block.Sound, hlength]
    exact h
  · rw [Block.isFlat, Block.isFlat, hlength]
    exact id

/-- A delimiter of equal pieces is a rectangle. -/
theorem wellFormed_bar {delim : Char} {inner b : Block} (hbar : bar delim inner = some b) (hsound : b.Sound)
    (hmiddle : w (pieces delim).2.1 = w (pieces delim).1) (hlast : w (pieces delim).2.2 = w (pieces delim).1) :
    b.WellFormed w := by
  refine (Block.wellFormed_of_forall (n := w (pieces delim).1) hsound fun row hrow => ?_).1
  rw [bar_eq, Option.some.injEq] at hbar
  rw [← hbar] at hrow
  obtain ⟨i, -, rfl⟩ := List.mem_map.1 hrow
  rw [barRow]
  split_ifs
  · exact Nat.add_zero _
  · exact (Nat.add_zero _).trans hlast
  · exact (Nat.add_zero _).trans hmiddle

/-- **What the operations keep**: a property of blocks that texts have, that blocks keep beside
each other, in a stack and in brackets. -/
structure Closed (w : Char → ℕ) (P : Block → Prop) : Prop where
  sound : ∀ {b}, P b → b.Sound
  text : ∀ t, P (.text t)
  beside : ∀ {a b}, P a → P b → ∃ c, a.beside w b = some c ∧ P c
  stack : ∀ {above middle below}, P middle → ∃ c, Block.stack w above middle below = some c ∧ P c
  delimited : ∀ {inner} opening closing, P inner → ∃ b, delimited w opening closing inner = some b ∧ P b

/-- The baseline is in every block. -/
theorem closed_sound : Closed w Block.Sound where
  sound h := h
  text := Block.sound_text
  beside := Block.sound_beside
  stack h := Block.sound_stack _ h _
  delimited {inner} opening closing h := by
    unfold delimited
    split_ifs
    · obtain ⟨left, hleft, hleft'⟩ := Block.sound_beside (w := w) (Block.sound_text [flatDelim opening]) h
      simp only [hleft, Option.bind_eq_bind, Option.bind_some]
      exact Block.sound_beside hleft' (Block.sound_text _)
    · obtain ⟨left, hleft, hleft', -⟩ := sound_bar opening h
      obtain ⟨right, hright, hright', -⟩ := sound_bar closing h
      obtain ⟨block, hblock, hblock'⟩ := Block.sound_beside (w := w) hleft' h
      simp only [hleft, hright, hblock, Option.bind_eq_bind, Option.bind_some]
      exact Block.sound_beside hblock' hright'

/-- What stands beside a block of several rows is padded, whatever it is. -/
theorem wellFormed_beside_tall (hblank : w ' ' = 1) {a b : Block} (ha : a.Sound) (hb : b.Sound) (htall : ¬a.isFlat) :
    ∃ c, a.beside w b = some c ∧ c.WellFormed w ∧ ¬c.isFlat := by
  have hlength : a.rows.length ≠ 1 := by simpa [Block.isFlat] using htall
  rcases Block.beside_eq (w := w) ha hb with ⟨-, rfl⟩ | ⟨hbeside, -⟩
  · exact absurd rfl htall
  · refine ⟨_, hbeside, (Block.wellFormed_joined hblank ha hb).1, ?_⟩
    have hheight := Block.height_joined (w := w) ha hb
    have hlt : a.baseline < a.rows.length := ha
    simp only [Block.height, Block.isFlat, decide_eq_true_eq] at hheight ⊢
    omega

/-- Every block is a rectangle, where the blank is one cell wide. -/
theorem closed_wellFormed (hblank : w ' ' = 1) : Closed w (Block.WellFormed w) where
  sound h := h.sound
  text := Block.wellFormed_text
  beside ha hb := by
    obtain ⟨c, hbeside, hc, -⟩ := Block.beside_spec hblank ha hb
    exact ⟨c, hbeside, hc⟩
  stack h := Block.wellFormed_stack hblank _ h.sound _
  delimited {inner} opening closing h := by
    unfold delimited
    split_ifs with hflat
    · obtain ⟨left, hleft, hleft', -⟩ := Block.beside_spec hblank (Block.wellFormed_text [flatDelim opening]) h
      obtain ⟨right, hright, hright', -⟩ :=
        Block.beside_spec hblank hleft' (Block.wellFormed_text [flatDelim closing])
      refine ⟨right, ?_, hright'⟩
      simp only [hleft, Option.bind_eq_bind, Option.bind_some]
      exact hright
    · obtain ⟨left, hleft, hleft', htall⟩ := sound_bar opening h.sound
      obtain ⟨right, hright, hright', -⟩ := sound_bar closing h.sound
      obtain ⟨block, hblock, hblock', htall'⟩ := wellFormed_beside_tall hblank hleft' h.sound
        (htall fun h => hflat (.inl h))
      obtain ⟨b, hb, hb', -⟩ := wellFormed_beside_tall hblank hblock'.sound hright' htall'
      refine ⟨b, ?_, hb'⟩
      simp only [hleft, hright, hblock, Option.bind_eq_bind, Option.bind_some]
      exact hb

variable {P : Block → Prop}

/-- Scripts keep what blocks keep. -/
theorem scripts_closed (h : Closed w P) (sup sub : Option (Block × List Char)) (display : Bool) :
    ∃ b, scripts w sup sub display = some b ∧ P b := by
  unfold scripts
  split
  · exact ⟨_, rfl, h.text _⟩
  · exact ⟨_, rfl, h.text _⟩
  · exact ⟨_, rfl, h.text _⟩
  · split
    · exact h.stack (h.text [])
    · exact ⟨_, rfl, h.text _⟩

mutual

/-- **The layout of every node is a block**, of every kind that the operations keep. -/
theorem one_closed (h : Closed w P) : ∀ node display, ∃ b, one w node display = some b ∧ P b
  | .sym text, _ => ⟨_, rfl, h.text _⟩
  | .big op, _ => ⟨_, rfl, h.text _⟩
  | .list nodes, display => by
    obtain ⟨b, hb, hP⟩ := layoutFrom_closed h (h.text []) nodes display
    exact ⟨b, by rw [one]; exact hb, hP⟩
  | .frac num den, display => by
    obtain ⟨n, hn, -⟩ := one_closed h num display
    obtain ⟨d, hd, -⟩ := one_closed h den display
    simp only [one, hn, hd, Option.bind_eq_bind, Option.bind_some]
    exact h.stack (h.text _)
  | .sqrt inner degree, display => by
    obtain ⟨b, hb, hP⟩ := one_closed h inner display
    simp only [one, hb, Option.bind_eq_bind, Option.bind_some]
    split
    · have hfirst : 0 < b.rows.length := Nat.zero_lt_of_lt (h.sound hP)
      rw [List.getElem?_eq_getElem hfirst, Option.bind_some]
      exact h.stack (h.text _)
    · obtain ⟨held, hheld, hP'⟩ := h.delimited '(' ')' hP
      rw [hheld, Option.bind_some]
      exact h.beside (h.text _) hP'
  | .delim opening closing inner, display => by
    obtain ⟨b, hb, hP⟩ := one_closed h inner display
    simp only [one, hb, Option.bind_eq_bind, Option.bind_some]
    exact h.delimited opening closing hP
  | .script base sup sub, display => by
    obtain ⟨b, hb, hP⟩ := one_closed h base display
    obtain ⟨raised, hraised⟩ := script_closed h sup
    obtain ⟨lowered, hlowered⟩ := script_closed h sub
    simp only [one, hb, hraised, hlowered, Option.bind_eq_bind, Option.bind_some]
    split
    · exact h.stack hP
    · obtain ⟨held, hheld, hP'⟩ := scripts_closed h raised lowered display
      rw [hheld, Option.bind_some]
      exact h.beside hP hP'

/-- By induction on the nodes, so does a list. -/
theorem layoutFrom_closed (h : Closed w P) {block : Block} (hblock : P block) :
    ∀ nodes display, ∃ b, layoutFrom w block nodes display = some b ∧ P b
  | [], _ => ⟨block, rfl, hblock⟩
  | node :: nodes, display => by
    obtain ⟨next, hnext, hP⟩ := one_closed h node display
    obtain ⟨c, hc, hP'⟩ := h.beside hblock hP
    simp only [layoutFrom, hnext, hc, Option.bind_eq_bind, Option.bind_some]
    exact layoutFrom_closed h hP' nodes display

/-- A script has a layout. -/
theorem script_closed (h : Closed w P) : ∀ node, ∃ s, script w node = some s
  | none => ⟨none, rfl⟩
  | some node => by
    obtain ⟨b, hb, -⟩ := one_closed h node false
    simp only [script, hb, Option.bind_eq_bind, Option.bind_some]
    exact ⟨_, rfl⟩

end

/-- **What blocks keep, a layout keeps**, and every formula has one. -/
theorem layout_closed (h : Closed w P) (nodes : List Node) (display : Bool) :
    ∃ b, layout w nodes display = some b ∧ P b := layoutFrom_closed h (h.text []) nodes display

end

/-! ### Panics -/

/-- No raw argument begins at the end of a source that does not end with a brace. -/
theorem no_slip_of_getLast {source : String} (h : source.toList.getLast? ≠ some '{') :
    ∀ event ∈ (parseList source.toList).2.trace, event.slips source.toList = false := by
  intro event _
  cases event with
  | raw pos =>
    refine decide_eq_false fun hslip => h ?_
    rw [List.getLast?_eq_getElem?, ← hslip.2, Nat.add_sub_cancel]
    exact hslip.1
  | again => rfl
  | argument => rfl

/-- **A formula is shown exactly if no raw argument ends with its own brace.**  Inline and at
every width of the pane the parse and the layout return, unless the parser reads a command
with a raw argument whose opening brace, after spaces, is the last character of the source.  It
reads none in a source that does not end with a brace. -/
theorem shown_iff_no_slip (w : Char → ℕ) (source : String) :
    (((inline w source).isSome ∧ ∀ width, (display w source width).isSome) ↔
        ∀ event ∈ (parseList source.toList).2.trace, event.slips source.toList = false) ∧
      (source.toList.getLast? ≠ some '{' →
        ∀ event ∈ (parseList source.toList).2.trace, event.slips source.toList = false) := by
  refine ⟨?_, no_slip_of_getLast⟩
  have hslips : (parseList source.toList).2.panicked = false ↔
      ∀ event ∈ (parseList source.toList).2.trace, event.slips source.toList = false := by
    rw [parseList_panicked, List.any_eq_false]
    simp
  have hreturns : (parseList source.toList).2.exhausted = false := parse_returns
  rw [← hslips]
  cases hpanicked : (parseList source.toList).2.panicked with
  | true =>
    have hnone : (parse source).toOption = none := by simp [parse, hpanicked, Except.toOption]
    simp [inline, hnone]
  | false =>
    have hsome : (parse source).toOption = some (parseList source.toList).1 := by
      simp [parse, hpanicked, hreturns, Except.toOption]
    refine iff_of_true ⟨?_, fun width => ?_⟩ rfl
    · obtain ⟨b, hb, hsound⟩ := layout_closed (closed_sound (w := w)) (parseList source.toList).1 false
      have hfirst : 0 < b.rows.length := Nat.zero_lt_of_lt hsound
      simp only [inline, hsome, hb, Option.bind_eq_bind, Option.bind_some]
      split
      · rw [List.getElem?_eq_getElem hfirst]
        rfl
      · rfl
    · obtain ⟨b, hb, -⟩ := layout_closed (closed_sound (w := w)) (parseList source.toList).1 true
      simp only [display, hsome, hb, Option.bind_eq_bind, Option.bind_some]
      split <;> rfl

/-- **`\\text` with nothing after its brace panics.** -/
theorem text_brace_panics :
    ¬∀ (w : Char → ℕ) (source : String), (inline w source).isSome ∧ ∀ width, (display w source width).isSome := by
  intro h
  exact absurd (h (fun _ => 1) "\\text\x7b").1 (by decide +kernel)

/-! ### Rectangles -/

/-- `display` lays the formula out in two dimensions. -/
def TwoDimensional (w : Char → ℕ) (source : String) (width : ℕ) : Prop :=
  ∃ nodes block, parse source = .ok nodes ∧ layout w nodes true = some block ∧
    block.width w + indent.length ≤ max width 1

/-- The rows of a formula in two dimensions fit the pane. -/
theorem display_fits {w : Char → ℕ} (hblank : w ' ' = 1) {source : String} {width : ℕ}
    (h : TwoDimensional w source width) :
    ∃ lines, display w source width = some lines ∧ ∀ line ∈ lines, textWidth w line ≤ width := by
  obtain ⟨nodes, block, hparse, hlayout, hfits⟩ := h
  have hindent : indent.length = 2 := rfl
  have hindent' : textWidth w indent = 2 := textWidth_blanks hblank 2
  refine ⟨block.rows.map fun row => indent ++ trimEnd row, ?_, fun line hline => ?_⟩
  · simp only [display, hparse, Except.toOption, hlayout, Option.bind_eq_bind, Option.bind_some]
    exact if_neg (Nat.not_lt.2 hfits)
  · obtain ⟨row, hrow, rfl⟩ := List.mem_map.1 hline
    have htrim : textWidth w (trimEnd row) ≤ textWidth w row := textWidth_le_of_prefix (List.rdropWhile_prefix _ _)
    have hwidth : textWidth w row ≤ block.width w := Block.le_width hrow
    rw [textWidth_append]
    omega

/-- **Blocks are rectangles.**  Where the blank is one cell wide and all other characters are of
any width: every block that nodes, lists and scripts are laid out in has a row, its baseline in
it and its rows of one width, and so has every block that the operations make on the way (the
bare column of a tall bracket where its pieces are equally wide); beside each other, the widths
of blocks add up and their baselines are one row; and a formula in two dimensions fits the
pane. -/
theorem blocks_rectangular (w : Char → ℕ) (hblank : w ' ' = 1) :
    (∀ node flag, ∃ b, one w node flag = some b ∧ b.WellFormed w) ∧
    (∀ nodes flag, ∃ b, layout w nodes flag = some b ∧ b.WellFormed w) ∧
    (∀ sup sub flag, ∃ b, scripts w sup sub flag = some b ∧ b.WellFormed w) ∧
    (∀ text, (Block.text text).WellFormed w) ∧
    (∀ b : Block, b.Sound →
      (∀ n, ∃ c, b.centre w n = some c ∧ c.WellFormed w) ∧
      (∀ above below, b.baseline ≤ above → b.height - b.baseline ≤ below →
        ∃ c, b.stretch w above below = some c ∧ c.WellFormed w) ∧
      ∀ above below, ∃ c, Block.stack w above b below = some c ∧ c.WellFormed w) ∧
    (∀ b : Block, b.WellFormed w →
      (∀ opening closing, ∃ c, delimited w opening closing b = some c ∧ c.WellFormed w) ∧
      ∀ delim, ∃ c, bar delim b = some c ∧ c.Sound ∧
        (w (pieces delim).2.1 = w (pieces delim).1 → w (pieces delim).2.2 = w (pieces delim).1 → c.WellFormed w) ∧
        (¬b.isFlat → ∃ d, c.beside w b = some d ∧ d.WellFormed w)) ∧
    (∀ a b : Block, a.WellFormed w → b.WellFormed w →
      ∃ c, a.beside w b = some c ∧ c.WellFormed w ∧ c.width w = a.width w + b.width w ∧
        c.baseline = max a.baseline b.baseline ∧
        ∃ l r, a.rows[a.baseline]? = some l ∧ b.rows[b.baseline]? = some r ∧
          c.rows[c.baseline]? = some (l ++ r)) ∧
    ∀ source width, TwoDimensional w source width →
      ∃ lines, display w source width = some lines ∧ ∀ line ∈ lines, textWidth w line ≤ width := by
  have hclosed := closed_wellFormed hblank
  refine ⟨one_closed hclosed, layout_closed hclosed, scripts_closed hclosed, Block.wellFormed_text,
    fun b hb => ⟨fun n => ?_, fun above below habove hbelow => ?_, fun above below => ?_⟩,
    fun b hb => ⟨fun opening closing => hclosed.delimited opening closing hb, fun delim => ?_⟩,
    fun a b ha hb => Block.beside_spec hblank ha hb, fun source width => display_fits hblank⟩
  · exact ⟨_, Block.centre_eq n, Block.wellFormed_centred hblank hb n⟩
  · exact ⟨_, Block.stretch_eq hb habove hbelow, (Block.wellFormed_stretched hblank hb habove hbelow).1⟩
  · exact Block.wellFormed_stack hblank _ hb _
  · obtain ⟨c, hbar, hsound, htall⟩ := sound_bar delim hb.sound
    refine ⟨c, hbar, hsound, wellFormed_bar hbar hsound, fun hflat => ?_⟩
    obtain ⟨d, hbeside, hd, -⟩ := wellFormed_beside_tall hblank hsound hb.sound (htall hflat)
    exact ⟨d, hbeside, hd⟩

/-- A fraction in a pane of ten cells. -/
theorem blocks_rectangular_fraction :
    ∃ lines, display (fun _ => 1) "\\frac\x7bab\x7dc" 10 = some lines ∧
      ∀ line ∈ lines, textWidth (fun _ => 1) line ≤ 10 := by
  refine (blocks_rectangular (fun _ => 1) rfl).2.2.2.2.2.2.2 _ _ ⟨_, _, rfl, rfl, ?_⟩
  decide +kernel

/-- **Rows are padded by cells and not by blanks**: with a blank two cells wide a fraction is no
rectangle, and with a middle piece two cells wide the column of a tall bracket is none. -/
theorem padding_counts_cells :
    (∃ nodes b, parse "\\frac\x7bab\x7dc" = .ok nodes ∧
      layout (fun c => if c = ' ' then 2 else 1) nodes true = some b ∧
      ¬b.WellFormed fun c => if c = ' ' then 2 else 1) ∧
    ∃ inner b, one (fun c => if c = '⎜' then 2 else 1) (.frac (.sym []) (.sym [])) true = some inner ∧
      bar '(' inner = some b ∧ ¬b.WellFormed fun c => if c = '⎜' then 2 else 1 := by
  refine ⟨⟨_, _, rfl, rfl, ?_⟩, ⟨_, _, rfl, rfl, ?_⟩⟩
  · decide +kernel
  · decide +kernel

end Math
end Why2
