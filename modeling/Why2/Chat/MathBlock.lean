/-
# Blocks of rows

`Block` of `chat/src/bin/client/tui/math.rs`: a formula in two dimensions is a
block of rows with a baseline, and a block is put beside another on a shared
baseline, or stacked.  Every subtraction of the program is checked here: `none`
stands for a panic.

A block with its baseline in it (`Block.Sound`) can be put beside another and
stacked, whatever the widths of characters are; the differences of heights and
baselines are never below zero.  Rows are padded with blanks, so that they are of
one width (`Block.WellFormed`) where the blank is one cell wide.
-/

import Mathlib.Algebra.GroupWithZero.Nat
import Mathlib.Data.List.MinMax
import Mathlib.Order.Nat
import Mathlib.Data.List.DropRight

namespace Why2
namespace Math

/-- `a - b` of the program. -/
def checkedSub (a b : ℕ) : Option ℕ := if b ≤ a then some (a - b) else none

/-- A subtraction that does not go below zero. -/
theorem checkedSub_of_le {a b : ℕ} (h : b ≤ a) : checkedSub a b = some (a - b) := if_pos h

/-- `" ".repeat(n)`. -/
def blanks (n : ℕ) : List Char := List.replicate n ' '

/-- `Block`. -/
structure Block where
  rows : List (List Char)
  baseline : ℕ
deriving DecidableEq

/-- The baseline is in the block. -/
def Block.Sound (b : Block) : Prop := b.baseline < b.rows.length

instance (b : Block) : Decidable b.Sound := inferInstanceAs (Decidable (_ < _))

section

variable (w : Char → ℕ)

/-- `markup::text_width`. -/
def textWidth (text : List Char) : ℕ := (text.map w).sum

namespace Block

/-- `Block::text`. -/
def text (text : List Char) : Block := ⟨[text], 0⟩

/-- `Block::empty`. -/
def empty : Block := text []

/-- `Block::width`. -/
def width (b : Block) : ℕ := (b.rows.map (textWidth w)).foldr max 0

/-- `Block::height`. -/
def height (b : Block) : ℕ := b.rows.length

/-- `Block::is_flat`. -/
def isFlat (b : Block) : Bool := b.rows.length = 1

/-- `Block::pad`. -/
def pad (b : Block) (width : ℕ) : List (List Char) :=
  b.rows.map fun row => row ++ blanks (width - textWidth w row)

/-- `Block::centre`. -/
def centre (b : Block) (width : ℕ) : Option Block := do
  let left := (← checkedSub width (min (b.width w) width)) / 2
  return ⟨(b.pad w (b.width w)).map fun row => blanks left ++ row, b.baseline⟩

/-- `Block::stretch`. -/
def stretch (b : Block) (above below : ℕ) : Option Block := do
  let width := b.width w
  let top := List.replicate (← checkedSub above b.baseline) (blanks width)
  let depth ← checkedSub b.height b.baseline
  let bottom := List.replicate (← checkedSub below depth) (blanks width)
  return ⟨top ++ b.pad w width ++ bottom, above⟩

/-- `Block::beside`. -/
def beside (a b : Block) : Option Block :=
  if a.rows.all List.isEmpty ∧ a.rows.length = 1 then some b
  else do
    let above := max a.baseline b.baseline
    let below := max (← checkedSub a.height a.baseline) (← checkedSub b.height b.baseline)
    let left ← a.stretch w above below
    let right ← b.stretch w above below
    return ⟨List.zipWith (· ++ ·) (left.pad w (left.width w)) right.rows, above⟩

/-- `Block::stack`. -/
def stack (above : List Block) (middle : Block) (below : List Block) : Option Block := do
  let width := ((above ++ middle :: below).map (width w)).foldr max 0
  let place (b : Block) : Option (List (List Char)) := do return (← b.centre w width).pad w width
  let rows := (← above.mapM place).flatten
  let baseline := rows.length + middle.baseline
  return ⟨rows ++ (← place middle) ++ (← below.mapM place).flatten, baseline⟩

/-- All rows are of one width, and the baseline is in the block. -/
structure WellFormed (b : Block) : Prop where
  sound : b.Sound
  row : ∀ row ∈ b.rows, textWidth w row = b.width w

instance (b : Block) : Decidable (b.WellFormed w) :=
  decidable_of_iff (b.Sound ∧ ∀ row ∈ b.rows, textWidth w row = b.width w)
    ⟨fun h => ⟨h.1, h.2⟩, fun h => ⟨h.sound, h.row⟩⟩

end Block

/-! ### Widths -/

variable {w}

/-- The widths of texts add up. -/
@[simp] theorem textWidth_append (text text' : List Char) :
    textWidth w (text ++ text') = textWidth w text + textWidth w text' := by
  rw [textWidth, List.map_append, List.sum_append]
  rfl

/-- No blanks are no text. -/
@[simp] theorem blanks_zero : blanks 0 = [] := rfl

/-- Blanks are as wide as they are many. -/
theorem textWidth_blanks (hblank : w ' ' = 1) (n : ℕ) : textWidth w (blanks n) = n := by
  rw [textWidth, blanks, List.map_replicate, List.sum_replicate_nat, hblank, Nat.mul_one]

/-- A part of a text is not wider. -/
theorem textWidth_le_of_prefix {text text' : List Char} (h : text <+: text') :
    textWidth w text ≤ textWidth w text' := by
  obtain ⟨rest, rfl⟩ := h
  rw [textWidth_append]
  exact Nat.le_add_right _ _

namespace Block

variable {a b c : Block}

/-- A row is not wider than its block. -/
theorem le_width {row : List Char} (h : row ∈ b.rows) : textWidth w row ≤ b.width w :=
  List.le_max_of_le' 0 (List.mem_map_of_mem h) le_rfl

/-- The width of a block whose rows are of one width. -/
theorem width_of_forall {n : ℕ} (hrows : b.rows ≠ []) (h : ∀ row ∈ b.rows, textWidth w row = n) : b.width w = n := by
  obtain ⟨row, hrow⟩ := List.exists_mem_of_ne_nil _ hrows
  refine le_antisymm ?_ ((h row hrow).ge.trans (le_width hrow))
  change (b.rows.map (textWidth w)).foldr max ⊥ ≤ n
  refine List.max_le_of_forall_le _ _ fun m hm => ?_
  obtain ⟨row', hrow', rfl⟩ := List.mem_map.1 hm
  exact (h row' hrow').le

/-- A sound block has a row. -/
theorem Sound.rows_ne_nil (h : b.Sound) : b.rows ≠ [] := List.length_pos_iff.1 (Nat.zero_lt_of_lt h)

/-- A sound block whose rows are of one width is well formed. -/
theorem wellFormed_of_forall {n : ℕ} (hsound : b.Sound) (h : ∀ row ∈ b.rows, textWidth w row = n) :
    b.WellFormed w ∧ b.width w = n := by
  have hwidth := width_of_forall hsound.rows_ne_nil h
  exact ⟨⟨hsound, fun row hrow => (h row hrow).trans hwidth.symm⟩, hwidth⟩

/-- Padding adds no rows. -/
theorem length_pad (n : ℕ) : (b.pad w n).length = b.rows.length := List.length_map _

/-- A row that is not too wide is padded to the width. -/
theorem textWidth_of_mem_pad (hblank : w ' ' = 1) {n : ℕ} (hle : ∀ row ∈ b.rows, textWidth w row ≤ n)
    {row : List Char} (h : row ∈ b.pad w n) : textWidth w row = n := by
  obtain ⟨row', hrow', rfl⟩ := List.mem_map.1 h
  have := hle row' hrow'
  rw [textWidth_append, textWidth_blanks hblank]
  omega

/-- Rows of the width are not padded. -/
theorem pad_eq_rows {n : ℕ} (h : ∀ row ∈ b.rows, textWidth w row = n) : b.pad w n = b.rows := by
  refine (List.map_congr_left fun row hrow => ?_).trans (List.map_id _)
  rw [h row hrow, Nat.sub_self, blanks_zero, List.append_nil]
  rfl

/-- A text is a block of one row. -/
theorem sound_text (t : List Char) : (text t).Sound := Nat.one_pos

/-- The row of a text is as wide as the block. -/
theorem wellFormed_text (t : List Char) : (text t).WellFormed w := by
  refine (wellFormed_of_forall (n := textWidth w t) (sound_text t) fun row hrow => ?_).1
  rw [List.mem_singleton.1 hrow]

/-! ### Stretching and putting beside -/

variable (w) in
/-- What `stretch` makes of a block. -/
def stretched (b : Block) (above below : ℕ) : Block :=
  ⟨List.replicate (above - b.baseline) (blanks (b.width w)) ++ b.pad w (b.width w) ++
    List.replicate (below - (b.height - b.baseline)) (blanks (b.width w)), above⟩

/-- `stretch` does not go below zero on a sound block. -/
theorem stretch_eq {above below : ℕ} (hsound : b.Sound) (habove : b.baseline ≤ above)
    (hbelow : b.height - b.baseline ≤ below) : b.stretch w above below = some (b.stretched w above below) := by
  have hheight : b.baseline ≤ b.height := hsound.le
  simp only [stretch, checkedSub_of_le habove, checkedSub_of_le hheight, Option.bind_eq_bind, Option.bind_some,
    checkedSub_of_le hbelow]
  rfl

/-- A stretched block is as high as asked for. -/
theorem height_stretched {above below : ℕ} (hsound : b.Sound) (habove : b.baseline ≤ above)
    (hbelow : b.height - b.baseline ≤ below) : (b.stretched w above below).height = above + below := by
  have hlt : b.baseline < b.rows.length := hsound
  simp only [height, stretched, List.length_append, List.length_replicate, length_pad] at hbelow ⊢
  omega

/-- A stretched block is a rectangle. -/
theorem textWidth_of_mem_stretched (hblank : w ' ' = 1) {above below : ℕ} {row : List Char}
    (h : row ∈ (b.stretched w above below).rows) : textWidth w row = b.width w := by
  simp only [stretched, List.mem_append] at h
  rcases h with (h | h) | h
  · rw [List.eq_of_mem_replicate h, textWidth_blanks hblank]
  · exact textWidth_of_mem_pad hblank (fun _ => le_width) h
  · rw [List.eq_of_mem_replicate h, textWidth_blanks hblank]

/-- The baseline stays the baseline. -/
theorem stretched_baseline_row {above below : ℕ} (hb : b.WellFormed w) (habove : b.baseline ≤ above) :
    (b.stretched w above below).rows[above]? = b.rows[b.baseline]? := by
  have hlt : b.baseline < b.rows.length := hb.sound
  simp only [stretched, pad_eq_rows hb.row]
  rw [List.append_assoc, List.getElem?_append_right (by simp), List.length_replicate,
    List.getElem?_append_left (by omega)]
  congr 1
  omega

/-- A stretched block is a rectangle of the same width. -/
theorem wellFormed_stretched (hblank : w ' ' = 1) {above below : ℕ} (hsound : b.Sound)
    (habove : b.baseline ≤ above) (hbelow : b.height - b.baseline ≤ below) :
    (b.stretched w above below).WellFormed w ∧ (b.stretched w above below).width w = b.width w := by
  have hlt : b.baseline < b.rows.length := hsound
  refine wellFormed_of_forall ?_ fun row => textWidth_of_mem_stretched hblank
  have hheight := height_stretched (w := w) hsound habove hbelow
  have hbase : (b.stretched w above below).baseline = above := rfl
  simp only [Sound, height] at hheight hbelow ⊢
  omega

variable (w) in
/-- What `beside` makes of two blocks, if the first is not empty. -/
def joined (a b : Block) : Block :=
  let above := max a.baseline b.baseline
  let below := max (a.height - a.baseline) (b.height - b.baseline)
  let left := a.stretched w above below
  ⟨List.zipWith (· ++ ·) (left.pad w (left.width w)) (b.stretched w above below).rows, above⟩

/-- Sound blocks can be put beside each other: an empty one gives way. -/
theorem beside_eq (ha : a.Sound) (hb : b.Sound) :
    a.beside w b = some b ∧ a = empty ∨
      a.beside w b = some (a.joined w b) ∧ ¬(a.rows.all List.isEmpty ∧ a.rows.length = 1) := by
  by_cases hempty : a.rows.all List.isEmpty ∧ a.rows.length = 1
  · refine .inl ⟨if_pos hempty, ?_⟩
    obtain ⟨rows, baseline⟩ := a
    obtain ⟨row, rfl⟩ := List.length_eq_one_iff.1 hempty.2
    have hrow : row = [] := by simpa using hempty.1
    have hbase : baseline = 0 := Nat.lt_one_iff.1 ha
    rw [hrow, hbase]
    rfl
  · refine .inr ⟨?_, hempty⟩
    rw [beside, if_neg hempty]
    simp only [checkedSub_of_le (show a.baseline ≤ a.height from ha.le),
      checkedSub_of_le (show b.baseline ≤ b.height from hb.le), Option.bind_eq_bind, Option.bind_some,
      stretch_eq ha (le_max_left _ _) (le_max_left _ _), stretch_eq hb (le_max_right _ _) (le_max_right _ _)]
    rfl

/-- Two blocks side by side are as high as both need. -/
theorem height_joined (ha : a.Sound) (hb : b.Sound) : (a.joined w b).height =
    max a.baseline b.baseline + max (a.height - a.baseline) (b.height - b.baseline) := by
  have hleft := height_stretched (w := w) ha (le_max_left a.baseline b.baseline)
    (le_max_left _ (b.height - b.baseline))
  have hright := height_stretched (w := w) hb (le_max_right a.baseline b.baseline)
    (le_max_right (a.height - a.baseline) _)
  rw [height] at hleft hright
  rw [height, joined, List.length_zipWith, length_pad, hleft, hright, min_self]

/-- Side by side they are sound. -/
theorem sound_joined (ha : a.Sound) (hb : b.Sound) : (a.joined w b).Sound := by
  have hheight := height_joined (w := w) ha hb
  have hbase : (a.joined w b).baseline = max a.baseline b.baseline := rfl
  have hlt : a.baseline < a.height := ha
  rw [height] at hheight
  rw [Sound, hheight, hbase]
  omega

/-- The first block is a rectangle once it is stretched. -/
theorem joined_rows (hblank : w ' ' = 1) : (a.joined w b).rows = List.zipWith (· ++ ·)
    (a.stretched w (max a.baseline b.baseline) (max (a.height - a.baseline) (b.height - b.baseline))).rows
    (b.stretched w (max a.baseline b.baseline) (max (a.height - a.baseline) (b.height - b.baseline))).rows := by
  rw [joined, pad_eq_rows fun row hrow => ?_]
  rw [textWidth_of_mem_stretched hblank hrow, width_of_forall (List.ne_nil_of_mem hrow) fun row' hrow' =>
    textWidth_of_mem_stretched hblank hrow']

/-- Blocks beside each other are a rectangle, whatever they are. -/
theorem wellFormed_joined (hblank : w ' ' = 1) (ha : a.Sound) (hb : b.Sound) :
    (a.joined w b).WellFormed w ∧ (a.joined w b).width w = a.width w + b.width w := by
  refine wellFormed_of_forall (sound_joined ha hb) fun row hrow => ?_
  rw [joined_rows hblank, ← List.map_uncurry_zip_eq_zipWith] at hrow
  obtain ⟨⟨l, r⟩, hmem, rfl⟩ := List.mem_map.1 hrow
  obtain ⟨hl, hr⟩ := List.of_mem_zip hmem
  rw [Function.uncurry_apply_pair, textWidth_append, textWidth_of_mem_stretched hblank hl,
    textWidth_of_mem_stretched hblank hr]

/-- Side by side they share their baseline. -/
theorem joined_baseline_row (hblank : w ' ' = 1) (ha : a.WellFormed w) (hb : b.WellFormed w) :
    ∃ l r, a.rows[a.baseline]? = some l ∧ b.rows[b.baseline]? = some r ∧
      (a.joined w b).rows[(a.joined w b).baseline]? = some (l ++ r) := by
  refine ⟨_, _, List.getElem?_eq_getElem ha.sound, List.getElem?_eq_getElem hb.sound, ?_⟩
  rw [joined_rows hblank, List.getElem?_zipWith_eq_some]
  refine ⟨_, _, ?_, ?_, rfl⟩
  · exact (stretched_baseline_row ha (le_max_left _ _)).trans (List.getElem?_eq_getElem ha.sound)
  · exact (stretched_baseline_row hb (le_max_right _ _)).trans (List.getElem?_eq_getElem hb.sound)

/-- `beside` does not fail on sound blocks. -/
theorem sound_beside (ha : a.Sound) (hb : b.Sound) : ∃ c, a.beside w b = some c ∧ c.Sound := by
  rcases beside_eq (w := w) ha hb with ⟨hbeside, -⟩ | ⟨hbeside, -⟩
  · exact ⟨b, hbeside, hb⟩
  · exact ⟨_, hbeside, sound_joined ha hb⟩

/-- **Blocks beside each other share their baseline**: the widths add up, the baseline is the
lower of the two, and its row is the row of one and then the row of the other. -/
theorem beside_spec (hblank : w ' ' = 1) (ha : a.WellFormed w) (hb : b.WellFormed w) :
    ∃ c, a.beside w b = some c ∧ c.WellFormed w ∧ c.width w = a.width w + b.width w ∧
      c.baseline = max a.baseline b.baseline ∧
      ∃ l r, a.rows[a.baseline]? = some l ∧ b.rows[b.baseline]? = some r ∧ c.rows[c.baseline]? = some (l ++ r) := by
  rcases beside_eq (w := w) ha.sound hb.sound with ⟨hbeside, rfl⟩ | ⟨hbeside, -⟩
  · refine ⟨b, hbeside, hb, (Nat.zero_add _).symm, (Nat.zero_max _).symm, [], _, rfl,
      List.getElem?_eq_getElem hb.sound, List.getElem?_eq_getElem hb.sound⟩
  · obtain ⟨hjoined, hwidth⟩ := wellFormed_joined hblank ha.sound hb.sound
    exact ⟨_, hbeside, hjoined, hwidth, rfl, joined_baseline_row hblank ha hb⟩

/-! ### Centring and stacking -/

variable (w) in
/-- What `centre` makes of a block. -/
def centred (b : Block) (n : ℕ) : Block :=
  ⟨(b.pad w (b.width w)).map fun row => blanks ((n - min (b.width w) n) / 2) ++ row, b.baseline⟩

/-- `centre` does not go below zero. -/
theorem centre_eq (n : ℕ) : b.centre w n = some (b.centred w n) := by
  simp only [centre, checkedSub_of_le (min_le_right _ _), Option.bind_eq_bind, Option.bind_some]
  rfl

/-- Centring adds no rows. -/
theorem length_centred (n : ℕ) : (b.centred w n).rows.length = b.rows.length := by
  simp only [centred, List.length_map, length_pad]

/-- A centred row has blanks on its left only. -/
theorem textWidth_of_mem_centred (hblank : w ' ' = 1) {n : ℕ} {row : List Char} (h : row ∈ (b.centred w n).rows) :
    textWidth w row = (n - min (b.width w) n) / 2 + b.width w := by
  obtain ⟨row', hrow', rfl⟩ := List.mem_map.1 h
  rw [textWidth_append, textWidth_blanks hblank, textWidth_of_mem_pad hblank (fun _ => le_width) hrow']

/-- A centred block is sound. -/
theorem sound_centred (hb : b.Sound) (n : ℕ) : (b.centred w n).Sound := by
  rw [Sound, length_centred]
  exact hb

/-- A centred block is a rectangle. -/
theorem wellFormed_centred (hblank : w ' ' = 1) (hb : b.Sound) (n : ℕ) : (b.centred w n).WellFormed w :=
  (wellFormed_of_forall (sound_centred hb n) fun _ => textWidth_of_mem_centred hblank).1

variable (w) in
/-- What `stack` makes of blocks, at a width. -/
def stacked (n : ℕ) (above : List Block) (middle : Block) (below : List Block) : Block :=
  let place := fun b : Block => (b.centred w n).pad w n
  ⟨(above.map place).flatten ++ place middle ++ (below.map place).flatten,
    (above.map place).flatten.length + middle.baseline⟩

/-- `stack` does not go below zero. -/
theorem stack_eq (above : List Block) (middle : Block) (below : List Block) :
    stack w above middle below =
      some (stacked w (((above ++ middle :: below).map (width w)).foldr max 0) above middle below) := by
  have hmap (l : List Block) (n : ℕ) :
      l.mapM (fun b => (pure ((b.centred w n).pad w n) : Option (List (List Char)))) =
        some (l.map fun b => (b.centred w n).pad w n) := List.mapM_pure
  simp only [stack, centre_eq, Option.bind_eq_bind, Option.bind_some, hmap]
  rfl

/-- Blocks on each other are sound. -/
theorem sound_stacked {n : ℕ} {above below : List Block} {middle : Block} (hmiddle : middle.Sound) :
    (stacked w n above middle below).Sound := by
  have hlt : middle.baseline < middle.rows.length := hmiddle
  simp only [Sound, stacked, List.length_append, length_pad, length_centred]
  omega

/-- Rows in a stack are padded to its width. -/
theorem textWidth_of_mem_place (hblank : w ' ' = 1) {n : ℕ} (hle : b.width w ≤ n) {row : List Char}
    (h : row ∈ (b.centred w n).pad w n) : textWidth w row = n := by
  refine textWidth_of_mem_pad hblank (fun row' hrow' => ?_) h
  rw [textWidth_of_mem_centred hblank hrow']
  omega

/-- Blocks on each other are a rectangle. -/
theorem wellFormed_stacked (hblank : w ' ' = 1) {n : ℕ} {above below : List Block} {middle : Block}
    (hmiddle : middle.Sound) (hle : ∀ b ∈ above ++ middle :: below, b.width w ≤ n) :
    (stacked w n above middle below).WellFormed w := by
  refine (wellFormed_of_forall (n := n) (sound_stacked hmiddle) fun row hrow => ?_).1
  simp only [stacked, List.mem_append, List.mem_flatten, List.mem_map] at hrow
  rcases hrow with (⟨_, ⟨b, hb, rfl⟩, hrow⟩ | hrow) | ⟨_, ⟨b, hb, rfl⟩, hrow⟩
  · exact textWidth_of_mem_place hblank (hle b (by simp [hb])) hrow
  · exact textWidth_of_mem_place hblank (hle middle (by simp)) hrow
  · exact textWidth_of_mem_place hblank (hle b (by simp [hb])) hrow

/-- `stack` does not fail on a sound block. -/
theorem sound_stack (above : List Block) {middle : Block} (hmiddle : middle.Sound) (below : List Block) :
    ∃ c, stack w above middle below = some c ∧ c.Sound :=
  ⟨_, stack_eq above middle below, sound_stacked hmiddle⟩

/-- `stack` gives a rectangle. -/
theorem wellFormed_stack (hblank : w ' ' = 1) (above : List Block) {middle : Block} (hmiddle : middle.Sound)
    (below : List Block) : ∃ c, stack w above middle below = some c ∧ c.WellFormed w :=
  ⟨_, stack_eq above middle below, wellFormed_stacked hblank hmiddle fun _ hb =>
    List.le_max_of_le' 0 (List.mem_map_of_mem hb) le_rfl⟩

end Block

end

end Math
end Why2
