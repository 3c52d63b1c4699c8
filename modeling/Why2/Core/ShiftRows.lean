/-
# Row shifts

`precalculate_shifts` and `shift_rows` of `core/src/grid.rs`.  Every row of a
round key gives one shift below the width; `shift_rows` rotates each row left
by its shift.  Without the `constant-time` feature the rotation is
`slice::rotate_left`, with it a barrel shifter: one stage per bit of the shift,
each rotating by a power of two or not at all under a mask.  For shifts below
the width, the only ones there are (`precalculateShifts_lt`), the two are the
same rotation (`barrelShift_eq_rotateLeft`).
-/

import Why2.Core.Grid
import Mathlib.Tactic.Ring

namespace Why2

variable {W H : ℕ}

/-! ### Rotation of one row -/

/-- `slice::rotate_left`.  It panics past the length; the shifts are below it. -/
def rotateLeft (row : Vector I64 W) (k : ℕ) : Vector I64 W :=
  Vector.ofFn fun i => row.get ⟨(i + k) % W, Nat.mod_lt _ i.pos⟩

/-- One stage of the barrel shifter: every cell is replaced by the one `stride`
to its right where bit `bit` of the shift is set, and kept where it is not. -/
def barrelStage (shift bit stride : ℕ) (tmp : Vector I64 W) : Vector I64 W :=
  let mask : I64 := 0 - BitVec.ofNat 64 (shift >>> bit &&& 1)
  let split := W - stride
  Vector.ofFn fun j =>
    if h : j < split then
      tmp.get j ^^^ ((tmp.get j ^^^ tmp.get ⟨j + stride, by omega⟩) &&& mask)
    else
      tmp.get j ^^^ ((tmp.get j ^^^ tmp.get ⟨j - split, by omega⟩) &&& mask)

/-- The loop of the barrel shifter, `while stride < W`.  The stride doubles from
one, so it is past the width within `W` turns. -/
def barrelLoop (shift : ℕ) : ℕ → ℕ → ℕ → Vector I64 W → Vector I64 W
  | 0, _, _, tmp => tmp
  | turns + 1, bit, stride, tmp =>
    if stride < W then barrelLoop shift turns (bit + 1) (stride <<< 1) (barrelStage shift bit stride tmp)
    else tmp

/-- The barrel shifter on one row. -/
def barrelShift (shift : ℕ) (row : Vector I64 W) : Vector I64 W := barrelLoop shift W 0 1 row

namespace Grid

/-- `Grid::precalculate_shifts`: the XOR of each row, scaled into `[0, W)` by the
high half of the widening product. -/
def precalculateShifts (g : Grid W H) : Vector ℕ H :=
  Vector.ofFn fun j =>
    let hashChunk := (g.rows.get j).foldl (fun acc x => acc ^^^ x) 0
    (hashChunk.toNat * W) >>> 64

/-- `Grid::shift_rows`. -/
def shiftRows (b : Build) (shifts : Vector ℕ H) (g : Grid W H) : Grid W H :=
  ⟨Vector.ofFn fun j =>
    let row := g.rows.get j
    let shift := shifts.get j
    if b.constantTime then barrelShift shift row
    else if shift = 0 then row
    else rotateLeft row shift⟩

end Grid

/-! ### The barrel shifter rotates -/

/-- The entries of a vector. -/
theorem get_ofFn {α : Type*} {n : ℕ} (f : Fin n → α) (i : Fin n) : (Vector.ofFn f).get i = f i :=
  Vector.getElem_ofFn i.isLt

/-- A vector is its entries. -/
theorem vector_ext_get {α : Type*} {n : ℕ} {u v : Vector α n} (h : ∀ i, u.get i = v.get i) :
    u = v :=
  Vector.ext fun i hi => h ⟨i, hi⟩

/-- The entries of a rotated row. -/
theorem get_rotateLeft (row : Vector I64 W) (k : ℕ) (i : Fin W) :
    (rotateLeft row k).get i = row.get ⟨(i + k) % W, Nat.mod_lt _ i.pos⟩ :=
  get_ofFn _ i

/-- A rotation by nothing. -/
theorem rotateLeft_zero (row : Vector I64 W) : rotateLeft row 0 = row := by
  refine vector_ext_get fun i => ?_
  rw [get_rotateLeft]
  congr 1
  exact Fin.ext (Nat.mod_eq_of_lt i.isLt)

/-- Rotations add up. -/
theorem rotateLeft_rotateLeft (row : Vector I64 W) (k l : ℕ) :
    rotateLeft (rotateLeft row k) l = rotateLeft row (l + k) := by
  refine vector_ext_get fun i => ?_
  rw [get_rotateLeft, get_rotateLeft, get_rotateLeft]
  congr 1
  refine Fin.ext ?_
  change ((i + l) % W + k) % W = (i + (l + k)) % W
  rw [Nat.mod_add_mod, Nat.add_assoc]

/-- A rotation by the width is none. -/
theorem rotateLeft_width (row : Vector I64 W) : rotateLeft row W = row := by
  refine vector_ext_get fun i => ?_
  rw [get_rotateLeft]
  congr 1
  exact Fin.ext ((Nat.add_mod_right _ _).trans (Nat.mod_eq_of_lt i.isLt))

/-- **Rotations are injective**: rotating on by the rest of the width undoes one. -/
theorem rotateLeft_injective {k : ℕ} (hk : k ≤ W) :
    Function.Injective fun row : Vector I64 W => rotateLeft row k := by
  intro row row' h
  have := congrArg (rotateLeft · (W - k)) h
  simpa only [rotateLeft_rotateLeft, Nat.sub_add_cancel hk, rotateLeft_width] using this

/-- The mask of a stage selects the rotated row or keeps the old one. -/
theorem barrelStage_eq {stride : ℕ} (hs : stride < W) (shift bit : ℕ) (tmp : Vector I64 W) :
    barrelStage shift bit stride tmp = rotateLeft tmp (shift / 2 ^ bit % 2 * stride) := by
  have hbit : shift >>> bit &&& 1 = shift / 2 ^ bit % 2 := by
    rw [Nat.and_one_is_mod, Nat.shiftRight_eq_div_pow]
  refine vector_ext_get fun j => ?_
  rw [barrelStage, get_ofFn, get_rotateLeft, hbit]
  have hj := j.isLt
  rcases Nat.mod_two_eq_zero_or_one (shift / 2 ^ bit) with h | h <;> rw [h]
  · simp [Nat.mod_eq_of_lt hj]
  · have hmask : (0 : I64) - BitVec.ofNat 64 1 = BitVec.allOnes 64 := by decide
    simp only [hmask, BitVec.and_allOnes, ← BitVec.xor_assoc, BitVec.xor_self, BitVec.zero_xor,
      Nat.one_mul]
    split_ifs with hlt
    · congr 1
      exact Fin.ext (Nat.mod_eq_of_lt (by omega)).symm
    · congr 1
      refine Fin.ext ?_
      change j - (W - stride) = (j + stride) % W
      rw [show (j : ℕ) + stride = j - (W - stride) + W by omega, Nat.add_mod_right,
        Nat.mod_eq_of_lt (by omega)]

/-- The stages from bit `bit` on rotate by what is left of the shift. -/
theorem barrelLoop_eq {shift : ℕ} (hshift : shift < W) (turns bit : ℕ) (tmp : Vector I64 W)
    (hturns : W ≤ 2 ^ (bit + turns)) :
    barrelLoop shift turns bit (2 ^ bit) tmp = rotateLeft tmp (shift / 2 ^ bit * 2 ^ bit) := by
  induction turns generalizing bit tmp with
  | zero =>
    rw [barrelLoop, Nat.div_eq_of_lt (by rw [Nat.add_zero] at hturns; omega), Nat.zero_mul,
      rotateLeft_zero]
  | succ turns ih =>
    rw [barrelLoop]
    split_ifs with hlt
    · have hdiv : shift / 2 ^ bit = 2 * (shift / 2 ^ (bit + 1)) + shift / 2 ^ bit % 2 := by
        rw [pow_succ, ← Nat.div_div_eq_div_mul]
        omega
      rw [Nat.shiftLeft_eq, ← pow_add, ih (bit + 1) _ (by rwa [Nat.add_right_comm]),
        barrelStage_eq hlt, rotateLeft_rotateLeft]
      congr 1
      conv_rhs => rw [hdiv, Nat.add_mul]
      rw [pow_succ]
      ring
    · rw [Nat.div_eq_of_lt (by omega), Nat.zero_mul, rotateLeft_zero]

/-- **The barrel shifter is `rotate_left`**, for every shift below the width,
a power of two or not. -/
theorem barrelShift_eq_rotateLeft {shift : ℕ} (hshift : shift < W) (row : Vector I64 W) :
    barrelShift shift row = rotateLeft row shift := by
  have := barrelLoop_eq hshift W 0 row (by rw [Nat.zero_add]; exact W.lt_two_pow_self.le)
  rwa [pow_zero, Nat.div_one, Nat.mul_one] at this

namespace Grid

/-- **Every shift is below the width.** -/
theorem precalculateShifts_lt (hW : 0 < W) (g : Grid W H) (j : Fin H) :
    g.precalculateShifts.get j < W := by
  rw [precalculateShifts, get_ofFn]
  generalize (g.rows.get j).foldl (fun acc x => acc ^^^ x) 0 = x
  change (x.toNat * W) >>> 64 < W
  rw [Nat.shiftRight_eq_div_pow]
  exact Nat.div_lt_of_lt_mul (Nat.mul_lt_mul_of_pos_right x.isLt hW)

/-- Both builds rotate each row by its shift. -/
theorem shiftRows_eq (b : Build) {shifts : Vector ℕ H} (hs : ∀ j, shifts.get j < W)
    (g : Grid W H) :
    g.shiftRows b shifts = ⟨Vector.ofFn fun j => rotateLeft (g.rows.get j) (shifts.get j)⟩ := by
  unfold shiftRows
  congr 2
  funext j
  dsimp only
  split_ifs with hct hz
  · exact barrelShift_eq_rotateLeft (hs j) _
  · rw [hz, rotateLeft_zero]
  · rfl

/-- **Both feature configurations shift the rows alike.**  The shifts of a key grid are
below the width; with any such shifts the barrel shifter and the plain build rotate every
row left by its shift, so under the shifts of a key they give the same grid. -/
theorem shiftRows_configurations_agree (hd : Supported W H) :
    (∀ (key : Grid W H) (j : Fin H), key.precalculateShifts.get j < W) ∧
    (∀ (b : Build) (shifts : Vector ℕ H) (g : Grid W H), (∀ j, shifts.get j < W) →
      g.shiftRows b shifts = ⟨Vector.ofFn fun j => rotateLeft (g.rows.get j) (shifts.get j)⟩) ∧
    ∀ (b b' : Build) (key g : Grid W H),
      g.shiftRows b key.precalculateShifts = g.shiftRows b' key.precalculateShifts := by
  have hpos : 0 < W := Nat.lt_of_lt_of_le Nat.zero_lt_two hd.1
  have hlt : ∀ (key : Grid W H) (j : Fin H), key.precalculateShifts.get j < W :=
    fun key j => precalculateShifts_lt hpos key j
  refine ⟨hlt, fun b shifts g hs => shiftRows_eq b hs g, fun b b' key g => ?_⟩
  rw [shiftRows_eq b (hlt key), shiftRows_eq b' (hlt key)]

/-- A grid of five columns, shifted with a key grid whose rows give the shifts 2, 4, 0 and 1. -/
theorem shiftRows_configurations_agree_five :
    (build fun j _ => BitVec.ofNat 64 ([9, 15, 3, 5].getD j 0 * 2 ^ 60) : Grid 5 4).precalculateShifts.toList =
      [2, 4, 0, 1] ∧
    (build fun j i => BitVec.ofNat 64 (j + 4 * i) : Grid 5 4).shiftRows ⟨true, true⟩
        (build fun j _ => BitVec.ofNat 64 ([9, 15, 3, 5].getD j 0 * 2 ^ 60) : Grid 5 4).precalculateShifts =
      (build fun j i => BitVec.ofNat 64 (j + 4 * i) : Grid 5 4).shiftRows ⟨false, false⟩
        (build fun j _ => BitVec.ofNat 64 ([9, 15, 3, 5].getD j 0 * 2 ^ 60) : Grid 5 4).precalculateShifts :=
  ⟨by decide +kernel, (shiftRows_configurations_agree (by decide)).2.2 _ _ _ _⟩

/-- The layer loses nothing. -/
theorem shiftRows_injective (b : Build) {shifts : Vector ℕ H} (hs : ∀ j, shifts.get j < W) :
    Function.Injective (shiftRows b shifts : Grid W H → Grid W H) := by
  intro g g' h
  rw [shiftRows_eq b hs, shiftRows_eq b hs, Grid.mk.injEq] at h
  cases g; cases g'
  congr 1
  refine vector_ext_get fun j => rotateLeft_injective (hs j).le ?_
  have := congrArg (Vector.get · j) h
  simpa only [get_ofFn] using this

end Grid

end Why2
