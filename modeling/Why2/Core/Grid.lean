/-
# The REX grid

`core/src/grid.rs`: the `W × H` matrix of `i64` cells every transformation of
the cipher works on, its constructors with their checks, and the cell-wise
XOR.

An `i64` is a `BitVec 64`; the casts between `i64` and `u64` are then the
identity.  A function of the source that returns `Result` or that may panic
returns `Except Fault`: `Fault.err` is the `Err` of the source, `Fault.panic` a
panic with its message.  The flat slices the source takes over a grid
(`slice::from_raw_parts`) and `to_flat` read it row by row: flat index
`j * W + i` is cell `[j][i]` (`getElem_toFlat`).
-/

import Why2.Lib.Chunks
import Why2.Lib.Bytes
import Mathlib.Data.FinEnum
import Mathlib.Data.List.GetD
import Mathlib.Data.Fintype.Pi

namespace Why2

/-- `i64`, and `u64` after a cast. -/
abbrev I64 := BitVec 64

/-- `u8`. -/
abbrev U8 := BitVec 8

/-- `GridError`. -/
inductive GridError
  | invalidDimensions (width height : ℕ)
  | invalidByteLength (expectedMod actualLen : ℕ)
  | invalidKeyLength (expectedLen actualLen : ℕ)
  | invalidUnicode
deriving DecidableEq, Repr

/-- How a call may fail: with an `Err`, or with a panic. -/
inductive Fault
  | err (e : GridError)
  | panic (message : String)
deriving DecidableEq, Repr

/-- What decides between two implementations of one operation: the
`constant-time` feature, and whether the CPU reports AVX2 (`gf::has_avx2`). -/
structure Build where
  constantTime : Bool
  avx2 : Bool
deriving DecidableEq, Repr

/-- `i64::to_be_bytes`. -/
def toBeBytes (x : I64) : List U8 := Lib.beBytes 8 x.toNat

/-- `i64::from_be_bytes`. -/
def fromBeBytes (bytes : List U8) : I64 := BitVec.ofNat 64 (Lib.ofBeBytes bytes)

/-- A cell has eight bytes. -/
@[simp]
theorem length_toBeBytes (x : I64) : (toBeBytes x).length = 8 := Lib.length_beBytes _ _

/-- Cells have eight bytes each. -/
theorem length_flatMap_toBeBytes (cells : List I64) :
    (cells.flatMap toBeBytes).length = cells.length * 8 := by
  rw [List.length_flatMap, List.map_congr_left fun x _ => length_toBeBytes x, List.map_const',
    List.sum_replicate, smul_eq_mul]

/-- A cell is read back. -/
@[simp]
theorem fromBeBytes_toBeBytes (x : I64) : fromBeBytes (toBeBytes x) = x := by
  have : (256 : ℕ) ^ 8 = 2 ^ 64 := by norm_num
  rw [fromBeBytes, toBeBytes, Lib.ofBeBytes_beBytes, this, Nat.mod_eq_of_lt x.isLt,
    BitVec.ofNat_toNat, BitVec.setWidth_eq]

/-- Eight bytes are written back. -/
theorem toBeBytes_fromBeBytes {bytes : List U8} (h : bytes.length = 8) :
    toBeBytes (fromBeBytes bytes) = bytes := by
  have hlt := Lib.ofBeBytes_lt bytes
  rw [h, show (256 : ℕ) ^ 8 = 2 ^ 64 by norm_num] at hlt
  rw [toBeBytes, fromBeBytes, BitVec.toNat_ofNat, Nat.mod_eq_of_lt hlt, ← h,
    Lib.beBytes_ofBeBytes]

/-- `Grid<W, H>`: `H` rows of `W` cells. -/
structure Grid (W H : ℕ) where
  rows : Vector (Vector I64 W) H
deriving DecidableEq, Repr

namespace Grid

variable {W H : ℕ}

/-- The cell `[j][i]`. -/
def cell (g : Grid W H) (j : Fin H) (i : Fin W) : I64 := g.rows[j][i]

/-- The grid with the given cells. -/
def build (f : Fin H → Fin W → I64) : Grid W H :=
  ⟨Vector.ofFn fun j => Vector.ofFn fun i => f j i⟩

/-- The cells of a grid that is built. -/
@[simp]
theorem cell_build (f : Fin H → Fin W → I64) (j : Fin H) (i : Fin W) :
    (build f).cell j i = f j i := by
  simp [cell, build]

/-- A grid is its cells. -/
@[ext]
theorem ext {g g' : Grid W H} (h : ∀ j i, g.cell j i = g'.cell j i) : g = g' := by
  cases g; cases g'
  congr 1
  exact Vector.ext fun j hj => Vector.ext fun i hi => h ⟨j, hj⟩ ⟨i, hi⟩

/-- There are finitely many grids, so an injective map on them is a bijection. -/
instance : Finite (Grid W H) :=
  Finite.of_injective (fun (g : Grid W H) j i => g.cell j i) fun _ _ h =>
    ext fun j i => congrFun (congrFun h j) i

/-- The dimensions `Grid::new` accepts. -/
def Supported (W H : ℕ) : Prop := 2 ≤ W ∧ (H = 4 ∨ H = 8 ∨ H = 16)

instance : Decidable (Supported W H) := inferInstanceAs (Decidable (_ ∧ _))

/-- A supported grid has cells. -/
theorem Supported.area_pos (hd : Supported W H) : 0 < W * H := by
  obtain ⟨hW, hH⟩ := hd
  exact Nat.mul_pos (by omega) (by omega)

/-- `Grid::new`. -/
def new : Except Fault (Grid W H) :=
  if Supported W H then .ok (build fun _ _ => 0)
  else .error (.err (.invalidDimensions W H))

/-- A new grid is of zeros. -/
theorem new_eq (hd : Supported W H) : (new : Except Fault (Grid W H)) = .ok (build fun _ _ => 0) :=
  if_pos hd

/-! ### Constructors -/

/-- One cell of a key grid: two key parts folded by addition and XOR, each
rotated by an angle taken from the other. -/
def keyCell (lo hi : I64) (i : ℕ) : I64 :=
  let a := lo + hi
  let b := lo ^^^ hi
  let rotA := b.toNat % 64
  let rotB := a.toNat % 64
  a.rotateLeft rotA ^^^ b.rotateRight rotB ^^^ BitVec.ofNat 64 i

/-- `Grid::from_key`. -/
def fromKey (vec : List I64) : Except Fault (Grid W H) := do
  let gridArea := W * H
  if vec.length ≠ gridArea * 2 then
    throw (.err (.invalidKeyLength (gridArea * 2) vec.length))
  let _ ← (new : Except Fault (Grid W H))
  return build fun j i =>
    let p := j * W + i
    keyCell (vec.getD p 0) (vec.getD (p + gridArea) 0) p

/-- The grid of one block of bytes, eight big-endian bytes to a cell. -/
def ofBytes (chunk : List U8) : Grid W H :=
  build fun j i => fromBeBytes ((chunk.drop ((j * W + i) * 8)).take 8)

/-- `Grid::from_bytes`.  With `W * H = 0` the remainder is taken by zero, which
panics. -/
def fromBytes (bytes : List U8) : Except Fault (List (Grid W H)) := do
  let matrixSize := W * H * 8
  if matrixSize = 0 then
    throw (.panic "attempt to calculate the remainder with a divisor of zero")
  if bytes.length % matrixSize ≠ 0 then
    throw (.err (.invalidByteLength matrixSize bytes.length))
  (Lib.chunks matrixSize bytes).mapM fun chunk => do
    let _ ← (new : Except Fault (Grid W H))
    return ofBytes chunk

/-- The grid holding `vec` row by row; cells past the end of `vec` are zero and
elements past the end of the grid are ignored. -/
def ofFlat (vec : List I64) : Grid W H := build fun j i => vec.getD (j * W + i) 0

/-- `Grid::from_flat`. -/
def fromFlat (vec : List I64) : Except Fault (Grid W H) := do
  let _ ← (new : Except Fault (Grid W H))
  return ofFlat vec

/-- `Grid::to_flat`. -/
def toFlat (g : Grid W H) : List I64 := g.rows.flatten.toList

/-! ### What the constructors return -/

/-- The cells of a key grid. -/
theorem fromKey_eq (hd : Supported W H) {vec : List I64} (h : vec.length = W * H * 2) :
    (fromKey vec : Except Fault (Grid W H)) = .ok (build fun j i =>
      keyCell (vec.getD (j * W + i) 0) (vec.getD (j * W + i + W * H) 0) (j * W + i)) := by
  simp [fromKey, h, new_eq hd, pure, Except.pure, bind, Except.bind]

/-- The cells of a flat grid. -/
theorem fromFlat_eq (hd : Supported W H) (vec : List I64) :
    (fromFlat vec : Except Fault (Grid W H)) = .ok (ofFlat vec) := by
  simp [fromFlat, new_eq hd, pure, Except.pure, bind, Except.bind]

/-- A grid has as many cells as its area. -/
@[simp]
theorem length_toFlat (g : Grid W H) : g.toFlat.length = W * H := by
  simp [toFlat, Nat.mul_comm]

/-- The row of flat index `p`. -/
theorem div_lt_height {p : ℕ} (hp : p < W * H) : p / W < H :=
  Nat.div_lt_of_lt_mul hp

/-- The column of flat index `p`. -/
theorem mod_lt_width {p : ℕ} (hp : p < W * H) : p % W < W :=
  Nat.mod_lt _ (Nat.pos_of_ne_zero fun h => by simp [h] at hp)

/-- **A grid is read row by row.** -/
theorem getElem_toFlat (g : Grid W H) {p : ℕ} (hp : p < W * H) (hp' : p < g.toFlat.length) :
    g.toFlat[p] = g.cell ⟨p / W, div_lt_height hp⟩ ⟨p % W, mod_lt_width hp⟩ := by
  simp [toFlat, cell, Vector.getElem_flatten]

/-- The flat index of cell `[j][i]`. -/
theorem flatIndex_lt (j : Fin H) (i : Fin W) : j * W + i < W * H := by
  have h : (j + 1) * W ≤ H * W := Nat.mul_le_mul_right W j.isLt
  have hi := i.isLt
  rw [Nat.mul_comm W H]
  rw [Nat.add_mul, Nat.one_mul] at h
  omega

/-- The row of a place. -/
theorem flatIndex_div (j : Fin H) (i : Fin W) : (j * W + i) / W = j := by
  rw [Nat.mul_comm, Nat.mul_add_div i.pos, Nat.div_eq_of_lt i.isLt, Nat.add_zero]

/-- The column of a place. -/
theorem flatIndex_mod (j : Fin H) (i : Fin W) : (j * W + i) % W = i := by
  rw [Nat.mul_comm, Nat.mul_add_mod, Nat.mod_eq_of_lt i.isLt]

/-- The cell at a place. -/
theorem getD_toFlat (g : Grid W H) (j : Fin H) (i : Fin W) :
    g.toFlat.getD (j * W + i) 0 = g.cell j i := by
  have hp := flatIndex_lt j i
  rw [List.getD_eq_getElem _ _ (by rw [length_toFlat]; exact hp), getElem_toFlat g hp]
  congr 1
  · exact Fin.ext (flatIndex_div j i)
  · exact Fin.ext (flatIndex_mod j i)

/-- A grid is read back. -/
@[simp]
theorem ofFlat_toFlat (g : Grid W H) : ofFlat g.toFlat = g := by
  ext j i
  rw [ofFlat, cell_build, getD_toFlat]

/-- **`from_flat` pads with zeros.** -/
theorem toFlat_ofFlat {vec : List I64} (h : vec.length ≤ W * H) :
    (ofFlat vec : Grid W H).toFlat = vec ++ List.replicate (W * H - vec.length) 0 := by
  refine List.ext_getElem (by simp; omega) fun p hp hp' => ?_
  rw [length_toFlat] at hp
  rw [getElem_toFlat _ hp, ofFlat, cell_build, Nat.div_add_mod' p W, List.getElem_append]
  split_ifs with hv
  · rw [List.getD_eq_getElem _ _ hv]
  · rw [List.getD_eq_default _ _ (by omega), List.getElem_replicate]

/-- `from_flat` on every block of a list. -/
theorem mapM_fromFlat (hd : Supported W H) (blocks : List (List I64)) :
    blocks.mapM fromFlat = .ok (blocks.map (ofFlat : List I64 → Grid W H)) := by
  induction blocks with
  | nil => rfl
  | cons block blocks ih =>
    rw [List.mapM_cons, ih, fromFlat_eq hd]
    rfl

/-- Shaping a list into grids pads it to whole grids, with less than a grid of
zeros. -/
theorem flatMap_toFlat_chunks (hd : Supported W H) (cells : List I64) :
    ∃ k < W * H, W * H ∣ cells.length + k ∧
      ((Lib.chunks (W * H) cells).map (ofFlat : List I64 → Grid W H)).flatMap toFlat =
        cells ++ List.replicate k 0 := by
  have harea := hd.area_pos
  induction cells using Lib.chunks_induction harea with
  | nil => exact ⟨0, harea, by simp, by simp⟩
  | block l hl ih =>
    have hpos := List.length_pos_iff.2 hl
    rcases Nat.lt_or_ge l.length (W * H) with hlt | hge
    · refine ⟨W * H - l.length, by omega, by rw [Nat.add_sub_cancel' hlt.le], ?_⟩
      rw [Lib.chunks_of_length_le harea hl hlt.le, List.map_singleton, List.flatMap_singleton,
        toFlat_ofFlat hlt.le]
    · obtain ⟨k, hk, hdvd, hcells⟩ := ih
      have hlen : (l.take (W * H)).length = W * H := by rw [List.length_take]; omega
      refine ⟨k, hk, ?_, ?_⟩
      · rw [List.length_drop] at hdvd
        rw [show l.length + k = l.length - W * H + k + W * H by omega]
        exact Nat.dvd_add hdvd (Nat.dvd_refl _)
      · rw [Lib.chunks_cons harea hl, List.map_cons, List.flatMap_cons, hcells,
          toFlat_ofFlat hlen.le, hlen, Nat.sub_self, List.replicate_zero, List.append_nil,
          ← List.append_assoc, List.take_append_drop]

/-! ### XOR -/

/-- `Grid::xor_grids`, the `^=` of grids.  The four-cell vectors of the source
and its scalar tail both act cell by cell. -/
def xorGrids (g key : Grid W H) : Grid W H := build fun j i => g.cell j i ^^^ key.cell j i

instance : XorOp (Grid W H) := ⟨xorGrids⟩

/-- Grids are combined cell by cell. -/
@[simp]
theorem cell_xor (g key : Grid W H) (j : Fin H) (i : Fin W) :
    (g ^^^ key).cell j i = g.cell j i ^^^ key.cell j i :=
  cell_build _ j i

/-- A grid that is combined twice is out again. -/
theorem xor_cancel_right (g key : Grid W H) : (g ^^^ key) ^^^ key = g := by
  ext j i : 1
  rw [cell_xor, cell_xor, BitVec.xor_assoc, BitVec.xor_self, BitVec.xor_zero]

/-- Grids that agree with a key agree. -/
theorem xor_left_injective (key : Grid W H) : Function.Injective (· ^^^ key) := fun g g' h => by
  rw [← xor_cancel_right g key, ← xor_cancel_right g' key]
  exact congrArg (· ^^^ key) h

/-- Flat grids are combined cell by cell. -/
theorem toFlat_xor (g key : Grid W H) :
    (g ^^^ key).toFlat = List.zipWith (· ^^^ ·) g.toFlat key.toFlat := by
  refine List.ext_getElem (by simp) fun p hp hp' => ?_
  rw [length_toFlat] at hp
  rw [List.getElem_zipWith, getElem_toFlat _ hp, getElem_toFlat _ hp, getElem_toFlat _ hp, cell_xor]

end Grid

end Why2
