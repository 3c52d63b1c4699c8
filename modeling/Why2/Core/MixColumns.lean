/-
# Column diffusion

`core/src/gf.rs`, `core/src/consts/mds.rs` and `mix_columns` of
`core/src/grid.rs`.  Every column of a grid is multiplied by a fixed matrix
over the words modulo `x^64 + x^4 + x^3 + x + 1`.  The matrix is Hadamard, so
the code reads its first row alone: it walks the input rows, multiplies a
running value by `x` with `xtime` and XORs it into every output row whose
coefficient has that power.  Columns go through in lanes of four, the last
lane padded with zeros.

`residue_mixColumns` is the product the code computes, and since each row of
coefficients XORs to one the layer undoes itself (`mixColumns_mixColumns`).
-/

import Why2.Core.ShiftRows
import Why2.Lib.BinaryField
import Why2.Lib.XorConvolution
import Mathlib.Data.Nat.Size

namespace Why2

open Lib

/-! ### Constants -/

/-- `consts::MDS_4`. -/
def mds4 : Vector (Vector I64 4) 4 :=
  #v[#v[1, 2, 4, 6],
     #v[2, 1, 6, 4],
     #v[4, 6, 1, 2],
     #v[6, 4, 2, 1]]

/-- `consts::MDS_8`. -/
def mds8 : Vector (Vector I64 8) 8 :=
  #v[#v[ 1,  2,  3,  8,  4, 10,  9, 14],
     #v[ 2,  1,  8,  3, 10,  4, 14,  9],
     #v[ 3,  8,  1,  2,  9, 14,  4, 10],
     #v[ 8,  3,  2,  1, 14,  9, 10,  4],
     #v[ 4, 10,  9, 14,  1,  2,  3,  8],
     #v[10,  4, 14,  9,  2,  1,  8,  3],
     #v[ 9, 14,  4, 10,  3,  8,  1,  2],
     #v[14,  9, 10,  4,  8,  3,  2,  1]]

/-- `consts::MDS_16`. -/
def mds16 : Vector (Vector I64 16) 16 :=
  #v[#v[  1,   2,   3,   8,   4,  32,  64,  16,   5, 128,   6,  18,  12,  65, 132,  37],
     #v[  2,   1,   8,   3,  32,   4,  16,  64, 128,   5,  18,   6,  65,  12,  37, 132],
     #v[  3,   8,   1,   2,  64,  16,   4,  32,   6,  18,   5, 128, 132,  37,  12,  65],
     #v[  8,   3,   2,   1,  16,  64,  32,   4,  18,   6, 128,   5,  37, 132,  65,  12],
     #v[  4,  32,  64,  16,   1,   2,   3,   8,  12,  65, 132,  37,   5, 128,   6,  18],
     #v[ 32,   4,  16,  64,   2,   1,   8,   3,  65,  12,  37, 132, 128,   5,  18,   6],
     #v[ 64,  16,   4,  32,   3,   8,   1,   2, 132,  37,  12,  65,   6,  18,   5, 128],
     #v[ 16,  64,  32,   4,   8,   3,   2,   1,  37, 132,  65,  12,  18,   6, 128,   5],
     #v[  5, 128,   6,  18,  12,  65, 132,  37,   1,   2,   3,   8,   4,  32,  64,  16],
     #v[128,   5,  18,   6,  65,  12,  37, 132,   2,   1,   8,   3,  32,   4,  16,  64],
     #v[  6,  18,   5, 128, 132,  37,  12,  65,   3,   8,   1,   2,  64,  16,   4,  32],
     #v[ 18,   6, 128,   5,  37, 132,  65,  12,   8,   3,   2,   1,  16,  64,  32,   4],
     #v[ 12,  65, 132,  37,   5, 128,   6,  18,   4,  32,  64,  16,   1,   2,   3,   8],
     #v[ 65,  12,  37, 132, 128,   5,  18,   6,  32,   4,  16,  64,   2,   1,   8,   3],
     #v[132,  37,  12,  65,   6,  18,   5, 128,  64,  16,   4,  32,   3,   8,   1,   2],
     #v[ 37, 132,  65,  12,  18,   6, 128,   5,  16,  64,  32,   4,   8,   3,   2,   1]]

/-- `is_hadamard`: row 0, read at `i ^ j`, is the whole matrix. -/
def isHadamard {n : ℕ} (m : Vector (Vector I64 (n + 1)) (n + 1)) : Bool :=
  (List.finRange (n + 1)).all fun i => (List.finRange (n + 1)).all fun j =>
    (m.get i).get j == (m.get 0).get (i ^^^ j)

/-- `is_involutory`: row 0 XORs to one. -/
def isInvolutory {n : ℕ} (m : Vector (Vector I64 (n + 1)) (n + 1)) : Bool :=
  (m.get 0).foldl (fun x c => x ^^^ c) 0 == 1

/-- The matrices pass the compile-time assertions of the source. -/
theorem mds_checks :
    (isHadamard mds4 ∧ isInvolutory mds4) ∧ (isHadamard mds8 ∧ isInvolutory mds8) ∧
      isHadamard mds16 ∧ isInvolutory mds16 := by
  decide +kernel

/-! ### The code -/

/-- `gf::xtime`. -/
def xtime (v : I64) : I64 := v <<< 1 ^^^ ((0 - v >>> 63) &&& 0x1B)

/-- `[u64; gf::LANE]`, four columns of one row. -/
abbrev Lane := Vector I64 4

/-- `xor_lane`. -/
def xorLane (a b : Lane) : Lane := Vector.ofFn fun i => a.get i ^^^ b.get i

/-- `xtime_lane`. -/
def xtimeLane (v : Lane) : Lane := Vector.ofFn fun i => xtime (v.get i)

/-- The zero lane. -/
def zeroLane : Lane := Vector.ofFn fun _ => 0

variable {n : ℕ}

/-- One turn of the loop of `mix_terms!`: the running value is multiplied by `x`,
but for the first turn, and XORed into every output row whose coefficient has
that power. -/
def mixTurn (m : Vector I64 n) (k : Fin n) (state : Lane × Vector Lane n) (e : ℕ) :
    Lane × Vector Lane n :=
  let s := if e > 0 then xtimeLane state.1 else state.1
  (s, Vector.ofFn fun i =>
    if (m.get (i ^^^ k) >>> e) &&& 1 = 1 then xorLane (state.2.get i) s else state.2.get i)

/-- `mix_terms!`: what input row `k` adds to every output row. -/
def mixTerms (m : Vector I64 n) (exp : ℕ) (x out : Vector Lane n) (k : Fin n) : Vector Lane n :=
  ((List.range exp).foldl (mixTurn m k) (x.get k, out)).2

/-- `EXP` of `mix_hadamard!`, one past the highest power any coefficient uses:
`64 - bits.leading_zeros()` of the OR of the row. -/
def mixExp (m : Vector I64 n) : ℕ := (m.foldl (fun bits c => bits ||| c) 0).toNat.size

/-- `mix_hadamard!`: the matrix with first row `m` times a lane of columns. -/
def mixHadamard (m : Vector I64 n) (x : Vector Lane n) : Vector Lane n :=
  (List.finRange n).foldl (mixTerms m (mixExp m) x) (Vector.ofFn fun _ => zeroLane)

/-- `mix_4`. -/
def mix4 : Vector Lane 4 → Vector Lane 4 := mixHadamard (mds4.get 0)

/-- `mix_8`. -/
def mix8 : Vector Lane 8 → Vector Lane 8 := mixHadamard (mds8.get 0)

/-- `mix_16`. -/
def mix16 : Vector Lane 16 → Vector Lane 16 := mixHadamard (mds16.get 0)

/-- The first `n` of sixteen rows go through `mix`, the others stay zero. -/
def onFirst (n : ℕ) (hn : n ≤ 16) (mix : Vector Lane n → Vector Lane n) (x : Vector Lane 16) :
    Vector Lane 16 :=
  let out := mix (Vector.ofFn fun k => x.get (k.castLE hn))
  Vector.ofFn fun i => if h : i < n then out.get ⟨i, h⟩ else zeroLane

/-- The `match H` of `mix_columns_inner`.  Its last arm is `unreachable!`: no grid
of another height can be built. -/
def mixRows (H : ℕ) (x : Vector Lane 16) : Vector Lane 16 :=
  match H with
  | 4 => onFirst 4 (by omega) mix4 x
  | 8 => onFirst 8 (by omega) mix8 x
  | 16 => mix16 x
  | _ => x

namespace Grid

variable {W H : ℕ}

/-- The lane of columns from `col` on, `take` of them, padded with zeros. -/
def gather (g : Grid W H) (col take : ℕ) : Vector Lane 16 :=
  Vector.ofFn fun k => Vector.ofFn fun c =>
    if h : (k : ℕ) < H ∧ (c : ℕ) < take ∧ col + c < W then g.cell ⟨k, h.1⟩ ⟨col + c, h.2.2⟩ else 0

/-- The mixed lane written back to its columns. -/
def scatter (g : Grid W H) (col take : ℕ) (out : Vector Lane 16) : Grid W H :=
  build fun k i =>
    if h : (k : ℕ) < 16 ∧ col ≤ (i : ℕ) ∧ (i : ℕ) < col + take ∧ (i : ℕ) - col < 4 then
      (out.get ⟨k, h.1⟩).get ⟨i - col, h.2.2.2⟩
    else g.cell k i

/-- The loop of `mix_columns_inner`, `while col < W`.  Every turn takes at least
one column, so `W` turns are enough. -/
def mixColumnsLoop : ℕ → ℕ → Grid W H → Grid W H
  | 0, _, g => g
  | turns + 1, col, g =>
    if col < W then
      let take := if W - col < 4 then W - col else 4
      mixColumnsLoop turns (col + take) (g.scatter col take (mixRows H (g.gather col take)))
    else g

/-- `Grid::mix_columns`; the AVX2 entry point runs the same body. -/
def mixColumns (g : Grid W H) : Grid W H := g.mixColumnsLoop W 0

end Grid

/-! ### What one lane computes -/

/-- The word as an element of the ring modulo `x^64 + x^4 + x^3 + x + 1`. -/
noncomputable def field (v : I64) : AdjoinRoot (modulus 0x1B#64) := residue 0x1B#64 v

/-- Cells with the same element are the same. -/
theorem field_injective : Function.Injective field := residue_injective _

/-- Cells are added without carries. -/
theorem field_xor (a b : I64) : field (a ^^^ b) = field a + field b := residue_xor _ a b

/-- The element of zero. -/
theorem field_zero : field 0 = 0 := residue_zero _

/-- The element `x`. -/
noncomputable def fieldX : AdjoinRoot (modulus 0x1B#64) := AdjoinRoot.root _

/-- `xtime` folds the departing bit back through `0x1B`. -/
theorem xtime_eq_mulX (v : I64) : xtime v = mulX 0x1B#64 v := by
  have hbit : v >>> 63 = if v.getLsbD 63 then 1 else 0 := by
    ext k hk
    rcases Nat.eq_zero_or_pos k with rfl | hpos
    · cases h : v.getLsbD 63 <;> simp_all
    · rw [BitVec.getElem_ushiftRight, BitVec.getLsbD_of_ge v _ (by omega)]
      split_ifs <;> simp [hpos.ne']
  rw [xtime, mulX, hbit]
  split_ifs <;> rfl

/-- `xtime` is the product with `X`. -/
theorem field_xtime (v : I64) : field (xtime v) = fieldX * field v := by
  rw [field, xtime_eq_mulX, residue_mulX (by omega)]
  rfl

/-- The test of one bit. -/
theorem bit_test (y : I64) (e : ℕ) : (y >>> e) &&& 1 = 1 ↔ y.getLsbD e = true := by
  have hbit : (y >>> e) &&& 1 = if y.getLsbD e then 1 else 0 := by
    ext k hk
    rcases Nat.eq_zero_or_pos k with rfl | hpos
    · cases h : y.getLsbD e <;> simp_all
    · split_ifs <;> simp [hpos.ne']
  rw [hbit]
  split_ifs with h <;> simp [h]

/-- The powers of `x` below `x^exp` in a coefficient. -/
noncomputable def lowPowers (y : I64) (exp : ℕ) : AdjoinRoot (modulus 0x1B#64) :=
  ∑ e ∈ Finset.range exp, if y.getLsbD e then fieldX ^ e else 0

/-- A coefficient is the sum of its powers of `x`. -/
theorem lowPowers_eq_field {y : I64} {exp : ℕ} (hy : y.toNat < 2 ^ exp) (hexp : exp ≤ 64) :
    lowPowers y exp = field y := by
  rw [field, residue_eq_sum, lowPowers]
  refine Finset.sum_subset (Finset.range_mono hexp) fun e _ he => ?_
  have : y.getLsbD e = false := by
    rw [← BitVec.testBit_toNat]
    refine Nat.testBit_lt_two_pow (hy.trans_le (Nat.pow_le_pow_right (by omega) ?_))
    simpa using he
  rw [this]
  rfl

/-- The loop of `mix_terms!` after `exp` turns: the running value has been
multiplied by `x` at every turn but the first, and each output row has gained
the low powers of its coefficient. -/
theorem foldl_mixTurn (m : Vector I64 n) (k : Fin n) (s : Lane) (out : Vector Lane n) (c : Fin 4)
    (exp : ℕ) :
    field (((List.range exp).foldl (mixTurn m k) (s, out)).1.get c) =
        fieldX ^ (exp - 1) * field (s.get c) ∧
      ∀ i, field ((((List.range exp).foldl (mixTurn m k) (s, out)).2.get i).get c) =
        field ((out.get i).get c) + lowPowers (m.get (i ^^^ k)) exp * field (s.get c) := by
  induction exp with
  | zero => simp [lowPowers]
  | succ exp ih =>
    obtain ⟨ihs, iho⟩ := ih
    rw [List.range_succ, List.foldl_append, List.foldl_cons, List.foldl_nil]
    generalize hst : (List.range exp).foldl (mixTurn m k) (s, out) = st at ihs iho ⊢
    have hs : field ((mixTurn m k st exp).1.get c) = fieldX ^ exp * field (s.get c) := by
      rcases Nat.eq_zero_or_pos exp with rfl | hpos
      · simpa [mixTurn] using ihs
      · simp only [mixTurn, hpos, if_true, xtimeLane, get_ofFn]
        rw [field_xtime, ihs, ← mul_assoc, ← pow_succ', Nat.sub_add_cancel hpos]
    refine ⟨by rw [hs, Nat.add_sub_cancel], fun i => ?_⟩
    have hout : field (((mixTurn m k st exp).2.get i).get c) = field ((st.2.get i).get c) +
        if (m.get (i ^^^ k)).getLsbD exp then field ((mixTurn m k st exp).1.get c) else 0 := by
      simp only [mixTurn, get_ofFn, bit_test]
      split_ifs
      · rw [xorLane, get_ofFn, field_xor]
      · rw [xorLane, get_ofFn, field_xor]
      · rw [add_zero]
    rw [hout, iho, hs, lowPowers, lowPowers, Finset.sum_range_succ, add_mul, add_assoc, ite_mul,
      zero_mul]

/-- `mix_hadamard!` multiplies every column of the lane by the matrix of `m`. -/
theorem field_mixHadamard (m : Vector I64 n) (hm : ∀ d, (m.get d).toNat < 2 ^ mixExp m)
    (hexp : mixExp m ≤ 64) (x : Vector Lane n) (i : Fin n) (c : Fin 4) :
    field (((mixHadamard m x).get i).get c) =
      ∑ k, field (m.get (i ^^^ k)) * field ((x.get k).get c) := by
  have hfold : ∀ (ks : List (Fin n)) (out : Vector Lane n),
      field (((ks.foldl (mixTerms m (mixExp m) x) out).get i).get c) =
        field ((out.get i).get c) +
          (ks.map fun k => field (m.get (i ^^^ k)) * field ((x.get k).get c)).sum := by
    intro ks
    induction ks with
    | nil => intro out; simp
    | cons k ks ih =>
      intro out
      rw [List.foldl_cons, ih, mixTerms, (foldl_mixTurn m k _ _ c (mixExp m)).2 i,
        lowPowers_eq_field (hm _) hexp, List.map_cons, List.sum_cons, add_assoc]
  rw [mixHadamard, hfold, get_ofFn, zeroLane, get_ofFn, field_zero, zero_add, Fin.sum_univ_def]

/-- The coefficients of the first row fit below the highest power used. -/
theorem mds_row_bounds :
    (∀ d, ((mds4.get 0).get d).toNat < 2 ^ mixExp (mds4.get 0)) ∧ mixExp (mds4.get 0) ≤ 64 ∧
      (∀ d, ((mds8.get 0).get d).toNat < 2 ^ mixExp (mds8.get 0)) ∧ mixExp (mds8.get 0) ≤ 64 ∧
      (∀ d, ((mds16.get 0).get d).toNat < 2 ^ mixExp (mds16.get 0)) ∧
        mixExp (mds16.get 0) ≤ 64 := by
  decide +kernel

/-! ### What the grid becomes -/

/-- Entry `d` of the first row of the matrix for height `H`. -/
def mdsRow : (H : ℕ) → Fin H → I64
  | 4, d => (mds4.get 0).get d
  | 8, d => (mds8.get 0).get d
  | 16, d => (mds16.get 0).get d
  | _, _ => 0

namespace Grid

variable {W H : ℕ}

/-- The first lanes go through the mixing of a part. -/
theorem field_onFirst (hn : n ≤ 16) (m : Vector I64 n) (hm : ∀ d, (m.get d).toNat < 2 ^ mixExp m)
    (hexp : mixExp m ≤ 64) (x : Vector Lane 16) (i : Fin n) (c : Fin 4) :
    field (((onFirst n hn (mixHadamard m) x).get (i.castLE hn)).get c) =
      ∑ k, field (m.get (i ^^^ k)) * field ((x.get (k.castLE hn)).get c) := by
  have hi : ((i.castLE hn : Fin 16) : ℕ) < n := i.isLt
  rw [onFirst, get_ofFn, dif_pos hi]
  simp only [Fin.val_castLE, Fin.eta, field_mixHadamard m hm hexp, get_ofFn]

/-- The supported heights fit the sixteen rows of the scratch space. -/
theorem Supported.height_le (hd : Supported W H) : H ≤ 16 := by
  obtain ⟨_, hH⟩ := hd
  omega

/-- **The rows are multiplied with the matrix.** -/
theorem field_mixRows (hd : Supported W H) (x : Vector Lane 16) (j : Fin H) (c : Fin 4) :
    field (((mixRows H x).get (j.castLE hd.height_le)).get c) =
      ∑ k, field (mdsRow H (j ^^^ k)) * field ((x.get (k.castLE hd.height_le)).get c) := by
  obtain ⟨h4, e4, h8, e8, h16, e16⟩ := mds_row_bounds
  obtain ⟨_, rfl | rfl | rfl⟩ := hd
  · exact field_onFirst (by omega) _ h4 e4 x j c
  · exact field_onFirst (by omega) _ h8 e8 x j c
  · exact field_mixHadamard _ h16 e16 x j c

/-- The product of the matrix with column `i` of the grid, at row `j`. -/
noncomputable def columnProduct (g : Grid W H) (j : Fin H) (i : Fin W) :
    AdjoinRoot (modulus 0x1B#64) :=
  ∑ k, field (mdsRow H (j ^^^ k)) * field (g.cell k i)

/-- The cells of the lane at hand hold their products. -/
theorem field_scatter (hd : Supported W H) (g : Grid W H) {col take : ℕ} (htake : take ≤ 4)
    (j : Fin H) (i : Fin W) (h : col ≤ i ∧ i < col + take) :
    field ((g.scatter col take (mixRows H (g.gather col take))).cell j i) = g.columnProduct j i := by
  have hi := i.isLt
  have hj : (j : ℕ) < 16 := j.isLt.trans_le hd.height_le
  have hc : (j : ℕ) < 16 ∧ col ≤ (i : ℕ) ∧ (i : ℕ) < col + take ∧ (i : ℕ) - col < 4 := by omega
  rw [scatter, cell_build, dif_pos hc]
  refine (field_mixRows hd _ j ⟨i - col, hc.2.2.2⟩).trans ?_
  refine Finset.sum_congr rfl fun k _ => ?_
  rw [gather, get_ofFn, get_ofFn, dif_pos ⟨k.isLt, by change (i : ℕ) - col < take; omega,
    by change col + ((i : ℕ) - col) < W; omega⟩]
  congr 3
  exact Fin.ext (by change col + ((i : ℕ) - col) = i; omega)

/-- The other cells are as they were. -/
theorem cell_scatter_of_not (g : Grid W H) {col take : ℕ} (out : Vector Lane 16) (j : Fin H)
    (i : Fin W) (h : ¬(col ≤ i ∧ i < col + take)) : (g.scatter col take out).cell j i = g.cell j i := by
  rw [scatter, cell_build, dif_neg (by omega)]

/-- The loop leaves the columns before `col` and multiplies those from it on. -/
theorem field_mixColumnsLoop (hd : Supported W H) (turns col : ℕ) (g : Grid W H)
    (hturns : W ≤ col + turns) (j : Fin H) (i : Fin W) :
    field ((g.mixColumnsLoop turns col).cell j i) =
      if (i : ℕ) < col then field (g.cell j i) else g.columnProduct j i := by
  induction turns generalizing col g j with
  | zero => rw [mixColumnsLoop, if_pos (by omega)]
  | succ turns ih =>
    by_cases hcol : col < W
    · obtain ⟨take, htake, hpos, hle⟩ :
          ∃ take, (if W - col < 4 then W - col else 4) = take ∧ 0 < take ∧ take ≤ 4 :=
        ⟨_, rfl, by split_ifs <;> omega, by split_ifs <;> omega⟩
      have hother : ∀ k, ¬(col ≤ (i : ℕ) ∧ (i : ℕ) < col + take) →
          (g.scatter col take (mixRows H (g.gather col take))).cell k i = g.cell k i :=
        fun k h => cell_scatter_of_not g _ k i h
      rw [mixColumnsLoop, if_pos hcol]
      simp only [htake]
      rw [ih _ _ (by omega)]
      -- The columns before this lane, in it and after it.
      rcases Nat.lt_or_ge i col with hi | hi
      · rw [if_pos (by omega), if_pos hi, hother j (by omega)]
      · rw [if_neg (show ¬(i : ℕ) < col by omega)]
        split_ifs with hlane
        · exact field_scatter hd g hle j i ⟨hi, hlane⟩
        · exact Finset.sum_congr rfl fun k _ => by rw [hother k fun h => hlane h.2]
    · rw [mixColumnsLoop, if_neg hcol, if_pos (by omega)]

/-- **`mix_columns` is the product with the matrix**, column by column, for
every width. -/
theorem field_mixColumns (hd : Supported W H) (g : Grid W H) (j : Fin H) (i : Fin W) :
    field (g.mixColumns.cell j i) = g.columnProduct j i := by
  rw [mixColumns, field_mixColumnsLoop hd W 0 g (by omega), if_neg (Nat.not_lt_zero _)]

/-! ### The layer undoes itself -/

/-- A fold is a sum. -/
theorem field_foldl_xor (v : Vector I64 n) :
    field (v.foldl (fun x c => x ^^^ c) 0) = ∑ k, field (v.get k) := by
  have hlist : ∀ (l : List I64) (a : I64),
      field (l.foldl (fun x c => x ^^^ c) a) = field a + (l.map field).sum := by
    intro l
    induction l with
    | nil => intro a; simp
    | cons c l ih => intro a; rw [List.foldl_cons, ih, field_xor, List.map_cons, List.sum_cons, add_assoc]
  have hv : v.toList = List.ofFn v.get := by
    refine List.ext_getElem (by simp) fun i _ _ => ?_
    simp [Vector.get]
  rw [← Vector.foldl_toList, hlist, field_zero, zero_add, hv, List.map_ofFn, List.sum_ofFn]
  rfl

/-- The first row of every matrix adds up to one. -/
theorem sum_field_mdsRow (hd : Supported W H) : ∑ k, field (mdsRow H k) = 1 := by
  have hone : field 1 = 1 := residue_one (by omega) _
  obtain ⟨⟨_, h4⟩, ⟨_, h8⟩, _, h16⟩ := mds_checks
  obtain ⟨_, rfl | rfl | rfl⟩ := hd
  · exact (field_foldl_xor (mds4.get 0)).symm.trans (by rw [eq_of_beq h4, hone])
  · exact (field_foldl_xor (mds8.get 0)).symm.trans (by rw [eq_of_beq h8, hone])
  · exact (field_foldl_xor (mds16.get 0)).symm.trans (by rw [eq_of_beq h16, hone])

/-- The product of a mixed column is the column. -/
theorem columnProduct_mixColumns (hd : Supported W H) (g : Grid W H) (j : Fin H) (i : Fin W) :
    g.mixColumns.columnProduct j i = field (g.cell j i) := by
  have hchar : CharP (AdjoinRoot (modulus 0x1B#64)) 2 := charP_two (by omega) _
  have hsum := sum_field_mdsRow hd
  have hconv : ∀ [Zero (Fin H)] [LawfulXor (Fin H)],
      g.mixColumns.columnProduct j i = field (g.cell j i) := by
    intro _ _
    have := xorConv_xorConv (fun k => field (mdsRow H k)) (fun k => field (g.cell k i)) j
    rw [hsum, one_pow, one_mul] at this
    rw [← this]
    exact Finset.sum_congr rfl fun k _ => by rw [field_mixColumns hd]; rfl
  obtain ⟨_, rfl | rfl | rfl⟩ := hd
  · exact @hconv _ (inferInstanceAs (LawfulXor (Fin (2 ^ 2))))
  · exact @hconv _ (inferInstanceAs (LawfulXor (Fin (2 ^ 3))))
  · exact @hconv _ (inferInstanceAs (LawfulXor (Fin (2 ^ 4))))

/-- **`mix_columns` is its own inverse.** -/
theorem mixColumns_mixColumns (hd : Supported W H) (g : Grid W H) :
    g.mixColumns.mixColumns = g := by
  ext j i : 1
  exact field_injective (by rw [field_mixColumns hd, columnProduct_mixColumns hd])

/-- The layer loses nothing. -/
theorem mixColumns_injective (hd : Supported W H) :
    Function.Injective (mixColumns : Grid W H → Grid W H) := fun g g' h => by
  rw [← mixColumns_mixColumns hd g, h, mixColumns_mixColumns hd]

end Grid

end Why2
