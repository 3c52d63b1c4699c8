/-
# The diffusion layer

What the documentation of `mix_columns` (`core/src/grid.rs`) and of the matrices
(`core/src/consts/mds.rs`) says of the layer.  The polynomial
`x^64 + x^4 + x^3 + x + 1` is irreducible (`irreducible_modulus_0x1B`), so the words
are the field of `2^64` elements.  The layer multiplies every column by the
matrix that is written down (`mixColumns_eq_product`), it undoes itself, as does
any matrix the build accepts (`mixColumns_involutory`), and at the heights 4 and
8 it has the largest branch number (`mixColumns_branch_number`): the minors that
matter, up to symmetry those of the first row and one or three others, are
computed in `𝔽₂[x]`.
-/

import Why2.Core.MixColumns
import Why2.Lib.BinaryIrreducible
import Why2.Lib.BinaryPolynomial
import Why2.Lib.Branch
import Mathlib.LinearAlgebra.Matrix.ToLinearEquiv

namespace Why2

open Lib Polynomial

/-! ### The field -/

/-- The modulus of the field. -/
theorem modulus_eq : modulus 0x1B#64 = X ^ 64 + X ^ 4 + X ^ 3 + X + 1 := by
  have hlow : bitsPoly 0x1B#64 = X ^ 4 + X ^ 3 + X + 1 := by
    rw [← BinPoly.toPoly_toNat, BinPoly.toPoly]
    change ∑ i ∈ Finset.range 5, (if (27 : ℕ).testBit i then (X : (ZMod 2)[X]) ^ i else 0) = _
    have hbits : (27 : ℕ).testBit 0 = true ∧ (27 : ℕ).testBit 1 = true ∧ (27 : ℕ).testBit 2 = false ∧
        (27 : ℕ).testBit 3 = true ∧ (27 : ℕ).testBit 4 = true := by decide
    obtain ⟨h0, h1, h2, h3, h4⟩ := hbits
    simp only [Finset.sum_range_succ, Finset.sum_range_zero, h0, h1, h2, h3, h4, if_true, Bool.false_eq_true,
      if_false]
    ring
  rw [modulus, hlow]
  ring

/-- **The reduction polynomial is irreducible.** -/
theorem irreducible_modulus_0x1B : Irreducible (modulus 0x1B#64) :=
  irreducible_modulus (k := 5) rfl 0x53cad161bf5a89c7#64 (by decide +kernel) (by decide +kernel)

/-- The words are a domain. -/
theorem isDomain_field : IsDomain (AdjoinRoot (modulus 0x1B#64)) :=
  AdjoinRoot.isDomain_of_prime irreducible_modulus_0x1B.prime

/-! ### The product with the matrix -/

/-- An entry of the matrix for height `H`, `MDS_4`, `MDS_8` or `MDS_16`. -/
def mdsMatrix : (H : ℕ) → Fin H → Fin H → I64
  | 4, j, k => (mds4.get j).get k
  | 8, j, k => (mds8.get j).get k
  | 16, j, k => (mds16.get j).get k
  | _, _, _ => 0

/-- The entries of a Hadamard matrix are those of its first row. -/
theorem get_eq_of_isHadamard {n : ℕ} {m : Vector (Vector I64 (n + 1)) (n + 1)} (h : isHadamard m = true)
    (j k : Fin (n + 1)) : (m.get j).get k = (m.get 0).get (j ^^^ k) :=
  eq_of_beq (List.all_eq_true.1 (List.all_eq_true.1 h j (List.mem_finRange j)) k (List.mem_finRange k))

namespace Grid

variable {W H : ℕ}

/-- The whole matrix is its first row. -/
theorem mdsMatrix_eq (hd : Supported W H) (j k : Fin H) : mdsMatrix H j k = mdsRow H (j ^^^ k) := by
  obtain ⟨⟨h4, -⟩, ⟨h8, -⟩, h16, -⟩ := mds_checks
  obtain ⟨-, rfl | rfl | rfl⟩ := hd
  · exact get_eq_of_isHadamard h4 j k
  · exact get_eq_of_isHadamard h8 j k
  · exact get_eq_of_isHadamard h16 j k

/-- **`mix_columns` is the product with the documented matrix.**  The reduction polynomial
is irreducible, so its residues are the field of `2^64` elements, and each cell of the
result is, as a polynomial, the remainder of the sum of the products of a row of the
matrix with the column. -/
theorem mixColumns_eq_product (hd : Supported W H) (g : Grid W H) (j : Fin H) (i : Fin W) :
    Irreducible (X ^ 64 + X ^ 4 + X ^ 3 + X + 1 : (ZMod 2)[X]) ∧
    bitsPoly (g.mixColumns.cell j i) =
      (∑ k, bitsPoly (mdsMatrix H j k) * bitsPoly (g.cell k i)) %ₘ (X ^ 64 + X ^ 4 + X ^ 3 + X + 1) := by
  rw [← modulus_eq]
  refine ⟨irreducible_modulus_0x1B, bitsPoly_eq_modByMonic ?_⟩
  calc residue 0x1B#64 (g.mixColumns.cell j i) = g.columnProduct j i := field_mixColumns hd g j i
    _ = ∑ k, field (mdsMatrix H j k) * field (g.cell k i) := by
      simp only [columnProduct, mdsMatrix_eq hd]
    _ = AdjoinRoot.mk (modulus 0x1B#64) (∑ k, bitsPoly (mdsMatrix H j k) * bitsPoly (g.cell k i)) := by
      rw [map_sum]
      refine Finset.sum_congr rfl fun k _ => ?_
      rw [map_mul]
      rfl

/-- A grid of five columns, one more than a lane. -/
theorem mixColumns_eq_product_five :
    bitsPoly ((build fun k i => BitVec.ofNat 64 (k + 7 * i) : Grid 5 4).mixColumns.cell 1 4) =
      (∑ k, bitsPoly (mdsMatrix 4 1 k) *
        bitsPoly ((build fun k i => BitVec.ofNat 64 (k + 7 * i) : Grid 5 4).cell k 4)) %ₘ
        (X ^ 64 + X ^ 4 + X ^ 3 + X + 1) :=
  (mixColumns_eq_product (by decide) _ 1 4).2

end Grid

/-! ### The layer and the checks of the build -/

/-- `is_hadamard` as the build evaluates it: it stops at the first entry that differs, and
an index past the end of the row fails the build. -/
def isHadamardConst {n : ℕ} (m : Vector (Vector I64 (n + 1)) (n + 1)) : Option Bool :=
  (List.finRange (n + 1)).allM fun (i : Fin (n + 1)) => (List.finRange (n + 1)).allM fun (j : Fin (n + 1)) =>
    ((m.get ⟨0, n.succ_pos⟩)[(i : ℕ) ^^^ (j : ℕ)]?).map fun c => (m.get i).get j == c

/-- What holds of all holds of each. -/
theorem allM_eq_some_true {α : Type*} {p : α → Option Bool} {l : List α} (h : l.allM p = some true) :
    ∀ a ∈ l, p a = some true := by
  induction l with
  | nil => exact fun a ha => absurd ha List.not_mem_nil
  | cons b l ih =>
    obtain ⟨ok, hok, hrest⟩ := Option.bind_eq_some_iff.1 h
    cases ok with
    | false => exact absurd (Option.some.inj hrest) Bool.false_ne_true
    | true =>
      intro a ha
      rcases List.mem_cons.1 ha with rfl | ha
      · exact hok
      · exact ih hrest a ha

/-- The rows the build accepts have indices that are closed under XOR. -/
theorem xor_lt_of_isHadamardConst {n : ℕ} {m : Vector (Vector I64 (n + 1)) (n + 1)}
    (h : isHadamardConst m = some true) (i j : Fin (n + 1)) : (i : ℕ) ^^^ (j : ℕ) < n + 1 := by
  have hentry := allM_eq_some_true (allM_eq_some_true h i (List.mem_finRange i)) j (List.mem_finRange j)
  obtain ⟨c, hc, -⟩ := Option.map_eq_some_iff.1 hentry
  exact (Vector.getElem?_eq_some_iff.1 hc).1

/-- Indices that are closed under XOR are a group under it. -/
theorem lawfulXor_of_closed {n : ℕ} (h : ∀ i j : Fin (n + 1), (i : ℕ) ^^^ (j : ℕ) < n + 1) :
    LawfulXor (Fin (n + 1)) := by
  have hval : ∀ i j : Fin (n + 1), ((i ^^^ j : Fin (n + 1)) : ℕ) = (i : ℕ) ^^^ (j : ℕ) :=
    fun i j => Nat.mod_eq_of_lt (h i j)
  refine ⟨fun a b c => Fin.ext ?_, fun a => Fin.ext ?_, fun a => Fin.ext ?_, fun a b => Fin.ext ?_⟩
  · rw [hval, hval, hval, hval, Nat.xor_assoc]
  · rw [hval, Nat.xor_self]
    rfl
  · rw [hval]
    exact Nat.xor_zero a
  · rw [hval, hval, Nat.xor_comm]

/-- **A matrix the build accepts undoes itself.** -/
theorem xorConv_involutory {n : ℕ} {m : Vector (Vector I64 (n + 1)) (n + 1)} (hm : isHadamardConst m = some true)
    (hinv : isInvolutory m = true) (x : Fin (n + 1) → AdjoinRoot (modulus 0x1B#64)) (j : Fin (n + 1)) :
    xorConv (fun d => field ((m.get 0).get d)) (xorConv (fun d => field ((m.get 0).get d)) x) j = x j := by
  have hchar : CharP (AdjoinRoot (modulus 0x1B#64)) 2 := charP_two (by omega) _
  have hxor := lawfulXor_of_closed (xor_lt_of_isHadamardConst hm)
  have hsum : ∑ k, field ((m.get 0).get k) = 1 := by
    rw [← Grid.field_foldl_xor, eq_of_beq hinv]
    exact residue_one (by omega) _
  rw [xorConv_xorConv, hsum, one_pow, one_mul]

/-- **`mix_columns` undoes itself**, and so does the XOR-convolution with any first row that
`is_hadamard` and `is_involutory` accept. -/
theorem Grid.mixColumns_involutory :
    (∀ {W H : ℕ} (g : Grid W H), Supported W H → g.mixColumns.mixColumns = g) ∧
    ∀ {n : ℕ} (m : Vector (Vector I64 (n + 1)) (n + 1)), isHadamardConst m = some true →
      isInvolutory m = true → ∀ (x : Fin (n + 1) → AdjoinRoot (modulus 0x1B#64)) (j : Fin (n + 1)),
        xorConv (fun d => field ((m.get 0).get d)) (xorConv (fun d => field ((m.get 0).get d)) x) j = x j :=
  ⟨fun g hd => mixColumns_mixColumns hd g, fun _ hm hinv x j => xorConv_involutory hm hinv x j⟩

/-- The matrix of height 16, and a grid of that height. -/
theorem Grid.mixColumns_involutory_sixteen :
    (build fun k i => BitVec.ofNat 64 (k + 3 * i) : Grid 3 16).mixColumns.mixColumns =
      build (fun k i => BitVec.ofNat 64 (k + 3 * i)) ∧
    xorConv (fun d => field ((mds16.get 0).get d)) (xorConv (fun d => field ((mds16.get 0).get d)) fun _ => 1) 5 = 1 :=
  ⟨mixColumns_involutory.1 _ (by decide),
    mixColumns_involutory.2 mds16 (by decide +kernel) (by decide +kernel) (fun _ => 1) 5⟩

/-! ### The branch number -/

/-- The residue of a polynomial over `𝔽₂` that is written as a number. -/
noncomputable def fieldPoly (a : BinPoly) : AdjoinRoot (modulus 0x1B#64) := AdjoinRoot.mk _ a.toPoly

/-- The products of polynomials are those of the field. -/
theorem interprets_fieldPoly : Exterior.Interprets fieldPoly where
  zero := by rw [fieldPoly, BinPoly.toPoly_zero, map_zero]
  one := by rw [fieldPoly, BinPoly.toPoly_one, map_one]
  add a b := by rw [fieldPoly, BinPoly.toPoly_add, map_add]; rfl
  mul a b := by rw [fieldPoly, BinPoly.toPoly_mul, map_mul]; rfl

/-- The first row of the matrix as polynomials. -/
def mdsPoly (H : ℕ) (k : Fin H) : BinPoly := ⟨(mdsRow H k).toNat⟩

/-- The polynomials of the matrix are its entries. -/
theorem fieldPoly_mdsPoly (H : ℕ) (k : Fin H) : fieldPoly (mdsPoly H k) = field (mdsRow H k) := by
  rw [fieldPoly, mdsPoly, BinPoly.toPoly_toNat]
  rfl

/-- A polynomial other than 0 that is its own residue. -/
def reducedNonzero (a : BinPoly) : Bool := decide (a.bits ≠ 0) && decide (a.bits < 2 ^ 64)

/-- A polynomial that does not reduce to zero is not zero. -/
theorem fieldPoly_ne_zero {a : BinPoly} (h : reducedNonzero a = true) : fieldPoly a ≠ 0 := by
  obtain ⟨hne, hlt⟩ := Bool.and_eq_true_iff.1 h
  exact BinPoly.mk_toPoly_ne_zero _ (of_decide_eq_true hne) (of_decide_eq_true hlt)

/-- The minors of the first row of `MDS_4` and one other are not 0. -/
theorem minorsPass_four : MinorsPass reducedNonzero (mdsPoly 4) [1, 2, 3] 1 where
  first := by decide +kernel
  rest := by decide +kernel

/-- The minors of the first row of `MDS_8` and up to three others are not 0. -/
theorem minorsPass_eight : MinorsPass reducedNonzero (mdsPoly 8) [1, 2, 3, 4, 5, 6, 7] 3 where
  first := by decide +kernel
  rest := by decide +kernel

open Classical in
/-- **A column of the field and its image have more than `H` cells other than 0 between
them**, for the heights 4 and 8. -/
theorem branch_column {W H : ℕ} (hd : Grid.Supported W H) (hH : H = 4 ∨ H = 8)
    {x : Fin H → AdjoinRoot (modulus 0x1B#64)} (hx : (support x).Nonempty) :
    H < (support x).card + (support (xorConv (fun k => field (mdsRow H k)) x)).card := by
  have := isDomain_field
  have hchar : CharP (AdjoinRoot (modulus 0x1B#64)) 2 := charP_two (by omega) _
  have hsum := Grid.sum_field_mdsRow hd
  simp only [← fieldPoly_mdsPoly] at hsum ⊢
  obtain rfl | rfl := hH
  · have : LawfulXor (Fin 4) := inferInstanceAs (LawfulXor (Fin (2 ^ 2)))
    exact branch_number interprets_fieldPoly (fun _ => fieldPoly_ne_zero) hsum (by decide) minorsPass_four
      (by omega) hx
  · have : LawfulXor (Fin 8) := inferInstanceAs (LawfulXor (Fin (2 ^ 3)))
    exact branch_number interprets_fieldPoly (fun _ => fieldPoly_ne_zero) hsum (by decide) minorsPass_eight
      (by omega) hx

/-- **A matrix whose columns have a large enough branch number has no singular square
submatrix**: a combination of some columns that is 0 in as many rows would be a column
with too few cells other than 0. -/
theorem det_ne_zero {W H : ℕ} (hd : Grid.Supported W H) (hH : H = 4 ∨ H = 8) {n : ℕ} (rows cols : Fin n ↪ Fin H) :
    (Matrix.of fun a b => field (mdsMatrix H (rows a) (cols b))).det ≠ 0 := by
  classical
  have := isDomain_field
  intro hdet
  obtain ⟨v, hv, hzero⟩ := Matrix.exists_mulVec_eq_zero_iff.2 hdet
  -- The combination as a column of the whole matrix.
  generalize hx : Function.extend cols v 0 = x
  have hcols : ∀ b, x (cols b) = v b := by
    intro b
    rw [← hx]
    exact cols.injective.extend_apply v 0 b
  have hother : ∀ k, k ∉ Finset.univ.map cols → x k = 0 := by
    intro k hk
    rw [← hx, Function.extend_apply']
    · rfl
    · rintro ⟨b, rfl⟩
      exact hk (Finset.mem_map_of_mem cols (Finset.mem_univ b))
  have hrows : ∀ a, xorConv (fun k => field (mdsRow H k)) x (rows a) = 0 := by
    intro a
    have hsum : xorConv (fun k => field (mdsRow H k)) x (rows a) =
        ∑ k ∈ Finset.univ.map cols, field (mdsMatrix H (rows a) k) * x k := by
      rw [xorConv, ← Finset.sum_subset (Finset.subset_univ (Finset.univ.map cols))]
      · exact Finset.sum_congr rfl fun k _ => by rw [Grid.mdsMatrix_eq hd]
      · intro k _ hk
        rw [hother k hk, mul_zero]
    rw [hsum, Finset.sum_map]
    simp only [hcols]
    exact congrFun hzero a
  have hne : (support x).Nonempty := by
    obtain ⟨b, hb⟩ := Function.ne_iff.1 hv
    exact ⟨cols b, Finset.mem_filter.2 ⟨Finset.mem_univ _, by rw [hcols]; exact hb⟩⟩
  have hfew : (support x).card ≤ n := by
    calc (support x).card ≤ (Finset.univ.map cols).card := by
          refine Finset.card_le_card fun k hk => ?_
          by_contra hmem
          exact (Finset.mem_filter.1 hk).2 (hother k hmem)
      _ = n := by rw [Finset.card_map, Finset.card_univ, Fintype.card_fin]
  have hlow : (support (xorConv (fun k => field (mdsRow H k)) x)).card ≤ H - n := by
    calc (support (xorConv (fun k => field (mdsRow H k)) x)).card ≤ ((Finset.univ.map rows)ᶜ).card := by
          refine Finset.card_le_card fun j hj => Finset.mem_compl.2 fun hmem => ?_
          obtain ⟨a, -, rfl⟩ := Finset.mem_map.1 hmem
          exact (Finset.mem_filter.1 hj).2 (hrows a)
      _ = H - n := by rw [Finset.card_compl, Finset.card_map, Finset.card_univ, Fintype.card_fin, Fintype.card_fin]
  have hn : n ≤ H := by simpa using Fintype.card_le_of_embedding rows
  have hbranch := branch_column hd hH hne
  omega

namespace Grid

variable {W H : ℕ}

/-- The number of cells of a column that are not 0. -/
def nonzeroCells (g : Grid W H) (i : Fin W) : ℕ := (Finset.univ.filter fun k => g.cell k i ≠ 0).card

open Classical in
/-- The cells of a column that are not zero are its support. -/
theorem nonzeroCells_eq (g : Grid W H) (i : Fin W) :
    g.nonzeroCells i = (support fun k => field (g.cell k i)).card := by
  have hzero : ∀ v : I64, field v ≠ 0 ↔ v ≠ 0 := by
    intro v
    rw [← field_zero, field_injective.ne_iff]
  simp only [nonzeroCells, Lib.support, hzero]

/-- **The diffusion layer has the largest branch number at the heights 4 and 8.**  A
column with `k` cells other than 0 becomes one with at least `H + 1 - k`, and every
square submatrix of the matrix is non-singular over the field of `2^64` elements. -/
theorem mixColumns_branch_number (hW : 2 ≤ W) (hH : H = 4 ∨ H = 8) :
    (∀ (g : Grid W H) (i : Fin W), 1 ≤ g.nonzeroCells i →
      H + 1 - g.nonzeroCells i ≤ g.mixColumns.nonzeroCells i) ∧
    ∀ {n : ℕ} (rows cols : Fin n ↪ Fin H),
      (Matrix.of fun a b => field (mdsMatrix H (rows a) (cols b))).det ≠ 0 := by
  classical
  have hd : Supported W H := by
    obtain rfl | rfl := hH
    · exact ⟨hW, .inl rfl⟩
    · exact ⟨hW, .inr (.inl rfl)⟩
  refine ⟨fun g i hpos => ?_, fun rows cols => det_ne_zero hd hH rows cols⟩
  have himage : (fun j => field (g.mixColumns.cell j i)) =
      xorConv (fun k => field (mdsRow H k)) fun k => field (g.cell k i) :=
    funext fun j => field_mixColumns hd g j i
  rw [nonzeroCells_eq] at hpos
  have hbranch := branch_column hd hH (Finset.card_pos.1 hpos)
  rw [← himage, ← nonzeroCells_eq, ← nonzeroCells_eq] at hbranch
  omega

/-- One cell other than 0 becomes nothing but such cells, at the default height. -/
theorem mixColumns_branch_number_one :
    8 ≤ (build fun k i => if k = 3 ∧ i = 1 then 5 else 0 : Grid 2 8).mixColumns.nonzeroCells 1 :=
  have hone : (build fun k i => if k = 3 ∧ i = 1 then 5 else 0 : Grid 2 8).nonzeroCells 1 = 1 := by decide +kernel
  have hbranch := (mixColumns_branch_number (by decide) (.inr rfl)).1
    (build fun k i => if k = 3 ∧ i = 1 then 5 else 0 : Grid 2 8) 1 (by rw [hone])
  by rwa [hone] at hbranch

end Grid

end Why2
