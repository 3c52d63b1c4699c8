/-
# Machine words as binary polynomials

A `w`-bit word is a polynomial over `𝔽₂` of degree below `w`, bit `i` its
coefficient of `Xⁱ`.  With a word `r` of low terms the modulus
`X^w + r(X)` makes the words the elements of a quotient ring (`residue`):
XOR is its addition, and one shift with a folded carry (`mulX`) is the product
with `X`.  Different words have different residues (`residue_injective`), so
an identity proved in the ring is an identity of words.  Whether the ring is a
field is not needed for that.
-/

import Mathlib.RingTheory.AdjoinRoot
import Mathlib.Algebra.CharP.Two
import Mathlib.Algebra.CharP.Algebra
import Mathlib.Algebra.Field.ZMod
import Mathlib.Data.BitVec

namespace Lib

open Polynomial

variable {w : ℕ}

/-- The polynomial whose coefficients are the bits of `x`. -/
noncomputable def bitsPoly (x : BitVec w) : (ZMod 2)[X] :=
  ∑ i ∈ Finset.range w, if x.getLsbD i then X ^ i else 0

/-- The coefficients are the bits. -/
theorem coeff_bitsPoly (x : BitVec w) (n : ℕ) :
    (bitsPoly x).coeff n = if x.getLsbD n then 1 else 0 := by
  have hterm : ∀ i, (if x.getLsbD i then (X : (ZMod 2)[X]) ^ i else 0).coeff n =
      if n = i then (if x.getLsbD i then 1 else 0) else 0 := by
    intro i
    split_ifs <;> simp_all [coeff_X_pow]
  simp only [bitsPoly, finsetSum_coeff, hterm, Finset.sum_ite_eq, Finset.mem_range]
  split_ifs with h1 h2 h2
  · rfl
  · rfl
  · rw [BitVec.getLsbD_of_ge x n (by omega)] at h2
    simp at h2
  · rfl

/-- Words with the same polynomial are the same. -/
theorem bitsPoly_injective : Function.Injective (bitsPoly : BitVec w → (ZMod 2)[X]) := by
  intro x y h
  refine BitVec.eq_of_getLsbD_eq fun i _ => ?_
  have := congrArg (coeff · i) h
  simp only [coeff_bitsPoly] at this
  cases hx : x.getLsbD i <;> cases hy : y.getLsbD i <;> simp_all

/-- The polynomial of zero. -/
@[simp]
theorem bitsPoly_zero : bitsPoly 0#w = 0 := by
  ext n
  simp [coeff_bitsPoly]

/-- Words are added without carries. -/
theorem bitsPoly_xor (x y : BitVec w) : bitsPoly (x ^^^ y) = bitsPoly x + bitsPoly y := by
  ext n
  rw [coeff_add, coeff_bitsPoly, coeff_bitsPoly, coeff_bitsPoly, BitVec.getLsbD_xor]
  cases x.getLsbD n <;> cases y.getLsbD n <;> simp [CharTwo.add_self_eq_zero]

/-- The polynomial of a word is of a degree below its width. -/
theorem degree_bitsPoly_lt (x : BitVec w) : (bitsPoly x).degree < w := by
  rw [degree_lt_iff_coeff_zero]
  intro n hn
  rw [coeff_bitsPoly, BitVec.getLsbD_of_ge x n hn]
  rfl

/-! ### The quotient ring -/

/-- The modulus `X^w + r(X)`. -/
noncomputable def modulus (r : BitVec w) : (ZMod 2)[X] := X ^ w + bitsPoly r

/-- The modulus is of the width. -/
theorem degree_modulus (r : BitVec w) : (modulus r).degree = w := by
  rw [modulus, degree_add_eq_left_of_degree_lt, degree_X_pow]
  rw [degree_X_pow]
  exact degree_bitsPoly_lt r

/-- The modulus is monic. -/
theorem monic_modulus (r : BitVec w) : (modulus r).Monic :=
  monic_X_pow_add (degree_bitsPoly_lt r)

/-- Its degree as a number. -/
theorem natDegree_modulus (r : BitVec w) : (modulus r).natDegree = w :=
  natDegree_eq_of_degree_eq_some (degree_modulus r)

/-- The element of the quotient ring a word stands for. -/
noncomputable def residue (r x : BitVec w) : AdjoinRoot (modulus r) :=
  AdjoinRoot.mk (modulus r) (bitsPoly x)

/-- The product with `X`: a shift, the bit that leaves folded back through `r`. -/
def mulX (r v : BitVec w) : BitVec w := v <<< 1 ^^^ if v.getLsbD (w - 1) then r else 0

/-- The residue of zero. -/
@[simp]
theorem residue_zero (r : BitVec w) : residue r 0#w = 0 := by
  rw [residue, bitsPoly_zero, map_zero]

/-- Residues are added. -/
@[simp]
theorem residue_xor (r x y : BitVec w) : residue r (x ^^^ y) = residue r x + residue r y := by
  rw [residue, bitsPoly_xor, map_add]
  rfl

/-- **Different words have different residues.** -/
theorem residue_injective (r : BitVec w) : Function.Injective (residue r) := by
  intro x y h
  refine bitsPoly_injective (sub_eq_zero.1 ?_)
  refine eq_zero_of_dvd_of_degree_lt (AdjoinRoot.mk_eq_mk.1 h) ?_
  rw [degree_modulus]
  exact (degree_sub_le _ _).trans_lt (max_lt (degree_bitsPoly_lt x) (degree_bitsPoly_lt y))

/-- A word with the residue of a polynomial is the remainder of that polynomial. -/
theorem bitsPoly_eq_modByMonic {r v : BitVec w} {p : (ZMod 2)[X]}
    (h : residue r v = AdjoinRoot.mk (modulus r) p) : bitsPoly v = p %ₘ modulus r := by
  have hself : bitsPoly v %ₘ modulus r = bitsPoly v := by
    refine (modByMonic_eq_self_iff (monic_modulus r)).2 ?_
    rw [degree_modulus]
    exact degree_bitsPoly_lt v
  rw [← hself]
  exact modByMonic_eq_of_dvd_sub (monic_modulus r) (AdjoinRoot.mk_eq_mk.1 h)

/-- A word is the sum of the powers of `X` its bits name. -/
theorem residue_eq_sum (r x : BitVec w) :
    residue r x =
      ∑ i ∈ Finset.range w, if x.getLsbD i then AdjoinRoot.root (modulus r) ^ i else 0 := by
  rw [residue, bitsPoly, map_sum]
  refine Finset.sum_congr rfl fun i _ => ?_
  split_ifs
  · rw [map_pow, AdjoinRoot.mk_X]
  · rw [map_zero]

/-- The product with `X`, with the modulus taken off what runs over. -/
theorem bitsPoly_mulX (hw : 0 < w) (r v : BitVec w) :
    bitsPoly (mulX r v) = X * bitsPoly v + if v.getLsbD (w - 1) then modulus r else 0 := by
  have hshift : bitsPoly (v <<< 1) =
      X * bitsPoly v + if v.getLsbD (w - 1) then X ^ w else 0 := by
    ext n
    rcases n with _ | n
    · split_ifs <;> simp [coeff_bitsPoly, coeff_X_pow, hw.ne]
    · rw [coeff_add, coeff_X_mul, coeff_bitsPoly, coeff_bitsPoly, BitVec.getLsbD_shiftLeft]
      rcases lt_trichotomy (n + 1) w with h | h | h
      · have hne : n + 1 ≠ w := h.ne
        split_ifs <;> simp_all [coeff_X_pow]
      · obtain rfl : n = w - 1 := by omega
        split_ifs <;> simp_all [coeff_X_pow, CharTwo.add_self_eq_zero]
      · have hne : n + 1 ≠ w := h.ne'
        rw [BitVec.getLsbD_of_ge v n (by omega)]
        split_ifs <;> simp_all [coeff_X_pow]
  rw [mulX, bitsPoly_xor, hshift, modulus]
  split_ifs <;> simp [add_assoc]

/-- **One shift is one product with `X`.** -/
theorem residue_mulX (hw : 0 < w) (r v : BitVec w) :
    residue r (mulX r v) = AdjoinRoot.root (modulus r) * residue r v := by
  rw [residue, bitsPoly_mulX hw, map_add, map_mul, AdjoinRoot.mk_X]
  split_ifs
  · rw [AdjoinRoot.mk_self, add_zero]
    rfl
  · rw [map_zero, add_zero]
    rfl

/-- The residue of one. -/
theorem residue_one (hw : 0 < w) (r : BitVec w) : residue r 1 = 1 := by
  rw [residue_eq_sum, Finset.sum_eq_single_of_mem 0 (Finset.mem_range.2 hw)]
  · simp [hw]
  · intro i _ hi
    have : (1 : BitVec w).getLsbD i = false := by simp [hi]
    rw [this]
    rfl

/-- The ring has characteristic two. -/
theorem charP_two (hw : 0 < w) (r : BitVec w) : CharP (AdjoinRoot (modulus r)) 2 := by
  have : Nontrivial (AdjoinRoot (modulus r)) := AdjoinRoot.nontrivial _ (by
    rw [degree_modulus]
    exact_mod_cast hw.ne')
  exact charP_of_injective_algebraMap (algebraMap (ZMod 2) _).injective 2

end Lib
