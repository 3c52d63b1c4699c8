/-
# XOR-convolution in characteristic two

A Hadamard matrix has the entry `m (i ^^^ k)` at row `i`, column `k`, so its
product with a column is a convolution over the group of indices under XOR.
In characteristic two the square of such a matrix is `(∑ m)²` times the
identity (`xorConv_xorConv`): off the diagonal the terms of the square pair up
and cancel, on it they are the squares of the entries.  A row whose entries
add up to one therefore gives a matrix that is its own inverse.
-/

import Mathlib.Algebra.CharP.Two
import Mathlib.Algebra.BigOperators.Ring.Finset
import Mathlib.Algebra.BigOperators.Group.Finset.Sigma
import Mathlib.Data.LawfulXor.Basic

namespace Lib

variable {ι R : Type*} [Fintype ι] [XorOp ι] [Zero ι] [LawfulXor ι] [CommRing R]

/-- The product of the Hadamard matrix of the row `m` with the column `x`. -/
def xorConv (m x : ι → R) (i : ι) : R := ∑ k, m (i ^^^ k) * x k

/-- A sum over all indices may be taken along a translate. -/
theorem sum_xor_left (f : ι → R) (i : ι) : ∑ k, f (i ^^^ k) = ∑ k, f k :=
  (xor_right_involutive i).bijective.sum_comp f

variable [CharP R 2]

/-- Off the diagonal the square of a Hadamard matrix vanishes: the term at `k`
is the term at `k ^^^ (i ^^^ l)`. -/
theorem sum_mul_eq_zero (m : ι → R) {i l : ι} (h : i ≠ l) :
    ∑ k, m (i ^^^ k) * m (k ^^^ l) = 0 := by
  have hil : i ^^^ l ≠ 0 := fun h0 => h (xor_eq_zero_iff.1 h0)
  refine Finset.sum_involution (fun k _ => k ^^^ (i ^^^ l)) ?_ ?_ (fun _ _ => Finset.mem_univ _)
    fun k _ => xor_cancel_right k (i ^^^ l)
  · intro k _
    have h1 : i ^^^ (k ^^^ (i ^^^ l)) = k ^^^ l := by
      rw [LawfulXor.xor_comm k, ← xor_assoc, ← xor_assoc, LawfulXor.xor_self, zero_xor, LawfulXor.xor_comm]
    have h2 : k ^^^ (i ^^^ l) ^^^ l = i ^^^ k := by
      rw [← xor_assoc, xor_cancel_right, LawfulXor.xor_comm]
    rw [h1, h2, mul_comm (m (k ^^^ l)), CharTwo.add_self_eq_zero]
  · intro k _ _ hk
    exact hil (by rw [← xor_cancel_left k (i ^^^ l), hk, LawfulXor.xor_self])

/-- On the diagonal it is the square of the sum of the row. -/
theorem sum_mul_self (m : ι → R) (i : ι) :
    ∑ k, m (i ^^^ k) * m (k ^^^ i) = (∑ k, m k) ^ 2 := by
  rw [CharTwo.sum_sq, ← sum_xor_left (fun k => m k ^ 2) i]
  refine Finset.sum_congr rfl fun k _ => ?_
  rw [LawfulXor.xor_comm k i, sq]

/-- **A Hadamard matrix squares to the square of its row's sum.** -/
theorem xorConv_xorConv [DecidableEq ι] (m x : ι → R) (i : ι) :
    xorConv m (xorConv m x) i = (∑ k, m k) ^ 2 * x i := by
  have hswap : xorConv m (xorConv m x) i = ∑ l, (∑ k, m (i ^^^ k) * m (k ^^^ l)) * x l := by
    simp only [xorConv, Finset.mul_sum, Finset.sum_mul]
    rw [Finset.sum_comm]
    simp only [mul_assoc]
  rw [hswap, Finset.sum_eq_single i, sum_mul_self]
  · intro l _ hl
    rw [sum_mul_eq_zero m hl.symm, zero_mul]
  · exact fun h => absurd (Finset.mem_univ i) h

end Lib
