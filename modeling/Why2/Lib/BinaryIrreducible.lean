/-
# A test of irreducibility over 𝔽₂

The words of a quotient ring `𝔽₂[X] / (X^w + r(X))` multiply by shifts and XOR
(`mul`), and squaring again and again gives `X^(2^n)` (`frobenius`).  An
irreducible polynomial divides `X^(2^n) - X` iff its degree divides `n`.  So for
a degree `w` that is a power of two, `X^w + r(X)` is irreducible if it divides
`X^(2^w) - X`, and `X^(2^(w/2)) - X` has an inverse modulo it
(`irreducible_modulus`): a factor of a smaller degree has one that divides
`w / 2`.  Both are checked by computing with words.
-/

import Why2.Lib.BinaryField
import Mathlib.FieldTheory.Finite.Extension

namespace Lib

open Polynomial

variable {w : ℕ}

/-! ### Products of words -/

/-- The product of `a` with the low `n` bits of `b`. -/
def mulLow (r : BitVec w) : ℕ → BitVec w → BitVec w → BitVec w
  | 0, _, _ => 0
  | n + 1, a, b => (if b.getLsbD 0 then a else 0) ^^^ mulLow r n (mulX r a) (b >>> 1)

/-- The product of two words. -/
def mul (r a b : BitVec w) : BitVec w := mulLow r w a b

theorem residue_mulLow (hw : 0 < w) (r a b : BitVec w) (n : ℕ) :
    residue r (mulLow r n a b) =
      residue r a * ∑ i ∈ Finset.range n, if b.getLsbD i then AdjoinRoot.root (modulus r) ^ i else 0 := by
  induction n generalizing a b with
  | zero => rw [mulLow, Finset.sum_range_zero, mul_zero, ← residue_zero r]; rfl
  | succ n ih =>
    have hshift : ∀ i, (b >>> 1).getLsbD i = b.getLsbD (i + 1) := by
      intro i
      rw [BitVec.getLsbD_ushiftRight, Nat.add_comm]
    have htail : (∑ i ∈ Finset.range n,
          if b.getLsbD (i + 1) then AdjoinRoot.root (modulus r) ^ (i + 1) else 0) =
        AdjoinRoot.root (modulus r) *
          ∑ i ∈ Finset.range n, if (b >>> 1).getLsbD i then AdjoinRoot.root (modulus r) ^ i else 0 := by
      rw [Finset.mul_sum]
      refine Finset.sum_congr rfl fun i _ => ?_
      rw [hshift, mul_ite, mul_zero, pow_succ']
    have hhead : residue r (if b.getLsbD 0 then a else 0) =
        residue r a * if b.getLsbD 0 then AdjoinRoot.root (modulus r) ^ 0 else 0 := by
      split_ifs
      · rw [pow_zero, mul_one]
      · rw [mul_zero]
        exact residue_zero r
    rw [mulLow, residue_xor, ih, residue_mulX hw, Finset.sum_range_succ', htail, hhead]
    ring

/-- **The product of two words is the product of their residues.** -/
theorem residue_mul (hw : 0 < w) (r a b : BitVec w) : residue r (mul r a b) = residue r a * residue r b := by
  rw [mul, residue_mulLow hw, ← residue_eq_sum]

/-- The word of `X^(2^n)`. -/
def frobenius (r : BitVec w) : ℕ → BitVec w
  | 0 => mulX r 1
  | n + 1 => mul r (frobenius r n) (frobenius r n)

theorem residue_frobenius (hw : 0 < w) (r : BitVec w) (n : ℕ) :
    residue r (frobenius r n) = AdjoinRoot.mk (modulus r) (X ^ 2 ^ n) := by
  induction n with
  | zero => rw [frobenius, residue_mulX hw, residue_one hw, pow_zero, pow_one, AdjoinRoot.mk_X, mul_one]
  | succ n ih => rw [frobenius, residue_mul hw, ih, ← map_mul, ← pow_add, ← two_mul, pow_succ']

/-! ### The test -/

/-- In characteristic two the difference is the sum. -/
theorem residue_frobenius_xor (hw : 0 < w) (r : BitVec w) (n : ℕ) :
    residue r (frobenius r n ^^^ frobenius r 0) = AdjoinRoot.mk (modulus r) (X ^ 2 ^ n - X) := by
  have := charP_two hw r
  rw [residue_xor, residue_frobenius hw, residue_frobenius hw, pow_zero, pow_one, map_sub, CharTwo.sub_eq_add]

/-- **`X^w + r(X)` is irreducible** for a power of two `w`, if `X^(2^w)` is `X` modulo it and
`X^(2^(w/2)) - X` has the inverse `inv`. -/
theorem irreducible_modulus {k : ℕ} (hw : w = 2 ^ (k + 1)) {r : BitVec w} (inv : BitVec w)
    (hfix : frobenius r w = frobenius r 0)
    (hinv : mul r (frobenius r (2 ^ k) ^^^ frobenius r 0) inv = 1) : Irreducible (modulus r) := by
  have hpos : 0 < w := by rw [hw]; exact Nat.pos_of_ne_zero (by simp)
  have hcard : Nat.card (ZMod 2) = 2 := Nat.card_zmod 2
  -- The modulus divides `X^(2^w) - X`.
  have hdvd : modulus r ∣ X ^ 2 ^ w - X := by
    rw [← AdjoinRoot.mk_eq_zero, ← residue_frobenius_xor hpos, hfix, BitVec.xor_self]
    exact residue_zero r
  have hunit : IsUnit (AdjoinRoot.mk (modulus r) (X ^ 2 ^ 2 ^ k - X)) := by
    refine IsUnit.of_mul_eq_one (residue r inv) ?_
    rw [← residue_frobenius_xor hpos, ← residue_mul hpos, hinv, residue_one hpos]
  have hne : modulus r ≠ 1 := by
    intro hone
    have hdegree := natDegree_modulus r
    rw [hone, natDegree_one] at hdegree
    exact hpos.ne hdegree
  refine ((monic_modulus r).irreducible_iff_lt_natDegree_lt hne).2 fun q _ hdegree hq => ?_
  rw [Finset.mem_Ioc, natDegree_modulus] at hdegree
  obtain ⟨g, hg, hgq⟩ := exists_irreducible_of_natDegree_pos hdegree.1
  have hq0 : q ≠ 0 := ne_zero_of_natDegree_gt hdegree.1
  have hgdegree : g.natDegree ≤ w / 2 := (natDegree_le_of_dvd hgq hq0).trans hdegree.2
  -- The degree of an irreducible factor divides `w`, and it is not `w`.
  have hgw : g.natDegree ∣ 2 ^ (k + 1) := by
    rw [← hw]
    refine hg.natDegree_dvd_of_dvd_X_pow_card_pow_sub_X ?_
    rw [hcard]
    exact (hgq.trans hq).trans hdvd
  obtain ⟨e, hle, he⟩ := (Nat.dvd_prime_pow Nat.prime_two).1 hgw
  have hek : e ≤ k := by
    by_contra hlt
    have heq : e = k + 1 := by omega
    rw [he, heq, ← hw] at hgdegree
    omega
  have hghalf : g ∣ X ^ 2 ^ 2 ^ k - X := by
    have := hg.natDegree_dvd_iff_dvd_X_pow_card_pow_sub_X.1 (he ▸ Nat.pow_dvd_pow 2 hek : g.natDegree ∣ 2 ^ k)
    rwa [hcard] at this
  -- Such a factor divides the inverse of what it divides.
  obtain ⟨u, hu⟩ := hunit.exists_right_inv
  obtain ⟨p, rfl⟩ := AdjoinRoot.mk_surjective u
  rw [← map_mul, ← map_one (AdjoinRoot.mk (modulus r)), AdjoinRoot.mk_eq_mk] at hu
  have hone : g ∣ 1 := by
    have := dvd_sub (hghalf.mul_right p) ((hgq.trans hq).trans hu)
    rwa [sub_sub_cancel] at this
  exact hg.not_isUnit (isUnit_of_dvd_one hone)

end Lib
