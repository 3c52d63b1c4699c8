/-
# Numbers as binary polynomials

A natural number stands for a polynomial over `𝔽₂` of any degree, bit `i` its
coefficient of `Xⁱ`: XOR adds, and shifts and XOR multiply without carries.
This is the arithmetic of `𝔽₂[X]` in a form that can be evaluated (`toPoly` is a
homomorphism); below the degree of a modulus a number that is not 0 is not 0
modulo it.
-/

import Why2.Lib.BinaryField
import Mathlib.Data.Nat.Bitwise

namespace Lib

open Polynomial

/-- A polynomial over `𝔽₂`, by the bits of a number. -/
structure BinPoly where
  bits : ℕ
deriving DecidableEq

/-- The carry-less product of the low `n` bits of `a` with `b`. -/
def carryless : ℕ → ℕ → ℕ → ℕ
  | 0, _, _ => 0
  | n + 1, a, b => (if a.testBit 0 then b else 0) ^^^ carryless n (a >>> 1) (b <<< 1)

namespace BinPoly

instance : Zero BinPoly := ⟨⟨0⟩⟩

instance : One BinPoly := ⟨⟨1⟩⟩

instance : Add BinPoly := ⟨fun a b => ⟨a.bits ^^^ b.bits⟩⟩

instance : Mul BinPoly := ⟨fun a b => ⟨carryless (a.bits.log2 + 1) a.bits b.bits⟩⟩

/-- The polynomial a number stands for. -/
noncomputable def toPoly (a : BinPoly) : (ZMod 2)[X] :=
  ∑ i ∈ Finset.range (a.bits.log2 + 1), if a.bits.testBit i then X ^ i else 0

/-- The coefficients are the bits. -/
theorem coeff_toPoly (a : BinPoly) (n : ℕ) : a.toPoly.coeff n = if a.bits.testBit n then 1 else 0 := by
  have hterm : ∀ i, (if a.bits.testBit i then (X : (ZMod 2)[X]) ^ i else 0).coeff n =
      if n = i then (if a.bits.testBit i then 1 else 0) else 0 := by
    intro i
    split_ifs <;> simp_all [coeff_X_pow]
  simp only [toPoly, finsetSum_coeff, hterm, Finset.sum_ite_eq, Finset.mem_range]
  split_ifs with hn hbit hbit
  · rfl
  · rfl
  · have hlt : a.bits < 2 ^ n := Nat.lt_log2_self.trans_le (Nat.pow_le_pow_right (by omega) (by omega))
    rw [Nat.testBit_lt_two_pow hlt] at hbit
    cases hbit
  · rfl

/-- Zero is zero. -/
@[simp]
theorem toPoly_zero : toPoly 0 = 0 := by
  ext n
  rw [coeff_toPoly, coeff_zero]
  change (if (0 : ℕ).testBit n then (1 : ZMod 2) else 0) = 0
  rw [Nat.zero_testBit]
  rfl

/-- One is one. -/
@[simp]
theorem toPoly_one : toPoly 1 = 1 := by
  ext n
  rw [coeff_toPoly, coeff_one]
  change (if (1 : ℕ).testBit n then (1 : ZMod 2) else 0) = _
  rcases n with _ | n
  · rfl
  · rw [Nat.testBit_lt_two_pow (Nat.one_lt_two_pow (Nat.succ_ne_zero n))]
    rfl

/-- Bits are added without carries. -/
theorem toPoly_xor (a b : ℕ) : toPoly ⟨a ^^^ b⟩ = toPoly ⟨a⟩ + toPoly ⟨b⟩ := by
  ext n
  simp only [coeff_add, coeff_toPoly, Nat.testBit_xor]
  cases a.testBit n <;> cases b.testBit n <;> simp [CharTwo.add_self_eq_zero]

/-- Sums are sums. -/
@[simp]
theorem toPoly_add (a b : BinPoly) : toPoly (a + b) = toPoly a + toPoly b := toPoly_xor a.bits b.bits

/-- A shift is the product with `X`. -/
theorem toPoly_shiftLeft (b : ℕ) : toPoly ⟨b <<< 1⟩ = X * toPoly ⟨b⟩ := by
  ext n
  rcases n with _ | n
  · simp [coeff_toPoly]
  · rw [coeff_X_mul, coeff_toPoly, coeff_toPoly, Nat.testBit_shiftLeft]
    simp

/-- A product without carries, bit by bit. -/
theorem toPoly_carryless (n a b : ℕ) :
    toPoly ⟨carryless n a b⟩ = (∑ i ∈ Finset.range n, if a.testBit i then X ^ i else 0) * toPoly ⟨b⟩ := by
  induction n generalizing a b with
  | zero => rw [Finset.sum_range_zero, zero_mul]; exact toPoly_zero
  | succ n ih =>
    have htail : (∑ i ∈ Finset.range n, if a.testBit (i + 1) then (X : (ZMod 2)[X]) ^ (i + 1) else 0) =
        (∑ i ∈ Finset.range n, if (a >>> 1).testBit i then X ^ i else 0) * X := by
      rw [Finset.sum_mul]
      refine Finset.sum_congr rfl fun i _ => ?_
      rw [Nat.testBit_shiftRight, Nat.add_comm 1 i, ite_mul, zero_mul, pow_succ]
    have hhead : toPoly ⟨if a.testBit 0 then b else 0⟩ =
        (if a.testBit 0 then (X : (ZMod 2)[X]) ^ 0 else 0) * toPoly ⟨b⟩ := by
      split_ifs
      · rw [pow_zero, one_mul]
      · rw [zero_mul]
        exact toPoly_zero
    rw [carryless, toPoly_xor, ih, toPoly_shiftLeft, Finset.sum_range_succ', htail, hhead]
    ring

/-- **The carry-less product is the product of the polynomials.** -/
@[simp]
theorem toPoly_mul (a b : BinPoly) : toPoly (a * b) = toPoly a * toPoly b :=
  toPoly_carryless (a.bits.log2 + 1) a.bits b.bits

/-- The polynomial of a word. -/
theorem toPoly_toNat {w : ℕ} (x : BitVec w) : toPoly ⟨x.toNat⟩ = bitsPoly x := by
  ext n
  rw [coeff_toPoly, coeff_bitsPoly, BitVec.testBit_toNat]

/-- **A number below `2^w` other than 0 is not 0 modulo `X^w + r(X)`.** -/
theorem mk_toPoly_ne_zero {w : ℕ} (r : BitVec w) {a : BinPoly} (hne : a.bits ≠ 0) (hlt : a.bits < 2 ^ w) :
    AdjoinRoot.mk (modulus r) a.toPoly ≠ 0 := by
  have hnat : (BitVec.ofNat w a.bits).toNat = a.bits := by
    rw [BitVec.toNat_ofNat, Nat.mod_eq_of_lt hlt]
  have hpoly : a.toPoly = bitsPoly (BitVec.ofNat w a.bits) := by
    rw [← toPoly_toNat, hnat]
  intro hzero
  rw [hpoly, ← residue, ← residue_zero r] at hzero
  have heq := congrArg BitVec.toNat (residue_injective r hzero)
  rw [hnat, BitVec.toNat_ofNat, Nat.zero_mod] at heq
  exact hne heq

end BinPoly

end Lib
