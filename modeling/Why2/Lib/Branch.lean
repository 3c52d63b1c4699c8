/-
# The branch number of a Hadamard matrix

A linear layer of `n` cells has the branch number `n + 1` if a column other than
0 and its image have at least that many cells other than 0 between them: the
most that is possible.  For an involutory Hadamard matrix in characteristic two
it is enough to look at columns with at most half of their cells other than 0,
since the image of the image is the column, and at images that are 0 in the
first cell, since XOR of the indices by one of them permutes the cells.  So the
minors that have to be computed are those of the first row and at most
`n / 2 - 1` others (`branch_number`).
-/

import Why2.Lib.Exterior
import Why2.Lib.XorConvolution

namespace Lib

open Exterior

section Translate

variable {ι R : Type*} [Fintype ι] [XorOp ι] [Zero ι] [LawfulXor ι] [CommRing R]

/-- A translate of the column gives the translate of the image. -/
theorem xorConv_translate (m x : ι → R) (t j : ι) :
    xorConv m (fun k => x (k ^^^ t)) j = xorConv m x (j ^^^ t) := by
  rw [xorConv, xorConv, ← sum_xor_left _ t]
  refine Finset.sum_congr rfl fun k _ => ?_
  rw [LawfulXor.xor_comm t k, xor_cancel_right, LawfulXor.xor_comm k t, xor_assoc]

end Translate

variable {α R : Type*} [Zero α] [One α] [Add α] [Mul α] [CommRing R] [CharP R 2] [NoZeroDivisors R] [DecidableEq R]
  {n : ℕ} [Zero (Fin n)] [LawfulXor (Fin n)] {φ : α → R} {p : α → Bool} {m : Fin n → α} {others : List (Fin n)}
  {left : ℕ}

/-- The cells other than 0. -/
def support (x : Fin n → R) : Finset (Fin n) := Finset.univ.filter fun k => x k ≠ 0

/-- Row `j` of the Hadamard matrix with first row `m`. -/
def hadamardRow (m : Fin n → α) (j k : Fin n) : α := m (j ^^^ k)

/-- The minors of the first row and up to `left` of the others pass the test. -/
structure MinorsPass (p : α → Bool) (m : Fin n → α) (others : List (Fin n)) (left : ℕ) : Prop where
  first : check p n 1 (times n (hadamardRow m 0) (one n)) = true
  rest : search p (others.map (hadamardRow m)) 1 left (times n (hadamardRow m 0) (one n)) = true

omit [LawfulXor (Fin n)] in
/-- A column with few cells other than 0, and an image that is 0 in the first cell. -/
theorem branch_first (hφ : Interprets φ) (hp : ∀ a, p a = true → φ a ≠ 0)
    (hall : ∀ j, j = 0 ∨ j ∈ others) (hpass : MinorsPass p m others left) {x : Fin n → R} (hx : (support x).Nonempty)
    (hlow : (support x).card ≤ left + 1) (hzero : xorConv (fun k => φ (m k)) x 0 = 0) :
    n < (support x).card + (support (xorConv (fun k => φ (m k)) x)).card := by
  by_contra hle
  have hpos := Finset.card_pos.2 hx
  -- The other cells where the image is 0.
  generalize hzeros : others.filter (fun j => decide (xorConv (fun k => φ (m k)) x j = 0)) = zeros
  have hcount : n ≤ (support (xorConv (fun k => φ (m k)) x)).card + (zeros.length + 1) := by
    have hcover : Finset.univ ⊆ support (xorConv (fun k => φ (m k)) x) ∪ insert 0 zeros.toFinset := by
      intro j _
      rw [Finset.mem_union, support, Finset.mem_filter, Finset.mem_insert, List.mem_toFinset, ← hzeros,
        List.mem_filter, decide_eq_true_iff]
      by_cases hj : xorConv (fun k => φ (m k)) x j = 0
      · rcases hall j with rfl | hother
        · exact .inr (.inl rfl)
        · exact .inr (.inr ⟨hother, hj⟩)
      · exact .inl ⟨Finset.mem_univ j, hj⟩
    calc n = (Finset.univ : Finset (Fin n)).card := (Finset.card_fin n).symm
      _ ≤ _ := (Finset.card_le_card hcover).trans (Finset.card_union_le _ _)
      _ ≤ _ := Nat.add_le_add_left ((Finset.card_insert_le _ _).trans
        (Nat.succ_le_succ (List.toFinset_card_le zeros))) _
  have hchosen : (zeros.take ((support x).card - 1)).Sublist others := by
    rw [← hzeros]
    exact (List.take_sublist _ _).trans List.filter_sublist
  have hsupport : ∀ i, i ∈ support x ↔ x i ≠ 0 := by
    intro i
    rw [support, Finset.mem_filter, and_iff_right (Finset.mem_univ i)]
  refine not_orthogonal hφ hp hpass.first hpass.rest (hchosen.map (hadamardRow m)) ?_ hsupport ?_ ?_
  · rw [List.length_map, List.length_take]
    omega
  · rw [List.length_map, List.length_take]
    omega
  · intro v hv
    rcases List.mem_cons.1 hv with rfl | hv
    · exact hzero
    · obtain ⟨j, hj, rfl⟩ := List.mem_map.1 hv
      have hmem := List.mem_of_mem_take hj
      rw [← hzeros, List.mem_filter, decide_eq_true_iff] at hmem
      exact hmem.2

/-- A column with few cells other than 0. -/
theorem branch_low (hφ : Interprets φ) (hp : ∀ a, p a = true → φ a ≠ 0)
    (hall : ∀ j, j = 0 ∨ j ∈ others) (hpass : MinorsPass p m others left) {x : Fin n → R} (hx : (support x).Nonempty)
    (hlow : (support x).card ≤ left + 1) :
    n < (support x).card + (support (xorConv (fun k => φ (m k)) x)).card := by
  -- A cell where the image is 0 is moved to the front.
  by_cases hexists : ∃ t, xorConv (fun k => φ (m k)) x t = 0
  · obtain ⟨t, ht⟩ := hexists
    have hsupport : ∀ y : Fin n → R, (support fun k => y (k ^^^ t)).card = (support y).card := by
      intro y
      refine Finset.card_nbij' (· ^^^ t) (· ^^^ t) ?_ ?_ ?_ ?_
      · intro k hk
        simpa [support] using hk
      · intro k hk
        simpa [support] using hk
      · intro k _
        exact xor_cancel_right k t
      · intro k _
        exact xor_cancel_right k t
    have himage : xorConv (fun k => φ (m k)) (fun k => x (k ^^^ t)) =
        fun j => xorConv (fun k => φ (m k)) x (j ^^^ t) :=
      funext fun j => xorConv_translate _ x t j
    have hfirst := branch_first (x := fun k => x (k ^^^ t)) hφ hp hall hpass
      (Finset.card_pos.1 (by rw [hsupport]; exact Finset.card_pos.2 hx)) (by rwa [hsupport])
      (by rw [himage]; simpa using ht)
    rwa [himage, hsupport, hsupport] at hfirst
  · have hfull : support (xorConv (fun k => φ (m k)) x) = Finset.univ :=
      Finset.filter_true_of_mem fun j _ hj => hexists ⟨j, hj⟩
    have hpos := Finset.card_pos.2 hx
    rw [hfull, Finset.card_univ, Fintype.card_fin]
    omega

/-- **An involutory Hadamard matrix whose minors pass has the branch number `n + 1`.** -/
theorem branch_number (hφ : Interprets φ) (hp : ∀ a, p a = true → φ a ≠ 0) (hsum : ∑ k, φ (m k) = 1)
    (hall : ∀ j, j = 0 ∨ j ∈ others) (hpass : MinorsPass p m others left) (hleft : n ≤ 2 * (left + 1) + 1)
    {x : Fin n → R} (hx : (support x).Nonempty) :
    n < (support x).card + (support (xorConv (fun k => φ (m k)) x)).card := by
  by_contra hle
  rcases Nat.lt_or_ge (left + 1) (support x).card with hhigh | hlow
  · -- The image has few cells other than 0, and its image is the column.
    have hinv : xorConv (fun k => φ (m k)) (xorConv (fun k => φ (m k)) x) = x := by
      funext i
      rw [xorConv_xorConv, hsum, one_pow, one_mul]
    have hne : (support (xorConv (fun k => φ (m k)) x)).Nonempty := by
      by_contra hempty
      have hzero : xorConv (fun k => φ (m k)) x = fun _ => 0 := by
        funext j
        by_contra hj
        exact hempty ⟨j, Finset.mem_filter.2 ⟨Finset.mem_univ j, hj⟩⟩
      obtain ⟨i, hi⟩ := hx
      rw [← hinv, hzero] at hi
      exact (Finset.mem_filter.1 hi).2 (Finset.sum_eq_zero fun k _ => mul_zero _)
    have := branch_low hφ hp hall hpass hne (by omega)
    rw [hinv] at this
    omega
  · have := branch_low hφ hp hall hpass hx hlow
    omega

end Lib
