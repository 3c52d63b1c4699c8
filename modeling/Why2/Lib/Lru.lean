/-
# Least recently used first

Entries of some size in the order of their last use, the least recent one first.
Entries at the front go until the others fit a bound (`trimmed`).  What is left is the
longest end of the sequence that fits (`suffix_trimmed_iff`).  With the times of use beside
them, such a sequence is what sorting its entries by their times gives, in whatever order
they come (`sort_eq_of_perm`).
-/

import Mathlib.Algebra.GroupWithZero.Nat
import Mathlib.Data.List.Pairwise
import Mathlib.Data.List.Sort

namespace Lib

variable {α β : Type*} (size : α → ℕ)

/-- The size of all the entries. -/
def total (l : List α) : ℕ := (l.map size).sum

/-- Entries go from the front until the others fit. -/
def trimmed (bound : ℕ) : List α → List α
  | [] => []
  | a :: l => if total size (a :: l) ≤ bound then a :: l else trimmed bound l

variable {size} {bound : ℕ} {l t : List α} {a : α}

/-- Nothing has no size. -/
@[simp] theorem total_nil : total size [] = 0 := rfl

/-- One more. -/
@[simp] theorem total_cons : total size (a :: l) = size a + total size l := by
  rw [total, List.map_cons, List.sum_cons, total]

/-- Sizes add up. -/
theorem total_append (l l' : List α) : total size (l ++ l') = total size l + total size l' := by
  rw [total, List.map_append, List.sum_append, total, total]

/-- A part is not larger. -/
theorem total_le_of_suffix (h : t <:+ l) : total size t ≤ total size l := by
  obtain ⟨gone, rfl⟩ := h
  rw [total_append]
  exact Nat.le_add_left _ _

/-- The order does not matter. -/
theorem total_perm (h : List.Perm l t) : total size l = total size t := (h.map size).sum_nat

/-- The least recent go. -/
theorem trimmed_suffix (bound : ℕ) (l : List α) : trimmed size bound l <:+ l := by
  induction l with
  | nil => exact List.suffix_rfl
  | cons a l ih =>
    rw [trimmed]
    split
    · exact List.suffix_rfl
    · exact ih.trans (List.suffix_cons a l)

/-- What is trimmed is within the bound. -/
theorem total_trimmed_le (bound : ℕ) (l : List α) : total size (trimmed size bound l) ≤ bound := by
  induction l with
  | nil => exact Nat.zero_le bound
  | cons a l ih =>
    rw [trimmed]
    split
    · assumption
    · exact ih

/-- **What is left is the longest end that fits.** -/
theorem suffix_trimmed_iff : t <:+ trimmed size bound l ↔ t <:+ l ∧ total size t ≤ bound := by
  refine ⟨fun h => ⟨h.trans (trimmed_suffix bound l), (total_le_of_suffix h).trans (total_trimmed_le bound l)⟩, ?_⟩
  rintro ⟨hsuffix, hfits⟩
  induction l with
  | nil => exact hsuffix
  | cons a l ih =>
    rw [trimmed]
    split
    · exact hsuffix
    · rename_i hover
      rcases List.suffix_cons_iff.1 hsuffix with rfl | htail
      · exact absurd hfits hover
      · exact ih htail

/-- What fits stays whole. -/
theorem trimmed_of_le (h : total size l ≤ bound) : trimmed size bound l = l :=
  (trimmed_suffix bound l).eq_of_length_le (suffix_trimmed_iff.2 ⟨List.suffix_rfl, h⟩).length_le

/-- Trimming depends on the sizes alone. -/
theorem trimmed_map {size' : β → ℕ} {f : α → β} (h : ∀ a, size' (f a) = size a) (bound : ℕ) (l : List α) :
    trimmed size' bound (l.map f) = (trimmed size bound l).map f := by
  have htotal (l : List α) : total size' (l.map f) = total size l := by
    rw [total, List.map_map, total]
    exact congrArg List.sum (List.map_congr_left fun a _ => h a)
  induction l with
  | nil => rfl
  | cons a l ih =>
    rw [List.map_cons, trimmed, ← List.map_cons, htotal, trimmed]
    split
    · rfl
    · exact ih

/-- **A sequence in the order of its times** is what sorting by the times gives. -/
theorem sort_eq_of_perm {time : α → ℕ} (hsorted : l.Pairwise fun a b => time a < time b) (h : List.Perm l t) :
    t.insertionSort (fun a b => time a ≤ time b) = l := by
  have : Std.Symm fun a b => time a ≠ time b := ⟨fun _ _ hne => hne.symm⟩
  have hperm : List.Perm (t.insertionSort fun a b => time a ≤ time b) l := (List.perm_insertionSort _ t).trans h.symm
  have : IsTrans α fun a b => time a ≤ time b := ⟨fun _ _ _ => Nat.le_trans⟩
  have : Std.Total fun a b : α => time a ≤ time b := ⟨fun a b => Nat.le_total (time a) (time b)⟩
  refine List.Perm.eq_of_pairwise (fun a b ha hb hab hba => ?_) (List.pairwise_insertionSort _ t)
    (hsorted.imp Nat.le_of_lt) hperm
  by_contra hne
  exact (hsorted.imp Nat.ne_of_lt).forall (hperm.subset ha) hb hne (Nat.le_antisymm hab hba)

end Lib
