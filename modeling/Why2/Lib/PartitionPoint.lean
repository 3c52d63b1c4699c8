/-
# The partition point of a list

A list is partitioned by a predicate when the elements that satisfy it come
first.  `partitionPoint` finds the number of these by halving an interval, the
way the binary search of a slice does: `narrow` keeps a position `base` and a
`size`, looks at the middle and takes one half.  On a partitioned list it finds
the partition point (`partitionPoint_eq`); on any other list the result means
nothing.
-/

import Mathlib.Data.List.Basic

namespace Lib

variable {α : Type*} {p : α → Bool} {l : List α} {k : ℕ}

/-- The loop of the search, with at most `fuel` rounds. -/
def narrow (p : α → Bool) (l : List α) : ℕ → ℕ → ℕ → ℕ
  | 0, base, _ => base
  | fuel + 1, base, size =>
    if 1 < size then
      narrow p l fuel (if (l[base + size / 2]?).any p then base + size / 2 else base) (size - size / 2)
    else base

/-- The binary search for the first element that does not satisfy the predicate. -/
def partitionPoint (p : α → Bool) (l : List α) : ℕ :=
  if l = [] then 0
  else
    let base := narrow p l l.length 0 l.length
    if (l[base]?).any p then base + 1 else base

/-- The elements that satisfy the predicate are the first `k`. -/
structure Partitioned (p : α → Bool) (l : List α) (k : ℕ) : Prop where
  le_length : k ≤ l.length
  any_iff : ∀ i, (l[i]?).any p = true ↔ i < k

/-- **A list whose later elements pass the test only if the earlier do is partitioned.** -/
theorem partitioned_takeWhile (h : l.Pairwise fun x y => p y = true → p x = true) :
    Partitioned p l (l.takeWhile p).length := by
  induction l with
  | nil => exact ⟨Nat.le_refl _, fun i => by simp⟩
  | cons x l ih =>
    obtain ⟨hx, hl⟩ := List.pairwise_cons.1 h
    obtain ⟨hle, hany⟩ := ih hl
    by_cases hpx : p x = true
    · rw [List.takeWhile_cons_of_pos hpx]
      refine ⟨Nat.succ_le_succ hle, fun i => ?_⟩
      cases i with
      | zero => simpa using hpx
      | succ i => rw [List.getElem?_cons_succ, hany, List.length_cons, Nat.succ_lt_succ_iff]
    · rw [List.takeWhile_cons_of_neg hpx]
      refine ⟨Nat.zero_le _, fun i => ?_⟩
      constructor
      · intro hi
        obtain ⟨y, hy, hpy⟩ := (Option.any_eq_true _ _).1 hi
        rcases List.mem_cons.1 (List.mem_of_getElem? hy) with rfl | hmem
        · exact absurd hpy hpx
        · exact absurd (hx y hmem hpy) hpx
      · intro hi
        exact absurd hi (Nat.not_lt_zero i)

/-- The images of a partitioned list are partitioned by a predicate that tells them apart. -/
theorem Partitioned.map {β : Type*} {q : β → Bool} {f : α → β} (h : Partitioned p l k) (hf : ∀ x ∈ l, q (f x) = p x) :
    Partitioned q (l.map f) k where
  le_length := by
    rw [List.length_map]
    exact h.le_length
  any_iff i := by
    rw [← h.any_iff i, List.getElem?_map]
    cases hi : l[i]? with
    | none => rfl
    | some x => rw [Option.map_some, Option.any_some, Option.any_some, hf x (List.mem_of_getElem? hi)]

/-- The loop keeps the partition point within its interval: not at `base` unless that
is 0, and at most `size` after it. -/
theorem narrow_spec (h : Partitioned p l k) {fuel base size : ℕ} (hfuel : size ≤ fuel)
    (hsize : 0 < size) (hlow : base = 0 ∨ base < k) (hhigh : k ≤ base + size) :
    (narrow p l fuel base size = 0 ∨ narrow p l fuel base size < k) ∧
      k ≤ narrow p l fuel base size + 1 := by
  induction fuel generalizing base size with
  | zero => omega
  | succ fuel ih =>
    unfold narrow
    split
    · have hany := h.any_iff (base + size / 2)
      split
      · rename_i hmid
        have hbelow := hany.1 hmid
        exact ih (by omega) (by omega) (by omega) (by omega)
      · rename_i hmid
        have habove := mt hany.2 hmid
        exact ih (by omega) (by omega) (by omega) (by omega)
    · exact ⟨hlow, by omega⟩

/-- **The binary search finds the partition point.** -/
theorem partitionPoint_eq (h : Partitioned p l k) : partitionPoint p l = k := by
  have hle := h.le_length
  unfold partitionPoint
  split
  · rename_i hnil
    rw [hnil, List.length_nil] at hle
    omega
  · rename_i hne
    obtain ⟨hlow, hhigh⟩ := narrow_spec h (Nat.le_refl _) (List.length_pos_iff.2 hne) (.inl rfl) (by omega)
    have hany := h.any_iff (narrow p l l.length 0 l.length)
    dsimp only
    split
    · rename_i hbase
      have hbelow := hany.1 hbase
      omega
    · rename_i hbase
      have habove := mt hany.2 hbase
      omega

/-- **The elements before the partition point are those that satisfy the predicate.** -/
theorem Partitioned.take_eq_filter (h : Partitioned p l k) : l.take k = l.filter p := by
  have hbefore : ∀ x ∈ l.take k, p x = true := by
    intro x hx
    obtain ⟨i, hi, rfl⟩ := List.mem_take_iff_getElem.1 hx
    have hany := (h.any_iff i).2 (by omega)
    rwa [List.getElem?_eq_getElem (by omega), Option.any_some] at hany
  have hafter : ∀ x ∈ l.drop k, ¬p x = true := by
    intro x hx hpx
    obtain ⟨i, hi, rfl⟩ := List.mem_drop_iff_getElem.1 hx
    have hlt := (h.any_iff (k + i)).1 (by rwa [List.getElem?_eq_getElem (by omega), Option.any_some])
    omega
  conv_rhs => rw [← List.take_append_drop k l]
  rw [List.filter_append, List.filter_eq_self.2 hbefore, List.filter_eq_nil_iff.2 hafter, List.append_nil]

end Lib
