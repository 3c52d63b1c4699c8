/-
# The first occurrence of a code

Where a code stands first in a list (`firstAt`).  It stands there, and nowhere
before (`firstAt_eq_some_iff`); it is not found exactly if it does not occur
(`firstAt_eq_none_iff`).
-/

import Mathlib.Data.List.Infix

namespace Lib

variable {α : Type*} [DecidableEq α] {code l : List α} {k : ℕ}

/-- The first place where the code stands. -/
def firstAt (code : List α) : List α → Option ℕ
  | [] => if code = [] then some 0 else none
  | a :: rest => if code <+: a :: rest then some 0 else (firstAt code rest).map (· + 1)

theorem firstAt_eq_zero (h : code <+: l) : firstAt code l = some 0 := by
  cases l with
  | nil => exact if_pos (List.prefix_nil.1 h)
  | cons a rest => exact if_pos h

theorem firstAt_cons_of_not {a : α} (h : ¬code <+: a :: l) :
    firstAt code (a :: l) = (firstAt code l).map (· + 1) :=
  if_neg h

/-- **The code stands there, and at no place before.** -/
theorem firstAt_eq_some_iff :
    firstAt code l = some k ↔ code <+: l.drop k ∧ k ≤ l.length ∧ ∀ j < k, ¬code <+: l.drop j := by
  induction l generalizing k with
  | nil =>
    rw [firstAt, List.drop_nil, List.prefix_nil]
    by_cases hcode : code = []
    · rw [if_pos hcode, Option.some.injEq]
      refine ⟨?_, fun h => (Nat.le_zero.1 h.2.1).symm⟩
      rintro rfl
      exact ⟨hcode, le_rfl, fun _ hj => absurd hj (Nat.not_lt_zero _)⟩
    · rw [if_neg hcode]
      exact iff_of_false (Option.some_ne_none _).symm fun h => hcode h.1
  | cons a rest ih =>
    by_cases hcode : code <+: a :: rest
    · rw [firstAt_eq_zero hcode, Option.some.injEq]
      refine ⟨?_, fun h => ?_⟩
      · rintro rfl
        exact ⟨hcode, Nat.zero_le _, fun _ hj => absurd hj (Nat.not_lt_zero _)⟩
      · by_contra hne
        exact h.2.2 0 (Nat.pos_of_ne_zero fun h => hne h.symm) hcode
    · rw [firstAt_cons_of_not hcode, Option.map_eq_some_iff]
      constructor
      · rintro ⟨k, hk, rfl⟩
        obtain ⟨hat, hle, hbefore⟩ := ih.1 hk
        refine ⟨hat, Nat.succ_le_succ hle, fun j hj => ?_⟩
        cases j with
        | zero => exact hcode
        | succ j => exact hbefore j (Nat.lt_of_succ_lt_succ hj)
      · rintro ⟨hat, hle, hbefore⟩
        cases k with
        | zero => exact absurd hat hcode
        | succ k =>
          exact ⟨k, ih.2 ⟨hat, Nat.le_of_succ_le_succ hle, fun j hj => hbefore (j + 1) (Nat.succ_lt_succ hj)⟩, rfl⟩

/-- There is room for the code where it is found. -/
theorem firstAt_add_length_le (h : firstAt code l = some k) : k + code.length ≤ l.length := by
  obtain ⟨hat, hle, -⟩ := firstAt_eq_some_iff.1 h
  have hlen := hat.length_le
  rw [List.length_drop] at hlen
  omega

/-- **The code is not found exactly if it does not occur.** -/
theorem firstAt_eq_none_iff : firstAt code l = none ↔ ¬code <:+: l := by
  induction l with
  | nil =>
    rw [List.infix_nil, firstAt]
    by_cases hcode : code = []
    · rw [if_pos hcode]
      exact iff_of_false (Option.some_ne_none _) (not_not_intro hcode)
    · rw [if_neg hcode]
      exact iff_of_true rfl hcode
  | cons a rest ih =>
    rw [List.infix_cons_iff, not_or, ← ih]
    by_cases hcode : code <+: a :: rest
    · rw [firstAt_eq_zero hcode]
      exact iff_of_false (Option.some_ne_none _) fun h => h.1 hcode
    · rw [firstAt_cons_of_not hcode, Option.map_eq_none_iff]
      exact (and_iff_right hcode).symm

/-- **What comes before the first occurrence has none in it.** -/
theorem not_infix_take_firstAt (hcode : code ≠ []) : ¬code <:+: l.take ((firstAt code l).getD l.length) := by
  cases h : firstAt code l with
  | none =>
    rw [Option.getD_none, List.take_length]
    exact firstAt_eq_none_iff.1 h
  | some k =>
    rw [Option.getD_some]
    rintro ⟨a, b, hab⟩
    have hlen := congrArg List.length hab
    rw [List.length_append, List.length_append, List.length_take] at hlen
    have hpos : 0 < code.length := List.length_pos_iff.2 hcode
    refine (firstAt_eq_some_iff.1 h).2.2 a.length (by omega) ⟨b ++ l.drop k, ?_⟩
    calc code ++ (b ++ l.drop k) = ((a ++ (code ++ (b ++ l.drop k))).drop a.length) := List.drop_left.symm
      _ = (l.take k ++ l.drop k).drop a.length := by rw [← hab]; simp only [List.append_assoc]
      _ = l.drop a.length := by rw [List.take_append_drop]

end Lib
