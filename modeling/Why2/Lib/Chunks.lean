/-
# A list cut into blocks

`slice::chunks(n)` of the Rust standard library: consecutive blocks of `n`
elements, the last one shorter when `n` does not divide the length.  The
definition is by index rather than by recursion on the rest of the list, so it
computes without a termination argument; `chunks_cons` is the recursion the
proofs use, and `chunks_append` says that a cut at a block boundary commutes
with the cutting.
-/

import Mathlib.Data.List.Basic
import Mathlib.Algebra.Order.Floor.Div
import Mathlib.Tactic.Linarith

namespace Lib

variable {α β : Type*} {n : ℕ}

/-- The blocks of `l`, `n` elements each but for a shorter last one. -/
def chunks (n : ℕ) (l : List α) : List (List α) :=
  (List.range ((l.length + n - 1) / n)).map fun i => (l.drop (i * n)).take n

@[simp]
theorem chunks_nil (n : ℕ) : chunks n ([] : List α) = [] := by
  rcases Nat.eq_zero_or_pos n with rfl | hn
  · simp [chunks]
  · simp [chunks, Nat.div_eq_of_lt (show n - 1 < n by omega)]

theorem length_chunks (n : ℕ) (l : List α) : (chunks n l).length = (l.length + n - 1) / n := by
  simp [chunks]

/-- **Blocks are cut off one at a time.** -/
theorem chunks_cons (hn : 0 < n) {l : List α} (hl : l ≠ []) :
    chunks n l = l.take n :: chunks n (l.drop n) := by
  have hpos : 0 < l.length := List.length_pos_iff.2 hl
  have hcount : (l.length + n - 1) / n = ((l.drop n).length + n - 1) / n + 1 := by
    rw [List.length_drop]
    rcases Nat.le_total n l.length with h | h
    · rw [show l.length + n - 1 = (l.length - n + n - 1) + n by omega, Nat.add_div_right _ hn]
    · rw [show l.length - n = 0 by omega, Nat.div_eq_of_lt (show 0 + n - 1 < n by omega)]
      exact Nat.div_eq_of_lt_le (by omega) (by omega)
  unfold chunks
  rw [hcount, List.range_succ_eq_map, List.map_cons, List.map_map]
  simp only [Nat.zero_mul, List.drop_zero, List.cons.injEq, true_and]
  refine List.map_congr_left fun i _ => ?_
  simp only [Function.comp, Nat.succ_eq_add_one, List.drop_drop, Nat.add_mul, Nat.one_mul]
  rw [Nat.add_comm]

theorem chunks_of_length_le (hn : 0 < n) {l : List α} (hl : l ≠ []) (h : l.length ≤ n) :
    chunks n l = [l] := by
  rw [chunks_cons hn hl, List.take_of_length_le h, List.drop_of_length_le h, chunks_nil]

/-- Induction on a list, a block at a time. -/
theorem chunks_induction (hn : 0 < n) {P : List α → Prop} (nil : P [])
    (block : ∀ l, l ≠ [] → P (l.drop n) → P l) : ∀ l, P l := by
  intro l
  induction hk : l.length using Nat.strong_induction_on generalizing l with
  | _ k ih =>
    by_cases hl : l = []
    · exact hl ▸ nil
    · have : 0 < l.length := List.length_pos_iff.2 hl
      exact block l hl (ih _ (by rw [List.length_drop]; omega) _ rfl)

/-- **Nothing is lost in the cutting.** -/
theorem flatten_chunks (hn : 0 < n) (l : List α) : (chunks n l).flatten = l := by
  induction l using chunks_induction hn with
  | nil => simp
  | block l hl ih => rw [chunks_cons hn hl, List.flatten_cons, ih, List.take_append_drop]

/-- **A cut at a block boundary commutes with the cutting.** -/
theorem chunks_append (hn : 0 < n) (l₁ l₂ : List α) (h : n ∣ l₁.length) :
    chunks n (l₁ ++ l₂) = chunks n l₁ ++ chunks n l₂ := by
  induction l₁ using chunks_induction hn with
  | nil => simp
  | block l hl ih =>
    have hle : n ≤ l.length := Nat.le_of_dvd (List.length_pos_iff.2 hl) h
    rw [chunks_cons hn hl, chunks_cons hn (List.append_ne_nil_of_left_ne_nil hl _),
      List.take_append_of_le_length hle, List.drop_append_of_le_length hle,
      ih (by rw [List.length_drop]; exact Nat.dvd_sub h (dvd_refl n)), List.cons_append]

/-- A list of whole blocks is cut into whole blocks. -/
theorem length_of_mem_chunks (hn : 0 < n) {l b : List α} (h : n ∣ l.length)
    (hb : b ∈ chunks n l) : b.length = n := by
  induction l using chunks_induction hn with
  | nil => simp at hb
  | block l hl ih =>
    have hle : n ≤ l.length := Nat.le_of_dvd (List.length_pos_iff.2 hl) h
    rw [chunks_cons hn hl] at hb
    rcases List.mem_cons.1 hb with rfl | hb
    · rw [List.length_take]; omega
    · exact ih (by rw [List.length_drop]; exact Nat.dvd_sub h (dvd_refl n)) hb

/-- Blocks of exactly `n` elements are what their concatenation is cut into. -/
theorem chunks_flatten (hn : 0 < n) {L : List (List α)} (h : ∀ b ∈ L, b.length = n) :
    chunks n L.flatten = L := by
  induction L with
  | nil => simp
  | cons b L ih =>
    have hb : b.length = n := h b (by simp)
    have hne : b ≠ [] := List.length_pos_iff.1 (by omega)
    rw [List.flatten_cons, chunks_append hn _ _ (by rw [hb]),
      chunks_of_length_le hn hne hb.le, ih fun x hx => h x (List.mem_cons_of_mem _ hx)]
    rfl

end Lib
