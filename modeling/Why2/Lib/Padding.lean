/-
# Pieces that each start a new block

Pieces of a text are laid out one after the other in blocks of `n` items, each
piece from the start of a block on, so that the rest of a piece's last block
stays empty.  `position` is where an item of the text lands; it depends on the
lengths of the pieces.

Cutting a text into chunks of `c` items is one such layout
(`position_chunks`).  Other pieces lay the text out in the same way if every
piece starts at a multiple of `n` in its chunk and ends in that chunk
(`position_of_aligned`).
-/

import Why2.Lib.Chunks
import Why2.Lib.Ctr

namespace Lib

variable {n c : ℕ}

/-- Where item `i` of the text lands, if the first piece starts block `k`. -/
def position (n : ℕ) : ℕ → List ℕ → ℕ → ℕ
  | k, [], i => n * k + i
  | k, len :: lens, i => if i < len then n * k + i else position n (k + blockCount n len) lens (i - len)

/-- Every piece that is not empty starts at a multiple of `n` in its chunk of `c` items
and ends in that chunk; the first piece starts at item `o`. -/
def Aligned (n c : ℕ) : ℕ → List ℕ → Prop
  | _, [] => True
  | o, len :: lens => (len = 0 ∨ n ∣ o % c ∧ o % c + len ≤ c) ∧ Aligned n c (o + len) lens

instance (n c o : ℕ) (lens : List ℕ) : Decidable (Aligned n c o lens) :=
  match lens with
  | [] => .isTrue trivial
  | len :: lens =>
    have : Decidable (Aligned n c (o + len) lens) := instDecidableAligned n c (o + len) lens
    inferInstanceAs (Decidable ((len = 0 ∨ n ∣ o % c ∧ o % c + len ≤ c) ∧ Aligned n c (o + len) lens))

theorem blockCount_add (hn : 0 < n) {a : ℕ} (ha : n ∣ a) (m : ℕ) :
    blockCount n (a + m) = a / n + blockCount n m := by
  obtain ⟨q, rfl⟩ := ha
  unfold blockCount
  rw [Nat.mul_div_cancel_left q hn, Nat.add_assoc, Nat.add_sub_assoc (by omega), Nat.mul_add_div hn]

theorem blockCount_zero (hn : 0 < n) : blockCount n 0 = 0 := by
  unfold blockCount
  exact Nat.div_eq_of_lt (by omega)

/-- **Where the chunks of a text land.** -/
theorem position_chunks {α : Type*} (hc : 0 < c) (l : List α) (k : ℕ) {i : ℕ} (hi : i < l.length) :
    position n k ((chunks c l).map List.length) i = n * (k + i / c * blockCount n c) + i % c := by
  induction l using chunks_induction hc generalizing k i with
  | nil => cases hi
  | block l hl ih =>
    rw [chunks_cons hc hl, List.map_cons, position, List.length_take]
    split
    · rename_i hlt
      have hic : i < c := by omega
      rw [Nat.div_eq_of_lt hic, Nat.mod_eq_of_lt hic, Nat.zero_mul, Nat.add_zero]
    · rename_i hge
      have hmin : min c l.length = c := by omega
      have hle : c ≤ i := by omega
      have hdrop : i - c < (l.drop c).length := by rw [List.length_drop]; omega
      obtain ⟨j, rfl⟩ := Nat.exists_eq_add_of_le hle
      rw [hmin, ih _ hdrop, Nat.add_sub_cancel_left, Nat.add_mod_left, Nat.add_div_left j hc,
        Nat.succ_mul]
      congr 2
      omega

/-- The number of blocks up to the end of an aligned piece. -/
theorem blockCount_aligned (hn : 0 < n) (hc : 0 < c) {o len : ℕ} (hdvd : n ∣ o % c)
    (hend : o % c + len ≤ c) :
    o / c * blockCount n c + blockCount n (o % c) + blockCount n len =
      (o + len) / c * blockCount n c + blockCount n ((o + len) % c) := by
  have hdiv := Nat.div_add_mod o c
  have hstart : blockCount n (o % c) = o % c / n := by
    have := blockCount_add hn hdvd 0
    rwa [Nat.add_zero, blockCount_zero hn, Nat.add_zero] at this
  rw [hstart, Nat.add_assoc, ← blockCount_add hn hdvd]
  rcases hend.lt_or_eq with hlt | heq
  · have hsum : o + len = c * (o / c) + (o % c + len) := by omega
    rw [hsum, Nat.mul_add_div hc, Nat.mul_add_mod, Nat.div_eq_of_lt hlt, Nat.mod_eq_of_lt hlt,
      Nat.add_zero]
  · have hsum : o + len = c * (o / c + 1) := by rw [Nat.mul_add, Nat.mul_one]; omega
    rw [hsum, Nat.mul_div_cancel_left _ hc, Nat.mul_mod_right, blockCount_zero hn, heq, Nat.add_mul,
      Nat.one_mul, Nat.add_zero]

/-- **Aligned pieces land where the chunks land.** -/
theorem position_of_aligned (hn : 0 < n) (hc : 0 < c) {o : ℕ} {lens : List ℕ} (h : Aligned n c o lens)
    {i : ℕ} (hi : i < lens.sum) :
    position n (o / c * blockCount n c + blockCount n (o % c)) lens i =
      n * ((o + i) / c * blockCount n c) + (o + i) % c := by
  induction lens generalizing o i with
  | nil => cases hi
  | cons len lens ih =>
    rw [List.sum_cons] at hi
    obtain ⟨hpiece, hrest⟩ := h
    rw [position]
    split
    · rename_i hlt
      obtain ⟨hdvd, hend⟩ := hpiece.resolve_left (by omega)
      have hdiv := Nat.div_add_mod o c
      have hsum : o + i = c * (o / c) + (o % c + i) := by omega
      have hstart : n * blockCount n (o % c) = o % c := by
        have := blockCount_add hn hdvd 0
        rw [Nat.add_zero, blockCount_zero hn, Nat.add_zero] at this
        rw [this, Nat.mul_div_cancel' hdvd]
      have hlt' : o % c + i < c := by omega
      rw [hsum, Nat.mul_add_div hc, Nat.mul_add_mod, Nat.div_eq_of_lt hlt', Nat.mod_eq_of_lt hlt',
        Nat.add_zero, Nat.mul_add, hstart]
      omega
    · rename_i hge
      obtain ⟨j, rfl⟩ := Nat.exists_eq_add_of_le (Nat.le_of_not_lt hge)
      have hcount : o / c * blockCount n c + blockCount n (o % c) + blockCount n len =
          (o + len) / c * blockCount n c + blockCount n ((o + len) % c) := by
        rcases hpiece with rfl | ⟨hdvd, hend⟩
        · rw [blockCount_zero hn, Nat.add_zero, Nat.add_zero]
        · exact blockCount_aligned hn hc hdvd hend
      rw [hcount, Nat.add_sub_cancel_left, ih hrest (by omega), Nat.add_assoc]

/-- One more piece. -/
theorem aligned_concat {o : ℕ} {lens : List ℕ} {len : ℕ} (h : Aligned n c o lens)
    (hlast : Aligned n c (o + lens.sum) [len]) : Aligned n c o (lens ++ [len]) := by
  induction lens generalizing o with
  | nil => exact hlast
  | cons first lens ih =>
    refine ⟨h.1, ih h.2 ?_⟩
    rwa [List.sum_cons, ← Nat.add_assoc] at hlast

end Lib
