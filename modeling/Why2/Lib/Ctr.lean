/-
# Counter mode over blocks of cells

A keystream is a block of `n` cells for every counter value, and counter mode
XORs cell `p` of a text that starts at counter `c` with cell `p % n` of the
block at counter `c + p / n`.  The counter is a machine word and wraps; a cell
is a machine word too.  What a mode of operation needs is here: the text may
be cut at a block boundary (`ctrXor_append`), a text given as a list of blocks
is the concatenation of its blocks, each at its own counter
(`flatten_mapIdx_ctrXor`), and the mode is its own inverse (`ctrXor_ctrXor`).
-/

import Why2.Lib.Chunks
import Mathlib.Data.BitVec

namespace Lib

variable {w m n : ℕ} {ks : BitVec w → ℕ → BitVec m}

/-- The text `l`, started at counter `c`, XORed with the keystream `ks` of
`n`-cell blocks. -/
def ctrXor (n : ℕ) (ks : BitVec w → ℕ → BitVec m) (c : BitVec w) (l : List (BitVec m)) :
    List (BitVec m) :=
  l.mapIdx fun p x => x ^^^ ks (c + BitVec.ofNat w (p / n)) (p % n)

/-- Nothing is encrypted to nothing. -/
@[simp]
theorem ctrXor_nil (c : BitVec w) : ctrXor n ks c [] = [] := rfl

/-- Encryption keeps the length. -/
@[simp]
theorem length_ctrXor (c : BitVec w) (l : List (BitVec m)) :
    (ctrXor n ks c l).length = l.length := by
  simp [ctrXor]

/-- **Counter mode is its own inverse.** -/
theorem ctrXor_ctrXor (c : BitVec w) (l : List (BitVec m)) :
    ctrXor n ks c (ctrXor n ks c l) = l := by
  refine List.ext_getElem (by simp) fun p _ _ => ?_
  simp only [ctrXor, List.getElem_mapIdx]
  rw [BitVec.xor_assoc, BitVec.xor_self, BitVec.xor_zero]

/-- The keystream can be read off any long enough text of zeros. -/
theorem ctrXor_eq_zipWith (c : BitVec w) (l : List (BitVec m)) {N : ℕ} (h : l.length ≤ N) :
    ctrXor n ks c l =
      List.zipWith (· ^^^ ·) l ((ctrXor n ks c (List.replicate N 0)).take l.length) := by
  refine List.ext_getElem (by simp [h]) fun p _ _ => ?_
  simp [ctrXor]

/-- A first part is encrypted by itself. -/
theorem ctrXor_take (c : BitVec w) (l : List (BitVec m)) (k : ℕ) :
    (ctrXor n ks c l).take k = ctrXor n ks c (l.take k) := by
  refine List.ext_getElem (by simp) fun p _ _ => ?_
  simp [ctrXor]

/-- **A text may be cut at a block boundary.**  The second part goes on at the
counter the first part has reached. -/
theorem ctrXor_append (hn : 0 < n) (c : BitVec w) (l₁ l₂ : List (BitVec m))
    (h : n ∣ l₁.length) :
    ctrXor n ks c (l₁ ++ l₂) =
      ctrXor n ks c l₁ ++ ctrXor n ks (c + BitVec.ofNat w (l₁.length / n)) l₂ := by
  obtain ⟨k, hk⟩ := h
  unfold ctrXor
  rw [List.mapIdx_append]
  congr 2
  funext p x
  rw [hk, Nat.mul_div_cancel_left _ hn, Nat.add_mul_div_left _ _ hn, Nat.add_mul_mod_self_left,
    BitVec.ofNat_add, BitVec.add_assoc, BitVec.add_comm (BitVec.ofNat w k)]

/-- **A list of whole blocks is one text.** -/
theorem flatten_mapIdx_ctrXor (hn : 0 < n) (c : BitVec w) {L : List (List (BitVec m))}
    (h : ∀ b ∈ L, b.length = n) :
    (L.mapIdx fun i b => ctrXor n ks (c + BitVec.ofNat w i) b).flatten =
      ctrXor n ks c L.flatten := by
  induction L generalizing c with
  | nil => rfl
  | cons b L ih =>
    have hb : b.length = n := h b (by simp)
    rw [List.mapIdx_cons, List.flatten_cons, List.flatten_cons,
      ctrXor_append hn c b _ (by rw [hb]), hb, Nat.div_self hn,
      ← ih _ fun x hx => h x (List.mem_cons_of_mem _ hx)]
    simp only [BitVec.ofNat_add, BitVec.add_zero]
    congr 3
    funext i b
    rw [BitVec.add_assoc, BitVec.add_comm 1#w]

/-! ### Which keystream cells are used -/

/-- The number of blocks `k` cells take. -/
def blockCount (n k : ℕ) : ℕ := (k + n - 1) / n

/-- The keystream cells, as counter and position, that `k` cells from counter
`c` on are XORed with. -/
def blockUses (n c k : ℕ) : List (ℕ × ℕ) := (List.range k).map fun p => (c + p / n, p % n)

/-- The same for texts of the given lengths one after the other, each starting
on a block of its own. -/
def ctrUses (n : ℕ) : ℕ → List ℕ → List (List (ℕ × ℕ))
  | _, [] => []
  | c, k :: ks => blockUses n c k :: ctrUses n (c + blockCount n k) ks

/-- Every word uses one of the keystream. -/
@[simp]
theorem length_blockUses (c k : ℕ) : (blockUses n c k).length = k := by simp [blockUses]

/-- So does every word of every message. -/
theorem map_length_ctrUses (c : ℕ) (l : List ℕ) : (ctrUses n c l).map List.length = l := by
  induction l generalizing c with
  | nil => rfl
  | cons k l ih => rw [ctrUses, List.map_cons, ih, length_blockUses]

/-- A message uses words of its own blocks. -/
theorem mem_blockUses (hn : 0 < n) {c k : ℕ} {u : ℕ × ℕ} (hu : u ∈ blockUses n c k) :
    c ≤ u.1 ∧ u.1 < c + blockCount n k ∧ u.2 < n := by
  obtain ⟨p, hp, rfl⟩ := List.mem_map.1 hu
  rw [List.mem_range] at hp
  have hdiv : p / n < blockCount n k := by
    rw [blockCount, Nat.div_lt_iff_lt_mul hn]
    have := Nat.div_add_mod (k + n - 1) n
    have := Nat.mod_lt (k + n - 1) hn
    rw [Nat.mul_comm]
    omega
  exact ⟨Nat.le_add_right _ _, Nat.add_lt_add_left hdiv c, Nat.mod_lt _ hn⟩

/-- So do many messages. -/
theorem mem_ctrUses (hn : 0 < n) {c : ℕ} {l : List ℕ} {us : List (ℕ × ℕ)} {u : ℕ × ℕ}
    (hus : us ∈ ctrUses n c l) (hu : u ∈ us) :
    c ≤ u.1 ∧ u.1 < c + (l.map (blockCount n)).sum ∧ u.2 < n := by
  induction l generalizing c with
  | nil => cases hus
  | cons k l ih =>
    rw [List.map_cons, List.sum_cons]
    rcases List.mem_cons.1 hus with rfl | hus
    · have := mem_blockUses hn hu
      omega
    · have := ih hus
      omega

/-- A message uses no word twice. -/
theorem blockUses_nodup (c k : ℕ) : (blockUses n c k).Nodup := by
  refine List.Nodup.map (fun p q hpq => ?_) List.nodup_range
  obtain ⟨hdiv, hmod⟩ := Prod.mk.inj hpq
  have hdiv := Nat.add_left_cancel hdiv
  rw [← Nat.div_add_mod p n, ← Nat.div_add_mod q n, hdiv, hmod]

/-- Earlier texts use smaller counters than later ones. -/
theorem ctrUses_pairwise (hn : 0 < n) (c : ℕ) (l : List ℕ) :
    (ctrUses n c l).Pairwise fun us vs => ∀ u ∈ us, ∀ v ∈ vs, u.1 < v.1 := by
  induction l generalizing c with
  | nil => exact .nil
  | cons k l ih =>
    refine .cons (fun vs hvs u hu v hv => ?_) (ih _)
    have := mem_blockUses hn hu
    have := mem_ctrUses hn hvs hv
    omega

/-- **No keystream cell is used twice.** -/
theorem ctrUses_nodup (hn : 0 < n) (c : ℕ) (l : List ℕ) : (ctrUses n c l).flatten.Nodup := by
  refine List.nodup_flatten.2 ⟨fun us hus => ?_, (ctrUses_pairwise hn c l).imp ?_⟩
  · induction l generalizing c with
    | nil => cases hus
    | cons k l ih =>
      rcases List.mem_cons.1 hus with rfl | hus
      · exact blockUses_nodup c k
      · exact ih _ hus
  · intro us vs h u hu hv
    exact Nat.lt_irrefl _ (h u hu u hv)

/-- Counter mode XORs each cell with the keystream cell `blockUses` lists for it. -/
theorem ctrXor_eq_uses (c : ℕ) (l : List (BitVec m)) :
    ctrXor n ks (BitVec.ofNat w c) l =
      List.zipWith (fun x u => x ^^^ ks (BitVec.ofNat w u.1) u.2) l (blockUses n c l.length) := by
  refine List.ext_getElem (by simp) fun p _ _ => ?_
  simp [ctrXor, blockUses, BitVec.ofNat_add]

end Lib
