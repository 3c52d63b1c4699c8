/-
# Big-endian bytes of a number

`to_be_bytes` and `from_be_bytes` of the Rust integer types, at any width: the
`k` bytes of a number, most significant first, and the number a byte string
stands for.  Both are on `ℕ`, so one pair of round trips (`ofBeBytes_beBytes`,
`beBytes_ofBeBytes`) serves every machine word.
-/

import Mathlib.Data.List.Basic
import Mathlib.Data.BitVec

namespace Lib

/-- The `k` low bytes of `x`, most significant first. -/
def beBytes : ℕ → ℕ → List (BitVec 8)
  | 0, _ => []
  | k + 1, x => beBytes k (x / 256) ++ [BitVec.ofNat 8 x]

/-- The number whose bytes, most significant first, are `l`. -/
def ofBeBytes (l : List (BitVec 8)) : ℕ := l.foldl (fun acc b => acc * 256 + b.toNat) 0

@[simp]
theorem length_beBytes (k x : ℕ) : (beBytes k x).length = k := by
  induction k generalizing x with
  | zero => rfl
  | succ k ih => simp [beBytes, ih]

theorem ofBeBytes_concat (l : List (BitVec 8)) (b : BitVec 8) :
    ofBeBytes (l ++ [b]) = ofBeBytes l * 256 + b.toNat := by
  simp [ofBeBytes]

/-- **Bytes keep the number, up to their width.** -/
theorem ofBeBytes_beBytes (k x : ℕ) : ofBeBytes (beBytes k x) = x % 256 ^ k := by
  induction k generalizing x with
  | zero => simp [beBytes, ofBeBytes, Nat.mod_one]
  | succ k ih =>
    have hmod : x % (256 * 256 ^ k) = x % 256 + 256 * (x / 256 % 256 ^ k) := Nat.mod_mul
    rw [beBytes, ofBeBytes_concat, ih, BitVec.toNat_ofNat, Nat.pow_succ' (m := 256), hmod]
    omega

theorem ofBeBytes_lt (l : List (BitVec 8)) : ofBeBytes l < 256 ^ l.length := by
  induction l using List.reverseRecOn with
  | nil => simp [ofBeBytes]
  | append_singleton l b ih =>
    have := b.isLt
    rw [ofBeBytes_concat, List.length_append, List.length_singleton, pow_succ]
    omega

/-- **A number keeps its bytes.** -/
theorem beBytes_ofBeBytes (l : List (BitVec 8)) : beBytes l.length (ofBeBytes l) = l := by
  induction l using List.reverseRecOn with
  | nil => rfl
  | append_singleton l b ih =>
    have hb : b.toNat < 256 := b.isLt
    rw [List.length_append, List.length_singleton, beBytes, ofBeBytes_concat,
      show (ofBeBytes l * 256 + b.toNat) / 256 = ofBeBytes l by omega, ih]
    congr 2
    apply BitVec.eq_of_toNat_eq
    rw [BitVec.toNat_ofNat]
    omega

/-- XOR acts on each byte. -/
theorem beBytes_xor (k x y : ℕ) :
    beBytes k (x ^^^ y) = List.zipWith (· ^^^ ·) (beBytes k x) (beBytes k y) := by
  induction k generalizing x y with
  | zero => rfl
  | succ k ih =>
    have hdiv : (x ^^^ y) / 256 = x / 256 ^^^ y / 256 := by
      simpa using Nat.xor_div_two_pow (a := x) (b := y) (n := 8)
    rw [beBytes, beBytes, beBytes, hdiv, ih, List.zipWith_append (by simp), BitVec.ofNat_xor]
    rfl

end Lib
