/-
# Fields of a fixed width

A value that is written as a fixed number of bytes.  What is read back is exactly what
was written, and bytes that no value is written as are refused, so that the codec is
a bijection with the bytes it accepts (`decode_iff`).  Fields that follow each other
are told apart (`encode_append_inj`).
-/

import Mathlib.Data.List.Basic
import Mathlib.Tactic.Common

namespace Lib

/-- Values written as `n` bytes. -/
structure FixedCodec (β : Type*) (n : ℕ) (α : Type*) where
  encode : α → List β
  decode : List β → Option α
  length_encode : ∀ a, (encode a).length = n
  decode_iff : ∀ bytes a, decode bytes = some a ↔ encode a = bytes

namespace FixedCodec

variable {α β : Type*} {n : ℕ} (c : FixedCodec β n α) {a a' : α} {bytes rest rest' : List β}

theorem encode_injective (h : c.encode a = c.encode a') : a = a' :=
  Option.some.inj (((c.decode_iff _ _).2 h).symm.trans ((c.decode_iff _ _).2 rfl))

/-- Two inputs that begin with a field agree on it and on what follows. -/
theorem encode_append_inj (h : c.encode a ++ rest = c.encode a' ++ rest') : a = a' ∧ rest = rest' := by
  obtain ⟨hfield, hrest⟩ := List.append_inj h ((c.length_encode a).trans (c.length_encode a').symm)
  exact ⟨c.encode_injective hfield, hrest⟩

/-- Bytes as they are. -/
def verbatim (β : Type*) (n : ℕ) : FixedCodec β n (Vector β n) where
  encode v := v.toList
  decode l := if h : l.length = n then some ⟨l.toArray, by simpa using h⟩ else none
  length_encode v := v.length_toList
  decode_iff l v := by
    constructor
    · intro h
      split at h
      · obtain rfl := Option.some.inj h
        rfl
      · cases h
    · rintro rfl
      rw [dif_pos v.length_toList]
      rfl

end FixedCodec

end Lib
