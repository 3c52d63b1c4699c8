/-
# Constructing grids

The functions of `core/src` that shape a slice into grids: `Grid::from_bytes`,
`Grid::from_key`, `Grid::from_flat`, `AuthenticatedPacket::try_from` and
`encrypt`.  The dimensions are type parameters that only `Grid::new` checks, and
the callers compute with `W * H` before they reach it.

`from_key` and `from_flat` return on every input, with an error if the
dimensions are not supported.  With `W * H = 0` the others divide by zero:
`from_bytes` always, `try_from` once it has a tag, and `encrypt` always; and
`from_bytes` accepts the empty slice whatever the dimensions, since it builds no
grid then (`construction_total_iff`).
-/

import Why2.Core.Auth

namespace Why2

open Lib

variable {W H : ℕ} {α : Type*}

/-- The call returns: with an error if the dimensions are not supported, and otherwise
with a value exactly if the condition on the length is met. -/
def ReturnsTotal (W H : ℕ) (lengthOk : Prop) (result : Except Fault α) : Prop :=
  (∀ message, result ≠ .error (.panic message)) ∧
  (¬Grid.Supported W H → ∃ e, result = .error (.err e)) ∧
  (Grid.Supported W H → ((∃ value, result = .ok value) ↔ lengthOk))

/-- An error is right where the dimensions or the length are not. -/
theorem returnsTotal_err {lengthOk : Prop} {result : Except Fault α} {e : GridError}
    (h : result = .error (.err e)) (hlength : Grid.Supported W H → ¬lengthOk) :
    ReturnsTotal W H lengthOk result := by
  subst h
  refine ⟨fun message heq => ?_, fun _ => ⟨e, rfl⟩, fun hd => ⟨?_, fun hok => absurd hok (hlength hd)⟩⟩
  · cases heq
  · rintro ⟨value, heq⟩
    cases heq

/-- A value is right where both are. -/
theorem returnsTotal_ok {lengthOk : Prop} {result : Except Fault α} {value : α} (hd : Grid.Supported W H)
    (h : result = .ok value) (hlength : lengthOk) : ReturnsTotal W H lengthOk result := by
  subst h
  refine ⟨fun message heq => ?_, fun hnot => absurd hd hnot, fun _ => ⟨fun _ => hlength, fun _ => ⟨value, rfl⟩⟩⟩
  cases heq

/-- A panic is never right. -/
theorem not_returnsTotal_panic {lengthOk : Prop} {result : Except Fault α} {message : String}
    (h : result = .error (.panic message)) : ¬ReturnsTotal W H lengthOk result :=
  fun htotal => htotal.1 message h

namespace Grid

/-- A grid of other dimensions is an error. -/
theorem new_eq_err (hd : ¬Supported W H) :
    (new : Except Fault (Grid W H)) = .error (.err (.invalidDimensions W H)) := if_neg hd

/-! ### Each constructor -/

/-- **`from_flat` returns on every slice.** -/
theorem fromFlat_total (vec : List I64) :
    ReturnsTotal W H True (fromFlat vec : Except Fault (Grid W H)) := by
  by_cases hd : Supported W H
  · exact returnsTotal_ok hd (fromFlat_eq hd vec) trivial
  · have herr : (fromFlat vec : Except Fault (Grid W H)) = .error (.err (.invalidDimensions W H)) := by
      rw [fromFlat, new_eq_err hd]
      rfl
    exact returnsTotal_err herr fun hd' => absurd hd' hd

/-- **`from_key` returns on every slice.** -/
theorem fromKey_total (vec : List I64) :
    ReturnsTotal W H (vec.length = 2 * W * H) (fromKey vec : Except Fault (Grid W H)) := by
  have hcomm : 2 * W * H = W * H * 2 := by rw [Nat.mul_assoc, Nat.mul_comm]
  rw [hcomm]
  by_cases hlen : vec.length = W * H * 2
  · by_cases hd : Supported W H
    · exact returnsTotal_ok hd (fromKey_eq hd hlen) hlen
    · have herr : (fromKey vec : Except Fault (Grid W H)) = .error (.err (.invalidDimensions W H)) := by
        simp only [fromKey, ne_eq, hlen, not_true_eq_false, if_false, new_eq_err hd]
        rfl
      exact returnsTotal_err herr fun hd' => absurd hd' hd
  · have herr : (fromKey vec : Except Fault (Grid W H)) =
        .error (.err (.invalidKeyLength (W * H * 2) vec.length)) := by
      simp only [fromKey, ne_eq, if_pos hlen]
      rfl
    exact returnsTotal_err herr fun _ => hlen

/-- What `from_bytes` does with dimensions that are not supported. -/
theorem fromBytes_unsupported (hd : ¬Supported W H) (harea : W * H ≠ 0) (bytes : List U8) :
    (fromBytes bytes : Except Fault (List (Grid W H))) =
      if bytes = [] then .ok []
      else if W * H * 8 ∣ bytes.length then .error (.err (.invalidDimensions W H))
      else .error (.err (.invalidByteLength (W * H * 8) bytes.length)) := by
  have hpos : 0 < W * H * 8 := by omega
  have hdvd : bytes.length % (W * H * 8) ≠ 0 ↔ ¬W * H * 8 ∣ bytes.length :=
    not_congr Nat.dvd_iff_mod_eq_zero.symm
  simp only [fromBytes, if_neg hpos.ne', hdvd]
  by_cases hempty : bytes = []
  · subst hempty
    have hnone : chunks (W * H * 8) ([] : List U8) = [] := by
      refine List.length_eq_zero_iff.1 ?_
      rw [length_chunks, List.length_nil]
      exact Nat.div_eq_of_lt (by omega)
    have hzero : W * H * 8 ∣ ([] : List U8).length := Nat.dvd_zero _
    rw [if_neg (not_not.2 hzero), if_pos rfl, hnone]
    rfl
  · rw [if_neg hempty]
    by_cases hlen : W * H * 8 ∣ bytes.length
    · rw [if_neg (not_not.2 hlen), if_pos hlen, chunks_cons hpos hempty, List.mapM_cons, new_eq_err hd]
      rfl
    · rw [if_pos hlen, if_neg hlen]
      rfl

/-- A grid without cells divides by zero. -/
theorem fromBytes_zero (harea : W * H = 0) (bytes : List U8) :
    (fromBytes bytes : Except Fault (List (Grid W H))) =
      .error (.panic "attempt to calculate the remainder with a divisor of zero") := by
  have hsize : W * H * 8 = 0 := by rw [harea, Nat.zero_mul]
  simp only [fromBytes, if_pos hsize]
  rfl

/-- **When `from_bytes` returns as it should.** -/
theorem fromBytes_total_iff (bytes : List U8) :
    ReturnsTotal W H (W * H * 8 ∣ bytes.length) (fromBytes bytes : Except Fault (List (Grid W H))) ↔
      Supported W H ∨ (W * H ≠ 0 ∧ bytes ≠ []) := by
  by_cases hd : Supported W H
  · refine iff_of_true ?_ (.inl hd)
    have hpos := hd.area_pos
    by_cases hlen : W * H * 8 ∣ bytes.length
    · exact returnsTotal_ok hd (fromBytes_eq hd hlen) hlen
    · have herr : (fromBytes bytes : Except Fault (List (Grid W H))) =
          .error (.err (.invalidByteLength (W * H * 8) bytes.length)) := by
        have hmod : bytes.length % (W * H * 8) ≠ 0 := fun h => hlen (Nat.dvd_of_mod_eq_zero h)
        simp only [fromBytes, if_neg (show ¬W * H * 8 = 0 by omega), if_pos hmod]
        rfl
      exact returnsTotal_err herr fun _ => hlen
  · rw [or_iff_right hd]
    by_cases harea : W * H = 0
    · exact iff_of_false (not_returnsTotal_panic (fromBytes_zero harea bytes)) fun h => h.1 harea
    · have heq := fromBytes_unsupported hd harea bytes
      by_cases hempty : bytes = []
      · rw [if_pos hempty] at heq
        refine iff_of_false (fun htotal => ?_) fun h => h.2 hempty
        obtain ⟨e, he⟩ := htotal.2.1 hd
        rw [heq] at he
        cases he
      · rw [if_neg hempty] at heq
        refine iff_of_true ?_ ⟨harea, hempty⟩
        split_ifs at heq
        · exact returnsTotal_err heq fun hd' => absurd hd' hd
        · exact returnsTotal_err heq fun hd' => absurd hd' hd

end Grid

namespace AuthenticatedPacket

/-- **When `try_from` returns as it should.** -/
theorem tryFrom_total_iff (bytes : List U8) :
    ReturnsTotal W H (∃ k, 1 ≤ k ∧ bytes.length = 32 + k * (W * H * 8))
        (tryFrom bytes : Except Fault (AuthenticatedPacket W H)) ↔
      W * H ≠ 0 ∨ bytes.length < 32 := by
  by_cases hshort : bytes.length < 32 + W * H * 8
  · have herr : (tryFrom bytes : Except Fault (AuthenticatedPacket W H)) =
        .error (.err (.invalidByteLength (W * H * 8) bytes.length)) := by
      simp only [tryFrom, if_pos hshort]
      rfl
    refine iff_of_true (returnsTotal_err herr fun _ => ?_) (by omega)
    rintro ⟨k, hk, hlen⟩
    have hle : W * H * 8 ≤ k * (W * H * 8) := Nat.le_mul_of_pos_left _ hk
    omega
  have hgrids : ∀ {e}, (Grid.fromBytes (bytes.drop 32) : Except Fault (List (Grid W H))) = .error e →
      (tryFrom bytes : Except Fault (AuthenticatedPacket W H)) = .error e := by
    intro e he
    simp only [tryFrom, if_neg hshort, he]
    rfl
  by_cases harea : W * H = 0
  · refine iff_of_false (not_returnsTotal_panic (hgrids (Grid.fromBytes_zero harea _))) ?_
    omega
  refine iff_of_true ?_ (.inl harea)
  have hne : bytes.drop 32 ≠ [] := List.length_pos_iff.1 (by rw [List.length_drop]; omega)
  have htotal := (Grid.fromBytes_total_iff (W := W) (H := H) (bytes.drop 32)).2 (.inr ⟨harea, hne⟩)
  by_cases hd : Grid.Supported W H
  · by_cases hdvd : W * H * 8 ∣ (bytes.drop 32).length
    · obtain ⟨k, hk⟩ := hdvd
      rw [List.length_drop, Nat.mul_comm] at hk
      have hk1 : 1 ≤ k := Nat.pos_of_ne_zero fun h => by rw [h, Nat.zero_mul] at hk; omega
      have hlen : bytes.length = 32 + k * (W * H * 8) := by omega
      obtain ⟨p, hp⟩ := tryFrom_ok hd hk1 hlen
      exact returnsTotal_ok hd hp ⟨k, hk1, hlen⟩
    · -- the length error of `from_bytes` is passed on
      cases hcontent : (Grid.fromBytes (bytes.drop 32) : Except Fault (List (Grid W H))) with
      | ok grids => exact absurd ((htotal.2.2 hd).1 ⟨grids, hcontent⟩) hdvd
      | error fault =>
        cases fault with
        | panic message => exact absurd hcontent (htotal.1 message)
        | err e =>
          refine returnsTotal_err (hgrids hcontent) fun _ => ?_
          rintro ⟨k, _, hlen⟩
          refine hdvd ⟨k, ?_⟩
          rw [List.length_drop, hlen, Nat.add_sub_cancel_left, Nat.mul_comm]
  · obtain ⟨e, he⟩ := htotal.2.1 hd
    exact returnsTotal_err (hgrids he) fun hd' => absurd hd' hd

end AuthenticatedPacket

/-- **When `encrypt` returns as it should.** -/
theorem encrypt_total_iff (P : Primitives) (b : Build) (input : List I64) (key : Option (List I64))
    (keySeed nonceSeed : Vector U8 32) :
    ReturnsTotal W H (KeyOk W H key)
        (encrypt P b input key keySeed nonceSeed : Except Fault (EncryptedData W H)) ↔ W * H ≠ 0 := by
  by_cases harea : W * H = 0
  · have hpanic : (encrypt P b input key keySeed nonceSeed : Except Fault (EncryptedData W H)) =
        .error (.panic "chunk size must be non-zero") := by
      simp only [encrypt, if_pos harea]
      rfl
    exact iff_of_false (not_returnsTotal_panic hpanic) (not_not.2 harea)
  refine iff_of_true ?_ harea
  have hkeyError : ∀ {grids : List (Grid W H)} {e},
      (chunks (W * H) input).mapM Grid.fromFlat = .ok grids →
      (Grid.fromKey (key.getD (generateKey P W H keySeed)) : Except Fault (Grid W H)) = .error e →
      (encrypt P b input key keySeed nonceSeed : Except Fault (EncryptedData W H)) = .error e := by
    intro grids e hgrids he
    simp only [encrypt, if_neg harea, hgrids, he]
    rfl
  have hfromKey := Grid.fromKey_total (W := W) (H := H) (key.getD (generateKey P W H keySeed))
  by_cases hd : Grid.Supported W H
  · by_cases hkey : KeyOk W H key
    · obtain ⟨data, _, hdata, _⟩ := decrypt_encrypt hd P b b input hkey keySeed nonceSeed
      exact returnsTotal_ok hd hdata hkey
    · cases hgrid : (Grid.fromKey (key.getD (generateKey P W H keySeed)) : Except Fault (Grid W H)) with
      | ok keyGrid =>
        -- a key that shapes into a grid has the right length, or was generated
        have hlen := (hfromKey.2.2 hd).1 ⟨keyGrid, hgrid⟩
        refine absurd ?_ hkey
        rintro k hk
        rw [Option.mem_def.1 hk, Option.getD_some] at hlen
        exact hlen
      | error fault =>
        cases fault with
        | panic message => exact absurd hgrid (hfromKey.1 message)
        | err e => exact returnsTotal_err (hkeyError (Grid.mapM_fromFlat hd _) hgrid) fun _ => hkey
  · suffices herr : ∃ e, (encrypt P b input key keySeed nonceSeed : Except Fault (EncryptedData W H)) =
        .error (.err e) by
      obtain ⟨e, he⟩ := herr
      exact returnsTotal_err he fun hd' => absurd hd' hd
    -- the first block fails in `from_flat`; without one, the key fails in `from_key`
    by_cases hinput : input = []
    · have hnone : (chunks (W * H) input).mapM (Grid.fromFlat : _ → Except Fault (Grid W H)) = .ok [] := by
        rw [hinput, chunks_nil]
        rfl
      obtain ⟨e, he⟩ := hfromKey.2.1 hd
      exact ⟨e, hkeyError hnone he⟩
    · obtain ⟨e, he⟩ := (Grid.fromFlat_total (W := W) (H := H) (input.take (W * H))).2.1 hd
      refine ⟨e, ?_⟩
      simp only [encrypt, if_neg harea, chunks_cons (Nat.pos_of_ne_zero harea) hinput, List.mapM_cons, he]
      rfl

/-! ### All of them -/

/-- Every constructor returns as it should on the given arguments. -/
def ConstructionTotal (P : Primitives) (b : Build) (W H : ℕ) (bytes : List U8) (cells : List I64)
    (key : Option (List I64)) (keySeed nonceSeed : Vector U8 32) : Prop :=
  ReturnsTotal W H (W * H * 8 ∣ bytes.length) (Grid.fromBytes bytes : Except Fault (List (Grid W H))) ∧
  ReturnsTotal W H (cells.length = 2 * W * H) (Grid.fromKey cells : Except Fault (Grid W H)) ∧
  ReturnsTotal W H True (Grid.fromFlat cells : Except Fault (Grid W H)) ∧
  ReturnsTotal W H (∃ k, 1 ≤ k ∧ bytes.length = 32 + k * (W * H * 8))
    (AuthenticatedPacket.tryFrom bytes : Except Fault (AuthenticatedPacket W H)) ∧
  ReturnsTotal W H (KeyOk W H key)
    (encrypt P b cells key keySeed nonceSeed : Except Fault (EncryptedData W H))

/-- **When grid construction is total.**  All five return as they should exactly if
the dimensions are supported, or if they are not, `W * H` is not zero and the bytes
are not empty: the errors win then.  One by one: `from_bytes` fails on the empty
slice of unsupported dimensions and on every slice if `W * H = 0`; `from_key` and
`from_flat` never fail; `try_from` fails if `W * H = 0` and there is a tag; and
`encrypt` fails if `W * H = 0`. -/
theorem construction_total_iff (P : Primitives) (b : Build) (W H : ℕ) (bytes : List U8) (cells : List I64)
    (key : Option (List I64)) (keySeed nonceSeed : Vector U8 32) :
    (ConstructionTotal P b W H bytes cells key keySeed nonceSeed ↔
      Grid.Supported W H ∨ (W * H ≠ 0 ∧ bytes ≠ [])) ∧
    (ReturnsTotal W H (W * H * 8 ∣ bytes.length)
        (Grid.fromBytes bytes : Except Fault (List (Grid W H))) ↔
      Grid.Supported W H ∨ (W * H ≠ 0 ∧ bytes ≠ [])) ∧
    ReturnsTotal W H (cells.length = 2 * W * H) (Grid.fromKey cells : Except Fault (Grid W H)) ∧
    ReturnsTotal W H True (Grid.fromFlat cells : Except Fault (Grid W H)) ∧
    (ReturnsTotal W H (∃ k, 1 ≤ k ∧ bytes.length = 32 + k * (W * H * 8))
        (AuthenticatedPacket.tryFrom bytes : Except Fault (AuthenticatedPacket W H)) ↔
      W * H ≠ 0 ∨ bytes.length < 32) ∧
    (ReturnsTotal W H (KeyOk W H key)
        (encrypt P b cells key keySeed nonceSeed : Except Fault (EncryptedData W H)) ↔ W * H ≠ 0) := by
  have hbytes := Grid.fromBytes_total_iff (W := W) (H := H) bytes
  have hkey := Grid.fromKey_total (W := W) (H := H) cells
  have hflat := Grid.fromFlat_total (W := W) (H := H) cells
  have hpacket := AuthenticatedPacket.tryFrom_total_iff (W := W) (H := H) bytes
  have hencrypt := encrypt_total_iff (W := W) (H := H) P b cells key keySeed nonceSeed
  refine ⟨⟨fun htotal => hbytes.1 htotal.1, fun h => ?_⟩, hbytes, hkey, hflat, hpacket, hencrypt⟩
  have harea : W * H ≠ 0 := by
    rcases h with hd | ⟨harea, _⟩
    · exact hd.area_pos.ne'
    · exact harea
  exact ⟨hbytes.2 h, hkey, hflat, hpacket.2 (.inl harea), hencrypt.2 harea⟩

/-- Rows of no cells: `from_bytes`, `try_from` and `encrypt` panic where `from_key` and
`from_flat` return `InvalidDimensions`.  And width 1: `from_bytes` returns `Ok`. -/
theorem construction_not_total :
    ¬(∀ (P : Primitives) (b : Build) (W H : ℕ) (bytes : List U8) (cells : List I64)
      (key : Option (List I64)) (keySeed nonceSeed : Vector U8 32),
      ConstructionTotal P b W H bytes cells key keySeed nonceSeed) ∧
    (Grid.fromBytes [] : Except Fault (List (Grid 0 4))) =
      .error (.panic "attempt to calculate the remainder with a divisor of zero") ∧
    (AuthenticatedPacket.tryFrom (List.replicate 32 0) : Except Fault (AuthenticatedPacket 0 4)) =
      .error (.panic "attempt to calculate the remainder with a divisor of zero") ∧
    (encrypt default ⟨false, false⟩ [] (some []) (.replicate 32 0) (.replicate 32 0) :
      Except Fault (EncryptedData 0 4)) = .error (.panic "chunk size must be non-zero") ∧
    (Grid.fromKey [] : Except Fault (Grid 0 4)) = .error (.err (.invalidDimensions 0 4)) ∧
    (Grid.fromFlat [] : Except Fault (Grid 0 4)) = .error (.err (.invalidDimensions 0 4)) ∧
    (Grid.fromBytes [] : Except Fault (List (Grid 1 4))) = .ok [] := by
  have hpanic : (Grid.fromBytes [] : Except Fault (List (Grid 0 4))) =
      .error (.panic "attempt to calculate the remainder with a divisor of zero") :=
    Grid.fromBytes_zero (by decide) []
  refine ⟨fun htotal => ?_, hpanic, rfl, rfl, rfl, rfl, rfl⟩
  have hfrom := (htotal default ⟨false, false⟩ 0 4 [] [] none (.replicate 32 0) (.replicate 32 0)).1
  exact not_returnsTotal_panic hpanic hfrom

end Why2
