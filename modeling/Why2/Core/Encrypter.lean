/-
# Whole-message encryption

`core/src/encrypter.rs` and `core/src/decrypter.rs`: a list of cells is padded
to whole grids and run through counter mode from block 0; a string is first
written as 32-bit units, two to a cell, ended by the unit `u32::MAX`.

Decryption does not know the length, so it returns whole grids
(`decrypt_encrypt` has the zeros).  A string is cut at its terminator instead:
no character is `u32::MAX`, so the first terminator read is the one that was
written, whatever the string holds.
-/

import Why2.Core.Stream

namespace Why2

open Lib

variable {W H : ℕ}

/-- `EncryptedData<W, H>`. -/
structure EncryptedData (W H : ℕ) where
  output : List (Grid W H)
  key : Grid W H
  nonce : Grid W H
deriving DecidableEq

/-- `DecryptedData`. -/
structure DecryptedData where
  output : List I64
  key : List I64
deriving DecidableEq

/-- `encrypt`.  `keySeed` and `nonceSeed` are what the system generator fills for
a generated key and for the nonce; `chunks` panics on blocks of no cells. -/
def encrypt (P : Primitives) (b : Build) (input : List I64) (key : Option (List I64))
    (keySeed nonceSeed : Vector U8 32) : Except Fault (EncryptedData W H) := do
  let keyUsed := key.getD (generateKey P W H keySeed)
  if W * H = 0 then throw (.panic "chunk size must be non-zero")
  let grids ← (chunks (W * H) input).mapM Grid.fromFlat
  let keyGrid ← Grid.fromKey keyUsed
  let roundKeys ← generateRoundKeys P keyGrid
  let nonce ← generateNonce P nonceSeed
  let grids ← applyCtr b grids nonce roundKeys none
  return { output := grids, key := keyGrid, nonce := nonce }

/-- `decrypt`. -/
def decrypt (P : Primitives) (b : Build) (input : EncryptedData W H) :
    Except Fault DecryptedData := do
  let roundKeys ← generateRoundKeys P input.key
  let grids ← applyCtr b input.output input.nonce roundKeys none
  return { output := grids.flatMap Grid.toFlat, key := input.key.toFlat }

/-! ### Strings -/

/-- `u32::MAX`, which is never a `char`. -/
def terminator : BitVec 32 := 0xFFFFFFFF

/-- The units of a string: its code points, the terminator, and a zero where the
number would be odd. -/
def stringUnits (input : String) : List (BitVec 32) :=
  let units := input.toList.map (fun c => c.val.toBitVec) ++ [terminator]
  if units.length % 2 ≠ 0 then units ++ [0] else units

/-- Two units in one cell, the first in the high half. -/
def packPair (pair : List (BitVec 32)) : I64 :=
  (pair.getD 0 0).setWidth 64 <<< 32 ||| (pair.getD 1 0).setWidth 64

/-- `encrypt_string`. -/
def encryptString (P : Primitives) (b : Build) (input : String) (key : Option (List I64))
    (keySeed nonceSeed : Vector U8 32) : Except Fault (EncryptedData W H) :=
  encrypt P b ((chunks 2 (stringUnits input)).map packPair) key keySeed nonceSeed

/-- `char::from_u32`. -/
def charFromU32 (unit : BitVec 32) : Option Char :=
  if h : unit.toNat.isValidChar then some (.ofNatAux unit.toNat h) else none

/-- The two units of a cell, high half first. -/
def cellUnits (n : I64) : List (BitVec 32) := [(n >>> 32).setWidth 32, n.setWidth 32]

/-- The loop of `decrypt_string` over the units: the terminator ends it, running
out of units without one is an error. -/
def readUnits : List (BitVec 32) → List Char → Except Fault (List Char)
  | [], _ => throw (.err .invalidUnicode)
  | unit :: units, output =>
    if unit = terminator then pure output
    else match charFromU32 unit with
      | some c => readUnits units (output ++ [c])
      | none => throw (.err .invalidUnicode)

/-- `decrypt_string`. -/
def decryptString (P : Primitives) (b : Build) (input : EncryptedData W H) :
    Except Fault String := do
  let decrypted ← decrypt P b input
  let output ← readUnits (decrypted.output.flatMap cellUnits) []
  return String.ofList output

/-! ### The round trip of cells -/

/-- Counter mode over whole grids takes itself back, on any two builds. -/
theorem applyCtr_applyCtr (b b' : Build) (hW : 0 < W) (grids : List (Grid W H)) (nonce : Grid W H)
    {roundKeys : List (Grid W H)} (hk : 2 ≤ roundKeys.length) (offset : Option I64) :
    ∃ out, applyCtr b grids nonce roundKeys offset = .ok out ∧
      applyCtr b' out nonce roundKeys offset = .ok grids := by
  have hshifts := deriveRoundShifts_eq hk
  refine ⟨_, applyCtr_eq b grids nonce hshifts offset, ?_⟩
  rw [applyCtr_eq b' _ nonce hshifts]
  refine congrArg Except.ok (List.ext_getElem (by simp) fun i _ _ => ?_)
  simp only [List.getElem_mapIdx, keystreamBlock]
  rw [keystream_build b' b hW nonce hshifts, Grid.xor_cancel_right]

/-- A key `encrypt` accepts is one of `2 * W * H` cells, or none at all. -/
def KeyOk (W H : ℕ) (key : Option (List I64)) : Prop := ∀ k ∈ key, k.length = 2 * W * H

/-- Such a key, or the generated one, shapes into a key grid. -/
theorem fromKey_keyUsed (hd : Grid.Supported W H) (P : Primitives) {key : Option (List I64)}
    (hkey : KeyOk W H key) (keySeed : Vector U8 32) :
    ∃ keyGrid : Grid W H, Grid.fromKey (key.getD (generateKey P W H keySeed)) = .ok keyGrid := by
  cases key with
  | some k =>
    refine ⟨_, Grid.fromKey_eq hd ?_⟩
    rw [Option.getD_some, hkey k rfl, Nat.mul_assoc, Nat.mul_comm]
  | none => exact fromKey_generated hd _

/-- What `decrypt` gives back of what `encrypt` returned. -/
theorem decrypt_encrypt (hd : Grid.Supported W H) (P : Primitives) (b b' : Build) (input : List I64)
    {key : Option (List I64)} (hkey : KeyOk W H key) (keySeed nonceSeed : Vector U8 32) :
    ∃ (data : EncryptedData W H) (decrypted : DecryptedData),
      encrypt P b input key keySeed nonceSeed = .ok data ∧ decrypt P b' data = .ok decrypted ∧
      ∃ k < W * H, W * H ∣ input.length + k ∧ decrypted.output = input ++ List.replicate k 0 := by
  have hW : 0 < W := by have := hd.1; omega
  have harea : ¬W * H = 0 := hd.area_pos.ne'
  obtain ⟨keyGrid, hkeyGrid⟩ := fromKey_keyUsed hd P hkey keySeed
  obtain ⟨roundKeys, hroundKeys, hlen⟩ := generateRoundKeys_ok hd P keyGrid
  obtain ⟨nonce, hnonce⟩ : ∃ g : Grid W H, generateNonce P nonceSeed = .ok g := fromKey_generated hd _
  have hk : 2 ≤ roundKeys.length := by rw [hlen]; decide
  obtain ⟨out, hout, hback⟩ := applyCtr_applyCtr b b' hW
    ((chunks (W * H) input).map Grid.ofFlat) nonce hk none
  refine ⟨⟨out, keyGrid, nonce⟩,
    ⟨((chunks (W * H) input).map (Grid.ofFlat : List I64 → Grid W H)).flatMap Grid.toFlat, keyGrid.toFlat⟩,
    ?_, ?_, Grid.flatMap_toFlat_chunks hd input⟩
  · simp only [encrypt, if_neg harea, Grid.mapM_fromFlat hd, hkeyGrid, hroundKeys, hnonce, hout, bind,
      Except.bind, pure, Except.pure]
  · simp only [decrypt, hroundKeys, hback, bind, Except.bind, pure, Except.pure]

/-! ### The round trip of strings -/

/-- A character is its code point. -/
theorem charFromU32_val (c : Char) : charFromU32 c.val.toBitVec = some c := by
  have hc : c.val.toBitVec.toNat.isValidChar := c.valid
  rw [charFromU32, dif_pos hc]
  rfl

/-- No character is the terminator. -/
theorem val_ne_terminator (c : Char) : c.val.toBitVec ≠ terminator := by
  intro h
  have hc : c.val.toBitVec.toNat.isValidChar := c.valid
  rw [h] at hc
  revert hc
  decide

/-- The loop reads the characters up to the first terminator. -/
theorem readUnits_chars (chars output : List Char) (rest : List (BitVec 32)) :
    readUnits (chars.map (fun c => c.val.toBitVec) ++ terminator :: rest) output =
      .ok (output ++ chars) := by
  induction chars generalizing output with
  | nil => rw [List.map_nil, List.nil_append, readUnits, if_pos rfl, List.append_nil]; rfl
  | cons c chars ih =>
    rw [List.map_cons, List.cons_append, readUnits, if_neg (val_ne_terminator c), charFromU32_val]
    simp only [ih, List.append_assoc, List.singleton_append]

theorem cellUnits_packPair (u v : BitVec 32) : cellUnits (packPair [u, v]) = [u, v] := by
  have hpack : packPair [u, v] = joinHalves (v, u) := rfl
  rw [hpack, cellUnits, ushiftRight_shiftsHalves.high, highHalf_join]
  exact congrArg (fun low => [u, low]) (lowHalf_join (v, u))

/-- Packing an even number of units loses nothing. -/
theorem flatMap_cellUnits {units : List (BitVec 32)} (h : 2 ∣ units.length) :
    ((chunks 2 units).map packPair).flatMap cellUnits = units := by
  rw [List.flatMap_map]
  conv_rhs => rw [← flatten_chunks (by decide : 0 < 2) units, ← List.flatMap_id]
  refine List.flatMap_congr fun pair hpair => ?_
  have hlen := length_of_mem_chunks (by decide : 0 < 2) h hpair
  obtain ⟨u, v, rfl⟩ := List.length_eq_two.1 hlen
  exact cellUnits_packPair u v

/-- The units end with the terminator and at most one zero, and are even in
number. -/
theorem stringUnits_eq (input : String) :
    2 ∣ (stringUnits input).length ∧ ∃ rest,
      stringUnits input = input.toList.map (fun c => c.val.toBitVec) ++ terminator :: rest := by
  simp only [stringUnits]
  split_ifs with h
  · refine ⟨?_, [0], by simp⟩
    rw [List.length_append, List.length_singleton]
    omega
  · exact ⟨by omega, [], rfl⟩

/-- **Encrypt/decrypt round trip.**  Cells come back followed by the zeros that
fill the last grid, and every string comes back exactly, for a given key and for
a generated one. -/
theorem decrypt_encrypt_round_trip (hd : Grid.Supported W H) (P : Primitives) (b b' : Build)
    {key : Option (List I64)} (hkey : KeyOk W H key) (keySeed nonceSeed : Vector U8 32) :
    (∀ input : List I64, ∃ (data : EncryptedData W H) (decrypted : DecryptedData),
      encrypt P b input key keySeed nonceSeed = .ok data ∧ decrypt P b' data = .ok decrypted ∧
      (∃ k < W * H, W * H ∣ input.length + k ∧ decrypted.output = input ++ List.replicate k 0) ∧
      (input = [] → decrypted.output = [])) ∧
    ∀ input : String, ∃ data : EncryptedData W H,
      encryptString P b input key keySeed nonceSeed = .ok data ∧
        decryptString P b' data = .ok input := by
  constructor
  · intro input
    obtain ⟨data, decrypted, hdata, hdec, k, hk, hdvd, hout⟩ :=
      decrypt_encrypt hd P b b' input hkey keySeed nonceSeed
    refine ⟨data, decrypted, hdata, hdec, ⟨k, hk, hdvd, hout⟩, ?_⟩
    rintro rfl
    have hzero : k = 0 := Nat.eq_zero_of_dvd_of_lt (by simpa using hdvd) hk
    rw [hout, hzero]
    rfl
  · intro input
    obtain ⟨data, decrypted, hdata, hdec, k, _, _, hout⟩ :=
      decrypt_encrypt hd P b b' ((chunks 2 (stringUnits input)).map packPair) hkey keySeed nonceSeed
    obtain ⟨heven, rest, hunits⟩ := stringUnits_eq input
    refine ⟨data, hdata, ?_⟩
    have hread : readUnits (decrypted.output.flatMap cellUnits) [] = .ok input.toList := by
      rw [hout, List.flatMap_append, flatMap_cellUnits heven, hunits, List.append_assoc,
        List.cons_append, readUnits_chars, List.nil_append]
    simp only [decryptString, hdec, hread, bind, Except.bind, pure, Except.pure, String.ofList_toList]

/-- The theorem with a generated key, on a string that holds NUL characters. -/
theorem decrypt_encrypt_round_trip_nul :
    Grid.Supported 2 4 ∧ KeyOk 2 4 none ∧ ∃ data : EncryptedData 2 4,
      encryptString default ⟨true, true⟩ "a\u0000\u0000" none (.replicate 32 1) (.replicate 32 2) = .ok data ∧
        decryptString default ⟨false, false⟩ data = .ok "a\u0000\u0000" := by
  have hkey : KeyOk 2 4 none := by rintro k ⟨⟩
  exact ⟨by decide, hkey, (decrypt_encrypt_round_trip (by decide) default ⟨true, true⟩ ⟨false, false⟩
    hkey (.replicate 32 1) (.replicate 32 2)).2 "a\u0000\u0000"⟩

end Why2
