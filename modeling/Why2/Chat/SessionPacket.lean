/-
# Packets under the session keys

`chat/src/crypto/mod.rs`: `encrypt_packet` and `decrypt_packet`, the one-shot
packets of the main connection, of voice and of the history on disk.  The bytes
become cells, the cells whole grids, and the grids travel behind their tag as in
`core/src/auth.rs`.

The grid key of a session need not have the `2 * W * H` cells of the grid at
hand; each side then stretches it with HKDF, on its own.  HKDF-SHA256 gives at
most 255 digests, and `get_correct_key` panics past them, so that a key of the
wrong length works on grids of at most 510 cells only
(`session_packet_round_trip_iff`).
-/

import Why2.Chat.PacketStream
import Why2.Core.Construction

namespace Why2

open Lib

variable {W H : ℕ} {α β : Type}

/-! ### The functions -/

/-- What `Hkdf::<Sha256>::expand` can fill: 255 digests of 32 bytes. -/
def hkdfLimit : ℕ := 255 * 32

/-- `get_correct_key`; `expand` refuses a longer output, which is a panic
(`expect`). -/
def getCorrectKey (P : Primitives) (W H : ℕ) (key : List I64) : Except Fault (List I64) := do
  let keyBytes := key.flatMap toBeBytes
  let requiredLen := W * H * 2
  let neededBytes := requiredLen * 8
  if hkdfLimit < neededBytes then throw (.panic "Key derivation failed")
  let outputBytes := P.hkdf none keyBytes (ascii s!"WHY2-DERIVED-KEY-{W}x{H}") neededBytes
  return (chunks 8 outputBytes.toList).map fromBeBytes

/-- `try_into` of a slice to `[u8; 32]`. -/
def tryIntoArray (bytes : List U8) : Option (Vector U8 32) :=
  if h : bytes.length = 32 then some ⟨bytes.toArray, h⟩ else none

/-- `encrypt_packet`.  `nonceSeed` is what the system generator fills for the
nonce; a key is given, so none is generated. -/
def encryptPacket (P : Primitives) (b : Build) (W H : ℕ) (packetBytes : List U8) (keys : SharedKeys)
    (nonceSeed : Vector U8 32) : Except Fault (List U8) := do
  let inputI64 := bytesToI64 packetBytes
  let key ← (if keys.1.length = W * H * 2 then pure keys.1 else getCorrectKey P W H keys.1)
  match (encrypt P b inputI64 (some key) nonceSeed nonceSeed : Except Fault (EncryptedData W H)) with
  | .error (.err _) => throw (.panic "Encrypting packet failed")
  | .error (.panic message) => throw (.panic message)
  | .ok encryptedData =>
    match tryIntoArray keys.2 with
    | none => throw (.panic "called `Result::unwrap()` on an `Err` value: TryFromSliceError(())")
    | some macKey => return (AuthenticatedData.authenticate P encryptedData macKey).toBytes

/-- `.ok()?`: an `Err` ends the call with `None`, a panic stays one. -/
def okOrNone (result : Except Fault α) (next : α → Except Fault (Option β)) : Except Fault (Option β) :=
  match result with
  | .ok value => next value
  | .error (.err _) => .ok none
  | .error (.panic message) => .error (.panic message)

@[simp]
theorem okOrNone_ok (value : α) (next : α → Except Fault (Option β)) :
    okOrNone (.ok value) next = next value := rfl

/-- `decrypt_packet`. -/
def decryptPacket (P : Primitives) (b : Build) (W H : ℕ) (decodedPacket : List U8) (keys : SharedKeys) :
    Except Fault (Option (List U8)) :=
  okOrNone (AuthenticatedPacket.tryFrom decodedPacket) fun (authPacket : AuthenticatedPacket W H) =>
  okOrNone (if keys.1.length = W * H * 2 then Grid.fromKey keys.1
    else getCorrectKey P W H keys.1 >>= Grid.fromKey) fun keyGrid =>
  match tryIntoArray keys.2 with
  | none => .ok none
  | some macKey =>
    match authPacket.open' P macKey keyGrid with
    | none => .ok none
    | some encryptedData =>
      okOrNone (decrypt P b encryptedData) fun decryptedPacket =>
      .ok (some (i64ToBytes decryptedPacket.output))

/-! ### The keys -/

/-- The key has the length the grid needs, or HKDF can stretch it to that length. -/
def KeyFits (W H : ℕ) (key : List I64) : Prop := key.length = W * H * 2 ∨ W * H * 2 * 8 ≤ hkdfLimit

instance (key : List I64) : Decidable (KeyFits W H key) := inferInstanceAs (Decidable (_ ∨ _))

/-- The key both sides use. -/
def gridKey (P : Primitives) (W H : ℕ) (key : List I64) : Except Fault (List I64) :=
  if key.length = W * H * 2 then pure key else getCorrectKey P W H key

/-- **A key that fits is used with the length the grid needs.** -/
theorem gridKey_ok (P : Primitives) {key : List I64} (h : KeyFits W H key) :
    ∃ used, gridKey P W H key = .ok used ∧ used.length = W * H * 2 := by
  by_cases hlen : key.length = W * H * 2
  · exact ⟨key, if_pos hlen, hlen⟩
  · have hlimit : ¬hkdfLimit < W * H * 2 * 8 := Nat.not_lt.2 (h.resolve_left hlen)
    refine ⟨(chunks 8 (P.hkdf none (key.flatMap toBeBytes) (ascii s!"WHY2-DERIVED-KEY-{W}x{H}")
      (W * H * 2 * 8)).toList).map fromBeBytes, ?_, ?_⟩
    · rw [gridKey, if_neg hlen]
      simp only [getCorrectKey, if_neg hlimit]
      rfl
    · rw [List.length_map, length_chunks, Vector.length_toList]
      omega

/-- A key that does not fit ends both sides. -/
theorem gridKey_panic (P : Primitives) {key : List I64} (h : ¬KeyFits W H key) :
    gridKey P W H key = .error (.panic "Key derivation failed") := by
  obtain ⟨hlen, hlimit⟩ := not_or.1 h
  rw [gridKey, if_neg hlen]
  simp only [getCorrectKey, if_pos (Nat.not_le.1 hlimit)]
  rfl

theorem tryIntoArray_eq {bytes : List U8} (h : bytes.length = 32) :
    ∃ array : Vector U8 32, tryIntoArray bytes = some array ∧ array.toList = bytes :=
  ⟨⟨bytes.toArray, h⟩, dif_pos h, rfl⟩

/-! ### Both sides -/

section Sides

variable (P : Primitives) (b : Build) {keys : SharedKeys} {used : List I64}

/-- A key that cannot be stretched ends `encrypt_packet` on every packet. -/
theorem encryptPacket_panic (hkey : ¬KeyFits W H keys.1) (packetBytes : List U8)
    (nonceSeed : Vector U8 32) :
    encryptPacket P b W H packetBytes keys nonceSeed = .error (.panic "Key derivation failed") := by
  have hpanic := gridKey_panic P hkey
  rw [gridKey] at hpanic
  simp only [encryptPacket, hpanic]
  rfl

/-- What `encrypt_packet` returns: the cells encrypted under the key used, behind the tag. -/
theorem encryptPacket_eq (hkey : gridKey P W H keys.1 = .ok used) {macKey : Vector U8 32}
    (hmac : tryIntoArray keys.2 = some macKey) {packetBytes : List U8} {nonceSeed : Vector U8 32}
    {data : EncryptedData W H}
    (hdata : encrypt P b (bytesToI64 packetBytes) (some used) nonceSeed nonceSeed = .ok data) :
    encryptPacket P b W H packetBytes keys nonceSeed =
      .ok (AuthenticatedData.authenticate P data macKey).toBytes := by
  rw [gridKey] at hkey
  simp only [encryptPacket, hkey, hmac, bind, Except.bind, hdata]
  rfl

/-- The key grid of `decrypt_packet`. -/
theorem keyGrid_eq (key : List I64) :
    (if key.length = W * H * 2 then Grid.fromKey key else getCorrectKey P W H key >>= Grid.fromKey) =
      (gridKey P W H key >>= Grid.fromKey : Except Fault (Grid W H)) := by
  rw [gridKey]
  split_ifs
  · rfl
  · rfl

/-- Bytes that do not parse are refused before the key is looked at. -/
theorem decryptPacket_unparsed {bytes : List U8} {e : GridError}
    (h : (AuthenticatedPacket.tryFrom bytes : Except Fault (AuthenticatedPacket W H)) = .error (.err e)) :
    decryptPacket P b W H bytes keys = .ok none := by
  rw [decryptPacket, h]
  rfl

/-- A key that cannot be stretched ends `decrypt_packet` on every packet that parses. -/
theorem decryptPacket_panic (hkey : ¬KeyFits W H keys.1) {bytes : List U8} {packet : AuthenticatedPacket W H}
    (h : AuthenticatedPacket.tryFrom bytes = .ok packet) :
    decryptPacket P b W H bytes keys = .error (.panic "Key derivation failed") := by
  rw [decryptPacket, h, okOrNone_ok, keyGrid_eq, gridKey_panic P hkey]
  rfl

/-- What `decrypt_packet` does with a packet that parses: the tag decides. -/
theorem decryptPacket_eq (hkey : gridKey P W H keys.1 = .ok used) {keyGrid : Grid W H}
    (hgrid : Grid.fromKey used = .ok keyGrid) {macKey : Vector U8 32}
    (hmac : tryIntoArray keys.2 = some macKey) {bytes : List U8} {packet : AuthenticatedPacket W H}
    (h : AuthenticatedPacket.tryFrom bytes = .ok packet) :
    decryptPacket P b W H bytes keys =
      if packet.verify P macKey then
        okOrNone (decrypt P b ⟨packet.output, keyGrid, packet.nonce⟩) fun decryptedPacket =>
          .ok (some (i64ToBytes decryptedPacket.output))
      else .ok none := by
  have hfrom : (gridKey P W H keys.1 >>= Grid.fromKey) = .ok keyGrid := by rw [hkey]; exact hgrid
  rw [decryptPacket, h, okOrNone_ok, keyGrid_eq, hfrom, okOrNone_ok, hmac]
  simp only [AuthenticatedPacket.open']
  split_ifs
  · rfl
  · rfl

end Sides

/-! ### The round trip -/

/-- A sequence of calls that returns has every call return. -/
theorem bind_eq_ok {call : Except Fault α} {next : α → Except Fault β} {result : β} :
    (call >>= next) = .ok result ↔ ∃ value, call = .ok value ∧ next value = .ok result := by
  cases call with
  | error fault =>
    refine ⟨fun h => ?_, fun ⟨_, h, _⟩ => ?_⟩
    · cases h
    · cases h
  | ok value => exact ⟨fun h => ⟨value, rfl, h⟩, fun ⟨_, h, hnext⟩ => Except.ok.inj h ▸ hnext⟩

/-- The key grid `encrypt` returns is the one `from_key` makes of the key. -/
theorem fromKey_of_encrypt {P : Primitives} {b : Build} {input key : List I64}
    {keySeed nonceSeed : Vector U8 32} {data : EncryptedData W H}
    (h : encrypt P b input (some key) keySeed nonceSeed = .ok data) : Grid.fromKey key = .ok data.key := by
  simp only [encrypt, Option.getD_some] at h
  split_ifs at h
  · cases h
  obtain ⟨grids, -, h⟩ := bind_eq_ok.1 h
  obtain ⟨keyGrid, hkey, h⟩ := bind_eq_ok.1 h
  obtain ⟨roundKeys, -, h⟩ := bind_eq_ok.1 h
  obtain ⟨nonce, -, h⟩ := bind_eq_ok.1 h
  obtain ⟨output, -, h⟩ := bind_eq_ok.1 h
  obtain rfl := Except.ok.inj h
  exact hkey

/-- Bytes to cells to whole grids and back: the zeros fill up the last grid. -/
theorem i64ToBytes_padded (bytes : List U8) {k : ℕ} (hk : k < W * H)
    (hdvd : W * H ∣ (bytesToI64 bytes).length + k) :
    ∃ n < W * H * 8, W * H * 8 ∣ bytes.length + n ∧
      i64ToBytes (bytesToI64 bytes ++ List.replicate k 0) = bytes ++ List.replicate n 0 := by
  obtain ⟨n, hn⟩ := i64ToBytes_bytesToI64 bytes
  have hcells := length_bytesToI64 bytes
  have hlen : bytes.length + n = (bytesToI64 bytes).length * 8 := by
    have := congrArg List.length hn
    rw [length_i64ToBytes, List.length_append, List.length_replicate] at this
    exact this.symm
  have hzeros : i64ToBytes (List.replicate k 0) = List.replicate (k * 8) 0 := by
    rw [i64ToBytes, List.flatMap_replicate]
    have hzero : toBeBytes 0 = List.replicate 8 0 := by decide
    rw [hzero, List.flatten_replicate_replicate]
  refine ⟨n + k * 8, by omega, ?_, ?_⟩
  · rw [← Nat.add_assoc, hlen, ← Nat.add_mul]
    exact Nat.mul_dvd_mul_right hdvd 8
  · have happend : i64ToBytes (bytesToI64 bytes ++ List.replicate k 0) =
        i64ToBytes (bytesToI64 bytes) ++ i64ToBytes (List.replicate k 0) := List.flatMap_append
    rw [happend, hn, hzeros, List.append_assoc, List.replicate_append_replicate]

/-- What was encrypted comes back, followed by the zeros that fill the last grid. -/
def RoundTrips (P : Primitives) (W H : ℕ) (keys : SharedKeys) (packet : List U8) : Prop :=
  ∀ (b b' : Build) (nonceSeed : Vector U8 32), ∃ bytes,
    encryptPacket P b W H packet keys nonceSeed = .ok bytes ∧
    ∃ k < W * H * 8, W * H * 8 ∣ packet.length + k ∧
      decryptPacket P b' W H bytes keys = .ok (some (packet ++ List.replicate k 0))

/-- Bytes that are not a tag and at least one whole grid, or whose tag is not the MAC of
the rest, are refused. -/
def Rejects (P : Primitives) (W H : ℕ) (keys : SharedKeys) (bytes : List U8) : Prop :=
  ∀ b : Build, ((¬∃ k, 1 ≤ k ∧ bytes.length = 32 + k * (W * H * 8)) ∨
    bytes.take 32 ≠ (P.hmac keys.2 (bytes.drop 32)).toList) →
    decryptPacket P b W H bytes keys = .ok none

section RoundTrip

variable (hd : Grid.Supported W H) (P : Primitives) {keys : SharedKeys} (hmac : keys.2.length = 32)
include hd hmac

/-- **Every packet comes back under keys that fit.** -/
theorem roundTrips_of_keyFits (hkey : KeyFits W H keys.1) (packet : List U8) :
    RoundTrips P W H keys packet := by
  intro b b' nonceSeed
  obtain ⟨used, hused, hlen⟩ := gridKey_ok P hkey
  obtain ⟨macKey, hmacKey, -⟩ := tryIntoArray_eq hmac
  have hkeyOk : KeyOk W H (some used) := by
    rintro k ⟨⟩
    rw [hlen, Nat.mul_comm, Nat.mul_assoc]
  obtain ⟨data, decrypted, hdata, hdec, k, hk, hdvd, hout⟩ :=
    decrypt_encrypt hd P b b' (bytesToI64 packet) hkeyOk nonceSeed nonceSeed
  obtain ⟨n, hn, hndvd, hbytes⟩ := i64ToBytes_padded packet hk hdvd
  refine ⟨_, encryptPacket_eq P b hused hmacKey hdata, n, hn, hndvd, ?_⟩
  have hparse := AuthenticatedPacket.tryFrom_toBytes hd (AuthenticatedData.authenticate P data macKey)
  have hverify : AuthenticatedPacket.verify P
      ⟨computeMac P data.nonce data.output macKey, data.nonce, data.output⟩ macKey = true :=
    decide_eq_true rfl
  rw [decryptPacket_eq P b' hused (fromKey_of_encrypt hdata) hmacKey hparse]
  refine (if_pos hverify).trans ?_
  change okOrNone (decrypt P b' data) _ = _
  rw [hdec, okOrNone_ok, hout, hbytes]

omit hmac in
/-- A bad length is refused whatever the keys. -/
theorem decryptPacket_of_length (b : Build) {bytes : List U8}
    (hlen : ¬∃ k, 1 ≤ k ∧ bytes.length = 32 + k * (W * H * 8)) :
    decryptPacket P b W H bytes keys = .ok none := by
  have htotal := (AuthenticatedPacket.tryFrom_total_iff (W := W) (H := H) bytes).2 (.inl hd.area_pos.ne')
  cases hparse : (AuthenticatedPacket.tryFrom bytes : Except Fault (AuthenticatedPacket W H)) with
  | ok packet => exact absurd ((htotal.2.2 hd).1 ⟨packet, hparse⟩) hlen
  | error fault =>
    cases fault with
    | err e => exact decryptPacket_unparsed P b hparse
    | panic message => exact absurd hparse (htotal.1 message)

/-- **Bad bytes are refused under keys that fit.** -/
theorem rejects_of_keyFits (hkey : KeyFits W H keys.1) (bytes : List U8) : Rejects P W H keys bytes := by
  intro b hbad
  by_cases hlen : ∃ k, 1 ≤ k ∧ bytes.length = 32 + k * (W * H * 8)
  · obtain ⟨k, hk, hbytes⟩ := hlen
    obtain ⟨packet, hparse⟩ := AuthenticatedPacket.tryFrom_ok hd hk hbytes
    obtain ⟨used, hused, hlength⟩ := gridKey_ok P hkey
    obtain ⟨macKey, hmacKey, hlist⟩ := tryIntoArray_eq hmac
    have htag : bytes.take 32 ≠ (P.hmac keys.2 (bytes.drop 32)).toList :=
      hbad.resolve_left (not_not.2 ⟨k, hk, hbytes⟩)
    have hverify : packet.verify P macKey ≠ true := by
      intro hv
      have hmacs : computeMac P packet.nonce packet.output macKey = packet.mac := of_decide_eq_true hv
      refine htag ?_
      rw [AuthenticatedPacket.drop_of_tryFrom hd hparse, ← hlist]
      change _ = (computeMac P packet.nonce packet.output macKey).toList
      rw [hmacs, (AuthenticatedPacket.tryFrom_eq_ok_iff hd).1 hparse, List.take_left' (by simp)]
    rw [decryptPacket_eq P b hused (Grid.fromKey_eq hd hlength) hmacKey hparse, if_neg hverify]
  · exact decryptPacket_of_length hd P b hlen

end RoundTrip

/-! ### Keys that do not fit -/

/-- A packet that parses and whose tag is wrong. -/
theorem exists_badTag (hd : Grid.Supported W H) (P : Primitives) (macKey : List U8) :
    ∃ (bytes : List U8) (packet : AuthenticatedPacket W H), AuthenticatedPacket.tryFrom bytes = .ok packet ∧
      bytes.take 32 ≠ (P.hmac macKey (bytes.drop 32)).toList := by
  have : Nontrivial (Vector U8 32) := ⟨.replicate 32 0, .replicate 32 1, by decide⟩
  obtain ⟨tag, htag⟩ := exists_ne (P.hmac macKey (macInput (W := W) (H := H) (.ofFlat []) []))
  have hparse : AuthenticatedPacket.tryFrom (tag.toList ++ macInput (W := W) (H := H) (.ofFlat []) []) =
      .ok (⟨tag, .ofFlat [], []⟩ : AuthenticatedPacket W H) :=
    (AuthenticatedPacket.tryFrom_eq_ok_iff hd).2 rfl
  refine ⟨_, _, hparse, ?_⟩
  rw [List.take_left' (by simp), List.drop_left' (by simp)]
  exact fun h => htag (Vector.toList_inj.1 h)

theorem not_roundTrips (P : Primitives) {keys : SharedKeys} (hkey : ¬KeyFits W H keys.1) (packet : List U8) :
    ¬RoundTrips P W H keys packet := by
  intro h
  obtain ⟨bytes, hbytes, -⟩ := h ⟨false, false⟩ ⟨false, false⟩ (.replicate 32 0)
  rw [encryptPacket_panic P _ hkey] at hbytes
  cases hbytes

theorem not_rejects (hd : Grid.Supported W H) (P : Primitives) {keys : SharedKeys}
    (hkey : ¬KeyFits W H keys.1) : ¬∀ bytes, Rejects P W H keys bytes := by
  intro h
  obtain ⟨bytes, packet, hparse, htag⟩ := exists_badTag hd P keys.2
  have hnone := h bytes ⟨false, false⟩ (.inr htag)
  rw [decryptPacket_panic P _ hkey hparse] at hnone
  cases hnone

/-- **The session packet round trip, and when it holds.**  With supported dimensions
and a 32-byte MAC key, every packet comes back and all bad bytes are refused exactly
if the grid key fits; under one that does not, no packet comes back, and some bytes
with a wrong tag end the receiver instead of being refused. -/
theorem session_packet_round_trip_iff (hd : Grid.Supported W H) (P : Primitives) {keys : SharedKeys}
    (hmac : keys.2.length = 32) :
    ((∀ packet, RoundTrips P W H keys packet) ∧ (∀ bytes, Rejects P W H keys bytes) ↔
      KeyFits W H keys.1) ∧
    (∀ packet, RoundTrips P W H keys packet ↔ KeyFits W H keys.1) ∧
    ((∀ bytes, Rejects P W H keys bytes) ↔ KeyFits W H keys.1) := by
  have hround : ∀ packet, RoundTrips P W H keys packet ↔ KeyFits W H keys.1 := by
    refine fun packet => ⟨fun h => ?_, fun hkey => roundTrips_of_keyFits hd P hmac hkey packet⟩
    by_contra hkey
    exact not_roundTrips P hkey packet h
  have hreject : (∀ bytes, Rejects P W H keys bytes) ↔ KeyFits W H keys.1 := by
    refine ⟨fun h => ?_, fun hkey => rejects_of_keyFits hd P hmac hkey⟩
    by_contra hkey
    exact not_rejects hd P hkey h
  exact ⟨⟨fun h => hreject.1 h.2, fun hkey => ⟨fun packet => (hround packet).2 hkey, hreject.2 hkey⟩⟩,
    hround, hreject⟩

/-- The theorem with a key of one cell on the smallest grid. -/
theorem session_packet_round_trip_stretched :
    Grid.Supported 2 4 ∧ ((List.replicate 32 7 : List U8)).length = 32 ∧
      RoundTrips default 2 4 ([1], List.replicate 32 7) [104, 105] := by
  have hkey : KeyFits 2 4 [1] := by decide
  exact ⟨by decide, by decide, ((session_packet_round_trip_iff (by decide) default (by decide)).2.1 _).2 hkey⟩

/-- A key of one cell and 512 cells in a grid: both sides panic. -/
theorem session_packet_not_stretched :
    Grid.Supported 32 16 ∧
    encryptPacket default ⟨false, false⟩ 32 16 [104, 105] ([1], List.replicate 32 7) (.replicate 32 0) =
      .error (.panic "Key derivation failed") ∧
    (∀ packet, ¬RoundTrips default 32 16 ([1], List.replicate 32 7) packet) ∧
    ¬∀ bytes, Rejects default 32 16 ([1], List.replicate 32 7) bytes := by
  have hd : Grid.Supported 32 16 := by decide
  have hkey : ¬KeyFits 32 16 [1] := by decide
  exact ⟨hd, encryptPacket_panic default _ hkey _ _, not_roundTrips default hkey, not_rejects hd default hkey⟩

end Why2
