/-
# Authenticated packets

`core/src/auth.rs`: a tag, the nonce grid and the ciphertext grids, written row
by row as big-endian cells.  The encoder, the MAC and the parser each walk the
grids on their own; `Grid.toBytes_ofBytes` and `Grid.ofBytes_toBytes` say that
the walks read one layout, and `packet_format_exact` is what follows for the
wire format.
-/

import Why2.Core.Encrypter

namespace Why2

open Lib

variable {W H : ℕ}

/-! ### Grids as bytes -/

namespace Grid

/-- The loop over rows and cells that the encoder and the MAC share: every cell as
big-endian bytes. -/
def toBytes (g : Grid W H) : List U8 := g.rows.toList.flatMap fun row => row.toList.flatMap toBeBytes

/-- A flat grid is its rows. -/
theorem toFlat_eq_flatMap (g : Grid W H) : g.toFlat = g.rows.toList.flatMap Vector.toList := by
  simp only [toFlat, Vector.flatten, Vector.toList, Array.toList_flatten, Array.toList_map,
    List.map_map, List.flatMap_def]
  rfl

/-- The bytes of a grid are those of its cells. -/
theorem toBytes_eq (g : Grid W H) : g.toBytes = g.toFlat.flatMap toBeBytes := by
  rw [toFlat_eq_flatMap, List.flatMap_assoc, toBytes]

/-- A grid has eight bytes for each cell. -/
@[simp]
theorem length_toBytes (g : Grid W H) : g.toBytes.length = W * H * 8 := by
  rw [toBytes_eq, length_flatMap_toBeBytes, length_toFlat]

/-- So have many. -/
theorem length_flatMap_toBytes (grids : List (Grid W H)) :
    (grids.flatMap toBytes).length = grids.length * (W * H * 8) := by
  rw [List.length_flatMap, List.map_congr_left fun g _ => g.length_toBytes, List.map_const',
    List.sum_replicate, smul_eq_mul]

/-- The cells of a block of bytes, as `from_bytes` reads them. -/
theorem ofBytes_eq {chunk : List U8} (h : chunk.length = W * H * 8) :
    (ofBytes chunk : Grid W H) = ofFlat ((chunks 8 chunk).map fromBeBytes) := by
  ext j i
  have hlt := flatIndex_lt j i
  have hlen : ((chunks 8 chunk).map fromBeBytes).length = W * H := by
    rw [List.length_map, length_chunks, h]
    omega
  rw [ofBytes, ofFlat, cell_build, cell_build, List.getD_eq_getElem _ _ (by rw [hlen]; exact hlt)]
  simp [chunks]

/-- **Bytes of a grid's size are the bytes of one grid.** -/
theorem toBytes_ofBytes {chunk : List U8} (h : chunk.length = W * H * 8) :
    (ofBytes chunk : Grid W H).toBytes = chunk := by
  have hlen : ((chunks 8 chunk).map fromBeBytes).length = W * H := by
    rw [List.length_map, length_chunks, h]
    omega
  rw [toBytes_eq, ofBytes_eq h, toFlat_ofFlat hlen.le, hlen, Nat.sub_self, List.replicate_zero,
    List.append_nil, List.flatMap_map]
  conv_rhs => rw [← flatten_chunks (by decide : 0 < 8) chunk, ← List.flatMap_id]
  refine List.flatMap_congr fun bytes hbytes => toBeBytes_fromBeBytes ?_
  exact length_of_mem_chunks (by decide) (by rw [h]; exact Nat.dvd_mul_left _ _) hbytes

/-- **A grid is read back from its bytes.** -/
theorem ofBytes_toBytes (g : Grid W H) : ofBytes g.toBytes = g := by
  have hcells : chunks 8 g.toBytes = g.toFlat.map toBeBytes := by
    rw [toBytes_eq, List.flatMap_def]
    refine chunks_flatten (by decide) fun bytes hbytes => ?_
    obtain ⟨x, _, rfl⟩ := List.mem_map.1 hbytes
    exact length_toBeBytes x
  rw [ofBytes_eq g.length_toBytes, hcells, List.map_map]
  conv_rhs => rw [← ofFlat_toFlat g]
  congr 1
  simp only [Function.comp_def, fromBeBytes_toBeBytes, List.map_id']

/-- What `from_bytes` accepts, and what it returns. -/
theorem fromBytes_eq (hd : Supported W H) {bytes : List U8} (h : W * H * 8 ∣ bytes.length) :
    (fromBytes bytes : Except Fault (List (Grid W H))) =
      .ok ((chunks (W * H * 8) bytes).map ofBytes) := by
  have hpos : ¬W * H * 8 = 0 := by have := hd.area_pos; omega
  have hmod : ¬bytes.length % (W * H * 8) ≠ 0 := not_not.2 (Nat.mod_eq_zero_of_dvd h)
  have hmapM : ∀ blocks : List (List U8), (blocks.mapM fun chunk => do
      let _ ← (new : Except Fault (Grid W H))
      return (ofBytes chunk : Grid W H)) = .ok (blocks.map ofBytes) := by
    intro blocks
    induction blocks with
    | nil => rfl
    | cons block blocks ih =>
      rw [List.mapM_cons, ih, new_eq hd]
      rfl
  simp only [fromBytes, if_neg hpos, if_neg hmod]
  exact hmapM _

/-- **Grids are read back.** -/
theorem fromBytes_flatMap_toBytes (hd : Supported W H) (grids : List (Grid W H)) :
    fromBytes (grids.flatMap toBytes) = .ok grids := by
  have hlen : ∀ bytes ∈ grids.map toBytes, bytes.length = W * H * 8 := by
    rintro bytes hbytes
    obtain ⟨g, _, rfl⟩ := List.mem_map.1 hbytes
    exact g.length_toBytes
  have hpos : 0 < W * H * 8 := by have := hd.area_pos; omega
  have hdvd : W * H * 8 ∣ (grids.flatMap toBytes).length := by
    rw [length_flatMap_toBytes]
    exact Nat.dvd_mul_left _ _
  rw [fromBytes_eq hd hdvd, List.flatMap_def, chunks_flatten hpos hlen, List.map_map]
  simp only [Function.comp_def, ofBytes_toBytes, List.map_id']

/-- What was read is written back. -/
theorem flatMap_toBytes_of_fromBytes (hd : Supported W H) {bytes : List U8} {grids : List (Grid W H)}
    (h : fromBytes bytes = .ok grids) : grids.flatMap toBytes = bytes := by
  have hpos : 0 < W * H * 8 := by have := hd.area_pos; omega
  have hdvd : W * H * 8 ∣ bytes.length := by
    by_contra hndvd
    have hmod : bytes.length % (W * H * 8) ≠ 0 := fun h0 => hndvd (Nat.dvd_of_mod_eq_zero h0)
    simp only [fromBytes, if_neg hpos.ne', if_pos hmod] at h
    cases h
  rw [fromBytes_eq hd hdvd] at h
  obtain rfl := Except.ok.inj h
  rw [List.flatMap_map]
  conv_rhs => rw [← flatten_chunks hpos bytes, ← List.flatMap_id]
  exact List.flatMap_congr fun chunk hchunk => toBytes_ofBytes (length_of_mem_chunks hpos hdvd hchunk)

end Grid

/-! ### The packet -/

/-- `AuthenticatedData<W, H>`. -/
structure AuthenticatedData (W H : ℕ) where
  mac : Vector U8 32
  encryptedData : EncryptedData W H
deriving DecidableEq

/-- `AuthenticatedPacket<W, H>`. -/
structure AuthenticatedPacket (W H : ℕ) where
  mac : Vector U8 32
  nonce : Grid W H
  output : List (Grid W H)
deriving DecidableEq

/-- The bytes `compute_mac` feeds to the MAC. -/
def macInput (nonce : Grid W H) (output : List (Grid W H)) : List U8 :=
  nonce.toBytes ++ output.flatMap Grid.toBytes

/-- `compute_mac`, finalized. -/
def computeMac (P : Primitives) (nonce : Grid W H) (output : List (Grid W H))
    (macKey : Vector U8 32) : Vector U8 32 :=
  P.hmac macKey.toList (macInput nonce output)

namespace AuthenticatedData

/-- `AuthenticatedData::authenticate`. -/
def authenticate (P : Primitives) (encryptedData : EncryptedData W H) (macKey : Vector U8 32) :
    AuthenticatedData W H :=
  ⟨computeMac P encryptedData.nonce encryptedData.output macKey, encryptedData⟩

/-- `Vec::<u8>::from`. -/
def toBytes (data : AuthenticatedData W H) : List U8 :=
  data.mac.toList ++ data.encryptedData.nonce.toBytes ++ data.encryptedData.output.flatMap Grid.toBytes

end AuthenticatedData

namespace AuthenticatedPacket

/-- `AuthenticatedPacket::try_from`. -/
def tryFrom (bytes : List U8) : Except Fault (AuthenticatedPacket W H) := do
  let gridSize := W * H * 8
  if bytes.length < 32 + gridSize then throw (.err (.invalidByteLength gridSize bytes.length))
  let grids ← Grid.fromBytes (bytes.drop 32)
  match grids with
  | [] => throw (.panic "removal index (is 0) should be < len (is 0)")
  | nonce :: output => return ⟨Vector.ofFn fun i => (bytes.take 32).getD i 0, nonce, output⟩

/-- `AuthenticatedPacket::verify`. -/
def verify (P : Primitives) (packet : AuthenticatedPacket W H) (macKey : Vector U8 32) : Bool :=
  computeMac P packet.nonce packet.output macKey = packet.mac

/-- `AuthenticatedPacket::open`. -/
def open' (P : Primitives) (packet : AuthenticatedPacket W H) (macKey : Vector U8 32)
    (key : Grid W H) : Option (EncryptedData W H) :=
  if packet.verify P macKey then some ⟨packet.output, key, packet.nonce⟩ else none

/-! ### The wire format -/

/-- What is authenticated is the nonce and the ciphertext. -/
theorem length_macInput (nonce : Grid W H) (output : List (Grid W H)) :
    (macInput nonce output).length = (output.length + 1) * (W * H * 8) := by
  rw [macInput, List.length_append, Grid.length_flatMap_toBytes, Grid.length_toBytes, Nat.add_mul,
    Nat.one_mul, Nat.add_comm]

/-- The tag is the first 32 bytes. -/
theorem toList_tag {bytes : List U8} (h : 32 ≤ bytes.length) :
    (Vector.ofFn fun i : Fin 32 => (bytes.take 32).getD i 0).toList = bytes.take 32 := by
  refine List.ext_getElem (by simp [h]) fun i _ hi => ?_
  rw [Vector.getElem_toList, Vector.getElem_ofFn, List.getD_eq_getElem _ _ hi]

/-- **What `try_from` accepts, and what it reads.**  A byte string parses to a
packet exactly when it is the packet's tag followed by the MAC's input. -/
theorem tryFrom_eq_ok_iff (hd : Grid.Supported W H) {bytes : List U8} {p : AuthenticatedPacket W H} :
    tryFrom bytes = .ok p ↔ bytes = p.mac.toList ++ macInput p.nonce p.output := by
  constructor
  · intro h
    simp only [tryFrom] at h
    split_ifs at h with hlen
    · cases h
    cases hgrids : (Grid.fromBytes (bytes.drop 32) : Except Fault (List (Grid W H))) with
    | error e => rw [hgrids] at h; cases h
    | ok grids =>
      rw [hgrids] at h
      have hbytes := Grid.flatMap_toBytes_of_fromBytes hd hgrids
      cases grids with
      | nil => cases h
      | cons nonce output =>
        obtain rfl := Except.ok.inj h
        rw [toList_tag (by omega), show macInput nonce output = bytes.drop 32 from hbytes,
          List.take_append_drop]
  · rintro rfl
    have hlen : ¬(p.mac.toList ++ macInput p.nonce p.output).length < 32 + W * H * 8 := by
      rw [List.length_append, length_macInput, Vector.length_toList, Nat.add_mul]
      omega
    have hdrop : (p.mac.toList ++ macInput p.nonce p.output).drop 32 =
        (p.nonce :: p.output).flatMap Grid.toBytes := by
      rw [List.drop_left' (by simp)]
      rfl
    have hmac : (Vector.ofFn fun i : Fin 32 =>
        ((p.mac.toList ++ macInput p.nonce p.output).take 32).getD i 0) = p.mac := by
      refine Vector.toList_inj.1 ?_
      rw [toList_tag (by rw [List.length_append, Vector.length_toList]; omega), List.take_left' (by simp)]
    simp only [tryFrom, if_neg hlen, hdrop, Grid.fromBytes_flatMap_toBytes hd, bind, Except.bind, pure,
      Except.pure, hmac]

/-- What was serialized parses to its parts. -/
theorem tryFrom_toBytes (hd : Grid.Supported W H) (data : AuthenticatedData W H) :
    tryFrom data.toBytes = .ok ⟨data.mac, data.encryptedData.nonce, data.encryptedData.output⟩ := by
  rw [tryFrom_eq_ok_iff hd, AuthenticatedData.toBytes, List.append_assoc]
  rfl

/-- The bytes after the tag are the MAC's input. -/
theorem drop_of_tryFrom (hd : Grid.Supported W H) {bytes : List U8} {p : AuthenticatedPacket W H}
    (h : tryFrom bytes = .ok p) : bytes.drop 32 = macInput p.nonce p.output := by
  rw [(tryFrom_eq_ok_iff hd).1 h, List.drop_left' (by simp)]

/-- Whole grids after the tag, the nonce at least, are accepted. -/
theorem tryFrom_ok (hd : Grid.Supported W H) {bytes : List U8} {k : ℕ} (hk : 1 ≤ k)
    (hlen : bytes.length = 32 + k * (W * H * 8)) :
    ∃ p : AuthenticatedPacket W H, tryFrom bytes = .ok p := by
  have hpos : 0 < W * H * 8 := by have := hd.area_pos; omega
  have hdrop : (bytes.drop 32).length = k * (W * H * 8) := by rw [List.length_drop, hlen]; omega
  have hle : W * H * 8 ≤ k * (W * H * 8) := Nat.le_mul_of_pos_left _ hk
  have hgrids := Grid.fromBytes_eq hd (show W * H * 8 ∣ (bytes.drop 32).length from
    hdrop ▸ Nat.dvd_mul_left _ _)
  have hne : bytes.drop 32 ≠ [] := List.length_pos_iff.1 (by omega)
  rw [chunks_cons hpos hne, List.map_cons] at hgrids
  have hbytes := Grid.flatMap_toBytes_of_fromBytes hd hgrids
  generalize hnonce : Grid.ofBytes _ = nonce at hbytes
  generalize houtput : List.map Grid.ofBytes _ = output at hbytes
  refine ⟨⟨Vector.ofFn fun i => (bytes.take 32).getD i 0, nonce, output⟩, (tryFrom_eq_ok_iff hd).2 ?_⟩
  rw [toList_tag (by omega), macInput, ← List.flatMap_cons, hbytes, List.take_append_drop]

/-- `open` returns what was parsed if the tag is the MAC, and nothing otherwise. -/
theorem open_eq_some_iff (P : Primitives) (p : AuthenticatedPacket W H) (macKey : Vector U8 32)
    (key : Grid W H) {data : EncryptedData W H} :
    p.open' P macKey key = some data ↔
      p.mac = computeMac P p.nonce p.output macKey ∧ data = ⟨p.output, key, p.nonce⟩ := by
  unfold open' verify
  split_ifs with hv
  · rw [Option.some_inj]
    exact ⟨fun hdata => ⟨(of_decide_eq_true hv).symm, hdata.symm⟩, fun ⟨_, hdata⟩ => hdata.symm⟩
  · constructor
    · rintro ⟨⟩
    · rintro ⟨htag, _⟩
      exact absurd (decide_eq_true htag.symm) hv

/-- **The authenticated wire format is exact.**  `try_from` accepts the tag and
one or more whole grids and nothing else; parsing and serializing are inverse to
each other; the bytes after the tag are the MAC's input on both sides, so bytes
that differ there have different MAC inputs; and `open` succeeds exactly on the
MAC of that input, with what was parsed. -/
theorem packet_format_exact (hd : Grid.Supported W H) (P : Primitives) :
    (∀ bytes : List U8, (∃ p : AuthenticatedPacket W H, tryFrom bytes = .ok p) ↔
      ∃ k, 1 ≤ k ∧ bytes.length = 32 + k * (W * H * 8)) ∧
    (∀ data : AuthenticatedData W H, tryFrom data.toBytes =
      .ok ⟨data.mac, data.encryptedData.nonce, data.encryptedData.output⟩) ∧
    (∀ (bytes : List U8) (p : AuthenticatedPacket W H), tryFrom bytes = .ok p →
      (∀ key, AuthenticatedData.toBytes ⟨p.mac, ⟨p.output, key, p.nonce⟩⟩ = bytes) ∧
      bytes.drop 32 = macInput p.nonce p.output) ∧
    (∀ (data : EncryptedData W H) (macKey : Vector U8 32),
      (AuthenticatedData.authenticate P data macKey).mac =
        P.hmac macKey.toList ((AuthenticatedData.authenticate P data macKey).toBytes.drop 32)) ∧
    (∀ (bytes bytes' : List U8) (p p' : AuthenticatedPacket W H), tryFrom bytes = .ok p →
      tryFrom bytes' = .ok p' → bytes.drop 32 ≠ bytes'.drop 32 →
      macInput p.nonce p.output ≠ macInput p'.nonce p'.output) ∧
    (∀ (bytes : List U8) (p : AuthenticatedPacket W H) (macKey : Vector U8 32) (key : Grid W H)
      (data : EncryptedData W H), tryFrom bytes = .ok p →
      (p.open' P macKey key = some data ↔
        p.mac = P.hmac macKey.toList (bytes.drop 32) ∧ data = ⟨p.output, key, p.nonce⟩)) := by
  refine ⟨fun bytes => ⟨?_, ?_⟩, tryFrom_toBytes hd, fun bytes p h => ⟨fun key => ?_, drop_of_tryFrom hd h⟩,
    fun data macKey => ?_, fun bytes bytes' p p' h h' hne => ?_, fun bytes p macKey key data h => ?_⟩
  · rintro ⟨p, h⟩
    refine ⟨p.output.length + 1, by omega, ?_⟩
    rw [(tryFrom_eq_ok_iff hd).1 h, List.length_append, Vector.length_toList, length_macInput]
  · rintro ⟨k, hk, hlen⟩
    exact tryFrom_ok hd hk hlen
  · rw [(tryFrom_eq_ok_iff hd).1 h, AuthenticatedData.toBytes, List.append_assoc]
    rfl
  · rw [AuthenticatedData.toBytes, List.append_assoc, List.drop_left' (by simp)]
    rfl
  · rw [← drop_of_tryFrom hd h, ← drop_of_tryFrom hd h']
    exact hne
  · rw [drop_of_tryFrom hd h]
    exact open_eq_some_iff P p macKey key

/-- The theorem on the smallest grid: a packet of one ciphertext grid parses. -/
theorem packet_format_exact_two_by_four :
    Grid.Supported 2 4 ∧
      tryFrom (AuthenticatedData.toBytes (W := 2) (H := 4)
          ⟨.replicate 32 3, ⟨[.ofFlat [1]], .ofFlat [], .ofFlat [2]⟩⟩) =
        .ok (⟨.replicate 32 3, .ofFlat [2], [.ofFlat [1]]⟩ : AuthenticatedPacket 2 4) :=
  ⟨by decide, (packet_format_exact (W := 2) (H := 4) (by decide) default).2.1 _⟩

end AuthenticatedPacket

end Why2
