/-
# Files at rest

The encryption of uploads on the server's disk: the chunk loop of `download`
and `read_image` (`chat/src/network/file/server.rs`), `send_file`
(`chat/src/network/file/mod.rs`) and the keys and the tag of a stored file
(`chat/src/crypto/mod.rs`).

The writer takes every chunk of the upload through `update` and `finalize`, so
that each chunk starts a new block of the keystream.  The reader does the same
with pieces of `UPLOAD_CHUNK_SIZE` bytes of the file.  A byte comes back if both
XOR the same keystream byte into it, which depends on where the chunks were cut
(`readImage_iff`); the tag is over the ciphertext and verifies either way.  Of
two ways to cut one small picture at least one does not read back
(`stored_file_misread`).
-/

import Why2.Chat.PacketStream
import Why2.Chat.History
import Why2.Lib.Padding

namespace Why2

open Lib RexPacketStream

/-- `consts::UPLOAD_CHUNK_SIZE`. -/
def uploadChunkSize : ℕ := 1000000

/-- `consts::DISK_TAG_SIZE`. -/
def diskTagSize : ℕ := 32

/-- `DiskKeys`: the grid key, the nonce and the MAC key of a file. -/
structure DiskKeys where
  key : List I64
  nonce : List I64
  macKey : Vector U8 32
deriving DecidableEq

/-- `disk_keys`. -/
def diskKeys (P : Primitives) (salt ikm : List U8) : DiskKeys where
  key := (chunks 8 (P.hkdf (some salt) ikm (ascii "WHY2-IMAGE-KEY") (8 * 8 * 2 * 8)).toList).map fromBeBytes
  nonce := (chunks 8 (P.hkdf (some salt) ikm (ascii "WHY2-IMAGE-NONCE") (8 * 8 * 8)).toList).map fromBeBytes
  macKey := P.hkdf (some salt) ikm (ascii "WHY2-DISK-MAC") 32

/-- `image_keys`, with `imageKey` the server's own key (`kex::image_key`). -/
def imageKeys (P : Primitives) (imageKey : List U8) (hash : Hash) : DiskKeys :=
  diskKeys P hash.toList imageKey

/-- `disk_tag`, of a MAC that has been fed the ciphertext. -/
def diskTag (P : Primitives) (macKey : Vector U8 32) (ciphertext : List U8) (length : ℕ) :
    Vector U8 32 :=
  P.hmac macKey.toList (ciphertext ++ toBeBytes (BitVec.ofNat 64 length))

/-- `disk_open`. -/
def diskOpen (P : Primitives) (macKey : Vector U8 32) (sealed : List U8) : Option (List U8) :=
  if sealed.length < diskTagSize then none
  else
    let ciphertext := sealed.take (sealed.length - diskTagSize)
    let tag := sealed.drop (sealed.length - diskTagSize)
    if (diskTag P macKey ciphertext ciphertext.length).toList = tag then some ciphertext else none

/-- The stream a file is encrypted with. -/
def diskStream (P : Primitives) (key nonce : List I64) : Except Fault (RexStream 8 8) := do
  let keyGrid ← Grid.fromKey key
  let nonceGrid ← Grid.fromFlat nonce
  RexStream.new P keyGrid nonceGrid

/-- Pieces taken one after the other through `update` and `finalize`. -/
def cryptAll (b : Build) : RexStream 8 8 → List (List U8) → Except Fault (List U8 × RexStream 8 8)
  | stream, [] => .ok ([], stream)
  | stream, piece :: pieces => do
    let (bytes, stream) ← crypt b stream piece
    let (rest, stream) ← cryptAll b stream pieces
    return (bytes ++ rest, stream)

/-- The loop of `read_image` and of `send_file`, over the pieces they read. -/
def readFile (b : Build) (stream : RexStream 8 8) (bytes : List U8) : Except Fault (List U8) :=
  (cryptAll b stream (chunks uploadChunkSize bytes)).map Prod.fst

/-- `read_image`, of the file with these bytes. -/
def readImage (P : Primitives) (b : Build) (imageKey : List U8) (hash : Hash) (sealed : List U8) :
    Option (List U8) := do
  let keys := imageKeys P imageKey hash
  let ciphertext ← diskOpen P keys.macKey sealed
  let stream ← (diskStream P keys.key keys.nonce).toOption
  (readFile b stream ciphertext).toOption

/-- `ActiveFileshare`, as far as the chunk loop changes it.  The hasher and the MAC are
what they have been fed. -/
structure ActiveFileshare where
  size : ℕ
  currentSize : ℕ
  hash : Hash
  hashed : List U8
  stream : RexStream 8 8
  macKey : Option (Vector U8 32)
  maced : List U8

namespace ActiveFileshare

/-- A chunk is encrypted for the disk. -/
def encrypt (b : Build) (active : ActiveFileshare) (data : List U8) :
    Except Fault (List U8 × ActiveFileshare) := do
  let (bytes, stream) ← crypt b active.stream data
  return (bytes, { active with stream })

/-- Only the stream moves on. -/
theorem encrypt_eq_ok {b : Build} {active encrypted : ActiveFileshare} {data bytes : List U8}
    (h : active.encrypt b data = .ok (bytes, encrypted)) :
    ∃ stream, crypt b active.stream data = .ok (bytes, stream) ∧ encrypted = { active with stream } := by
  unfold encrypt at h
  cases hcrypt : crypt b active.stream data with
  | error fault =>
    rw [hcrypt] at h
    cases h
  | ok result =>
    rw [hcrypt] at h
    obtain ⟨rfl, rfl⟩ := Prod.mk.inj (Except.ok.inj h)
    exact ⟨result.2, rfl, rfl⟩

/-- The state after the disk took a chunk. -/
def update (active : ActiveFileshare) (data bytes : List U8) : ActiveFileshare :=
  { active with
    currentSize := active.currentSize + data.length
    hashed := active.hashed ++ data
    maced := active.maced ++ bytes }

/-- What goes on the end of the file: the tag of a persistent upload. -/
def tag (P : Primitives) (active : ActiveFileshare) : List U8 :=
  match active.macKey with
  | none => []
  | some macKey => (diskTag P macKey active.maced active.currentSize).toList

/-- The chunk loop of one upload: the bytes of the finished file, once the announced size
is reached, if the hash is the announced one.  A chunk that is too long is dropped. -/
def receive (P : Primitives) (b : Build) : ActiveFileshare → List U8 → List (List U8) → Option (List U8)
  | _, _, [] => none
  | active, file, data :: rest =>
    if uploadChunkSize < data.length then receive P b active file rest
    else
      match active.encrypt b data with
      | .error _ => none
      | .ok (bytes, active) =>
        let active := active.update data bytes
        let file := file ++ bytes
        if active.size < active.currentSize then none
        else if active.currentSize = active.size then
          if P.sha256 active.hashed = active.hash then some (file ++ active.tag P) else none
        else receive P b active file rest

/-- The upload as its metadata starts it, with the keys of a persistent upload. -/
def start (stream : RexStream 8 8) (macKey : Option (Vector U8 32)) (size : ℕ) (hash : Hash) :
    ActiveFileshare :=
  { size, currentSize := 0, hash, hashed := [], stream, macKey, maced := [] }

end ActiveFileshare

/-! ### Which keystream byte goes into which byte -/

/-- Byte `x` of the keystream, in blocks of 512 bytes. -/
def keystreamByte (b : Build) (stream : RexStream 8 8) (x : ℕ) : U8 :=
  (toBeBytes (stream.keystreamCell b (BitVec.ofNat 64 (x / 512)) (x % 512 / 8))).getD (x % 8) 0

/-- A byte of cells. -/
theorem getD_i64ToBytes (vals : List I64) {i : ℕ} (hi : i < vals.length * 8) :
    (i64ToBytes vals).getD i 0 = (toBeBytes (vals.getD (i / 8) 0)).getD (i % 8) 0 := by
  induction vals generalizing i with
  | nil => cases hi
  | cons val vals ih =>
    have hcons : i64ToBytes (val :: vals) = toBeBytes val ++ i64ToBytes vals := rfl
    have hlen : (toBeBytes val).length = 8 := by simp
    rw [hcons]
    rcases Nat.lt_or_ge i 8 with hlt | hge
    · rw [List.getD_append _ _ _ _ (by omega), Nat.div_eq_of_lt hlt, Nat.mod_eq_of_lt hlt,
        List.getD_cons_zero]
    · obtain ⟨j, rfl⟩ := Nat.exists_eq_add_of_le hge
      rw [List.length_cons] at hi
      rw [List.getD_append_right _ _ _ _ (by omega), hlen, Nat.add_sub_cancel_left, ih (by omega),
        Nat.add_div_left j (by decide), Nat.add_mod_left, List.getD_cons_succ]

/-- The keystream of a piece, byte by byte. -/
theorem getD_keystreamBytes (b : Build) {stream : RexStream 8 8} {k : ℕ}
    (hk : stream.blockCounter = BitVec.ofNat 64 k) {n i : ℕ} (hi : i < n) :
    (keystreamBytes b stream n).getD i 0 = keystreamByte b stream (512 * k + i) := by
  have hcells : (stream.ctr b stream.blockCounter (List.replicate ((n + 7) / 8) 0)).length =
      (n + 7) / 8 := by
    rw [RexStream.ctr, length_ctrXor, List.length_replicate]
  have hcell : (stream.ctr b stream.blockCounter (List.replicate ((n + 7) / 8) 0)).getD (i / 8) 0 =
      stream.keystreamCell b (stream.blockCounter + BitVec.ofNat 64 (i / 8 / (8 * 8))) (i / 8 % (8 * 8)) := by
    rw [List.getD_eq_getElem _ _ (by omega)]
    simp only [RexStream.ctr, ctrXor, List.getElem_mapIdx, List.getElem_replicate]
    exact BitVec.zero_xor
  rw [keystreamBytes, getD_i64ToBytes _ (by omega), hcell, keystreamByte]
  have hblock : (512 * k + i) / 512 = k + i / 8 / (8 * 8) := by omega
  have hpos : (512 * k + i) % 512 / 8 = i / 8 % (8 * 8) := by omega
  have hbyte : (512 * k + i) % 8 = i % 8 := by omega
  rw [hblock, hpos, hbyte, hk, BitVec.ofNat_add]

/-- The text under the keystream, laid out in pieces of these lengths from block `k` on. -/
def xorPieces (b : Build) (stream : RexStream 8 8) (k : ℕ) (lens : List ℕ) (text : List U8) : List U8 :=
  text.mapIdx fun i x => x ^^^ keystreamByte b stream (position 512 k lens i)

/-- A text stays as long as it is. -/
theorem length_xorPieces (b : Build) (stream : RexStream 8 8) (k : ℕ) (lens : List ℕ) (text : List U8) :
    (xorPieces b stream k lens text).length = text.length := by
  rw [xorPieces, List.length_mapIdx]

/-- A stream between two pieces, at block `k`, of the same keys and nonce as another. -/
structure AtBlock (stream origin : RexStream 8 8) (k : ℕ) : Prop where
  buffer : stream.buffer = []
  counter : stream.blockCounter = BitVec.ofNat 64 k
  keystream : ∀ b x, keystreamByte b stream x = keystreamByte b origin x

/-- One piece moves the stream on by the blocks it takes. -/
theorem crypt_piece (b : Build) {stream origin : RexStream 8 8} {k : ℕ} (h : AtBlock stream origin k)
    (piece : List U8) :
    ∃ stream', crypt b stream piece = .ok (xorPieces b origin k [piece.length] piece, stream') ∧
      AtBlock stream' origin (k + blockCount 512 piece.length) := by
  refine ⟨stream.advance ((piece.length + 7) / 8), (crypt_eq b h.buffer piece).trans ?_, rfl, ?_,
    fun b x => h.keystream b x⟩
  · refine congrArg (fun bytes => Except.ok (bytes, stream.advance ((piece.length + 7) / 8))) ?_
    have hlen := length_keystreamBytes b stream piece.length
    refine List.ext_getElem (by rw [length_xorPieces, List.length_zipWith]; omega) fun i hi _ => ?_
    have hi' : i < piece.length := by rw [List.length_zipWith] at hi; omega
    have hbyte := getD_keystreamBytes b h.counter hi'
    rw [List.getD_eq_getElem _ _ (by omega), h.keystream] at hbyte
    simp only [xorPieces, List.getElem_zipWith, List.getElem_mapIdx, hbyte, position, if_pos hi']
  · -- Cells of eight bytes, blocks of 64 cells.
    simp only [RexStream.advance, h.counter]
    unfold blockCount
    split
    · rename_i hzero
      have : (piece.length + 512 - 1) / 512 = (piece.length + 7) / 8 / (8 * 8) := by omega
      rw [this, BitVec.ofNat_add]
      exact BitVec.add_zero _
    · rename_i hpos
      have : (piece.length + 512 - 1) / 512 = (piece.length + 7) / 8 / (8 * 8) + 1 := by omega
      rw [this, ← Nat.add_assoc, BitVec.ofNat_add, BitVec.ofNat_add]
      rfl

/-- The first piece, and then the others. -/
theorem xorPieces_cons (b : Build) (stream : RexStream 8 8) (k : ℕ) (piece text : List U8)
    (lens : List ℕ) :
    xorPieces b stream k (piece.length :: lens) (piece ++ text) =
      xorPieces b stream k [piece.length] piece ++
        xorPieces b stream (k + blockCount 512 piece.length) lens text := by
  unfold xorPieces
  rw [List.mapIdx_append]
  refine congrArg₂ _ ?_ ?_
  · refine List.ext_getElem (by simp) fun i hi _ => ?_
    have hi' : i < piece.length := by simpa using hi
    simp only [List.getElem_mapIdx, position, if_pos hi']
  · refine List.ext_getElem (by simp) fun i hi _ => ?_
    have hnot : ¬i + piece.length < piece.length := by omega
    simp only [List.getElem_mapIdx, position, if_neg hnot, Nat.add_sub_cancel]

/-- The blocks that pieces take. -/
def blocksOf (pieces : List (List U8)) : ℕ := (pieces.map fun piece => blockCount 512 piece.length).sum

/-- One more piece at the end. -/
theorem xorPieces_concat (b : Build) (stream : RexStream 8 8) (k : ℕ) (pieces : List (List U8))
    (piece : List U8) :
    xorPieces b stream k ((pieces ++ [piece]).map List.length) (pieces ++ [piece]).flatten =
      xorPieces b stream k (pieces.map List.length) pieces.flatten ++
        xorPieces b stream (k + blocksOf pieces) [piece.length] piece := by
  induction pieces generalizing k with
  | nil => simp [xorPieces, blocksOf]
  | cons first pieces ih =>
    have hblocks : blocksOf (first :: pieces) = blockCount 512 first.length + blocksOf pieces := by
      rw [blocksOf, List.map_cons, List.sum_cons, blocksOf]
    rw [List.cons_append, List.map_cons, List.flatten_cons, xorPieces_cons, ih, List.map_cons,
      List.flatten_cons, xorPieces_cons, hblocks, List.append_assoc, Nat.add_assoc]

/-- **Pieces taken through the stream are the text under the keystream**, laid out in
pieces of these lengths. -/
theorem cryptAll_eq (b : Build) {stream origin : RexStream 8 8} {k : ℕ} (h : AtBlock stream origin k)
    (pieces : List (List U8)) :
    ∃ stream', cryptAll b stream pieces =
      .ok (xorPieces b origin k (pieces.map List.length) pieces.flatten, stream') := by
  induction pieces generalizing stream k with
  | nil => exact ⟨stream, rfl⟩
  | cons piece pieces ih =>
    obtain ⟨stream', hcrypt, hnext⟩ := crypt_piece b h piece
    obtain ⟨stream'', hrest⟩ := ih hnext
    refine ⟨stream'', ?_⟩
    rw [List.map_cons, List.flatten_cons, xorPieces_cons]
    simp only [cryptAll, hcrypt, hrest, bind, Except.bind, pure, Except.pure]

/-! ### Writing and reading -/

/-- Keys of the grid's size make a stream, which starts at block 0. -/
theorem diskStream_ok (P : Primitives) {key : List I64} (hkey : key.length = 128) (nonce : List I64) :
    ∃ stream, diskStream P key nonce = .ok stream ∧ AtBlock stream stream 0 := by
  have hd : Grid.Supported 8 8 := by decide
  obtain ⟨stream, hstream, _, _, hcounter, hbuffer⟩ := RexStream.new_ok hd P
    (.build fun j i => Grid.keyCell (key.getD (j * 8 + i) 0) (key.getD (j * 8 + i + 8 * 8) 0) (j * 8 + i))
    (.ofFlat nonce)
  refine ⟨stream, ?_, hbuffer, hcounter, fun _ _ => rfl⟩
  simp only [diskStream, Grid.fromKey_eq hd hkey, Grid.fromFlat_eq hd, bind, Except.bind]
  exact hstream

/-- A stream of a file starts at block 0. -/
theorem atBlock_of_diskStream {P : Primitives} {key nonce : List I64} {stream : RexStream 8 8}
    (h : diskStream P key nonce = .ok stream) : AtBlock stream stream 0 := by
  have hd : Grid.Supported 8 8 := by decide
  cases hkey : Grid.fromKey (W := 8) (H := 8) key with
  | error fault =>
    rw [diskStream, hkey] at h
    cases h
  | ok keyGrid =>
    cases hnonce : Grid.fromFlat (W := 8) (H := 8) nonce with
    | error fault =>
      rw [diskStream, hkey, hnonce] at h
      cases h
    | ok nonceGrid =>
      obtain ⟨stream', hstream, _, _, hcounter, hbuffer⟩ := RexStream.new_ok hd P keyGrid nonceGrid
      rw [diskStream, hkey, hnonce] at h
      obtain rfl := Except.ok.inj (hstream.symm.trans h)
      exact ⟨hbuffer, hcounter, fun _ _ => rfl⟩

/-- The key of a picture has 128 bytes. -/
theorem length_imageKeys (P : Primitives) (imageKey : List U8) (hash : Hash) :
    (imageKeys P imageKey hash).key.length = 128 := by
  rw [imageKeys, diskKeys, List.length_map, length_chunks, Vector.length_toList]

/-- The keystream is the same on every build. -/
theorem keystreamByte_build (b b' : Build) (stream : RexStream 8 8) (x : ℕ) :
    keystreamByte b stream x = keystreamByte b' stream x := by
  rw [keystreamByte, keystreamByte, RexStream.keystreamCell, RexStream.keystreamCell,
    keystream_build b b' (by decide) _ stream.shifts_derived]

/-- **What the chunk loop leaves on disk**: the chunks under the keystream, then the tag. -/
theorem ActiveFileshare.receive_eq (P : Primitives) (b : Build) {origin : RexStream 8 8} {k : ℕ}
    {active : ActiveFileshare} (h : AtBlock active.stream origin k) (file : List U8)
    {data : List (List U8)} (hne : data ≠ []) (hlen : ∀ chunk ∈ data, chunk.length ≤ uploadChunkSize)
    (hsize : active.currentSize + data.flatten.length = active.size)
    (hhash : P.sha256 (active.hashed ++ data.flatten) = active.hash) :
    active.receive P b file data =
      some (file ++ xorPieces b origin k (data.map List.length) data.flatten ++
        ActiveFileshare.tag P
          { active with
            currentSize := active.size
            maced := active.maced ++ xorPieces b origin k (data.map List.length) data.flatten }) := by
  induction data generalizing active file k with
  | nil => exact absurd rfl hne
  | cons chunk data ih =>
    obtain ⟨stream, hcrypt, hnext⟩ := crypt_piece b h chunk
    have hshort : ¬uploadChunkSize < chunk.length := Nat.not_lt.2 (hlen chunk List.mem_cons_self)
    rw [List.flatten_cons, List.length_append] at hsize
    rw [List.flatten_cons] at hhash
    rw [List.map_cons, List.flatten_cons, xorPieces_cons]
    have hstep : active.receive P b file (chunk :: data) =
        if active.size < active.currentSize + chunk.length then none
        else if active.currentSize + chunk.length = active.size then
          if P.sha256 (active.hashed ++ chunk) = active.hash then
            some (file ++ xorPieces b origin k [chunk.length] chunk ++ ActiveFileshare.tag P
              { active with
                currentSize := active.currentSize + chunk.length
                maced := active.maced ++ xorPieces b origin k [chunk.length] chunk })
          else none
        else
          ({ active with
              currentSize := active.currentSize + chunk.length
              hashed := active.hashed ++ chunk
              stream
              maced := active.maced ++ xorPieces b origin k [chunk.length] chunk }).receive P b
            (file ++ xorPieces b origin k [chunk.length] chunk) data := by
      rw [receive, if_neg hshort]
      simp only [encrypt, hcrypt, bind, Except.bind, pure, Except.pure]
      rfl
    rw [hstep, if_neg (by omega)]
    split
    · -- The size is reached: what may follow is empty.
      rename_i hdone
      have hempty : data.flatten = [] := List.length_eq_zero_iff.1 (by omega)
      have hnil : ∀ k, xorPieces b origin k (data.map List.length) data.flatten = [] := by
        intro k
        rw [hempty]
        rfl
      rw [hempty, List.append_nil] at hhash
      rw [if_pos hhash, hnil, List.append_nil]
      simp only [ActiveFileshare.tag, hdone]
    · rename_i hmore
      have hrest : data ≠ [] := by
        rintro rfl
        rw [List.flatten_nil, List.length_nil] at hsize
        omega
      have hsize' : active.currentSize + chunk.length + data.flatten.length = active.size := by omega
      have hhash' : P.sha256 (active.hashed ++ chunk ++ data.flatten) = active.hash := by
        rw [List.append_assoc]
        exact hhash
      rw [ih hnext _ hrest (fun c hc => hlen c (List.mem_cons_of_mem _ hc)) hsize' hhash']
      simp only [ActiveFileshare.tag, List.append_assoc]

/-- A file the chunk loop sealed opens. -/
theorem diskOpen_seal (P : Primitives) (macKey : Vector U8 32) (ciphertext : List U8) :
    diskOpen P macKey (ciphertext ++ (diskTag P macKey ciphertext ciphertext.length).toList) =
      some ciphertext := by
  have hlen : (ciphertext ++ (diskTag P macKey ciphertext ciphertext.length).toList).length =
      ciphertext.length + 32 := by
    rw [List.length_append, Vector.length_toList]
  unfold diskOpen diskTagSize
  rw [hlen, if_neg (by omega), Nat.add_sub_cancel, List.take_left, List.drop_left, if_pos rfl]

/-- What is read is the file with the keystream, cut as the read cuts it. -/
theorem readFile_eq (b : Build) {stream : RexStream 8 8} (h : AtBlock stream stream 0)
    (bytes : List U8) :
    readFile b stream bytes =
      .ok (xorPieces b stream 0 ((chunks uploadChunkSize bytes).map List.length) bytes) := by
  obtain ⟨stream', hstream'⟩ := cryptAll_eq b h (chunks uploadChunkSize bytes)
  rw [flatten_chunks (by decide)] at hstream'
  rw [readFile, hstream']
  rfl

/-- The keystream byte the reader takes for byte `i` of a file. -/
def readPosition (i : ℕ) : ℕ :=
  512 * (i / uploadChunkSize * blockCount 512 uploadChunkSize) + i % uploadChunkSize

/-- **What was written comes back exactly if the reader takes the same keystream bytes.** -/
theorem readFile_xorPieces (b b' : Build) {stream : RexStream 8 8} (h : AtBlock stream stream 0)
    (lens : List ℕ) (text : List U8) :
    readFile b' stream (xorPieces b stream 0 lens text) = .ok text ↔
      ∀ i < text.length,
        keystreamByte b stream (position 512 0 lens i) = keystreamByte b stream (readPosition i) := by
  rw [readFile_eq b' h]
  have hbyte : ∀ i (hi : i < text.length),
      (xorPieces b' stream 0 ((chunks uploadChunkSize (xorPieces b stream 0 lens text)).map List.length)
        (xorPieces b stream 0 lens text))[i]? =
      some (text[i] ^^^ keystreamByte b stream (position 512 0 lens i) ^^^
        keystreamByte b stream (readPosition i)) := by
    intro i hi
    have hlen := length_xorPieces b stream 0 lens text
    rw [xorPieces, List.getElem?_mapIdx, position_chunks (by decide) _ _ (by omega), xorPieces,
      List.getElem?_mapIdx, List.getElem?_eq_getElem hi, keystreamByte_build b' b, Nat.zero_add,
      Option.map_some, Option.map_some, readPosition]
  constructor
  · intro heq i hi
    have hi' := hbyte i hi
    rw [Except.ok.inj heq, List.getElem?_eq_getElem hi, BitVec.xor_assoc] at hi'
    have hzero : text[i] ^^^ (keystreamByte b stream (position 512 0 lens i) ^^^
        keystreamByte b stream (readPosition i)) = text[i] ^^^ 0#8 := by
      rw [← Option.some.inj hi', BitVec.xor_zero]
    exact BitVec.xor_eq_zero_iff.1 ((BitVec.xor_right_inj _).1 hzero)
  · intro hsame
    refine congrArg _ (List.ext_getElem? fun i => ?_)
    rcases Nat.lt_or_ge i text.length with hi | hi
    · rw [hbyte i hi, hsame i hi, BitVec.xor_assoc, BitVec.xor_self, BitVec.xor_zero,
        List.getElem?_eq_getElem hi]
    · rw [List.getElem?_eq_none hi, List.getElem?_eq_none (by
        rw [length_xorPieces, length_xorPieces]; exact hi)]

/-- In aligned pieces writer and reader take the same keystream bytes. -/
theorem position_eq_readPosition {lens : List ℕ} (haligned : Aligned 512 uploadChunkSize 0 lens) {i : ℕ}
    (hi : i < lens.sum) : position 512 0 lens i = readPosition i := by
  have hpos := position_of_aligned (by decide) (by decide) haligned hi
  rw [Nat.zero_div, Nat.zero_mod, Nat.zero_mul, blockCount_zero (by decide), Nat.zero_add] at hpos
  rw [hpos, readPosition, Nat.zero_add]

/-- The upload of a persistent file in these chunks, from the keys of the hash it announces. -/
def storeImage (P : Primitives) (b : Build) (imageKey : List U8) (size : ℕ) (hash : Hash)
    (data : List (List U8)) : Option (List U8) := do
  let keys := imageKeys P imageKey hash
  let stream ← (diskStream P keys.key keys.nonce).toOption
  (ActiveFileshare.start stream (some keys.macKey) size hash).receive P b [] data

/-- Chunks with the announced size and hash make a file, which reads back exactly if writer and reader
take the same keystream bytes. -/
theorem readImage_storeImage (P : Primitives) (b b' : Build) (imageKey : List U8) (data : List (List U8))
    (hne : data ≠ []) (hlen : ∀ chunk ∈ data, chunk.length ≤ uploadChunkSize) (hash : Hash)
    (hhash : P.sha256 data.flatten = hash) :
    ∃ stream file,
      diskStream P (imageKeys P imageKey hash).key (imageKeys P imageKey hash).nonce = .ok stream ∧
      storeImage P b imageKey data.flatten.length hash data = some file ∧
      (readImage P b' imageKey hash file = some data.flatten ↔ ∀ i < data.flatten.length,
        keystreamByte b stream (position 512 0 (data.map List.length) i) =
          keystreamByte b stream (readPosition i)) := by
  obtain ⟨stream, hstream, hat⟩ := diskStream_ok P (length_imageKeys P imageKey hash)
    (imageKeys P imageKey hash).nonce
  have hstart : AtBlock (ActiveFileshare.start stream (some (imageKeys P imageKey hash).macKey)
      data.flatten.length hash).stream stream 0 := hat
  have hfile := ActiveFileshare.receive_eq P b hstart [] hne hlen (Nat.zero_add _) hhash
  generalize hct : xorPieces b stream 0 (data.map List.length) data.flatten = ciphertext at hfile
  have hctlen : ciphertext.length = data.flatten.length := by rw [← hct, length_xorPieces]
  have hoption : (diskStream P (imageKeys P imageKey hash).key (imageKeys P imageKey hash).nonce).toOption =
      some stream := by
    rw [hstream]
    rfl
  refine ⟨stream, ciphertext ++
    (diskTag P (imageKeys P imageKey hash).macKey ciphertext ciphertext.length).toList, hstream, ?_, ?_⟩
  · simp only [storeImage, hoption, Option.bind_eq_bind, Option.bind_some]
    rw [hfile, hctlen]
    rfl
  have hread : readImage P b' imageKey hash (ciphertext ++
      (diskTag P (imageKeys P imageKey hash).macKey ciphertext ciphertext.length).toList) =
      (readFile b' stream ciphertext).toOption := by
    unfold readImage
    extract_lets keys
    rw [Option.bind_eq_bind, diskOpen_seal, Option.bind_some, Option.bind_eq_bind, hoption,
      Option.bind_some]
  have hiff : readImage P b' imageKey hash (ciphertext ++
      (diskTag P (imageKeys P imageKey hash).macKey ciphertext ciphertext.length).toList) =
        some data.flatten ↔ ∀ i < data.flatten.length,
      keystreamByte b stream (position 512 0 (data.map List.length) i) =
        keystreamByte b stream (readPosition i) := by
    rw [hread, ← hct]
    refine Iff.trans ?_ (readFile_xorPieces b b' hat (data.map List.length) data.flatten)
    cases readFile b' stream (xorPieces b stream 0 (data.map List.length) data.flatten) with
    | error fault =>
      constructor
      · intro h
        cases h
      · intro h
        cases h
    | ok bytes => exact ⟨fun h => congrArg _ (Option.some.inj h), fun h => congrArg _ (Except.ok.inj h)⟩
  exact hiff

/-- **A stored file reads back exactly if writer and reader take the same keystream bytes.**
Chunks of at most `UPLOAD_CHUNK_SIZE` bytes with the announced size and hash make a file.
`read_image` returns the text of the chunks if and only if, for every byte, the keystream
byte at its place in the chunks is the one at its place in the file; it does so whenever
every chunk starts at a multiple of 512 bytes in its piece of `UPLOAD_CHUNK_SIZE` bytes of
the file and ends in that piece. -/
theorem readImage_iff (P : Primitives) (b b' : Build) (imageKey : List U8) (data : List (List U8))
    (hne : data ≠ []) (hlen : ∀ chunk ∈ data, chunk.length ≤ uploadChunkSize) (hash : Hash)
    (hhash : P.sha256 data.flatten = hash) :
    ∃ stream file,
      diskStream P (imageKeys P imageKey hash).key (imageKeys P imageKey hash).nonce = .ok stream ∧
      storeImage P b imageKey data.flatten.length hash data = some file ∧
      (readImage P b' imageKey hash file = some data.flatten ↔ ∀ i < data.flatten.length,
        keystreamByte b stream (position 512 0 (data.map List.length) i) =
          keystreamByte b stream (readPosition i)) ∧
      (Aligned 512 uploadChunkSize 0 (data.map List.length) →
        readImage P b' imageKey hash file = some data.flatten) := by
  obtain ⟨stream, file, hstream, hfile, hiff⟩ := readImage_storeImage P b b' imageKey data hne hlen hash hhash
  refine ⟨stream, file, hstream, hfile, hiff, fun haligned => hiff.2 fun i hi => ?_⟩
  rw [position_eq_readPosition haligned (by rwa [← List.length_flatten])]

/-- Primitives that depend on what they are given: the hash counts the bytes, the keys and the tag repeat
the first byte of their input. -/
def countingPrimitives : Primitives :=
  { Rng := U8
    sha256 := fun bytes => .replicate 32 (BitVec.ofNat 8 bytes.length)
    fromSeed := fun seed => seed.head
    fill := fun x _ => (Vector.ofFn fun i => BitVec.ofNat 64 (x.toNat + i), x + 1)
    hmac := fun key message => .replicate 32 (key.headD 0 + message.headD 0)
    hkdf := fun _ key info _ => Vector.ofFn fun i => key.headD 0 + info.headD 0 + BitVec.ofNat 8 i }

/-- A bitmap in three chunks, each but the last of two blocks. -/
theorem readImage_three_chunks :
    let data := [ascii "BM" ++ .replicate 1022 1, .replicate 1024 2, .replicate 6 3]
    let hash := countingPrimitives.sha256 data.flatten
    ∃ file, storeImage countingPrimitives ⟨false, false⟩ [7] 2054 hash data = some file ∧
      readImage countingPrimitives ⟨true, true⟩ [7] hash file = some data.flatten := by
  intro data hash
  have hlength : data.map List.length = [1024, 1024, 6] := by
    simp only [data, List.map_cons, List.map_nil, List.length_append, List.length_replicate]
    rfl
  have hsize : data.flatten.length = 2054 := by
    rw [List.length_flatten, hlength]
    rfl
  have hshort : ∀ chunk ∈ data, chunk.length ≤ uploadChunkSize := by
    intro chunk hmem
    have hmem' : chunk.length ∈ data.map List.length := List.mem_map_of_mem hmem
    rw [hlength] at hmem'
    simp only [List.mem_cons, List.not_mem_nil, or_false] at hmem'
    rw [uploadChunkSize]
    omega
  obtain ⟨stream, file, _, hfile, _, hread⟩ := readImage_iff countingPrimitives ⟨false, false⟩ ⟨true, true⟩ [7]
    data (List.cons_ne_nil _ _) hshort hash rfl
  rw [hlength] at hread
  exact ⟨file, hsize ▸ hfile, hread (by decide)⟩

/-! ### Two ways to cut one picture -/

/-- The keystream bytes of one block are not those of the next. -/
theorem keystreamByte_blocks_ne (b : Build) (stream : RexStream 8 8) :
    ¬∀ j < 512, keystreamByte b stream (512 + j) = keystreamByte b stream (1024 + j) := by
  intro h
  have hd : Grid.Supported 8 8 := by decide
  have hcell : ∀ p < 64, stream.keystreamCell b 1#64 p = stream.keystreamCell b 2#64 p := by
    intro p hp
    have hbytes : toBeBytes (stream.keystreamCell b 1#64 p) = toBeBytes (stream.keystreamCell b 2#64 p) := by
      refine List.ext_getElem (by simp) fun j hj hj' => ?_
      have hj8 : j < 8 := by simpa using hj
      have hbyte := h (8 * p + j) (by omega)
      unfold keystreamByte at hbyte
      rw [show (512 + (8 * p + j)) / 512 = 1 by omega, show (1024 + (8 * p + j)) / 512 = 2 by omega,
        show (512 + (8 * p + j)) % 512 / 8 = p by omega, show (1024 + (8 * p + j)) % 512 / 8 = p by omega,
        show (512 + (8 * p + j)) % 8 = j by omega, show (1024 + (8 * p + j)) % 8 = j by omega] at hbyte
      rwa [List.getD_eq_getElem _ _ hj, List.getD_eq_getElem _ _ hj'] at hbyte
    rw [← fromBeBytes_toBeBytes (stream.keystreamCell b 1#64 p), hbytes, fromBeBytes_toBeBytes]
  have hflat : (keystream b stream.nonce stream.roundKeys stream.roundShifts 1#64).toFlat =
      (keystream b stream.nonce stream.roundKeys stream.roundShifts 2#64).toFlat := by
    refine List.ext_getElem (by simp) fun p hp hp' => ?_
    have hp64 : p < 64 := by simpa using hp
    have := hcell p hp64
    unfold RexStream.keystreamCell at this
    rwa [List.getD_eq_getElem _ _ hp, List.getD_eq_getElem _ _ hp'] at this
  have hgrid : keystream b stream.nonce stream.roundKeys stream.roundShifts 1#64 =
      keystream b stream.nonce stream.roundKeys stream.roundShifts 2#64 := by
    rw [← Grid.ofFlat_toFlat (keystream b stream.nonce stream.roundKeys stream.roundShifts 1#64), hflat,
      Grid.ofFlat_toFlat]
  exact stream.nonce.increment_ne b hd (by decide) (encryptBlock_injective hd b stream.shifts_derived hgrid)

/-- A bitmap of 1536 bytes. -/
def bitmap : List U8 := ascii "BM" ++ List.replicate 1534 0

/-- The bitmap in two chunks, the first of `k` bytes. -/
def bitmapCut (k : ℕ) : List (List U8) := [bitmap.take k, bitmap.drop k]

/-- The chunks are the bitmap. -/
theorem flatten_bitmapCut (k : ℕ) : (bitmapCut k).flatten = bitmap := by
  rw [bitmapCut, List.flatten_cons, List.flatten_singleton, List.take_append_drop]

/-- The bitmap has 1536 bytes. -/
theorem length_bitmap : bitmap.length = 1536 := by
  rw [bitmap, List.length_append, List.length_replicate]
  rfl

/-- The chunks are not too long. -/
theorem length_le_of_mem_bitmapCut {k : ℕ} {chunk : List U8} (h : chunk ∈ bitmapCut k) :
    chunk.length ≤ uploadChunkSize := by
  have hlen := length_bitmap
  rcases List.mem_pair.1 h with rfl | rfl
  · rw [List.length_take, uploadChunkSize]
    omega
  · rw [List.length_drop, uploadChunkSize]
    omega

/-- If the bitmap reads back from a short first chunk, the keystream repeats. -/
theorem keystream_of_readImage (P : Primitives) (b : Build) (imageKey : List U8) {k : ℕ} (hk : 0 < k)
    (hk' : k ≤ 3) {file : List U8}
    (hfile : storeImage P b imageKey 1536 (P.sha256 bitmap) (bitmapCut k) = some file)
    (hread : readImage P b imageKey (P.sha256 bitmap) file = some bitmap) :
    ∃ stream, diskStream P (imageKeys P imageKey (P.sha256 bitmap)).key
        (imageKeys P imageKey (P.sha256 bitmap)).nonce = .ok stream ∧
      ∀ j, j + k < 1536 → keystreamByte b stream (512 + j) = keystreamByte b stream (k + j) := by
  have hlen := length_bitmap
  obtain ⟨stream, file', hstream, hfile', hiff⟩ := readImage_storeImage P b b imageKey (bitmapCut k)
    (by simp [bitmapCut]) (fun _ => length_le_of_mem_bitmapCut) (P.sha256 bitmap)
    (by rw [flatten_bitmapCut])
  rw [flatten_bitmapCut] at hfile' hiff
  rw [hlen] at hfile' hiff
  obtain rfl := Option.some.inj (hfile.symm.trans hfile')
  refine ⟨stream, hstream, fun j hj => ?_⟩
  have hsame := hiff.1 hread (k + j) (by omega)
  have hfirst : (bitmap.take k).length = k := by rw [List.length_take]; omega
  have hpos : position 512 0 ((bitmapCut k).map List.length) (k + j) = 512 + j := by
    simp only [bitmapCut, List.map_cons, List.map_nil, hfirst, position]
    rw [if_neg (by omega), if_pos (by rw [List.length_drop]; omega)]
    unfold blockCount
    omega
  have hread' : readPosition (k + j) = k + j := by
    have hlt : k + j < uploadChunkSize := by
      unfold uploadChunkSize
      omega
    rw [readPosition, Nat.div_eq_of_lt hlt, Nat.mod_eq_of_lt hlt, Nat.zero_mul, Nat.mul_zero, Nat.zero_add]
  rwa [hpos, hread'] at hsame

/-- **Not every stored file reads back.**  A bitmap of 1536 bytes is sent once with a
first chunk of two bytes and once with one of three.  Both uploads are accepted; if both
read back, the keystream bytes of two blocks would be the same. -/
theorem stored_file_misread :
    ¬∀ (P : Primitives) (b : Build) (imageKey : List U8) (data : List (List U8)) (file : List U8),
      (∀ chunk ∈ data, chunk.length ≤ uploadChunkSize) →
      storeImage P b imageKey data.flatten.length (P.sha256 data.flatten) data = some file →
        readImage P b imageKey (P.sha256 data.flatten) file = some data.flatten := by
  intro h
  have hcut : ∀ k, 0 < k → k ≤ 3 → ∃ stream,
      diskStream default (imageKeys default [] (Primitives.sha256 default bitmap)).key
        (imageKeys default [] (Primitives.sha256 default bitmap)).nonce = .ok stream ∧
      ∀ j, j + k < 1536 → keystreamByte ⟨false, false⟩ stream (512 + j) =
        keystreamByte ⟨false, false⟩ stream (k + j) := by
    intro k hk hk'
    have hshort : ∀ chunk ∈ bitmapCut k, chunk.length ≤ uploadChunkSize :=
      fun _ => length_le_of_mem_bitmapCut
    obtain ⟨_, file, _, hfile, _⟩ := readImage_storeImage default ⟨false, false⟩ ⟨false, false⟩ [] (bitmapCut k)
      (by simp [bitmapCut]) hshort (Primitives.sha256 default bitmap) (by rw [flatten_bitmapCut])
    have hread := h default ⟨false, false⟩ [] (bitmapCut k) file hshort (by rwa [flatten_bitmapCut] at hfile ⊢)
    rw [flatten_bitmapCut] at hfile hread
    rw [length_bitmap] at hfile
    exact keystream_of_readImage default ⟨false, false⟩ [] hk hk' hfile hread
  obtain ⟨stream, hstream, htwo⟩ := hcut 2 (by decide) (by decide)
  obtain ⟨stream', hstream', hthree⟩ := hcut 3 (by decide) (by decide)
  obtain rfl := Except.ok.inj (hstream.symm.trans hstream')
  -- The keystream would be constant from byte 2 on.
  have hstep : ∀ j, j + 3 < 1536 → keystreamByte ⟨false, false⟩ stream (2 + j) =
      keystreamByte ⟨false, false⟩ stream (3 + j) := fun j hj =>
    (htwo j (by omega)).symm.trans (hthree j hj)
  have hconst : ∀ j, j + 2 < 1536 → keystreamByte ⟨false, false⟩ stream (2 + j) =
      keystreamByte ⟨false, false⟩ stream 2 := by
    intro j
    induction j with
    | zero => exact fun _ => rfl
    | succ j ih =>
      intro hj
      rw [show 2 + (j + 1) = 3 + j by omega, ← hstep j (by omega)]
      exact ih (by omega)
  refine keystreamByte_blocks_ne ⟨false, false⟩ stream fun j hj => ?_
  rw [show 512 + j = 2 + (510 + j) by omega, show 1024 + j = 2 + (1022 + j) by omega,
    hconst _ (by omega), hconst _ (by omega)]

end Why2
