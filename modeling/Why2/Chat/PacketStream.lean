/-
# The packet stream of auxiliary sockets

`chat/src/crypto/mod.rs`: `RexPacketStream` frames each packet as a tag and a
ciphertext, the tag over the packet counter, the length and the ciphertext.
Every packet is an `update` and a `finalize` of one `RexStream` that lives on,
so both ends have to spend the same blocks on every packet.

The blocks a packet takes depend on its length alone, and the ciphertext is as
long as the plaintext: `open` on the frame `seal` returned leaves the receiver
in the state `seal` left the sender in (`open_seal`).  The lengths, the bytes of
the last cell and the state of both ends are all in that one equation; the run
theorem at the end only counts packets.
-/

import Why2.Core.StreamRun

namespace Why2

open Lib

/-- `SharedKeys`: the grid key and the HMAC key of a session. -/
abbrev SharedKeys := List I64 × List U8

/-- The bytes of an ASCII label. -/
def ascii (label : String) : List U8 := label.toList.map fun c => BitVec.ofNat 8 c.toNat

/-- `bytes_to_i64`: the last cell is filled up with zeros. -/
def bytesToI64 (bytes : List U8) : List I64 :=
  (chunks 8 bytes).map fun chunk => fromBeBytes (chunk ++ List.replicate (8 - chunk.length) 0)

/-- `i64_to_bytes`. -/
def i64ToBytes (vals : List I64) : List U8 := vals.flatMap toBeBytes

/-- `derive_stream_nonce`. -/
def deriveStreamNonce (P : Primitives) (context : List U8) : List I64 :=
  (chunks 8 (P.hkdf none context (ascii "WHY2-STREAM-NONCE") (8 * 8 * 8)).toList).map fromBeBytes

/-- `derive_stream_mac_key`. -/
def deriveStreamMacKey (P : Primitives) (hmacKey context : List U8) : Vector U8 32 :=
  P.hkdf (some context) hmacKey (ascii "WHY2-STREAM-MAC") 32

/-- `RexPacketStream`, over the default 8 × 8 grid. -/
structure RexPacketStream where
  stream : RexStream 8 8
  macKey : Vector U8 32
  counter : I64

/-- `init_rex_stream`. -/
def initRexStream (P : Primitives) (keys : SharedKeys) (token : Vector U8 32) :
    Option RexPacketStream := do
  let keyGrid ← (Grid.fromKey keys.1).toOption
  let nonceGrid ← (Grid.fromFlat (deriveStreamNonce P token.toList)).toOption
  let stream ← (RexStream.new P keyGrid nonceGrid).toOption
  return { stream, macKey := deriveStreamMacKey P keys.2 token.toList, counter := 0 }

namespace RexPacketStream

/-- What the tag of a packet is computed over. -/
def macMessage (counter : I64) (ciphertext : List U8) : List U8 :=
  toBeBytes counter ++ toBeBytes (BitVec.ofNat 64 ciphertext.length) ++ ciphertext

/-- `RexPacketStream::mac`, finalized. -/
def mac (P : Primitives) (s : RexPacketStream) (ciphertext : List U8) : Vector U8 32 :=
  P.hmac s.macKey.toList (macMessage s.counter ciphertext)

/-- The lines `seal` and `open` share: the bytes as cells through `update` and
`finalize`, back to bytes and cut to the length they had. -/
def crypt (b : Build) (stream : RexStream 8 8) (bytes : List U8) :
    Except Fault (List U8 × RexStream 8 8) := do
  let (cells, stream) ← stream.update b (bytesToI64 bytes)
  let (rest, stream) ← stream.finalize b
  return ((i64ToBytes (cells ++ rest)).take bytes.length, stream)

/-- `RexPacketStream::seal`; an error of the stream is a panic (`expect`).  The
counter wraps as in a release build. -/
def seal' (P : Primitives) (b : Build) (s : RexPacketStream) (plaintext : List U8) :
    Except Fault (List U8 × RexPacketStream) :=
  match crypt b s.stream plaintext with
  | .error _ => .error (.panic "Stream encryption failed")
  | .ok (ciphertext, stream) =>
    .ok ((s.mac P ciphertext).toList ++ ciphertext, { s with stream, counter := s.counter + 1 })

/-- `RexPacketStream::open`: the tag is checked before anything moves.  The last
branch, a failing stream, is left by no 8 × 8 grid. -/
def open' (P : Primitives) (b : Build) (s : RexPacketStream) (data : List U8) :
    Option (List U8) × RexPacketStream :=
  if data.length < 32 then (none, s)
  else
    let tag := data.take 32
    let ciphertext := data.drop 32
    if (s.mac P ciphertext).toList ≠ tag then (none, s)
    else
      let s := { s with counter := s.counter + 1 }
      match crypt b s.stream ciphertext with
      | .ok (plaintext, stream) => (some plaintext, { s with stream })
      | .error _ => (none, s)

end RexPacketStream

/-! ### Bytes and cells -/

/-- Cells are combined byte by byte. -/
theorem toBeBytes_xor (x y : I64) :
    toBeBytes (x ^^^ y) = List.zipWith (· ^^^ ·) (toBeBytes x) (toBeBytes y) := by
  rw [toBeBytes, BitVec.toNat_xor, beBytes_xor]
  rfl

/-- So are many. -/
theorem i64ToBytes_zipWith (xs ys : List I64) :
    i64ToBytes (List.zipWith (· ^^^ ·) xs ys) =
      List.zipWith (· ^^^ ·) (i64ToBytes xs) (i64ToBytes ys) := by
  induction xs generalizing ys with
  | nil => simp [i64ToBytes]
  | cons x xs ih =>
    cases ys with
    | nil => simp [i64ToBytes]
    | cons y ys =>
      have hcons : ∀ (x : I64) (xs : List I64), i64ToBytes (x :: xs) = toBeBytes x ++ i64ToBytes xs :=
        fun _ _ => rfl
      rw [List.zipWith_cons_cons, hcons, hcons, hcons, toBeBytes_xor, ih,
        List.zipWith_append (by simp)]

/-- Bytes take as many cells as they fill, the last one in part. -/
theorem length_bytesToI64 (bytes : List U8) : (bytesToI64 bytes).length = (bytes.length + 7) / 8 := by
  rw [bytesToI64, List.length_map, length_chunks, Nat.add_sub_assoc (by decide)]

/-- Cells have eight bytes each. -/
@[simp]
theorem length_i64ToBytes (vals : List I64) : (i64ToBytes vals).length = vals.length * 8 := by
  rw [i64ToBytes, length_flatMap_toBeBytes]

/-- **Cells keep the bytes**, followed by the zeros of the last cell. -/
theorem i64ToBytes_bytesToI64 (bytes : List U8) :
    ∃ k, i64ToBytes (bytesToI64 bytes) = bytes ++ List.replicate k 0 := by
  have h8 : 0 < 8 := by decide
  induction bytes using chunks_induction h8 with
  | nil => exact ⟨0, by simp [bytesToI64, i64ToBytes]⟩
  | block l hl ih =>
    obtain ⟨k, hk⟩ := ih
    have hcons : i64ToBytes (bytesToI64 l) =
        l.take 8 ++ List.replicate (8 - (l.take 8).length) 0 ++ i64ToBytes (bytesToI64 (l.drop 8)) := by
      rw [bytesToI64, chunks_cons h8 hl, List.map_cons, i64ToBytes, List.flatMap_cons,
        toBeBytes_fromBeBytes (by simp)]
      rfl
    rcases Nat.lt_or_ge l.length 8 with hlt | hge
    · refine ⟨8 - l.length, ?_⟩
      rw [hcons, List.drop_of_length_le hlt.le, List.take_of_length_le hlt.le]
      simp [bytesToI64, i64ToBytes]
    · refine ⟨k, ?_⟩
      have hlen : (l.take 8).length = 8 := by rw [List.length_take]; omega
      rw [hcons, hk, hlen, Nat.sub_self, List.replicate_zero, List.append_nil, ← List.append_assoc,
        List.take_append_drop]

namespace RexPacketStream

/-! ### One packet -/

/-- The keystream bytes of a packet of `n` bytes. -/
def keystreamBytes (b : Build) (stream : RexStream 8 8) (n : ℕ) : List U8 :=
  i64ToBytes (stream.ctr b stream.blockCounter (List.replicate ((n + 7) / 8) 0))

/-- **A packet is XORed with its keystream bytes**, and the stream moves on by an
amount that depends on the packet's length alone. -/
theorem crypt_eq (b : Build) {stream : RexStream 8 8} (hbuf : stream.buffer = []) (bytes : List U8) :
    crypt b stream bytes = .ok
      (List.zipWith (· ^^^ ·) bytes (keystreamBytes b stream bytes.length),
        stream.advance ((bytes.length + 7) / 8)) := by
  obtain ⟨out₁, s', out₂, hupdate, hfinalize, hout⟩ :=
    stream.update_finalize_eq b (by decide) hbuf (bytesToI64 bytes)
  obtain ⟨k, hk⟩ := i64ToBytes_bytesToI64 bytes
  have hlen := length_bytesToI64 bytes
  have hcells : i64ToBytes (out₁ ++ out₂) =
      List.zipWith (· ^^^ ·) (bytes ++ List.replicate k 0) (keystreamBytes b stream bytes.length) := by
    rw [hout, RexStream.ctr, ctrXor_eq_zipWith _ _ (Nat.le_refl _), hlen, i64ToBytes_zipWith, hk,
      List.take_of_length_le (by simp)]
    rfl
  have hcut : (i64ToBytes (out₁ ++ out₂)).take bytes.length =
      List.zipWith (· ^^^ ·) bytes (keystreamBytes b stream bytes.length) := by
    rw [hcells, List.take_zipWith, List.take_left]
    refine List.ext_getElem (by simp) fun i _ _ => ?_
    simp only [List.getElem_zipWith, List.getElem_take]
  simp only [crypt, hupdate, hfinalize, bind, Except.bind, pure, Except.pure, hcut, hlen]

/-- There is enough keystream. -/
theorem length_keystreamBytes (b : Build) (stream : RexStream 8 8) (n : ℕ) :
    n ≤ (keystreamBytes b stream n).length := by
  rw [keystreamBytes, length_i64ToBytes, RexStream.ctr, length_ctrXor, List.length_replicate]
  omega

/-- The keystream bytes are the same on every build. -/
theorem keystreamBytes_build (b b' : Build) (stream : RexStream 8 8) (n : ℕ) :
    keystreamBytes b stream n = keystreamBytes b' stream n := by
  rw [keystreamBytes, RexStream.ctr_congr b b' (by decide) rfl rfl]
  rfl

/-- The plaintext under the keystream. -/
def ciphertextOf (b : Build) (s : RexPacketStream) (plaintext : List U8) : List U8 :=
  List.zipWith (· ^^^ ·) plaintext (keystreamBytes b s.stream plaintext.length)

/-- The frame of a packet. -/
def frameOf (P : Primitives) (b : Build) (s : RexPacketStream) (plaintext : List U8) : List U8 :=
  (s.mac P (ciphertextOf b s plaintext)).toList ++ ciphertextOf b s plaintext

/-- The stream past a packet. -/
def next (s : RexPacketStream) (packet : List U8) : RexPacketStream :=
  { s with
    stream := s.stream.advance ((packet.length + 7) / 8)
    counter := s.counter + 1 }

/-- A ciphertext is as long as its plaintext. -/
theorem length_ciphertextOf (b : Build) (s : RexPacketStream) (plaintext : List U8) :
    (ciphertextOf b s plaintext).length = plaintext.length := by
  rw [ciphertextOf, List.length_zipWith, Nat.min_eq_left (length_keystreamBytes b s.stream _)]

/-- **The same keystream twice is none.** -/
theorem ciphertextOf_ciphertextOf (b b' : Build) (s : RexPacketStream) (plaintext : List U8) :
    ciphertextOf b' s (ciphertextOf b s plaintext) = plaintext := by
  have hlen := length_ciphertextOf b s plaintext
  refine List.ext_getElem (by rw [length_ciphertextOf, hlen]) fun i _ _ => ?_
  unfold ciphertextOf at hlen ⊢
  simp only [hlen, keystreamBytes_build b' b, List.getElem_zipWith]
  rw [BitVec.xor_assoc, BitVec.xor_self, BitVec.xor_zero]

/-- What `seal` returns. -/
theorem seal_eq (P : Primitives) (b : Build) {s : RexPacketStream} (hbuf : s.stream.buffer = [])
    (plaintext : List U8) : s.seal' P b plaintext = .ok (s.frameOf P b plaintext, s.next plaintext) := by
  simp only [seal', crypt_eq b hbuf]
  rfl

/-- **The genuine frame opens.**  On the frame `seal` returned, `open` returns the
plaintext and leaves the receiver in the very state `seal` left the sender in. -/
theorem open_seal (P : Primitives) (b b' : Build) {s : RexPacketStream}
    (hbuf : s.stream.buffer = []) (plaintext : List U8) :
    s.open' P b' (s.frameOf P b plaintext) = (some plaintext, s.next plaintext) := by
  have hback := ciphertextOf_ciphertextOf b b' s plaintext
  have hct := length_ciphertextOf b s plaintext
  unfold frameOf
  generalize ciphertextOf b s plaintext = ciphertext at hback hct
  have hlen : ¬((s.mac P ciphertext).toList ++ ciphertext).length < 32 := by
    rw [List.length_append, Vector.length_toList]
    omega
  have htake : ((s.mac P ciphertext).toList ++ ciphertext).take 32 = (s.mac P ciphertext).toList :=
    List.take_left' (by simp)
  have hdrop : ((s.mac P ciphertext).toList ++ ciphertext).drop 32 = ciphertext :=
    List.drop_left' (by simp)
  simp only [open', if_neg hlen, htake, hdrop, ne_eq, not_true_eq_false, if_false, crypt_eq b' hbuf]
  exact Prod.ext (congrArg some hback) (by rw [next, ← hct])

/-! ### Anything else is rejected -/

/-- The MAC's message determines the counter and the ciphertext. -/
theorem macMessage_inj {c c' : I64} {ct ct' : List U8} (h : macMessage c ct = macMessage c' ct') :
    c = c' ∧ ct = ct' := by
  unfold macMessage at h
  rw [List.append_assoc, List.append_assoc] at h
  obtain ⟨hc, hrest⟩ := List.append_inj h (by simp)
  obtain ⟨_, hct⟩ := List.append_inj hrest (by simp)
  refine ⟨?_, hct⟩
  rw [← fromBeBytes_toBeBytes c, hc, fromBeBytes_toBeBytes]

/-- The tag of `data` verifies at the stream's counter. -/
def Verifies (P : Primitives) (s : RexPacketStream) (data : List U8) : Prop :=
  32 ≤ data.length ∧ data.take 32 = (s.mac P (data.drop 32)).toList

/-- Data that does not verify changes nothing. -/
theorem open_of_not_verifies (P : Primitives) (b : Build) {s : RexPacketStream} {data : List U8}
    (h : ¬s.Verifies P data) : s.open' P b data = (none, s) := by
  unfold open'
  split_ifs with hlen
  · rfl
  · have htag : (s.mac P (data.drop 32)).toList ≠ data.take 32 := fun htag => h ⟨by omega, htag.symm⟩
    simp only [if_pos htag]

/-! ### Sealing and opening in order -/

/-- The plaintexts sealed one after the other. -/
def sealAll (P : Primitives) (b : Build) : RexPacketStream → List (List U8) →
    Except Fault (List (List U8) × RexPacketStream)
  | s, [] => pure ([], s)
  | s, plaintext :: plaintexts => do
    let (frame, s) ← s.seal' P b plaintext
    let (frames, s) ← s.sealAll P b plaintexts
    return (frame :: frames, s)

/-- The frames opened one after the other. -/
def openAll (P : Primitives) (b : Build) : RexPacketStream → List (List U8) →
    List (Option (List U8)) × RexPacketStream
  | s, [] => ([], s)
  | s, data :: rest =>
    let (out, s) := s.open' P b data
    let (outs, s) := s.openAll P b rest
    (out :: outs, s)

/-- In order, every plaintext comes back and the two ends stay equal. -/
theorem openAll_sealAll (P : Primitives) (b b' : Build) (plaintexts : List (List U8))
    (s : RexPacketStream) (hbuf : s.stream.buffer = []) :
    ∃ frames s', s.sealAll P b plaintexts = .ok (frames, s') ∧
      s.openAll P b' frames = (plaintexts.map some, s') := by
  induction plaintexts generalizing s with
  | nil => exact ⟨[], s, rfl, rfl⟩
  | cons plaintext plaintexts ih =>
    obtain ⟨frames, s', hseals, hopens⟩ := ih (s.next plaintext) rfl
    refine ⟨s.frameOf P b plaintext :: frames, s', ?_, ?_⟩
    · simp only [sealAll, seal_eq P b hbuf, hseals, bind, Except.bind, pure, Except.pure]
    · simp only [openAll, open_seal P b b' hbuf, hopens, List.map_cons]

end RexPacketStream

/-! ### A channel with an adversary in the middle -/

/-- A sealed packet, with the counter it was sealed at. -/
structure SealedFrame where
  counter : I64
  plaintext : List U8
  frame : List U8
deriving DecidableEq

/-- Two ends of one packet stream, what the sender has sealed and what the
receiver's `open` has returned, both in order. -/
structure Channel where
  sender : RexPacketStream
  receiver : RexPacketStream
  sealedFrames : List SealedFrame
  opened : List (List U8)

/-- The sender seals a packet, or some bytes reach the receiver. -/
inductive ChannelEvent
  | send (plaintext : List U8)
  | deliver (data : List U8)
deriving DecidableEq

namespace Channel

/-- A fresh channel: both ends hold the same stream. -/
def start (s : RexPacketStream) : Channel := ⟨s, s, [], []⟩

/-- One event. -/
def step (P : Primitives) (b b' : Build) (c : Channel) : ChannelEvent → Except Fault Channel
  | .send plaintext => do
    let (frame, sender) ← c.sender.seal' P b plaintext
    return { c with sender, sealedFrames := c.sealedFrames ++ [⟨c.sender.counter, plaintext, frame⟩] }
  | .deliver data =>
    let (out, receiver) := c.receiver.open' P b' data
    return { c with receiver, opened := c.opened ++ out.toList }

/-- The data is the frame whose turn it is. -/
def Genuine (c : Channel) (data : List U8) : Prop :=
  ∃ f, c.sealedFrames[c.opened.length]? = some f ∧ f.frame = data

/-- The data is no frame the peer sealed at the receiver's current counter. -/
def Foreign (c : Channel) (data : List U8) : Prop :=
  ∀ f ∈ c.sealedFrames, f.counter = c.receiver.counter → f.frame ≠ data

/-- HMAC is not forged: a tag that verifies is on a message the peer computed a
tag for. -/
def Unforged (P : Primitives) (c : Channel) (data : List U8) : Prop :=
  c.receiver.Verifies P data → ∃ f ∈ c.sealedFrames,
    RexPacketStream.macMessage f.counter (f.frame.drop 32) =
      RexPacketStream.macMessage c.receiver.counter (data.drop 32)

/-- The states of a channel in which the peer seals what it likes and the
receiver is given the frame whose turn it is, or anything that is not a frame of
the current counter, without forgery. -/
inductive Reachable (P : Primitives) (b b' : Build) (s : RexPacketStream) : Channel → Prop
  | start : Reachable P b b' s (start s)
  | send {c c' : Channel} {plaintext : List U8} (hc : Reachable P b b' s c)
      (hstep : c.step P b b' (.send plaintext) = .ok c') : Reachable P b b' s c'
  | deliver {c c' : Channel} {data : List U8} (hc : Reachable P b b' s c)
      (hdata : c.Genuine data ∨ c.Foreign data) (hforge : c.Unforged P data)
      (hstep : c.step P b b' (.deliver data) = .ok c') : Reachable P b b' s c'

/-! ### The two ends stay aligned -/

/-- The stream past the given packets. -/
def after (s : RexPacketStream) (packets : List (List U8)) : RexPacketStream :=
  packets.foldl RexPacketStream.next s

/-- The stream after one more packet. -/
theorem after_concat (s : RexPacketStream) (packets : List (List U8)) (packet : List U8) :
    after s (packets ++ [packet]) = (after s packets).next packet := by
  simp [after]

/-- The stream after packets has counted them, with nothing left over. -/
theorem after_fields {s : RexPacketStream} (hbuf : s.stream.buffer = []) (packets : List (List U8)) :
    (after s packets).stream.buffer = [] ∧ (after s packets).macKey = s.macKey ∧
      (after s packets).counter = s.counter + BitVec.ofNat 64 packets.length := by
  induction packets using List.reverseRecOn with
  | nil => exact ⟨hbuf, rfl, (BitVec.add_zero _).symm⟩
  | append_singleton packets packet ih =>
    obtain ⟨_, hkey, hcounter⟩ := ih
    rw [after_concat]
    refine ⟨rfl, hkey, ?_⟩
    rw [RexPacketStream.next, hcounter, List.length_append, List.length_singleton, BitVec.ofNat_add,
      BitVec.add_assoc]
    rfl

/-- Both ends are where the packets they have processed take the stream, the
receiver has processed the first of those the sender has, and every frame is the
one of its turn. -/
structure Inv (P : Primitives) (b : Build) (s : RexPacketStream) (c : Channel) : Prop where
  sender_eq : c.sender = after s (c.sealedFrames.map SealedFrame.plaintext)
  receiver_eq : c.receiver = after s c.opened
  opened_eq : c.opened = (c.sealedFrames.take c.opened.length).map SealedFrame.plaintext
  frame_eq : ∀ i f, c.sealedFrames[i]? = some f →
    f.counter = s.counter + BitVec.ofNat 64 i ∧
      f.frame = (after s ((c.sealedFrames.take i).map SealedFrame.plaintext)).frameOf P b f.plaintext

variable {P : Primitives} {b b' : Build} {s : RexPacketStream} {c c' : Channel}

/-- A frame is the tag of its message and the ciphertext. -/
theorem Inv.frame_tag (hbuf : s.stream.buffer = []) (hinv : c.Inv P b s) {f : SealedFrame}
    (hf : f ∈ c.sealedFrames) :
    f.frame = (P.hmac s.macKey.toList (RexPacketStream.macMessage f.counter (f.frame.drop 32))).toList ++
      f.frame.drop 32 := by
  obtain ⟨i, hi⟩ := List.getElem?_of_mem hf
  obtain ⟨hcounter, hframe⟩ := hinv.frame_eq i f hi
  have hlt : i < c.sealedFrames.length := (List.getElem?_eq_some_iff.1 hi).1
  obtain ⟨_, hkey, hafter⟩ := after_fields hbuf ((c.sealedFrames.take i).map SealedFrame.plaintext)
  rw [List.length_map, List.length_take, Nat.min_eq_left hlt.le, ← hcounter] at hafter
  rw [hframe, RexPacketStream.frameOf, List.drop_left' (by simp), RexPacketStream.mac, hkey, hafter]

/-- **Foreign data is rejected without a trace.** -/
theorem Inv.open_foreign (hbuf : s.stream.buffer = []) (hinv : c.Inv P b s) {data : List U8}
    (hforge : c.Unforged P data) (hdata : c.Foreign data) :
    c.receiver.open' P b' data = (none, c.receiver) := by
  refine RexPacketStream.open_of_not_verifies P b' fun hverifies => ?_
  obtain ⟨f, hf, hmessage⟩ := hforge hverifies
  obtain ⟨hcounter, hct⟩ := RexPacketStream.macMessage_inj hmessage
  have hkey : c.receiver.macKey = s.macKey := by
    rw [hinv.receiver_eq]
    exact (after_fields hbuf _).2.1
  -- The tag is a function of the message, so the frame with that message is the data.
  refine hdata f hf hcounter ?_
  rw [hinv.frame_tag hbuf hf, hcounter, hct, ← hkey]
  conv_rhs => rw [← List.take_append_drop 32 data, hverifies.2]
  rfl

/-- The frame whose turn it is opens. -/
theorem Inv.open_genuine (hbuf : s.stream.buffer = []) (hinv : c.Inv P b s) {f : SealedFrame}
    (hf : c.sealedFrames[c.opened.length]? = some f) :
    f.counter = c.receiver.counter ∧
      c.receiver.open' P b' f.frame = (some f.plaintext, c.receiver.next f.plaintext) := by
  obtain ⟨hcounter, hframe⟩ := hinv.frame_eq _ f hf
  rw [← hinv.opened_eq, ← hinv.receiver_eq] at hframe
  have hfields := after_fields hbuf c.opened
  rw [← hinv.receiver_eq] at hfields
  refine ⟨hcounter.trans hfields.2.2.symm, ?_⟩
  rw [hframe, RexPacketStream.open_seal P b b' hfields.1]

/-- A packet that is sent is the next one. -/
theorem Inv.send (hbuf : s.stream.buffer = []) (hinv : c.Inv P b s) {plaintext : List U8}
    (hstep : c.step P b b' (.send plaintext) = .ok c') : c'.Inv P b s := by
  obtain ⟨hsender, hreceiver, hopened, hframe⟩ := hinv
  obtain ⟨hsbuf, _, hscounter⟩ := after_fields hbuf (c.sealedFrames.map SealedFrame.plaintext)
  rw [← hsender] at hsbuf hscounter
  simp only [step, RexPacketStream.seal_eq P b hsbuf, bind, Except.bind, pure, Except.pure] at hstep
  obtain rfl := Except.ok.inj hstep
  have hle : c.opened.length ≤ c.sealedFrames.length := by
    rw [hopened, List.length_map]
    exact List.length_take_le' _ _
  refine ⟨?_, hreceiver, ?_, fun i f hf => ?_⟩
  · rw [List.map_append, List.map_singleton, after_concat, ← hsender]
  · rwa [List.take_append_of_le_length hle]
  · rcases Nat.lt_or_ge i c.sealedFrames.length with hi | hi
    · rw [List.getElem?_append_left hi] at hf
      rw [List.take_append_of_le_length hi.le]
      exact hframe i f hf
    · -- The new frame, sealed at the sender's counter.
      rw [List.getElem?_append_right hi] at hf
      have hi0 : i - c.sealedFrames.length = 0 := by
        have := (List.getElem?_eq_some_iff.1 hf).1
        rw [List.length_singleton] at this
        omega
      obtain rfl : i = c.sealedFrames.length := by omega
      rw [hi0, List.getElem?_cons_zero] at hf
      obtain rfl := Option.some.inj hf
      refine ⟨?_, ?_⟩
      · rw [hscounter, List.length_map]
      · rw [List.take_left, ← hsender]

/-- **A packet that verifies is the next one that was sent.** -/
theorem Inv.deliver (hbuf : s.stream.buffer = []) (hinv : c.Inv P b s) {data : List U8}
    (hdata : c.Genuine data ∨ c.Foreign data) (hforge : c.Unforged P data)
    (hstep : c.step P b b' (.deliver data) = .ok c') : c'.Inv P b s := by
  rcases hdata with ⟨f, hf, rfl⟩ | hforeign
  · simp only [step, (hinv.open_genuine hbuf hf).2, pure, Except.pure] at hstep
    obtain rfl := Except.ok.inj hstep
    obtain ⟨hsender, hreceiver, hopened, hframe⟩ := hinv
    refine ⟨hsender, ?_, ?_, hframe⟩
    · rw [Option.toList_some, after_concat, ← hreceiver]
    · rw [Option.toList_some, List.length_append, List.length_singleton, List.take_add_one, hf,
        List.map_append, ← hopened]
      rfl
  · simp only [step, hinv.open_foreign hbuf hforge hforeign, pure, Except.pure, Option.toList_none,
      List.append_nil] at hstep
    obtain rfl := Except.ok.inj hstep
    exact hinv

/-- The invariant holds in every state of every run. -/
theorem Reachable.inv (hbuf : s.stream.buffer = []) (hc : Reachable P b b' s c) : c.Inv P b s := by
  induction hc with
  | start => exact ⟨rfl, rfl, rfl, by simp [Channel.start]⟩
  | send _ hstep ih => exact ih.send hbuf hstep
  | deliver _ hdata hforge hstep ih => exact ih.deliver hbuf hdata hforge hstep

/-- While the counter has not come around, all data is genuine or foreign. -/
theorem Inv.genuine_or_foreign (hbuf : s.stream.buffer = []) (hinv : c.Inv P b s)
    (hlen : c.sealedFrames.length < 2 ^ 64) (data : List U8) : c.Genuine data ∨ c.Foreign data := by
  by_cases hdata : c.Foreign data
  · exact .inr hdata
  obtain ⟨f, hf, hcounter, hframe⟩ : ∃ f ∈ c.sealedFrames, f.counter = c.receiver.counter ∧
      f.frame = data := by
    by_contra hno
    exact hdata fun f hf hcounter hframe => hno ⟨f, hf, hcounter, hframe⟩
  obtain ⟨i, hi⟩ := List.getElem?_of_mem hf
  have hlt : i < c.sealedFrames.length := (List.getElem?_eq_some_iff.1 hi).1
  have hle : c.opened.length ≤ c.sealedFrames.length := by
    rw [hinv.opened_eq, List.length_map]
    exact List.length_take_le' _ _
  rw [(hinv.frame_eq i f hi).1, hinv.receiver_eq, (after_fields hbuf c.opened).2.2,
    BitVec.add_right_inj] at hcounter
  have hmod := congrArg BitVec.toNat hcounter
  rw [BitVec.toNat_ofNat, BitVec.toNat_ofNat, Nat.mod_eq_of_lt (by omega), Nat.mod_eq_of_lt (by omega)]
    at hmod
  exact .inl ⟨f, hmod ▸ hi, hframe⟩

end Channel

/-- A stream that could be made has the schedule of its key, nothing buffered,
and counts from zero. -/
theorem initRexStream_start {P : Primitives} {keys : SharedKeys} {token : Vector U8 32}
    {s : RexPacketStream} (h : initRexStream P keys token = some s) :
    s.stream.buffer = [] ∧ s.counter = 0 := by
  simp only [initRexStream, Option.bind_eq_bind, Option.bind_eq_some_iff] at h
  obtain ⟨keyGrid, _, nonceGrid, _, stream, hstream, h⟩ := h
  obtain rfl := Option.some.inj h
  obtain ⟨stream', hstream', _, _, _, hbuffer⟩ := RexStream.new_ok (by decide) P keyGrid nonceGrid
  rw [hstream'] at hstream
  obtain rfl := Option.some.inj hstream
  exact ⟨hbuffer, rfl⟩

/-- Keys of the grid's size make a stream. -/
theorem initRexStream_ok (P : Primitives) {keys : SharedKeys} (hkeys : keys.1.length = 128)
    (token : Vector U8 32) : ∃ s, initRexStream P keys token = some s := by
  have hd : Grid.Supported 8 8 := by decide
  obtain ⟨stream, hstream, _⟩ := RexStream.new_ok hd P
    (.build fun j i => Grid.keyCell (keys.1.getD (j * 8 + i) 0) (keys.1.getD (j * 8 + i + 8 * 8) 0) (j * 8 + i))
    (.ofFlat (deriveStreamNonce P token.toList))
  refine ⟨⟨stream, deriveStreamMacKey P keys.2 token.toList, 0⟩, ?_⟩
  simp only [initRexStream, Grid.fromKey_eq hd hkeys, Grid.fromFlat_eq hd, Except.toOption,
    Option.bind_eq_bind, Option.bind_some, hstream]
  rfl

/-- **The packet stream is a lossless, in-order, state-safe channel.**  Two ends
made from the same keys and token, on any builds: frames opened in the order they
were sealed give back every plaintext.  And in every state of every run, what has
been opened is what was sealed, in order; data other than a frame sealed at the
receiver's current counter is rejected and leaves the receiver as it was; the
frame whose turn it is opens.  Fewer than `2^64` packets leave no third kind of
data. -/
theorem packet_stream_state_safe (P : Primitives) (b b' : Build) (keys : SharedKeys)
    (token : Vector U8 32) {s : RexPacketStream} (hs : initRexStream P keys token = some s) :
    (∀ plaintexts : List (List U8), ∃ frames s', s.sealAll P b plaintexts = .ok (frames, s') ∧
      s.openAll P b' frames = (plaintexts.map some, s')) ∧
    ∀ c, Channel.Reachable P b b' s c →
      c.opened = (c.sealedFrames.take c.opened.length).map SealedFrame.plaintext ∧
      (∀ data, c.Unforged P data → c.Foreign data →
        c.receiver.open' P b' data = (none, c.receiver)) ∧
      (∀ f, c.sealedFrames[c.opened.length]? = some f → f.counter = c.receiver.counter ∧
        ∃ r, c.receiver.open' P b' f.frame = (some f.plaintext, r)) ∧
      (c.sealedFrames.length < 2 ^ 64 → ∀ data, c.Genuine data ∨ c.Foreign data) := by
  have hbuf := (initRexStream_start hs).1
  refine ⟨fun plaintexts => s.openAll_sealAll P b b' plaintexts hbuf, fun c hc => ?_⟩
  have hinv := hc.inv hbuf
  refine ⟨hinv.opened_eq, fun data hforge hforeign => hinv.open_foreign hbuf hforge hforeign,
    fun f hf => ?_, hinv.genuine_or_foreign hbuf⟩
  obtain ⟨hcounter, hopen⟩ := hinv.open_genuine hbuf hf
  exact ⟨hcounter, _, hopen⟩

/-- Primitives whose tag is the beginning of the message, which tells messages of
up to 32 bytes apart. -/
def echoTag : Primitives :=
  { (default : Primitives) with hmac := fun _ message => Vector.ofFn fun i => message.getD i 0 }

/-- The theorem at a replay: a packet of three bytes is sealed and opened, and its
frame is rejected the second time. -/
theorem packet_stream_state_safe_replay :
    ∃ s c f, initRexStream echoTag (List.replicate 128 0, []) (.replicate 32 0) = some s ∧
      Channel.Reachable echoTag ⟨true, true⟩ ⟨false, false⟩ s c ∧ c.opened = [[1, 2, 3]] ∧
      c.sealedFrames = [f] ∧
      c.receiver.open' echoTag ⟨false, false⟩ f.frame = (none, c.receiver) := by
  obtain ⟨s, hs⟩ := initRexStream_ok echoTag
    (show ((List.replicate 128 0, []) : SharedKeys).1.length = 128 from rfl) (.replicate 32 0)
  obtain ⟨hbuf, hcounter⟩ := initRexStream_start hs
  have hsafe := packet_stream_state_safe echoTag ⟨true, true⟩ ⟨false, false⟩ _ _ hs
  have hsend : Channel.Reachable echoTag ⟨true, true⟩ ⟨false, false⟩ s
      ⟨s.next [1, 2, 3], s, [⟨s.counter, [1, 2, 3], s.frameOf echoTag ⟨true, true⟩ [1, 2, 3]⟩], []⟩ :=
    .send .start (by
      simp only [Channel.step, Channel.start, RexPacketStream.seal_eq echoTag _ hbuf, bind, Except.bind]
      rfl)
  have hdeliver : Channel.Reachable echoTag ⟨true, true⟩ ⟨false, false⟩ s
      ⟨s.next [1, 2, 3], s.next [1, 2, 3],
        [⟨s.counter, [1, 2, 3], s.frameOf echoTag ⟨true, true⟩ [1, 2, 3]⟩], [[1, 2, 3]]⟩ := by
    refine .deliver hsend (.inl ⟨_, rfl, rfl⟩) (fun _ => ⟨_, List.mem_singleton_self _, rfl⟩) ?_
    simp only [Channel.step, RexPacketStream.open_seal echoTag _ _ hbuf]
    rfl
  refine ⟨s, _, _, hs, hdeliver, rfl, rfl, ((hsafe.2 _ hdeliver).2.1 _ (fun hverifies => ?_) ?_)⟩
  · -- The tag starts with the counter it was made at, 0 and not 1.
    have htag := congrArg (·.getD 7 0) hverifies.2
    have hfirst : ∀ (t : RexPacketStream) (ct : List U8),
        (t.mac echoTag ct).toList.getD 7 0 = (toBeBytes t.counter).getD 7 0 := by
      intro t ct
      rw [RexPacketStream.mac, RexPacketStream.macMessage, List.append_assoc, echoTag]
      rw [List.getD_eq_getElem _ _ (by simp), Vector.getElem_toList, Vector.getElem_ofFn,
        List.getD_append _ _ _ _ (by simp)]
    dsimp only at htag
    rw [RexPacketStream.frameOf, List.take_left' (by simp), hfirst, hfirst, RexPacketStream.next,
      hcounter] at htag
    exact absurd (show (toBeBytes 0).getD 7 0 = (toBeBytes (0 + 1)).getD 7 0 from htag) (by decide)
  · intro f hf hcounter'
    obtain rfl := List.mem_singleton.1 hf
    rw [RexPacketStream.next, hcounter] at hcounter'
    exact absurd (show (0 : I64) = 0 + 1 from hcounter') (by decide)

end Why2
