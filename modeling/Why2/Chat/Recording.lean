/-
# Recording voice messages

The recorder of voice messages (`chat/src/network/voice/client/message.rs`) and the key
that starts and ends a recording (`chat/src/bin/client/tui/voice_message.rs`).  The
audio comes from the capture of a running call, or from a capture that a task opens
while the recording already runs.  Frames are encoded as they come in.  The end of a
recording takes two steps, the capture first and then the recording, and the tasks go
on between them.

Over any run, what is recorded is shown, and a capture that is open belongs to the
recording, unless it was opened between the two steps of an end (`recorded_openly`,
`capture_left_open`).  A clip that is sent is the audio of its recording in order, all of
it unless a limit was hit (`clip_contents`), and it passes the checks of the server, but
for the limit on the size, which the marker and the header of the clip are not counted
for (`clips_accepted`).

The resampling of captured audio is left out: `feed` is given the samples that it pushes.
The encoder and the serialisation of a clip are parameters.
-/

import Why2.Chat.Uploads
import Why2.Lib.Bytes
import Why2.Lib.Chunks
import Why2.Lib.Counted
import Why2.Lib.Runs
import Mathlib.Algebra.BigOperators.Group.List.Basic
import Mathlib.Algebra.GroupWithZero.Nat

namespace Why2

open Lib

/-! ### The format of a clip -/

/-- `wincode`, for a clip. -/
structure Wincode where
  serialize : Clip → List U8
  deserialize : List U8 → Option Clip

/-- A clip is a byte and its packets behind their number, with every packet behind its
length: eight bytes for each number.  Within the limits of a clip it is read back. -/
structure Wincode.Contract (W : Wincode) : Prop where
  roundTrip : ∀ clip : Clip, clip.frames.length ≤ messageMaxFrames →
    (∀ frame ∈ clip.frames, frame.length ≤ messageMaxPacket) → W.deserialize (W.serialize clip) = some clip
  length : ∀ clip : Clip, (W.serialize clip).length = 1 + (8 + (clip.frames.map fun frame => frame.length + 8).sum)

/-- `Clip::encode`. -/
def Clip.encode (W : Wincode) (clip : Clip) : List U8 := clipMagic ++ W.serialize clip

/-- **A clip within the limits is read back**, and it begins like one. -/
theorem Clip.decode_encode {W : Wincode} (hW : W.Contract) {clip : Clip}
    (hchannels : clip.channels = 1 ∨ clip.channels = 2)
    (hframes : clip.frames ≠ [] ∧ clip.frames.length ≤ messageMaxFrames)
    (hvalid : ∀ frame ∈ clip.frames, frame ≠ [] ∧ frame.length ≤ messageMaxPacket) :
    Clip.decode W.deserialize (clip.encode W) = some clip := by
  have hmagic : clipMagic.isPrefixOf (clip.encode W) = true := List.isPrefixOf_iff_prefix.2 (List.prefix_append _ _)
  have hread := hW.roundTrip clip hframes.2 fun frame hframe => (hvalid frame hframe).2
  have hrest : (clip.encode W).drop clipMagic.length = W.serialize clip := List.drop_left
  simp only [Clip.decode, hmagic, if_true, hrest, Option.bind_eq_bind, Option.bind_some, hread]
  exact if_pos ⟨hchannels, hframes.1, hframes.2, hvalid⟩

/-- The magic number is in the first eight bytes. -/
theorem isClip_take_encode (W : Wincode) (clip : Clip) {n : ℕ} (hn : 8 ≤ n) :
    isClip ((clip.encode W).take n) = true := by
  have hlong : clipMagic.length ≤ n := hn
  exact List.isPrefixOf_iff_prefix.2
    ((List.prefix_take_iff).2 ⟨List.prefix_append _ _, hlong⟩)

/-- The length of a clip, out of the lengths of its packets. -/
theorem length_encode {W : Wincode} (hW : W.Contract) (clip : Clip) :
    (clip.encode W).length = 17 + (clip.frames.map fun frame => frame.length + 8).sum := by
  have hmagic : clipMagic.length = 8 := by decide
  rw [Clip.encode, List.length_append, hmagic, hW.length]
  omega

namespace VoiceMessage

/-! ### The recorder -/

/-- `MESSAGE_CHANNELS`. -/
def messageChannels : U8 := 2

/-- `MESSAGE_MIN_FRAMES`. -/
def messageMinFrames : ℕ := 15

/-- `FRAME_MS`. -/
def frameMs : ℕ := 20

/-- The samples of a frame, for both channels: `FRAME_SIZE * 2`. -/
def frameSamples : ℕ := 1920

/-- The encoder of a recording. -/
structure Encoder (σ : Type) where
  State : Type
  /-- `stereo`. -/
  stereo : Option State
  /-- `encode_float`, into a buffer of `MESSAGE_MAX_PACKET` bytes. -/
  encodeFloat : State → List σ → Option (List U8) × State

/-- A packet has a byte at least, and it fits its buffer. -/
structure Encoder.Contract {σ : Type} (E : Encoder σ) : Prop where
  packet : ∀ state frame packet state', E.encodeFloat state frame = (some packet, state') →
    packet ≠ [] ∧ packet.length ≤ messageMaxPacket

variable {σ : Type} {E : Encoder σ}

namespace Encoder

/-- The packets of some frames, and the state after them. -/
def encodeAll (E : Encoder σ) : E.State → List (List σ) → List (List U8) × E.State
  | state, [] => ([], state)
  | state, frame :: frames =>
    let (packet, state) := E.encodeFloat state frame
    let (packets, state) := E.encodeAll state frames
    (packet.toList ++ packets, state)

end Encoder

/-- `resize`. -/
def resize [Zero σ] (n : ℕ) (samples : List σ) : List σ :=
  samples.take n ++ List.replicate (n - samples.length) 0

/-- `Recording` (`message.rs`). -/
structure Recording (E : Encoder σ) where
  encoder : E.State
  frames : List (List U8)
  size : ℕ
  pending : List σ
  voice : Bool
  full : Bool
  generation : ℕ
  /-- All the audio that was taken in. -/
  fed : List σ

namespace Recording

/-- `Recording::encode`. -/
def encode (r : Recording E) (frame : List σ) : Recording E :=
  let (packet, encoder) := E.encodeFloat r.encoder frame
  let frames := r.frames ++ packet.toList
  let size := r.size + (packet.map fun packet => packet.length + 8).getD 0
  { r with
    encoder
    frames
    size
    full := decide (messageMaxFrames ≤ frames.length ∨ UploadKind.voice.ceiling < size + messageMaxPacket + 8) }

/-- The second loop of `Recording::feed`: every turn takes a frame of the pending audio. -/
def encodePending : ℕ → Recording E → Recording E
  | 0, r => r
  | fuel + 1, r =>
    if r.full = false ∧ frameSamples ≤ r.pending.length then
      encodePending fuel
        (encode { r with pending := r.pending.drop frameSamples } (r.pending.take frameSamples))
    else r

/-- `Recording::feed`, with the samples that its first loop pushes. -/
def feed (r : Recording E) (samples : List σ) : Recording E :=
  let r := { r with pending := r.pending ++ samples, fed := r.fed ++ samples }
  encodePending r.pending.length r

/-- `finish_recording`: the last frame is filled up with silence. -/
def padLast [Zero σ] (r : Recording E) : Recording E :=
  if r.full = false ∧ r.pending ≠ [] then
    encode { r with pending := [] } (resize frameSamples r.pending)
  else r

/-- `finish_recording`, on the recording that it took. -/
def finish [Zero σ] (r : Recording E) : Option Clip :=
  if messageMinFrames ≤ r.padLast.frames.length then some ⟨messageChannels, r.padLast.frames⟩ else none

end Recording

/-! ### The key -/

/-- `KEY_TAP`, in milliseconds. -/
def keyTap : ℕ := 400

/-- `KEY_REPEAT_GAP`, in milliseconds. -/
def keyRepeatGap : ℕ := 700

/-- `KEY_RELEASE_GAP`, in milliseconds. -/
def keyReleaseGap : ℕ := 250

/-- `Recording` (`state.rs`): what the screen knows of a recording. -/
structure Shown where
  started : ℕ
  pressed : ℕ
  held : Bool
  shown : ℕ
deriving DecidableEq

/-- How a recording ends: `finish_recording` and `cancel_recording`. -/
inductive Ending
  | finish
  | cancel
deriving DecidableEq

/-- The recorder, the screen and the tasks that open captures. -/
structure Recorder (E : Encoder σ) where
  /-- `RECORDING`. -/
  recording : Option (Recording E)
  /-- `OWN_INPUT`: the recording its capture was opened for. -/
  ownInput : Option ℕ
  /-- `RECORD_GENERATION`. -/
  generation : ℕ
  /-- `get_use_voice`. -/
  useVoice : Bool
  /-- `LOCAL_STREAMS`: is there one? -/
  localStreams : Bool
  /-- The recordings that a task opens a capture for. -/
  opening : List ℕ
  /-- `App::recording`. -/
  app : Option Shown
  /-- `App::key_release`. -/
  keyRelease : Bool
  /-- The end under way: the capture is taken, the recording is not. -/
  ending : Option Ending
  /-- The clips that were sent, with what they were recorded as. -/
  sent : List (Recording E × Clip)
  /-- The captures that were opened while an end was under way. -/
  late : List ℕ

/-- What happens to a recorder: what the user presses, what its captures do, and the ticks. -/
inductive RecorderAction (σ : Type)
  /-- A capture delivers audio: that of the call, or one of our own. -/
  | feed (samples : List σ) (voice : Bool)
  /-- A task has its capture, or has none. -/
  | opened (k : ℕ)
  | openFailed (k : ℕ)
  /-- A call starts or ends. -/
  | call (useVoice localStreams : Bool)
  | press (repeated : Bool) (now : ℕ)
  | release (connected : Bool) (now : ℕ)
  /-- `/record`. -/
  | toggle (now : ℕ)
  | esc
  | tick (connected : Bool) (now : ℕ)
  | disconnected
  /-- The second step of an end. -/
  | ended

namespace Recorder

/-- A recorder that was not asked for anything. -/
def start (keyRelease : Bool) : Recorder E where
  recording := none
  ownInput := none
  generation := 0
  useVoice := false
  localStreams := false
  opening := []
  app := none
  keyRelease
  ending := none
  sent := []
  late := []

/-- `start`, with `start_recording`. -/
def startRecording (s : Recorder E) (now : ℕ) : Recorder E :=
  match s.recording, E.stereo with
  | none, some encoder =>
    let voice := s.useVoice && s.localStreams
    let generation := s.generation + 1
    { s with
      generation
      recording := some ⟨encoder, [], 0, [], voice, false, generation, []⟩
      opening := if voice then s.opening else s.opening ++ [generation]
      app := some ⟨now, now, s.keyRelease, 0⟩ }
  | _, _ => s

/-- The first step of an end. -/
def endRecording (s : Recorder E) (ending : Ending) : Recorder E :=
  { s with app := none, ownInput := none, ending := some ending }

/-- `send`. -/
def send (s : Recorder E) (connected : Bool) : Recorder E :=
  s.endRecording (if connected then .finish else .cancel)

/-- `press`. -/
def press (s : Recorder E) (repeated : Bool) (now : ℕ) : Recorder E :=
  match s.app with
  | none => s.startRecording now
  | some shown =>
    if repeated ∨ (s.keyRelease = false ∧ now - shown.pressed < keyRepeatGap) then
      { s with app := some { shown with held := if s.keyRelease then shown.held else true, pressed := now } }
    else s.send true

/-- `release`. -/
def release (s : Recorder E) (connected : Bool) (now : ℕ) : Recorder E :=
  match s.app.filter (·.held) with
  | none => s
  | some shown =>
    if now - shown.started < keyTap then { s with app := some { shown with held := false } } else s.send connected

/-- `toggle`. -/
def toggle (s : Recorder E) (now : ℕ) : Recorder E :=
  match s.app with
  | some _ => s.send true
  | none =>
    let s := s.startRecording now
    { s with app := s.app.map ({ · with held := false }) }

/-- `tick`, with `recording`. -/
def tick (s : Recorder E) (connected : Bool) (now : ℕ) : Recorder E :=
  match s.app, s.recording with
  | none, _ => s
  | some _, none => { s with app := none }
  | some shown, some r =>
    if r.full ∨ (r.voice ∧ s.useVoice = false) then s.send connected
    else if s.keyRelease = false ∧ shown.held ∧ keyReleaseGap < now - shown.pressed then s.send connected
    else { s with app := some { shown with shown := r.frames.length * frameMs / 1000 } }

/-- The second step of an end. -/
def take [Zero σ] (s : Recorder E) (ending : Ending) : Recorder E :=
  let clip := match ending with
    | .finish => s.recording.bind fun r => r.finish.map (r, ·)
    | .cancel => none
  { s with recording := none, ending := none, sent := s.sent ++ clip.toList }

/-- `open_input` has a capture and keeps it if its recording is still the current one. -/
def keepInput (s : Recorder E) (k generation : ℕ) : Recorder E :=
  let s := { s with opening := s.opening.eraseIdx k }
  if s.recording.any (·.generation = generation) then
    { s with
      ownInput := some generation
      late := if s.ending.isSome then s.late ++ [generation] else s.late }
  else s

/-- `start_recording`: there is nothing to record from. -/
def giveUp (s : Recorder E) (k generation : ℕ) : Recorder E :=
  { s with
    opening := s.opening.eraseIdx k
    recording := if s.recording.any (·.generation = generation) then none else s.recording }

/-- `feed`. -/
def feed (s : Recorder E) (samples : List σ) (voice : Bool) : Recorder E :=
  { s with recording := s.recording.map fun r => if r.voice = voice ∧ r.full = false then r.feed samples else r }

/-- The screen goes on when an end is over. -/
def step [Zero σ] (s : Recorder E) : RecorderAction σ → Option (Recorder E)
  | .feed samples voice => some (s.feed samples voice)
  | .opened k => (s.opening[k]?).map (s.keepInput k)
  | .openFailed k => (s.opening[k]?).map (s.giveUp k)
  | .call useVoice localStreams => some { s with useVoice, localStreams }
  | .ended => s.ending.map s.take
  | .press repeated now => if s.ending.isNone then some (s.press repeated now) else none
  | .release connected now => if s.ending.isNone then some (s.release connected now) else none
  | .toggle now => if s.ending.isNone then some (s.toggle now) else none
  | .esc => if s.ending.isNone then some (if s.app.isSome then s.endRecording .cancel else s) else none
  | .tick connected now => if s.ending.isNone then some (s.tick connected now) else none
  | .disconnected =>
    if s.ending.isNone then some ({ s with useVoice := false }.endRecording .cancel) else none

end Recorder

/-! ### What a recording holds -/

/-- The last frame is encoded after the others. -/
theorem Encoder.encodeAll_concat (E : Encoder σ) (state : E.State) (frames : List (List σ)) (frame : List σ) :
    E.encodeAll state (frames ++ [frame]) =
      ((E.encodeAll state frames).1 ++ (E.encodeFloat (E.encodeAll state frames).2 frame).1.toList,
        (E.encodeFloat (E.encodeAll state frames).2 frame).2) := by
  induction frames generalizing state with
  | nil => simp [encodeAll]
  | cons first frames ih => simp [encodeAll, ih]

namespace Recording

/-- The packets of a recording are those of some frames, and they are within the limits. -/
structure Encoded (r : Recording E) (done : List (List σ)) : Prop where
  packets : ∃ state, E.stereo = some state ∧ E.encodeAll state done = (r.frames, r.encoder)
  size : r.size = (r.frames.map fun packet => packet.length + 8).sum
  full : r.full =
    decide (messageMaxFrames ≤ r.frames.length ∨ UploadKind.voice.ceiling < r.size + messageMaxPacket + 8)
  room : r.frames.length ≤ messageMaxFrames ∧ r.size ≤ UploadKind.voice.ceiling
  valid : ∀ packet ∈ r.frames, packet ≠ [] ∧ packet.length ≤ messageMaxPacket

/-- The recording has encoded these frames of its audio, and the rest is pending. -/
structure Holds (r : Recording E) (done : List (List σ)) : Prop extends r.Encoded done where
  whole : ∀ frame ∈ done, frame.length = frameSamples
  fed : r.fed = done.flatten ++ r.pending

/-- A frame that is encoded leaves the pending samples alone. -/
@[simp] theorem encode_pending (r : Recording E) (frame : List σ) : (r.encode frame).pending = r.pending := rfl

/-- It does not change what was fed. -/
@[simp] theorem encode_fed (r : Recording E) (frame : List σ) : (r.encode frame).fed = r.fed := rfl

/-- It is of the same recording. -/
@[simp] theorem encode_generation (r : Recording E) (frame : List σ) :
    (r.encode frame).generation = r.generation := rfl

/-- It is of the same source. -/
@[simp] theorem encode_voice (r : Recording E) (frame : List σ) : (r.encode frame).voice = r.voice := rfl

/-- **One more frame**, if there was room for it. -/
theorem Encoded.encode {r : Recording E} {done : List (List σ)} (hE : E.Contract) (h : r.Encoded done)
    (hroom : r.full = false) (frame : List σ) : (r.encode frame).Encoded (done ++ [frame]) := by
  obtain ⟨state, hstate, hpackets⟩ := h.packets
  rw [h.full, decide_eq_false_iff_not, not_or, not_le, not_lt] at hroom
  rcases hresult : E.encodeFloat r.encoder frame with ⟨packet, encoder⟩
  have hframes : (r.encode frame).frames = r.frames ++ packet.toList := by simp [Recording.encode, hresult]
  have hsize : (r.encode frame).size = r.size + (packet.map fun packet => packet.length + 8).getD 0 := by
    simp [Recording.encode, hresult]
  refine ⟨⟨state, hstate, ?_⟩, ?_, ?_, ?_, ?_⟩
  · rw [E.encodeAll_concat, hpackets, hframes]
    simp [Recording.encode, hresult]
  · rw [hsize, hframes, h.size]
    cases packet <;> simp
  · simp [Recording.encode]
  · rw [hframes, hsize]
    cases packet with
    | none => simpa using ⟨by omega, by omega⟩
    | some packet =>
      have hlen := (hE.packet _ _ _ _ hresult).2
      simp only [Option.toList_some, List.length_append, List.length_singleton, Option.map_some,
        Option.getD_some]
      omega
  · intro p hp
    rw [hframes] at hp
    rcases List.mem_append.1 hp with hp | hp
    · exact h.valid p hp
    · obtain rfl := Option.mem_toList.1 hp
      exact hE.packet _ _ _ _ hresult

/-- What the second loop of `feed` leaves of a recording. -/
structure Drained (r r' : Recording E) (done : List (List σ)) : Prop where
  holds : ∃ done', r'.Holds done' ∧ done <+: done'
  rest : r'.full = false → r'.pending.length < frameSamples
  fed : r'.fed = r.fed
  generation : r'.generation = r.generation
  voice : r'.voice = r.voice

/-- `encode_pending` encodes frame by frame, up to a recording that is full or short of a frame. -/
theorem encodePending_drained (hE : E.Contract) {fuel : ℕ} {r : Recording E} {done : List (List σ)}
    (h : r.Holds done) (hfuel : r.pending.length ≤ fuel) : Drained r (r.encodePending fuel) done := by
  have hpos : 0 < frameSamples := by decide
  induction fuel generalizing r done with
  | zero => exact ⟨⟨done, h, List.prefix_rfl⟩, fun _ => by rw [encodePending]; omega, rfl, rfl, rfl⟩
  | succ fuel ih =>
    rw [encodePending]
    split
    case isTrue hturn =>
      have hnext := h.toEncoded.encode hE hturn.1 (r.pending.take frameSamples)
      have hturned : (encode { r with pending := r.pending.drop frameSamples }
          (r.pending.take frameSamples)).Holds (done ++ [r.pending.take frameSamples]) := by
        refine ⟨⟨hnext.packets, hnext.size, hnext.full, hnext.room, hnext.valid⟩, fun frame hframe => ?_, ?_⟩
        · rcases List.mem_append.1 hframe with hframe | hframe
          · exact h.whole frame hframe
          · obtain rfl := List.mem_singleton.1 hframe
            rw [List.length_take]
            omega
        · show r.fed = _ ++ r.pending.drop frameSamples
          rw [h.fed, List.flatten_append, List.append_assoc, List.flatten_singleton, List.take_append_drop]
      have hshorter : (r.pending.drop frameSamples).length ≤ fuel := by
        rw [List.length_drop]
        omega
      have hrest := ih hturned hshorter
      obtain ⟨done', hdone', hprefix'⟩ := hrest.holds
      exact ⟨⟨done', hdone', (List.prefix_append _ _).trans hprefix'⟩, hrest.rest, hrest.fed, hrest.generation,
        hrest.voice⟩
    case isFalse hstop =>
      exact ⟨⟨done, h, List.prefix_rfl⟩, fun hroom => not_le.1 fun hle => hstop ⟨hroom, hle⟩, rfl, rfl, rfl⟩

/-- **Audio that is fed is taken in at the end.** -/
theorem feed_drained (hE : E.Contract) {r : Recording E} {done : List (List σ)} (h : r.Holds done)
    (samples : List σ) : (∃ done', (r.feed samples).Holds done' ∧ done <+: done') ∧
      ((r.feed samples).full = false → (r.feed samples).pending.length < frameSamples) ∧
      (r.feed samples).fed = r.fed ++ samples ∧ (r.feed samples).generation = r.generation ∧
      (r.feed samples).voice = r.voice := by
  have hpushed : Holds { r with pending := r.pending ++ samples, fed := r.fed ++ samples } done := by
    refine ⟨⟨h.packets, h.size, h.full, h.room, h.valid⟩, h.whole, ?_⟩
    show r.fed ++ samples = _
    rw [h.fed, List.append_assoc]
  have hdrained := encodePending_drained hE hpushed le_rfl
  exact ⟨hdrained.holds, hdrained.rest, hdrained.fed, hdrained.generation, hdrained.voice⟩

/-- The frames that some audio is recorded in: the last one is filled up with silence. -/
def audioFrames [Zero σ] (audio : List σ) : List (List σ) := (chunks frameSamples audio).map (resize frameSamples)

/-- Samples of the right number stay as they are. -/
theorem resize_of_length_eq [Zero σ] {n : ℕ} {samples : List σ} (h : samples.length = n) :
    resize n samples = samples := by
  rw [resize, List.take_of_length_le h.le, h, Nat.sub_self, List.replicate_zero, List.append_nil]

/-- Whole frames come first. -/
theorem audioFrames_append [Zero σ] {done : List (List σ)} (h : ∀ frame ∈ done, frame.length = frameSamples)
    (rest : List σ) : audioFrames (done.flatten ++ rest) = done ++ audioFrames rest := by
  have hpos : 0 < frameSamples := by decide
  have hdvd : frameSamples ∣ done.flatten.length := by
    rw [List.length_flatten, List.map_congr_left h, List.map_const', List.sum_replicate]
    exact ⟨_, (Nat.mul_comm _ _)⟩
  rw [audioFrames, chunks_append hpos _ _ hdvd, chunks_flatten hpos h, List.map_append, audioFrames]
  congr 1
  exact (List.map_congr_left fun frame hframe => resize_of_length_eq (h frame hframe)).trans (List.map_id' done)

/-- **The end of a recording**: unless it is full, all of its audio is encoded. -/
theorem padLast_encoded [Zero σ] (hE : E.Contract) {r : Recording E} {done : List (List σ)} (h : r.Holds done)
    (hrest : r.full = false → r.pending.length < frameSamples) :
    ∃ done', r.padLast.Encoded done' ∧ done' <+: audioFrames r.fed ∧
      (r.full = false → done' = audioFrames r.fed) := by
  have haudio : audioFrames r.fed = done ++ audioFrames r.pending := by rw [h.fed, audioFrames_append h.whole]
  rw [padLast]
  split
  case isTrue hlast =>
    have hpos : 0 < frameSamples := by decide
    have hnext := h.toEncoded.encode hE hlast.1 (resize frameSamples r.pending)
    have hall : done ++ [resize frameSamples r.pending] = audioFrames r.fed := by
      rw [haudio, audioFrames, chunks_of_length_le hpos hlast.2 (hrest hlast.1).le]
      rfl
    exact ⟨_, ⟨hnext.packets, hnext.size, hnext.full, hnext.room, hnext.valid⟩, hall ▸ List.prefix_rfl,
      fun _ => hall⟩
  case isFalse hlast =>
    refine ⟨done, h.toEncoded, haudio ▸ List.prefix_append _ _, fun hroom => ?_⟩
    have hnil : r.pending = [] := by
      by_contra hne
      exact hlast ⟨hroom, hne⟩
    rw [haudio, hnil, audioFrames, chunks_nil]
    simp

end Recording

/-! ### Runs of the recorder -/

namespace Recorder

/-- The clip of a recording is made of the packets of its audio. -/
def Faithful [Zero σ] (r : Recording E) (clip : Clip) : Prop :=
  ∃ r' : Recording E, ∃ done, r'.Encoded done ∧ clip = ⟨messageChannels, r'.frames⟩ ∧
    messageMinFrames ≤ r'.frames.length ∧ done <+: Recording.audioFrames r.fed ∧
    (r.full = false → done = Recording.audioFrames r.fed)

/-- What holds after every action. -/
structure Inv [Zero σ] (s : Recorder E) : Prop where
  holds : ∀ r, s.recording = some r → (∃ done, r.Holds done) ∧ (r.full = false → r.pending.length < frameSamples)
  generation : ∀ r, s.recording = some r → r.generation ≤ s.generation ∧ (r.voice = true → r.generation ∉ s.opening)
  shown : s.recording.isSome → s.app.isSome ∨ s.ending.isSome
  opening : s.opening.Nodup ∧ ∀ g ∈ s.opening, g ≤ s.generation
  own : ∀ g, s.ownInput = some g → g ∉ s.opening ∧ g ≤ s.generation
  current : ∀ g, s.ownInput = some g → g ∈ s.late ∨
    s.ending = none ∧ ∃ r, s.recording = some r ∧ r.generation = g ∧ r.voice = false
  sent : ∀ p ∈ s.sent, Faithful p.1 p.2

/-- What one action does. -/
inductive Effect [Zero σ] (s : Recorder E) : Recorder E → Prop
  | fed (samples : List σ) (voice : Bool) : Effect s (s.feed samples voice)
  | kept (k g : ℕ) (h : s.opening[k]? = some g) : Effect s (s.keepInput k g)
  | gaveUp (k g : ℕ) (h : s.opening[k]? = some g) : Effect s (s.giveUp k g)
  | took (ending : Ending) (h : s.ending = some ending) : Effect s (s.take ending)
  | seen (useVoice localStreams : Bool) (app : Option Shown)
      (h : s.recording.isSome → s.app.isSome → app.isSome) : Effect s { s with useVoice, localStreams, app }
  | started (encoder : E.State) (voice : Bool) (shown : Shown) (hend : s.ending = none) (hnone : s.recording = none)
      (h : E.stereo = some encoder) :
      Effect s { s with
        generation := s.generation + 1
        recording := some ⟨encoder, [], 0, [], voice, false, s.generation + 1, []⟩
        opening := if voice then s.opening else s.opening ++ [s.generation + 1]
        app := some shown }
  | ends (useVoice : Bool) (ending : Ending) (h : s.ending = none) :
      Effect s ({ s with useVoice }.endRecording ending)

/-- A recording that is asked for is not open yet. -/
theorem startRecording_effect [Zero σ] {s : Recorder E} (hend : s.ending = none) (now : ℕ) (held : Bool → Bool) :
    Effect s { s.startRecording now with
      app := (s.startRecording now).app.map fun shown => { shown with held := held shown.held } } := by
  rw [startRecording]
  split
  case h_1 encoder hnone h => exact .started encoder _ ⟨now, now, held s.keyRelease, 0⟩ hend hnone h
  case h_2 =>
    exact .seen s.useVoice s.localStreams _ fun _ happ => by rw [Option.isSome_map]; exact happ

/-- A clip that is sent takes what the recording has. -/
theorem send_effect [Zero σ] {s : Recorder E} (hend : s.ending = none) (connected : Bool) :
    Effect s (s.send connected) := .ends s.useVoice _ hend

/-- Nothing may happen. -/
theorem effect_self [Zero σ] (s : Recorder E) : Effect s s := .seen s.useVoice s.localStreams s.app fun _ => id

/-- **What one step does.** -/
theorem step_effect [Zero σ] {s s' : Recorder E} {action : RecorderAction σ} (h : s.step action = some s') :
    Effect s s' := by
  cases action with
  | feed samples voice =>
    obtain rfl := Option.some.inj h
    exact .fed samples voice
  | opened k =>
    obtain ⟨g, hg, rfl⟩ := Option.map_eq_some_iff.1 h
    exact .kept k g hg
  | openFailed k =>
    obtain ⟨g, hg, rfl⟩ := Option.map_eq_some_iff.1 h
    exact .gaveUp k g hg
  | call useVoice localStreams =>
    obtain rfl := Option.some.inj h
    exact .seen useVoice localStreams s.app fun _ => id
  | ended =>
    obtain ⟨ending, hending, rfl⟩ := Option.map_eq_some_iff.1 h
    exact .took ending hending
  | press repeated now =>
    obtain ⟨hend, h⟩ := Option.ite_none_right_eq_some.1 h
    obtain rfl := Option.some.inj h
    rw [press]
    split
    case h_1 happ =>
      have heffect := startRecording_effect (s := s) (Option.isNone_iff_eq_none.1 hend) now id
      simpa using heffect
    case h_2 shown happ =>
      split
      · exact .seen s.useVoice s.localStreams _ fun _ _ => rfl
      · exact send_effect (Option.isNone_iff_eq_none.1 hend) _
  | release connected now =>
    obtain ⟨hend, h⟩ := Option.ite_none_right_eq_some.1 h
    obtain rfl := Option.some.inj h
    rw [release]
    split
    case h_1 => exact effect_self s
    case h_2 shown happ =>
      split
      · exact .seen s.useVoice s.localStreams _ fun _ _ => rfl
      · exact send_effect (Option.isNone_iff_eq_none.1 hend) _
  | toggle now =>
    obtain ⟨hend, h⟩ := Option.ite_none_right_eq_some.1 h
    obtain rfl := Option.some.inj h
    rw [toggle]
    split
    case h_1 => exact send_effect (Option.isNone_iff_eq_none.1 hend) _
    case h_2 => exact startRecording_effect (Option.isNone_iff_eq_none.1 hend) now fun _ => false
  | esc =>
    obtain ⟨hend, h⟩ := Option.ite_none_right_eq_some.1 h
    obtain rfl := Option.some.inj h
    split
    · exact .ends s.useVoice _ (Option.isNone_iff_eq_none.1 hend)
    · exact effect_self s
  | tick connected now =>
    obtain ⟨hend, h⟩ := Option.ite_none_right_eq_some.1 h
    obtain rfl := Option.some.inj h
    rw [tick]
    split
    case h_1 => exact effect_self s
    case h_2 hnone =>
      exact .seen s.useVoice s.localStreams none fun hsome _ => by rw [hnone] at hsome; cases hsome
    case h_3 shown r happ hrecording =>
      split
      · exact send_effect (Option.isNone_iff_eq_none.1 hend) _
      · split
        · exact send_effect (Option.isNone_iff_eq_none.1 hend) _
        · exact .seen s.useVoice s.localStreams _ fun _ _ => rfl
  | disconnected =>
    obtain ⟨hend, h⟩ := Option.ite_none_right_eq_some.1 h
    obtain rfl := Option.some.inj h
    exact .ends false _ (Option.isNone_iff_eq_none.1 hend)

namespace Inv

variable [Zero σ] {s : Recorder E}

/-- Samples keep the invariant, and go to a recording of their source only. -/
theorem feed (hE : E.Contract) (h : Inv s) (samples : List σ) (voice : Bool) : Inv (s.feed samples voice) := by
  -- What the recording was is all that the others look at.
  have hkept : ∀ r', (s.feed samples voice).recording = some r' → ∃ r, s.recording = some r ∧
      r'.generation = r.generation ∧ r'.voice = r.voice ∧ (∃ done, r'.Holds done) ∧
      (r'.full = false → r'.pending.length < frameSamples) := by
    intro r' hr'
    obtain ⟨r, hr, rfl⟩ := Option.map_eq_some_iff.1 hr'
    obtain ⟨⟨done, hdone⟩, hrest⟩ := h.holds r hr
    split
    · obtain ⟨⟨done', hdone', -⟩, hrest', -, hgeneration, hvoice⟩ := Recording.feed_drained hE hdone samples
      exact ⟨r, hr, hgeneration, hvoice, ⟨done', hdone'⟩, hrest'⟩
    · exact ⟨r, hr, rfl, rfl, ⟨done, hdone⟩, hrest⟩
  refine ⟨fun r' hr' => ?_, fun r' hr' => ?_, fun hsome => h.shown ?_, h.opening, h.own, fun g hg => ?_, h.sent⟩
  · obtain ⟨-, -, -, -, hholds⟩ := hkept r' hr'
    exact hholds
  · obtain ⟨r, hr, hgeneration, hvoice, -⟩ := hkept r' hr'
    rw [hgeneration, hvoice]
    exact h.generation r hr
  · simpa [Recorder.feed] using hsome
  · refine (h.current g hg).imp_right fun ⟨hend, r, hr, hrg, hvoice⟩ => ⟨hend, ?_⟩
    have hsome : (s.feed samples voice).recording.isSome = true := by simp [Recorder.feed, hr]
    obtain ⟨r', hr'⟩ := Option.isSome_iff_exists.1 hsome
    obtain ⟨r₀, hr₀, hgeneration, hvoice', -⟩ := hkept r' hr'
    obtain rfl := Option.some.inj (hr.symm.trans hr₀)
    exact ⟨r', hr', hgeneration.trans hrg, hvoice'.trans hvoice⟩

/-- A capture that is opening is so once. -/
theorem erase_opening (h : Inv s) {k g : ℕ} (hg : s.opening[k]? = some g) :
    g ∈ s.opening ∧ g ∉ s.opening.eraseIdx k ∧ (s.opening.eraseIdx k).Nodup ∧
      ∀ g' ∈ s.opening.eraseIdx k, g' ∈ s.opening := by
  obtain ⟨hk, rfl⟩ := List.getElem?_eq_some_iff.1 hg
  refine ⟨List.getElem_mem hk, ?_, h.opening.1.eraseIdx k, fun g' => List.mem_of_mem_eraseIdx⟩
  rw [List.mem_eraseIdx_iff_getElem]
  rintro ⟨j, hj, hne, heq⟩
  exact hne ((List.Nodup.getElem_inj_iff h.opening.1).1 heq)

/-- A capture that has opened belongs to the recording, or is closed. -/
theorem keepInput (h : Inv s) {k g : ℕ} (hg : s.opening[k]? = some g) : Inv (s.keepInput k g) := by
  obtain ⟨hmem, hnot, hnodup, hsub⟩ := h.erase_opening hg
  have hgeneration : ∀ r, s.recording = some r →
      r.generation ≤ s.generation ∧ (r.voice = true → r.generation ∉ s.opening.eraseIdx k) := fun r hr =>
    ⟨(h.generation r hr).1, fun hvoice hin => (h.generation r hr).2 hvoice (hsub _ hin)⟩
  rw [Recorder.keepInput]
  split
  case isTrue hcurrent =>
    refine ⟨h.holds, hgeneration, h.shown, ⟨hnodup, fun g' hg' => h.opening.2 g' (hsub g' hg')⟩, ?_, ?_, h.sent⟩
    · rintro g' hg'
      obtain rfl := Option.some.inj hg'
      exact ⟨hnot, h.opening.2 g hmem⟩
    · rintro g' hg'
      obtain rfl := Option.some.inj hg'
      cases hend : s.ending with
      | some ending => exact .inl (by simp)
      | none =>
        refine .inr ⟨rfl, ?_⟩
        obtain ⟨r, hr, hrg⟩ := (Option.any_eq_true _ _).1 hcurrent
        obtain rfl := of_decide_eq_true hrg
        refine ⟨r, hr, rfl, ?_⟩
        by_contra hvoice
        exact (h.generation r hr).2 (Bool.not_eq_false _ ▸ hvoice) hmem
  case isFalse hcurrent =>
    exact ⟨h.holds, hgeneration, h.shown, ⟨hnodup, fun g' hg' => h.opening.2 g' (hsub g' hg')⟩,
      fun g' hg' => ⟨fun hin => (h.own g' hg').1 (hsub g' hin), (h.own g' hg').2⟩, h.current, h.sent⟩

/-- A capture that does not open ends the recording it belongs to. -/
theorem giveUp (h : Inv s) {k g : ℕ} (hg : s.opening[k]? = some g) : Inv (s.giveUp k g) := by
  obtain ⟨hmem, -, hnodup, hsub⟩ := h.erase_opening hg
  have hsame : ∀ r, (s.giveUp k g).recording = some r → s.recording = some r := by
    intro r hr
    rw [Recorder.giveUp] at hr
    dsimp only at hr
    split at hr
    · cases hr
    · exact hr
  refine ⟨fun r hr => h.holds r (hsame r hr), fun r hr => ?_, fun hsome => ?_,
    ⟨hnodup, fun g' hg' => h.opening.2 g' (hsub g' hg')⟩,
    fun g' hg' => ⟨fun hin => (h.own g' hg').1 (hsub g' hin), (h.own g' hg').2⟩, fun g' hg' => ?_, h.sent⟩
  · exact ⟨(h.generation r (hsame r hr)).1, fun hvoice hin => (h.generation r (hsame r hr)).2 hvoice (hsub _ hin)⟩
  · obtain ⟨r, hr⟩ := Option.isSome_iff_exists.1 hsome
    exact h.shown (Option.isSome_iff_exists.2 ⟨r, hsame r hr⟩)
  · refine (h.current g' hg').imp_right fun ⟨hend, r, hr, hrg, hvoice⟩ => ⟨hend, r, ?_, hrg, hvoice⟩
    -- The capture of the current recording is there, so it is not the one that failed.
    have hne : r.generation ≠ g := fun heq => (h.own g' hg').1 (hrg ▸ heq ▸ hmem)
    simp [Recorder.giveUp, hr, hne]

/-- A recording that ends is a recording until its capture has ended. -/
theorem endRecording (h : Inv s) (useVoice : Bool) (ending : Ending) :
    Inv ({ s with useVoice }.endRecording ending) :=
  ⟨h.holds, h.generation, fun _ => .inr rfl, h.opening, (fun _ hg => by cases hg), (fun _ hg => by cases hg), h.sent⟩

/-- A recording that has ended is sent, or thrown away. -/
theorem take (hE : E.Contract) (h : Inv s) {ending : Ending} (hending : s.ending = some ending) :
    Inv (s.take ending) := by
  refine ⟨?_, ?_, ?_, h.opening, h.own, fun g hg => ?_, fun p hp => ?_⟩
  · rintro r ⟨⟩
  · rintro r ⟨⟩
  · rintro ⟨⟩
  · rcases h.current g hg with hlate | ⟨hend, -⟩
    · exact .inl hlate
    · rw [hending] at hend
      cases hend
  · rcases List.mem_append.1 hp with hp | hp
    · exact h.sent p hp
    · cases ending with
      | cancel => cases hp
      | finish =>
        obtain ⟨r, hr, hclip⟩ := Option.bind_eq_some_iff.1 (Option.mem_toList.1 hp)
        obtain ⟨clip, hfinish, rfl⟩ := Option.map_eq_some_iff.1 hclip
        obtain ⟨hlong, hsome⟩ := Option.ite_none_right_eq_some.1 hfinish
        obtain ⟨⟨done, hdone⟩, hrest⟩ := h.holds r hr
        obtain ⟨done', hencoded, hprefix, hall⟩ := Recording.padLast_encoded hE hdone hrest
        exact ⟨r.padLast, done', hencoded, (Option.some.inj hsome).symm, hlong, hprefix, hall⟩

/-- A recording that starts has fed nothing. -/
theorem started (h : Inv s) {encoder : E.State} (hstereo : E.stereo = some encoder) (voice : Bool) (shown : Shown)
    (hnone : s.recording = none) :
    Inv { s with
      generation := s.generation + 1
      recording := some ⟨encoder, [], 0, [], voice, false, s.generation + 1, []⟩
      opening := if voice then s.opening else s.opening ++ [s.generation + 1]
      app := some shown } := by
  have hfresh : s.generation + 1 ∉ s.opening := fun hin => absurd (h.opening.2 _ hin) (by omega)
  have hwithin : ∀ g ∈ if voice then s.opening else s.opening ++ [s.generation + 1],
      g ∈ s.opening ∨ voice = false ∧ g = s.generation + 1 := by
    cases voice <;> simp
  refine ⟨fun r hr => ?_, fun r hr => ?_, fun _ => .inl rfl, ⟨?_, fun g hg => ?_⟩, fun g hg => ?_, fun g hg => ?_,
    h.sent⟩
  · obtain rfl := Option.some.inj hr
    exact ⟨⟨[], ⟨⟨encoder, hstereo, rfl⟩, rfl, by simp [messageMaxFrames, UploadKind.ceiling, messageMaxPacket],
      ⟨by simp, by simp⟩, by simp⟩, by simp, rfl⟩, fun _ => by simp [frameSamples]⟩
  · obtain rfl := Option.some.inj hr
    refine ⟨le_rfl, fun hvoice hin => ?_⟩
    dsimp only at hvoice hin
    rw [if_pos hvoice] at hin
    exact hfresh hin
  · cases voice with
    | true => exact h.opening.1
    | false => exact List.nodup_append.2 ⟨h.opening.1, List.nodup_singleton _, by
        rintro g hg _ hlast rfl
        exact hfresh (List.mem_singleton.1 hlast ▸ hg)⟩
  · dsimp only
    rcases hwithin g hg with hin | ⟨-, rfl⟩
    · exact (h.opening.2 g hin).trans (Nat.le_succ _)
    · exact le_rfl
  · have hold := h.own g hg
    refine ⟨fun hin => ?_, hold.2.trans (Nat.le_succ _)⟩
    rcases hwithin g hin with hin | ⟨-, rfl⟩
    · exact hold.1 hin
    · omega
  · rcases h.current g hg with hlate | ⟨-, r, hr, -⟩
    · exact .inl hlate
    · rw [hnone] at hr
      cases hr

/-- Every action keeps the invariant. -/
theorem step (hE : E.Contract) (h : Inv s) {s' : Recorder E} {action : RecorderAction σ}
    (hstep : s.step action = some s') : Inv s' := by
  cases step_effect hstep with
  | fed samples voice => exact h.feed hE samples voice
  | kept k g hg => exact h.keepInput hg
  | gaveUp k g hg => exact h.giveUp hg
  | took ending hending => exact h.take hE hending
  | seen useVoice localStreams app happ =>
    exact ⟨h.holds, h.generation, fun hsome => (h.shown hsome).imp_left (happ hsome), h.opening, h.own, h.current,
      h.sent⟩
  | started encoder voice shown _ hnone hstereo => exact h.started hstereo voice shown hnone
  | ends useVoice ending _ => exact h.endRecording useVoice ending

end Inv

/-- A recorder that was not asked for anything has the invariant. -/
theorem inv_start [Zero σ] (keyRelease : Bool) : Inv (start keyRelease : Recorder E) :=
  ⟨(fun _ hr => by cases hr), (fun _ hr => by cases hr), (fun hsome => by cases hsome),
    ⟨List.nodup_nil, (fun _ hg => by cases hg)⟩, (fun _ hg => by cases hg), (fun _ hg => by cases hg),
    (fun _ hp => by cases hp)⟩

/-- Every run keeps the invariant. -/
theorem inv_of_exec [Zero σ] (hE : E.Contract) {keyRelease : Bool} {actions : List (RecorderAction σ)}
    {s : Recorder E} (hexec : exec step (start keyRelease) actions = some s) : Inv s :=
  exec_induct (fun _ _ _ hinv _ hstep => hinv.step hE hstep) (inv_start keyRelease) (meets_true ..) hexec

/-- **What is recorded is shown.**  Over every run, there is no recording without the screen
saying so, but for the time in which it is being ended.  A capture of our own that is kept
open belongs to the current recording, which is not one of a call, unless it was opened
while an end was under way. -/
theorem recorded_openly [Zero σ] (hE : E.Contract) {keyRelease : Bool} {actions : List (RecorderAction σ)}
    {s : Recorder E} (hexec : exec step (start keyRelease) actions = some s) :
    (s.recording.isSome → s.app.isSome ∨ s.ending.isSome) ∧
      ∀ g, s.ownInput = some g → g ∈ s.late ∨ ∃ r, s.recording = some r ∧ r.generation = g ∧ r.voice = false :=
  have hinv := inv_of_exec hE hexec
  ⟨hinv.shown, fun g hg => (hinv.current g hg).imp_right And.right⟩

/-- Every frame is encoded as the packet of a silent one. -/
def silence : Encoder ℤ where
  State := Unit
  stereo := some ()
  encodeFloat := fun _ _ => (some [0xFC, 0xFF, 0xFE], ())

/-- The encoder of silence keeps the contract. -/
theorem silence_contract : silence.Contract where
  packet := by
    rintro state frame packet state' h
    obtain rfl := Option.some.inj (Prod.ext_iff.1 h).1
    exact ⟨by decide, by decide⟩

/-- The key goes down, and the capture opens. -/
theorem recorded_openly_pressed : ∃ s : Recorder silence,
    (s.ownInput, s.late, s.recording.map fun r => (r.generation, r.voice)) = (some 1, [], some (1, false)) ∧
      (s.recording.isSome → s.app.isSome ∨ s.ending.isSome) ∧
      ∀ g, s.ownInput = some g → g ∈ s.late ∨ ∃ r, s.recording = some r ∧ r.generation = g ∧ r.voice = false := by
  have hrun : (exec step (start true : Recorder silence) [.press false 0, .opened 0]).map
      (fun s => (s.ownInput, s.late, s.recording.map fun r => (r.generation, r.voice))) =
      some (some 1, [], some (1, false)) := by decide +kernel
  obtain ⟨s, hs, hv⟩ := Option.map_eq_some_iff.1 hrun
  exact ⟨s, hv, recorded_openly silence_contract hs⟩

/-- **The gap is real**: a capture that is opened between the two steps of an end stays open
when the recording is gone, and the screen does not say so. -/
theorem capture_left_open :
    (exec step (start true : Recorder silence) [.press false 0, .esc, .opened 0, .ended]).map
      (fun s => (s.ownInput, s.recording.isSome, s.app.isSome, s.ending.isSome, s.opening)) =
    some (some 1, false, false, false, []) := by decide +kernel

/-- **What is sent is what was recorded.**  Over every run, the packets of a clip that is
sent are those of the audio its recording took in, encoded from the start and in order:
of all of it, with the last frame filled up with silence, unless a limit had been hit. -/
theorem clip_contents [Zero σ] (hE : E.Contract) {keyRelease : Bool} {actions : List (RecorderAction σ)}
    {s : Recorder E} (hexec : exec step (start keyRelease) actions = some s) :
    ∀ p ∈ s.sent, ∃ state done, E.stereo = some state ∧ p.2.frames = (E.encodeAll state done).1 ∧
      done <+: Recording.audioFrames p.1.fed ∧
      (p.1.full = false → done = Recording.audioFrames p.1.fed) := by
  intro p hp
  obtain ⟨r', done, hencoded, hclip, -, hdone, hall⟩ := (inv_of_exec hE hexec).sent p hp
  obtain ⟨state, hstate, hpackets⟩ := hencoded.packets
  exact ⟨state, done, hstate, by rw [hclip, hpackets], hdone, hall⟩

/-- A third of a second, held and let go. -/
def held : List (RecorderAction ℤ) :=
  .press false 0 :: .opened 0 :: List.replicate 17 (.feed (List.replicate 1800 0) false) ++ [.release true 500, .ended]

/-- A clip of 320 milliseconds of the call, with a frame that is not whole left out. -/
theorem clip_contents_held : ∃ s : Recorder silence,
    s.sent.map (fun p => (p.2.frames.length, p.1.pending.length, p.1.full)) = [(16, 1800, false)] ∧
    ∀ p ∈ s.sent, ∃ state done, silence.stereo = some state ∧ p.2.frames = (silence.encodeAll state done).1 ∧
      done <+: Recording.audioFrames p.1.fed ∧
      (p.1.full = false → done = Recording.audioFrames p.1.fed) := by
  have hrun : (exec step (start true : Recorder silence) held).map
      (fun s => s.sent.map fun p => (p.2.frames.length, p.1.pending.length, p.1.full)) =
      some [(16, 1800, false)] := by decide +kernel
  obtain ⟨s, hs, hv⟩ := Option.map_eq_some_iff.1 hrun
  exact ⟨s, hv, clip_contents silence_contract hs⟩

/-- **What is sent is a voice message**, whatever else the run was.  The start of a clip that
is sent passes for one, however it is cut into packets, all of it is read back, and it
lasts from 300 milliseconds to five minutes.  Its packets are within the ceiling of the
size; the 17 bytes of the marker and of the header come on top. -/
theorem clips_accepted [Zero σ] {W : Wincode} (hE : E.Contract) (hW : W.Contract) {keyRelease : Bool}
    {actions : List (RecorderAction σ)} {s : Recorder E}
    (hexec : exec step (start keyRelease) actions = some s) :
    ∀ p ∈ s.sent, (∀ n, 8 ≤ n → UploadKind.voice.accepts ((p.2.encode W).take n) = true) ∧
      Clip.decode W.deserialize (p.2.encode W) = some p.2 ∧
      p.2.duration.toNat = 20 * p.2.frames.length ∧ 300 ≤ p.2.duration.toNat ∧ p.2.duration.toNat ≤ 300000 ∧
      (p.2.encode W).length = 17 + (p.2.frames.map fun frame => frame.length + 8).sum ∧
      (p.2.frames.map fun frame => frame.length + 8).sum ≤ UploadKind.voice.ceiling := by
  intro p hp
  obtain ⟨r', done, hencoded, hclip, hlong, -⟩ := (inv_of_exec hE hexec).sent p hp
  have hframes : p.2.frames = r'.frames := by rw [hclip]
  have hmin : 15 ≤ p.2.frames.length := by rw [hframes]; exact hlong
  have hmax : p.2.frames.length ≤ 15000 := by rw [hframes]; exact hencoded.room.1
  have hduration : p.2.duration.toNat = 20 * p.2.frames.length := by
    have hframe : BitVec.toNat (20 : BitVec 32) = 20 := rfl
    rw [Clip.duration, BitVec.toNat_mul, BitVec.toNat_ofNat, hframe]
    omega
  refine ⟨fun n hn => ?_, ?_, hduration, by omega, by omega, length_encode hW p.2, ?_⟩
  · simp [UploadKind.accepts, isClip_take_encode W p.2 hn]
  · refine Clip.decode_encode hW (.inr (by rw [hclip]; rfl)) ⟨?_, hmax⟩ (by rw [hframes]; exact hencoded.valid)
    exact List.ne_nil_of_length_pos (by omega)
  · rw [hframes, ← hencoded.size]
    exact hencoded.room.2

/-- A number in eight bytes, the least of them first. -/
def writeCount (n : ℕ) : List U8 := (beBytes 8 n).reverse

/-- A count is read. -/
def readCount (bytes : List U8) : Option (ℕ × List U8) :=
  if 8 ≤ bytes.length then some (ofBeBytes (bytes.take 8).reverse, bytes.drop 8) else none

/-- A byte is read. -/
def readByte : List U8 → Option (U8 × List U8)
  | [] => none
  | byte :: rest => some (byte, rest)

/-- A count of eight bytes is read back. -/
theorem undoes_count : Undoes readCount writeCount (· < 2 ^ 64) := by
  intro n hn rest
  have hlength : (writeCount n).length = 8 := by rw [writeCount, List.length_reverse, length_beBytes]
  have hlong : 8 ≤ (writeCount n ++ rest).length := by rw [List.length_append, hlength]; omega
  have hvalue : ofBeBytes (beBytes 8 n) = n := by rw [ofBeBytes_beBytes]; exact Nat.mod_eq_of_lt hn
  rw [readCount, if_pos hlong, List.take_left' hlength, List.drop_left' hlength, writeCount, List.reverse_reverse,
    hvalue]

/-- Numbers in eight bytes. -/
def fixedWidth : Wincode where
  serialize := fun clip =>
    [clip.channels] ++ writeCounted writeCount (writeCounted writeCount fun byte => [byte]) clip.frames
  deserialize := fun bytes =>
    (readPair readByte (readCounted readCount (readCounted readCount readByte)) bytes).map
      fun (clip, _) => ⟨clip.1, clip.2⟩

/-- Counts of eight bytes keep the contract. -/
theorem fixedWidth_contract : fixedWidth.Contract where
  roundTrip := by
    intro clip hframes hvalid
    have hbyte : Undoes readByte (fun byte => [byte]) fun _ => True := fun _ _ _ => rfl
    have hread := hbyte.pair (undoes_count.counted (undoes_count.counted hbyte)) (clip.channels, clip.frames)
      ⟨trivial, hframes.trans_lt (by decide), fun frame hframe =>
        ⟨(hvalid frame hframe).trans_lt (by decide), fun _ _ => trivial⟩⟩ []
    rw [List.append_nil] at hread
    simp only [fixedWidth, hread, Option.map_some]
  length := by
    intro clip
    have hcount : ∀ n, (writeCount n).length = 8 := fun n => by rw [writeCount, List.length_reverse, length_beBytes]
    simp [fixedWidth, length_writeCounted hcount, Nat.add_comm]

/-- The clip of this run is accepted and read back. -/
theorem clips_accepted_held : ∃ s : Recorder silence,
    s.sent.map (fun p => ((p.2.encode fixedWidth).length, p.2.duration.toNat)) = [(193, 320)] ∧
    ∀ p ∈ s.sent, (∀ n, 8 ≤ n → UploadKind.voice.accepts ((p.2.encode fixedWidth).take n) = true) ∧
      Clip.decode fixedWidth.deserialize (p.2.encode fixedWidth) = some p.2 ∧
      p.2.duration.toNat = 20 * p.2.frames.length ∧ 300 ≤ p.2.duration.toNat ∧ p.2.duration.toNat ≤ 300000 ∧
      (p.2.encode fixedWidth).length = 17 + (p.2.frames.map fun frame => frame.length + 8).sum ∧
      (p.2.frames.map fun frame => frame.length + 8).sum ≤ UploadKind.voice.ceiling := by
  have hrun : (exec step (start true : Recorder silence) held).map
      (fun s => s.sent.map fun p => ((p.2.encode fixedWidth).length, p.2.duration.toNat)) = some [(193, 320)] := by
    decide +kernel
  obtain ⟨s, hs, hv⟩ := Option.map_eq_some_iff.1 hrun
  exact ⟨s, hv, clips_accepted silence_contract fixedWidth_contract hs⟩

end Recorder

end VoiceMessage
end Why2
