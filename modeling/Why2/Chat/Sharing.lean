/-
# The sharer's side of a screen share

One thread captures the screen and encodes it (`FrameEncoder`, `run_recorder`,
`chat/src/network/screen/client/capture.rs`), and hands the access units through a
channel to the task that sends them (`screen`,
`chat/src/network/screen/client/mod.rs`).  The task drops a unit rather than send it
late (`DRAIN_HARD`), and then sends none until one comes that stands on its own
(`awaiting_key`).  It asks for one with a flag that the other thread takes
(`request_keyframe`, `take_keyframe_request`,
`chat/src/network/screen/client/rate.rs`), which may have to wait with it
(`MIN_KEYFRAME_INTERVAL`).

What is sent can be decoded: a unit that does not stand on its own comes right after
the one it is predicted from (`Inv.sound`).  The channel never drops a unit that
the encoder predicts from (`dispatch_eq`).  And a task that waits does not wait in
vain: a keyframe is asked for, owed by the encoder or on its way
(`keyframe_on_its_way`).

An action is what a thread does between two accesses of what they share.  The
encoder behind `trait Backend` is a parameter, with what its documentation says of it
(`Backend.Contract`); so are the size a picture is scaled to and its planes.
-/

import Why2.Chat.AccessUnit

namespace Why2

open Lib

/-- `MIN_KEYFRAME_INTERVAL`, in milliseconds. -/
def minKeyframeInterval : ℕ := 1000

/-- `KEYFRAME_INTERVAL`, in milliseconds. -/
def keyframeInterval : ℕ := 8000

/-- `VIDEO_CHANNEL_BOUND`. -/
def videoChannelBound : ℕ := 1

/-- `DRAIN_TARGET`, in milliseconds. -/
def drainTarget : ℕ := 100

/-- `DRAIN_HARD`, in milliseconds. -/
def drainHard : ℕ := 250

/-- What an encoder is opened with. -/
structure EncoderSettings where
  width : ℕ
  height : ℕ
  fps : ℕ
  bitrate : ℕ
  keyframeInterval : ℕ

/-- `Settings::new`. -/
def EncoderSettings.new (width height fps bitrate : ℕ) : EncoderSettings :=
  ⟨width, height, fps, bitrate, max 1 (Why2.keyframeInterval * fps / 1000)⟩

/-- The GPU's encoder and openh264: how they are opened, and `encode` of a picture, which must
be an IDR or need not.  It fails or puts out an access unit, an empty one if it skips. -/
structure Backend (π : Type) where
  Hardware : Type
  Software : Type
  openHardware : EncoderSettings → Option Hardware
  openSoftware : EncoderSettings → Option Software
  encodeHardware : Hardware → π → Bool → Option (List U8) × Hardware
  encodeSoftware : Software → π → Bool → Option (List U8) × Software
  rateHardware : Hardware → ℕ → Hardware
  rateSoftware : Software → ℕ → Software

namespace Backend

variable {π : Type}

/-- `dyn Backend`. -/
abbrev Encoder (b : Backend π) : Type := b.Hardware ⊕ b.Software

/-- `encoder::open`: the GPU first, and not again once it would not open. -/
def open' (b : Backend π) (settings : EncoderSettings) (hardware : Bool) : Option b.Encoder × Bool :=
  match if hardware then b.openHardware settings else none with
  | some encoder => (some (.inl encoder), true)
  | none => ((b.openSoftware settings).map .inr, false)

/-- `set_bitrate`. -/
def setBitrate (b : Backend π) (bitrate : ℕ) : b.Encoder → b.Encoder
  | .inl encoder => .inl (b.rateHardware encoder bitrate)
  | .inr encoder => .inr (b.rateSoftware encoder bitrate)

/-- `encode`. -/
def encode (b : Backend π) (picture : π) (keyframe : Bool) : b.Encoder → Option (List U8) × b.Encoder
  | .inl encoder => ((b.encodeHardware encoder picture keyframe).1, .inl (b.encodeHardware encoder picture keyframe).2)
  | .inr encoder => ((b.encodeSoftware encoder picture keyframe).1, .inr (b.encodeSoftware encoder picture keyframe).2)

end Backend

/-- The access unit has an IDR slice. -/
def hasIdr (data : List U8) : Bool := (nalUnits data).any (unitType · = some 5)

/-- An empty unit has no keyframe. -/
theorem hasIdr_nil : hasIdr [] = false := by
  unfold hasIdr
  rw [nalUnits_of_none rfl]
  rfl

/-- What the documentation of the encoders says: the first unit of a new one is an IDR, and
one that was asked for an IDR owes it until it comes. -/
structure Backend.Contract {π : Type} (b : Backend π) where
  Fresh : b.Encoder → Prop
  Owes : b.Encoder → Prop
  fresh_hardware : ∀ settings encoder, b.openHardware settings = some encoder → Fresh (.inl encoder)
  fresh_software : ∀ settings encoder, b.openSoftware settings = some encoder → Fresh (.inr encoder)
  fresh_bitrate : ∀ encoder bitrate, Fresh encoder → Fresh (b.setBitrate bitrate encoder)
  fresh_encode : ∀ encoder picture keyframe data encoder', Fresh encoder →
    b.encode picture keyframe encoder = (some data, encoder') → hasIdr data = true ∨ data = [] ∧ Fresh encoder'
  owes_fresh : ∀ encoder, Fresh encoder → Owes encoder
  owes_bitrate : ∀ encoder bitrate, Owes encoder → Owes (b.setBitrate bitrate encoder)
  owes_encode : ∀ encoder picture keyframe data encoder', Owes encoder ∨ keyframe = true →
    b.encode picture keyframe encoder = (some data, encoder') → hasIdr data = true ∨ Owes encoder'

/-- A captured picture: its size, and its pixels of four bytes. -/
structure Capture where
  width : ℕ
  height : ℕ
  pixels : List U8

/-- What a captured picture becomes before it is encoded: the size it is scaled to
(`target_size`), and the planes of that size (`YuvScratch::fill`). -/
structure Scaler (π : Type) where
  size : Capture → ℕ × ℕ
  fill : Capture → ℕ × ℕ → π

/-- An access unit, with the encoder that put it out and its place among all of them. -/
structure AccessUnit where
  encoder : ℕ
  place : ℕ
  data : List U8
deriving DecidableEq

namespace AccessUnit

/-- The unit stands on its own. -/
def Key (unit : AccessUnit) : Prop := isKeyframe unit.data = true

instance (unit : AccessUnit) : Decidable unit.Key := inferInstanceAs (Decidable (isKeyframe unit.data = true))

/-- The unit is the same encoder's next one. -/
def Next (previous unit : AccessUnit) : Prop :=
  unit.encoder = previous.encoder ∧ unit.place = previous.place + 1

end AccessUnit

/-- `FrameEncoder`; `opened` counts the encoders that were opened. -/
structure FrameEncoder {π : Type} (b : Backend π) where
  encoder : Option b.Encoder
  fps : ℕ
  dimensions : Option (ℕ × ℕ)
  hardware : Bool
  keyframe : Bool
  bitrate : ℕ
  lastKeyframe : ℕ
  opened : ℕ

namespace FrameEncoder

variable {π : Type} {b : Backend π}

/-- `FrameEncoder::new`. -/
def new (b : Backend π) (fps bitrate now opened : ℕ) : FrameEncoder b :=
  ⟨none, fps, none, true, false, bitrate, now, opened⟩

/-- The encoder is opened, if it is not open. -/
def ensure (e : FrameEncoder b) (size : ℕ × ℕ) : FrameEncoder b :=
  match e.encoder with
  | some _ => e
  | none =>
    match b.open' (.new size.1 size.2 e.fps e.bitrate) e.hardware with
    | (some encoder, hardware) => { e with encoder := some encoder, hardware, opened := e.opened + 1 }
    | (none, hardware) => { e with hardware }

/-- One turn of the loop of `encode`: `none` if the GPU's encoder failed and another turn is
due, and otherwise whether the encoder failed, or what it put out. -/
def attempt (e : FrameEncoder b) (picture : π) (size : ℕ × ℕ) (now : ℕ) :
    Option (Option (List U8)) × FrameEncoder b :=
  let e := e.ensure size
  match e.encoder with
  | none => (some none, e)
  | some encoder =>
    -- Never two keyframes back to back.
    let keyframe := e.keyframe && decide (minKeyframeInterval ≤ now - e.lastKeyframe)
    let e := if keyframe then { e with keyframe := false } else e
    match b.encode picture keyframe encoder with
    | (some data, encoder) => (some (some data), { e with encoder := some encoder })
    | (none, encoder) =>
      if encoder.isLeft then (none, { e with encoder := none, hardware := false, keyframe := true })
      else (some none, { e with encoder := some encoder })

/-- `encode`: `none` is an error.  A second turn cannot ask for a third, since the encoder it
opens is openh264. -/
def encode (scaler : Scaler π) (e : FrameEncoder b) (picture : Capture) (now : ℕ) :
    Option (Option (List U8)) × FrameEncoder b :=
  if picture.width = 0 ∨ picture.height = 0 ∨ picture.pixels.length < picture.width * picture.height * 4 then (none, e)
  else
    let size := scaler.size picture
    let e := if e.dimensions = some size then e else { e with encoder := none, dimensions := some size }
    let planes := scaler.fill picture size
    let (first, e) := e.attempt planes size now
    let (outcome, e) :=
      match first with
      | some outcome => (outcome, e)
      | none => ((e.attempt planes size now).1.join, (e.attempt planes size now).2)
    (outcome.map fun data => if data.isEmpty then none else some data, e)

/-- What `submit` does before the picture reaches the encoder: a new frame rate or bitrate. -/
def prepare (e : FrameEncoder b) (fps : ℕ) (target : Option ℕ) : FrameEncoder b :=
  let e := if fps = e.fps then e else { e with fps, encoder := none, keyframe := true }
  match target with
  | none => e
  | some bitrate => { e with bitrate, encoder := e.encoder.map (b.setBitrate bitrate) }

/-- The rest of `submit` up to `dispatch`: an error, nothing, or an access unit. -/
def submit (scaler : Scaler π) (e : FrameEncoder b) (picture : Capture) (now : ℕ) :
    Option (Option (List U8)) × FrameEncoder b :=
  let e := if keyframeInterval ≤ now - e.lastKeyframe then { e with keyframe := true } else e
  let (outcome, e) := e.encode scaler picture now
  match outcome.join with
  | some data => (outcome, if hasIdr data then { e with lastKeyframe := now, keyframe := false } else e)
  | none => (outcome, e)

end FrameEncoder

/-- Where the capturing thread is: at the top of its loop, past the check that the link is not
draining, with what `take_keyframe_request` gave, with a unit for the channel, done. -/
inductive CapturePhase
  | polling
  | polled
  | taken (forced : Bool)
  | encoded (forced : Bool) (unit : AccessUnit)
  | ended
deriving DecidableEq

/-- Where the sending task is: waiting for something, with a unit that waits for its turn,
about to ask for a keyframe, done. -/
inductive SenderPhase
  | selecting
  | pacing (unit : AccessUnit)
  | requesting
  | ended
deriving DecidableEq

/-- A share on the sharer's side, with the units the encoders put out and those that are
written. -/
structure Sharer {π : Type} (b : Backend π) where
  forceKeyframe : Bool
  draining : Bool
  channel : List AccessUnit
  capture : CapturePhase
  encoder : FrameEncoder b
  sender : SenderPhase
  awaitingKey : Bool
  produced : List AccessUnit
  sent : List AccessUnit

/-- What one thread does between two accesses of what they share.  `queued` is the estimate
of the queue, in milliseconds, if there is one. -/
inductive SharerAction
  | poll
  | takeRequest
  | skip
  | submit (fps : ℕ) (target : Option ℕ) (picture : Capture) (now : ℕ)
  | dispatch
  | restart (fps bitrate now : ℕ)
  | endCapture
  | receive (queued : Option ℕ)
  | requestKeyframe
  | send (ok : Bool)
  | tick (queued : Option ℕ)
  | report (shed : Bool)
  | endSender

namespace Sharer

variable {π : Type} {b : Backend π}

/-- `rate::start`, and a share that starts. -/
def start (b : Backend π) (fps bitrate now : ℕ) : Sharer b :=
  ⟨false, false, [], .polling, .new b fps bitrate now 0, .selecting, false, [], []⟩

/-- A picture that was not sent: a request that was taken for it is made again. -/
def putBack (s : Sharer b) (forced : Bool) : Sharer b :=
  { s with capture := .polling, forceKeyframe := s.forceKeyframe || forced }

/-- `submit` up to `dispatch`. -/
def submit (scaler : Scaler π) (s : Sharer b) (forced : Bool) (fps : ℕ) (target : Option ℕ) (picture : Capture)
    (now : ℕ) : Sharer b :=
  let e := s.encoder.prepare fps target
  -- The network is behind.
  if videoChannelBound ≤ s.channel.length then { s with encoder := e }.putBack forced
  else
    match e.submit scaler picture now with
    -- The thread ends, and the encoder is dropped.
    | (none, _) => { s with capture := .ended }
    | (some none, e) => { s with encoder := e }.putBack forced
    | (some (some data), e) =>
      let unit : AccessUnit := ⟨e.opened, s.produced.length, data⟩
      { s with encoder := e, capture := .encoded forced unit, produced := s.produced ++ [unit] }

/-- `dispatch`: the channel takes the unit, or it is lost. -/
def dispatch (s : Sharer b) (forced : Bool) (unit : AccessUnit) : Sharer b :=
  if s.sender = .ended ∨ videoChannelBound ≤ s.channel.length then
    ({ s with forceKeyframe := true } : Sharer b).putBack forced
  else { s with channel := s.channel ++ [unit], capture := .polling }

/-- The queue is as long as it may be. -/
def full (queued : Option ℕ) : Bool := queued.any fun queue => decide (drainHard ≤ queue)

/-- A unit is taken out of the channel. -/
def receive (s : Sharer b) (queued : Option ℕ) (unit : AccessUnit) (channel : List AccessUnit) : Sharer b :=
  -- A late frame is not worth sending.
  if s.draining || full queued then { s with channel, draining := true, sender := .requesting }
  else if s.awaitingKey && !isKeyframe unit.data then { s with channel }
  else { s with channel, sender := .pacing unit }

/-- The queue is looked at while nothing is sent. -/
def tick (s : Sharer b) (queued : Option ℕ) : Sharer b :=
  if s.draining then
    if queued.all fun queue => decide (queue < drainTarget) then
      { s with draining := false, sender := .requesting }
    else s
  else if full queued then { s with draining := true, sender := .requesting }
  else s

/-- One action. -/
def step (scaler : Scaler π) (s : Sharer b) : SharerAction → Option (Sharer b)
  | .poll =>
    match s.capture with
    | .polling => some (if s.draining then s else { s with capture := .polled })
    | _ => none
  | .takeRequest =>
    match s.capture with
    | .polled =>
      let encoder := if s.forceKeyframe then { s.encoder with keyframe := true } else s.encoder
      some { s with forceKeyframe := false, encoder, capture := .taken s.forceKeyframe }
    | _ => none
  | .skip =>
    match s.capture with
    | .taken forced => some (s.putBack forced)
    | _ => none
  | .submit fps target picture now =>
    match s.capture with
    | .taken forced => some (s.submit scaler forced fps target picture now)
    | _ => none
  | .dispatch =>
    match s.capture with
    | .encoded forced unit => some (s.dispatch forced unit)
    | _ => none
  | .restart fps bitrate now =>
    match s.capture with
    | .polling | .ended => some { s with capture := .polling, encoder := .new b fps bitrate now s.encoder.opened }
    | _ => none
  | .endCapture =>
    match s.capture with
    | .encoded .. => none
    | _ => some { s with capture := .ended }
  | .receive queued =>
    match s.sender, s.channel with
    | .selecting, unit :: channel => some (s.receive queued unit channel)
    | _, _ => none
  | .requestKeyframe =>
    match s.sender with
    | .requesting => some { s with forceKeyframe := true, awaitingKey := true, sender := .selecting }
    | _ => none
  | .send ok =>
    match s.sender with
    | .pacing unit =>
      some (if ok then { s with sent := s.sent ++ [unit], awaitingKey := false, sender := .selecting }
        else { s with sender := .ended })
    | _ => none
  | .tick queued =>
    match s.sender with
    | .selecting => some (s.tick queued)
    | _ => none
  | .report shed => some { s with forceKeyframe := s.forceKeyframe || shed }
  | .endSender => some { s with sender := .ended }

end Sharer

/-! ### What an encoder puts out -/

namespace FrameEncoder

variable {π : Type} {b : Backend π} (c : b.Contract) {e : FrameEncoder b} {last : Option ℕ}

/-- The open encoder has put out the last unit, or is new. -/
def Continues (e : FrameEncoder b) (last : Option ℕ) : Prop :=
  ∀ encoder ∈ e.encoder, c.Fresh encoder ∨ last = some e.opened

/-- A keyframe comes next, or is owed. -/
def Owes (e : FrameEncoder b) : Prop := e.keyframe = true ∨ ∀ encoder ∈ e.encoder, c.Owes encoder

/-- An encoder that opens begins with a keyframe. -/
theorem open'_fresh {settings : EncoderSettings} {hardware hardware' : Bool} {encoder : b.Encoder}
    (h : b.open' settings hardware = (some encoder, hardware')) : c.Fresh encoder := by
  unfold Backend.open' at h
  split at h
  · rename_i gpu hgpu
    obtain rfl : .inl gpu = encoder := Option.some.inj (Prod.mk.inj h).1
    cases hardware with
    | true => exact c.fresh_hardware _ _ hgpu
    | false => cases hgpu
  · obtain ⟨cpu, hcpu, rfl⟩ := Option.map_eq_some_iff.1 (Prod.mk.inj h).1
    exact c.fresh_software _ _ hcpu

/-- An encoder that is opened is new. -/
theorem ensure_spec (size : ℕ × ℕ) (hcontinues : e.Continues c last) :
    (e.ensure size).Continues c last ∧ (e.Owes c → (e.ensure size).Owes c) := by
  unfold ensure
  split
  · exact ⟨hcontinues, fun h => h⟩
  · rename_i hnone
    split
    · rename_i encoder hardware hopen
      have hfresh := open'_fresh c hopen
      refine ⟨?_, fun _ => .inr ?_⟩
      · rintro _ ⟨⟩
        exact .inl hfresh
      · rintro _ ⟨⟩
        exact c.owes_fresh encoder hfresh
    · have hempty : ∀ encoder, encoder ∉ e.encoder := by
        rw [hnone]
        exact fun _ => Option.not_mem_none _
      exact ⟨fun encoder h => absurd h (hempty encoder), fun _ => .inr fun encoder h => absurd h (hempty encoder)⟩

/-- **What a unit is predicted from**: it is an IDR, or the encoder has put out the last one. -/
def Follows (e : FrameEncoder b) (last : Option ℕ) (data : List U8) : Prop :=
  hasIdr data = true ∨ last = some e.opened

/-- **One attempt to encode** follows the last unit, or gives the encoder up and asks for a keyframe. -/
theorem attempt_spec {picture : π} {size : ℕ × ℕ} {now : ℕ} {e' : FrameEncoder b}
    {outcome : Option (Option (List U8))} (hcontinues : e.Continues c last)
    (h : e.attempt picture size now = (outcome, e')) :
    (outcome = none → e'.encoder = none ∧ e'.keyframe = true) ∧
      ∀ data, outcome = some (some data) →
        (e'.Follows last data ∨ data = [] ∧ e'.Continues c last) ∧
          (e.Owes c → hasIdr data = true ∨ e'.Owes c) := by
  obtain ⟨hcontinues, howes⟩ := ensure_spec c size hcontinues
  unfold attempt at h
  dsimp only at h
  split at h
  · obtain ⟨rfl, rfl⟩ := Prod.mk.inj h
    refine ⟨fun h => ?_, fun data h => ?_⟩
    · cases h
    · cases h
  · rename_i encoder hencoder
    split at h
    · rename_i data encoder' hencode
      obtain ⟨rfl, rfl⟩ := Prod.mk.inj h
      refine ⟨fun h => absurd h (Option.some_ne_none _), fun data' hdata => ?_⟩
      obtain rfl := Option.some.inj (Option.some.inj hdata)
      refine ⟨?_, fun h => ?_⟩
      · rcases hcontinues encoder hencoder with hfresh | hlast
        · rcases c.fresh_encode _ _ _ _ _ hfresh hencode with hidr | ⟨rfl, hfresh'⟩
          · exact .inl (.inl hidr)
          · refine .inr ⟨rfl, ?_⟩
            rintro _ ⟨⟩
            exact .inl hfresh'
        · refine .inl (.inr ?_)
          split_ifs
          · exact hlast
          · exact hlast
      · rcases howes h with hkey | howed
        · by_cases hasked : ((e.ensure size).keyframe &&
              decide (minKeyframeInterval ≤ now - (e.ensure size).lastKeyframe)) = true
          · rcases c.owes_encode _ _ _ _ _ (.inr hasked) hencode with hidr | howed
            · exact .inl hidr
            · refine .inr (.inr ?_)
              rintro _ ⟨⟩
              exact howed
          · rw [if_neg hasked]
            exact .inr (.inl hkey)
        · rcases c.owes_encode _ _ _ _ _ (.inl (howed encoder hencoder)) hencode with hidr | howed
          · exact .inl hidr
          · refine .inr (.inr ?_)
            rintro _ ⟨⟩
            exact howed
    · rename_i encoder' hencode
      by_cases hleft : encoder'.isLeft = true
      · rw [if_pos hleft] at h
        obtain ⟨rfl, rfl⟩ := Prod.mk.inj h
        exact ⟨fun _ => ⟨rfl, rfl⟩, fun data hdata => absurd hdata.symm (Option.some_ne_none _)⟩
      · rw [if_neg hleft] at h
        obtain ⟨rfl, rfl⟩ := Prod.mk.inj h
        refine ⟨fun hnone => absurd hnone (Option.some_ne_none _), fun data hdata => ?_⟩
        exact absurd (Option.some.inj hdata).symm (Option.some_ne_none _)

/-- What `encode` and `submit` promise of a unit, or of none. -/
structure Promises (e e' : FrameEncoder b) (last : Option ℕ) (outcome : Option (List U8)) : Prop where
  skipped : outcome = none → e'.Continues c last ∧ (e.Owes c → e'.Owes c)
  follows : ∀ data ∈ outcome, e'.Follows last data
  owes : ∀ data ∈ outcome, e.Owes c → hasIdr data = true ∨ e'.Owes c

variable {c} {e' : FrameEncoder b} {outcome : Option (List U8)}

/-- What is promised behind a step that owes no less. -/
theorem Promises.of_owes {e₀ : FrameEncoder b} (h : Promises c e e' last outcome) (howes : e₀.Owes c → e.Owes c) :
    Promises c e₀ e' last outcome :=
  ⟨fun hnone => ⟨(h.skipped hnone).1, fun h₀ => (h.skipped hnone).2 (howes h₀)⟩, h.follows,
    fun data hdata h₀ => h.owes data hdata (howes h₀)⟩

/-- An attempt that gives data keeps the promise. -/
theorem attempt_promises {picture : π} {size : ℕ × ℕ} {now : ℕ} {data : List U8} (hcontinues : e.Continues c last)
    (h : e.attempt picture size now = (some (some data), e')) :
    Promises c e e' last (if data.isEmpty then none else some data) := by
  obtain ⟨hfollows, howes⟩ := (attempt_spec c hcontinues h).2 data rfl
  cases data with
  | nil =>
    have hempty := hasIdr_nil
    refine ⟨fun _ => ⟨?_, fun hkey => ?_⟩, fun _ h => absurd h (Option.not_mem_none _),
      fun _ h => absurd h (Option.not_mem_none _)⟩
    · rcases hfollows with (hidr | hlast) | ⟨-, hcontinues'⟩
      · rw [hempty] at hidr
        cases hidr
      · exact fun _ _ => .inr hlast
      · exact hcontinues'
    · rcases howes hkey with hidr | hkey'
      · rw [hempty] at hidr
        cases hidr
      · exact hkey'
  | cons a data =>
    refine ⟨fun h => absurd h (Option.some_ne_none _), ?_, ?_⟩
    · rintro _ ⟨⟩
      rcases hfollows with hfollows | ⟨hnil, -⟩
      · exact hfollows
      · cases hnil
    · rintro _ ⟨⟩
      exact howes

/-- **What `encode` gives follows the last unit**, whichever encoder it is from. -/
theorem encode_spec {scaler : Scaler π} {picture : Capture} {now : ℕ} (hcontinues : e.Continues c last)
    (h : e.encode scaler picture now = (some outcome, e')) : Promises c e e' last outcome := by
  unfold encode at h
  split at h
  · cases (Prod.mk.inj h).1
  dsimp only at h
  generalize hresized : (if e.dimensions = some (scaler.size picture) then e
    else { e with encoder := none, dimensions := some (scaler.size picture) }) = resized at h
  have hempty : ∀ encoder, encoder ∉ (none : Option b.Encoder) := fun _ => Option.not_mem_none _
  have hkept : resized.Continues c last ∧ (e.Owes c → resized.Owes c) := by
    split_ifs at hresized
    · exact hresized ▸ ⟨hcontinues, fun h => h⟩
    · exact hresized ▸
        ⟨fun encoder h => absurd h (hempty encoder), fun _ => .inr fun encoder h => absurd h (hempty encoder)⟩
  refine Promises.of_owes ?_ hkept.2
  rcases hfirst : resized.attempt (scaler.fill picture (scaler.size picture)) (scaler.size picture) now with ⟨first, e₁⟩
  rw [hfirst] at h
  cases first with
  | some first =>
    cases first with
    | none => cases (Prod.mk.inj h).1
    | some data =>
      obtain ⟨houtcome, rfl⟩ := Prod.mk.inj h
      obtain rfl := Option.some.inj houtcome
      exact attempt_promises hkept.1 hfirst
  | none =>
    -- The GPU's encoder failed; openh264 is opened in its place.
    obtain ⟨hnone, hkey⟩ := (attempt_spec c hkept.1 hfirst).1 rfl
    have hcontinues₁ : e₁.Continues c last := fun encoder h => absurd (hnone ▸ h) (hempty encoder)
    dsimp only at h
    rcases hsecond : e₁.attempt (scaler.fill picture (scaler.size picture)) (scaler.size picture) now with ⟨second, e₂⟩
    rw [hsecond] at h
    match second with
    | none | some none => cases (Prod.mk.inj h).1
    | some (some data) =>
      obtain ⟨houtcome, rfl⟩ := Prod.mk.inj h
      obtain rfl := Option.some.inj houtcome
      exact (attempt_promises hcontinues₁ hsecond).of_owes fun _ => .inl hkey

/-- A new rate or size leaves what the encoder follows. -/
theorem prepare_spec (fps : ℕ) (target : Option ℕ) (hcontinues : e.Continues c last) :
    (e.prepare fps target).Continues c last ∧ (e.Owes c → (e.prepare fps target).Owes c) := by
  have hempty : ∀ encoder, encoder ∉ (none : Option b.Encoder) := fun _ => Option.not_mem_none _
  unfold prepare
  generalize hmoved : (if fps = e.fps then e else { e with fps, encoder := none, keyframe := true }) = moved
  have hkept : moved.Continues c last ∧ (e.Owes c → moved.Owes c) := by
    split_ifs at hmoved
    · exact hmoved ▸ ⟨hcontinues, fun h => h⟩
    · exact hmoved ▸ ⟨fun encoder h => absurd h (hempty encoder), fun _ => .inl rfl⟩
  dsimp only
  cases target with
  | none => exact hkept
  | some bitrate =>
    refine ⟨fun encoder hencoder => ?_, fun h => (hkept.2 h).imp_right fun howes encoder hencoder => ?_⟩
    · obtain ⟨old, hold, rfl⟩ := Option.map_eq_some_iff.1 hencoder
      exact (hkept.1 old hold).imp_left (c.fresh_bitrate old bitrate)
    · obtain ⟨old, hold, rfl⟩ := Option.map_eq_some_iff.1 hencoder
      exact c.owes_bitrate old bitrate (howes old hold)

/-- **What a picture becomes** continues the units before it, and a keyframe is not forgotten. -/
theorem submit_spec {scaler : Scaler π} {picture : Capture} {now : ℕ} (hcontinues : e.Continues c last)
    (h : e.submit scaler picture now = (some outcome, e')) : Promises c e e' last outcome := by
  unfold submit at h
  generalize hdue : (if keyframeInterval ≤ now - e.lastKeyframe then { e with keyframe := true } else e) = due at h
  have hkept : due.Continues c last ∧ (e.Owes c → due.Owes c) := by
    split_ifs at hdue
    · exact hdue ▸ ⟨hcontinues, fun _ => .inl rfl⟩
    · exact hdue ▸ ⟨hcontinues, fun h => h⟩
  refine Promises.of_owes ?_ hkept.2
  dsimp only at h
  rcases hencode : due.encode scaler picture now with ⟨outcome', e₁⟩
  rw [hencode] at h
  cases outcome' with
  | none => cases (Prod.mk.inj h).1
  | some outcome' =>
    have hpromises := encode_spec hkept.1 hencode
    cases outcome' with
    | none =>
      obtain ⟨houtcome, rfl⟩ := Prod.mk.inj h
      obtain rfl := Option.some.inj houtcome
      exact hpromises
    | some data =>
      obtain ⟨houtcome, rfl⟩ := Prod.mk.inj h
      obtain rfl := Option.some.inj houtcome
      refine ⟨fun h => absurd h (Option.some_ne_none _), ?_, ?_⟩
      · rintro _ ⟨⟩
        refine (hpromises.follows data rfl).imp_right fun hlast => ?_
        split_ifs
        · exact hlast
        · exact hlast
      · rintro _ ⟨⟩ howes
        by_cases hidr : hasIdr data = true
        · exact .inl hidr
        · rw [if_neg hidr]
          exact hpromises.owes data rfl howes

end FrameEncoder

/-- A unit with an IDR stands on its own. -/
theorem AccessUnit.key_of_hasIdr (unit : AccessUnit) (h : hasIdr unit.data = true) : unit.Key := by
  obtain ⟨u, hmem, hkind⟩ := List.any_eq_true.1 h
  exact (isKeyframe_iff unit.data).2 ⟨u, hmem, .inl (of_decide_eq_true hkind)⟩

/-! ### What is sent -/

/-- The unit that waits for its turn. -/
def SenderPhase.units : SenderPhase → List AccessUnit
  | .pacing unit => [unit]
  | .selecting | .requesting | .ended => []

/-- The unit that waits for the channel. -/
def CapturePhase.units : CapturePhase → List AccessUnit
  | .encoded _ unit => [unit]
  | .polling | .polled | .taken _ | .ended => []

namespace Sharer

variable {π : Type} {b : Backend π} {scaler : Scaler π} (c : b.Contract) {s s' : Sharer b}

/-- The units between the encoder and the socket. -/
def inFlight (s : Sharer b) : List AccessUnit := s.sender.units ++ s.channel ++ s.capture.units

/-- A unit that does not stand on its own would be sent. -/
def Armed (s : Sharer b) : Prop := s.awaitingKey = false ∧ s.sender ≠ .requesting

/-- The encoder of the last unit. -/
def lastEncoder (s : Sharer b) : Option ℕ := s.produced.getLast?.map (·.encoder)

/-- What holds after every action. -/
structure Inv (s : Sharer b) : Prop where
  restarts : Restarting AccessUnit.Key AccessUnit.Next s.produced
  places : ∀ unit ∈ s.produced.getLast?, unit.place + 1 = s.produced.length
  continues : s.encoder.Continues c s.lastEncoder
  sound : Restarting AccessUnit.Key AccessUnit.Next s.sent
  room : s.capture.units ≠ [] → s.channel.length < videoChannelBound
  paced : ∀ unit ∈ s.sender.units, s.awaitingKey = true → unit.Key
  flight : s.sender = .ended ∨
    ∃ gone, s.produced = gone ++ s.inFlight ∧ (s.Armed → s.sent.getLast? = gone.getLast?)

variable {c}

/-- The capturing thread goes on without a unit. -/
theorem Inv.keep (h : s.Inv c) {capture : CapturePhase} {encoder : FrameEncoder b} (forceKeyframe : Bool)
    (hs : s.capture.units = []) (hcapture : capture.units = []) (hcontinues : encoder.Continues c s.lastEncoder) :
    ({ s with forceKeyframe, capture, encoder } : Sharer b).Inv c where
  restarts := h.restarts
  places := h.places
  continues := hcontinues
  sound := h.sound
  room hne := absurd hcapture hne
  paced := h.paced
  flight := by
    refine h.flight.imp_right fun ⟨gone, hgone, hlast⟩ => ⟨gone, ?_, hlast⟩
    unfold inFlight at hgone ⊢
    rw [hs] at hgone
    rw [hcapture]
    exact hgone

/-- A request that is put back is not lost. -/
theorem Inv.putBack (h : s.Inv c) (hs : s.capture.units = []) (forced : Bool) : (s.putBack forced).Inv c :=
  h.keep _ hs rfl h.continues

/-- **A new unit** stands on its own, or the encoder has put out the one before it. -/
theorem Inv.produce (h : s.Inv c) (hs : s.capture.units = []) {encoder : FrameEncoder b} {forced : Bool}
    {data : List U8} (hroom : s.channel.length < videoChannelBound) (hfollows : encoder.Follows s.lastEncoder data) :
    ({ s with
      encoder, capture := .encoded forced ⟨encoder.opened, s.produced.length, data⟩
      produced := s.produced ++ [⟨encoder.opened, s.produced.length, data⟩] } : Sharer b).Inv c where
  restarts := by
    refine h.restarts.concat (fun hnil => ?_) fun last hlast => ?_
    · rcases hfollows with hidr | hopened
      · exact AccessUnit.key_of_hasIdr _ hidr
      · rw [lastEncoder, hnil] at hopened
        cases hopened
    · rcases hfollows with hidr | hopened
      · exact .inl (AccessUnit.key_of_hasIdr _ hidr)
      · rw [lastEncoder, hlast, Option.map_some, Option.some.injEq] at hopened
        exact .inr ⟨hopened.symm, (h.places last hlast).symm⟩
  places := by
    rw [List.getLast?_concat, List.length_append, List.length_singleton]
    rintro _ ⟨⟩
    rfl
  continues := by
    rw [lastEncoder, List.getLast?_concat]
    exact fun _ _ => .inr rfl
  sound := h.sound
  room _ := hroom
  paced := h.paced
  flight := by
    refine h.flight.imp_right fun ⟨gone, hgone, hlast⟩ => ⟨gone, ?_, hlast⟩
    unfold inFlight at hgone ⊢
    rw [hs, List.append_nil] at hgone
    rw [hgone, List.append_assoc]
    rfl

/-- A picture that is submitted keeps the invariant. -/
theorem Inv.submit (h : s.Inv c) (hs : s.capture.units = []) (forced : Bool) (fps : ℕ) (target : Option ℕ)
    (picture : Capture) (now : ℕ) : (s.submit scaler forced fps target picture now).Inv c := by
  have hprepared := FrameEncoder.prepare_spec fps target h.continues
  unfold Sharer.submit
  dsimp only
  split
  · exact (h.keep s.forceKeyframe hs hs hprepared.1).putBack hs forced
  · rename_i hroom
    split
    · exact h.keep s.forceKeyframe hs rfl h.continues
    · rename_i e he
      have hspec := FrameEncoder.submit_spec hprepared.1 he
      exact (h.keep s.forceKeyframe hs hs (hspec.skipped rfl).1).putBack hs forced
    · rename_i data e he
      have hspec := FrameEncoder.submit_spec hprepared.1 he
      exact h.produce hs (Nat.lt_of_not_le hroom) (hspec.follows data rfl)

/-- **The channel has room for the unit**, as long as the task that empties it runs. -/
theorem dispatch_eq (h : s.Inv c) {forced : Bool} {unit : AccessUnit} (hs : s.capture = .encoded forced unit)
    (hsender : s.sender ≠ .ended) :
    s.dispatch forced unit = { s with channel := s.channel ++ [unit], capture := .polling } := by
  have hroom := h.room (by rw [hs]; exact List.cons_ne_nil _ _)
  exact if_neg fun hor => hor.elim hsender (Nat.not_le_of_lt hroom)

/-- A unit that is dispatched, or dropped, keeps the invariant. -/
theorem Inv.dispatch (h : s.Inv c) {forced : Bool} {unit : AccessUnit} (hs : s.capture = .encoded forced unit) :
    (s.dispatch forced unit).Inv c := by
  by_cases hsender : s.sender = .ended
  · have hlost : s.dispatch forced unit = ({ s with forceKeyframe := true } : Sharer b).putBack forced :=
      if_pos (.inl hsender)
    rw [hlost]
    exact ⟨h.restarts, h.places, h.continues, h.sound, fun hne => absurd rfl hne, h.paced, .inl hsender⟩
  · rw [dispatch_eq h hs hsender]
    refine ⟨h.restarts, h.places, h.continues, h.sound, fun hne => absurd rfl hne, h.paced, ?_⟩
    refine h.flight.imp_right fun ⟨gone, hgone, hlast⟩ => ⟨gone, ?_, hlast⟩
    unfold inFlight at hgone ⊢
    rw [hs] at hgone
    simpa only [CapturePhase.units, List.append_assoc, List.append_nil] using hgone

/-- A unit is taken out of the channel: it is dropped, or it waits for its turn. -/
theorem Inv.receive (h : s.Inv c) (hs : s.sender = .selecting) {unit : AccessUnit} {channel : List AccessUnit}
    (hchannel : s.channel = unit :: channel) (queued : Option ℕ) : (s.receive queued unit channel).Inv c := by
  have hroom : s.capture.units ≠ [] → channel.length < videoChannelBound := fun hne => by
    have hroom := h.room hne
    rw [hchannel] at hroom
    exact (Nat.lt_succ_self _).trans hroom
  obtain hended | ⟨gone, hgone, hlast⟩ := h.flight
  · rw [hs] at hended
    cases hended
  have hflight : s.produced = gone ++ unit :: (channel ++ s.capture.units) := by
    rw [hgone, inFlight, hs, hchannel]
    rfl
  have hflight' : s.produced = (gone ++ [unit]) ++ (channel ++ s.capture.units) := by
    rw [hflight, List.append_assoc]
    rfl
  unfold Sharer.receive
  split_ifs with hlate hskip
  · refine ⟨h.restarts, h.places, h.continues, h.sound, hroom, fun _ hu => absurd hu List.not_mem_nil, .inr ?_⟩
    exact ⟨gone ++ [unit], hflight', fun harmed => absurd rfl harmed.2⟩
  · refine ⟨h.restarts, h.places, h.continues, h.sound, hroom, h.paced, .inr ⟨gone ++ [unit], ?_, fun harmed => ?_⟩⟩
    · rw [inFlight, hs]
      exact hflight'
    · have hwaits := (Bool.and_eq_true_iff.1 hskip).1
      rw [harmed.1] at hwaits
      cases hwaits
  · refine ⟨h.restarts, h.places, h.continues, h.sound, hroom, fun u hu hwaits => ?_,
      .inr ⟨gone, hflight, fun harmed => ?_⟩⟩
    · obtain rfl := List.mem_singleton.1 hu
      have hkey : ¬(!isKeyframe u.data) = true := fun hnot => hskip (Bool.and_eq_true_iff.2 ⟨hwaits, hnot⟩)
      rwa [Bool.not_eq_true', Bool.not_eq_false] at hkey
    · refine hlast ⟨harmed.1, ?_⟩
      rw [hs]
      nofun

/-- **The unit whose turn it is** stands on its own, or the unit before it was sent last. -/
theorem Inv.send (h : s.Inv c) {unit : AccessUnit} (hs : s.sender = .pacing unit) :
    ({ s with sent := s.sent ++ [unit], awaitingKey := false, sender := .selecting } : Sharer b).Inv c := by
  obtain hended | ⟨gone, hgone, hlast⟩ := h.flight
  · rw [hs] at hended
    cases hended
  have hflight : s.produced = (gone ++ [unit]) ++ (s.channel ++ s.capture.units) := by
    rw [hgone, inFlight, hs, List.append_assoc, List.append_assoc]
    rfl
  refine ⟨h.restarts, h.places, h.continues, ?_, h.room, fun _ hu => absurd hu List.not_mem_nil, .inr ?_⟩
  · cases hwaits : s.awaitingKey with
    | true =>
      exact h.sound.concat_restart (h.paced unit (by rw [hs]; exact List.mem_singleton_self unit) hwaits)
    | false =>
      have harmed : s.Armed := by
        refine ⟨hwaits, ?_⟩
        rw [hs]
        nofun
      have hrestarts := (hflight ▸ h.restarts).of_append
      refine h.sound.concat (fun hnil => ?_) fun last hsent => ?_
      · have hgone' : gone = [] := by
          rw [← List.getLast?_eq_none_iff, ← hlast harmed, hnil]
          rfl
        subst hgone'
        exact hrestarts.head unit rfl
      · rw [hlast harmed] at hsent
        obtain ⟨before, rfl⟩ := List.getLast?_eq_some_iff.1 hsent
        exact (List.isChain_append.1 hrestarts.chain).2.2 last hsent unit rfl
  · refine ⟨gone ++ [unit], hflight, fun _ => ?_⟩
    rw [List.getLast?_concat, List.getLast?_concat]

/-- A request on its way keeps the invariant. -/
theorem Inv.requesting (h : s.Inv c) (hs : s.sender = .selecting) (draining : Bool) :
    ({ s with draining, sender := .requesting } : Sharer b).Inv c := by
  refine ⟨h.restarts, h.places, h.continues, h.sound, h.room, fun _ hu => absurd hu List.not_mem_nil, .inr ?_⟩
  obtain hended | ⟨gone, hgone, -⟩ := h.flight
  · rw [hs] at hended
    cases hended
  · refine ⟨gone, ?_, fun harmed => absurd rfl harmed.2⟩
    rw [hgone, inFlight, inFlight, hs]
    rfl

/-- A tick keeps the invariant. -/
theorem Inv.tick (h : s.Inv c) (hs : s.sender = .selecting) (queued : Option ℕ) : (s.tick queued).Inv c := by
  unfold Sharer.tick
  split_ifs
  · exact h.requesting hs false
  · exact h
  · exact h.requesting hs true
  · exact h

/-- **Every action of the two threads keeps the invariant.** -/
theorem Inv.step {action : SharerAction} (h : s.Inv c) (hstep : s.step scaler action = some s') : s'.Inv c := by
  cases action with
  | poll =>
    simp only [Sharer.step] at hstep
    split at hstep
    · rename_i hs
      obtain rfl := Option.some.inj hstep
      split_ifs
      · exact h
      · exact h.keep s.forceKeyframe (hs ▸ rfl) rfl h.continues
    · cases hstep
  | takeRequest =>
    simp only [Sharer.step] at hstep
    split at hstep
    · rename_i hs
      obtain rfl := Option.some.inj hstep
      refine h.keep false (hs ▸ rfl) rfl ?_
      split_ifs
      · exact h.continues
      · exact h.continues
    · cases hstep
  | skip =>
    simp only [Sharer.step] at hstep
    split at hstep
    · rename_i forced hs
      obtain rfl := Option.some.inj hstep
      exact h.putBack (hs ▸ rfl) forced
    · cases hstep
  | submit fps target picture now =>
    simp only [Sharer.step] at hstep
    split at hstep
    · rename_i forced hs
      obtain rfl := Option.some.inj hstep
      exact h.submit (hs ▸ rfl) forced fps target picture now
    · cases hstep
  | dispatch =>
    simp only [Sharer.step] at hstep
    split at hstep
    · rename_i forced unit hs
      obtain rfl := Option.some.inj hstep
      exact h.dispatch hs
    · cases hstep
  | restart fps bitrate now =>
    simp only [Sharer.step] at hstep
    have hnew : (FrameEncoder.new b fps bitrate now s.encoder.opened).Continues c s.lastEncoder :=
      fun _ h => absurd h (Option.not_mem_none _)
    split at hstep
    · rename_i hs
      obtain rfl := Option.some.inj hstep
      exact h.keep s.forceKeyframe (hs ▸ rfl) rfl hnew
    · rename_i hs
      obtain rfl := Option.some.inj hstep
      exact h.keep s.forceKeyframe (hs ▸ rfl) rfl hnew
    · cases hstep
  | endCapture =>
    simp only [Sharer.step] at hstep
    split at hstep
    · cases hstep
    · rename_i hs
      obtain rfl := Option.some.inj hstep
      refine h.keep s.forceKeyframe ?_ rfl h.continues
      cases hcapture : s.capture with
      | encoded forced unit => exact absurd hcapture (hs forced unit)
      | polling | polled | taken | ended => rfl
  | receive queued =>
    simp only [Sharer.step] at hstep
    split at hstep
    · rename_i unit channel hs hchannel
      obtain rfl := Option.some.inj hstep
      exact h.receive hs hchannel queued
    · cases hstep
  | requestKeyframe =>
    simp only [Sharer.step] at hstep
    split at hstep
    · rename_i hs
      obtain rfl := Option.some.inj hstep
      refine ⟨h.restarts, h.places, h.continues, h.sound, h.room, fun _ hu => absurd hu List.not_mem_nil, .inr ?_⟩
      obtain hended | ⟨gone, hgone, -⟩ := h.flight
      · rw [hs] at hended
        cases hended
      · refine ⟨gone, ?_, fun harmed => Bool.noConfusion harmed.1⟩
        rw [hgone, inFlight, inFlight, hs]
        rfl
    · cases hstep
  | send ok =>
    simp only [Sharer.step] at hstep
    split at hstep
    · rename_i unit hs
      obtain rfl := Option.some.inj hstep
      split_ifs
      · exact h.send hs
      · exact ⟨h.restarts, h.places, h.continues, h.sound, h.room, fun _ hu => absurd hu List.not_mem_nil, .inl rfl⟩
    · cases hstep
  | tick queued =>
    simp only [Sharer.step] at hstep
    split at hstep
    · rename_i hs
      obtain rfl := Option.some.inj hstep
      exact h.tick hs queued
    · cases hstep
  | report shed =>
    obtain rfl := Option.some.inj hstep
    exact ⟨h.restarts, h.places, h.continues, h.sound, h.room, h.paced, h.flight⟩
  | endSender =>
    obtain rfl := Option.some.inj hstep
    exact ⟨h.restarts, h.places, h.continues, h.sound, h.room, fun _ hu => absurd hu List.not_mem_nil, .inl rfl⟩

/-- A share that starts has the invariant. -/
theorem start_inv (c : b.Contract) (fps bitrate now : ℕ) : (start b fps bitrate now).Inv c where
  restarts := .nil
  places _ h := absurd h (Option.not_mem_none _)
  continues _ h := absurd h (Option.not_mem_none _)
  sound := .nil
  room h := absurd rfl h
  paced _ h := absurd h List.not_mem_nil
  flight := .inr ⟨[], rfl, fun _ => rfl⟩

/-- Every run keeps the invariant. -/
theorem inv_of_exec (c : b.Contract) {fps bitrate now : ℕ} {actions : List SharerAction}
    (h : exec (step scaler) (start b fps bitrate now) actions = some s) : s.Inv c :=
  exec_induct (fun _ _ _ h _ hstep => h.step hstep) (start_inv c fps bitrate now) (meets_true _ _ _) h

/-! ### A keyframe is on its way -/

variable (c) in
/-- A keyframe is asked for, comes next or is owed, or is between the encoder and the socket;
or a thread has ended or is about to ask. -/
def Recovers (s : Sharer b) : Prop :=
  s.forceKeyframe = true ∨ s.encoder.Owes c ∨ (∃ unit ∈ s.inFlight, unit.Key) ∨ s.capture = .ended ∨
    s.sender = .ended ∨ s.sender = .requesting

variable (c) in
/-- A task that waits does not wait in vain. -/
def Hopeful (s : Sharer b) : Prop := s.awaitingKey = true → s.Recovers c

/-- The capturing thread goes on: what was asked for is asked for again or owed, and what was
owed still is. -/
theorem Recovers.keep (h : s.Recovers c) (hs : s.capture ≠ .ended) (hunits : s.capture.units = [])
    {forceKeyframe : Bool} (capture : CapturePhase) {encoder : FrameEncoder b}
    (hforce : s.forceKeyframe = true → forceKeyframe = true ∨ encoder.Owes c)
    (howes : s.encoder.Owes c → encoder.Owes c) :
    ({ s with forceKeyframe, capture, encoder } : Sharer b).Recovers c := by
  rcases h with hforced | howed | ⟨unit, hmem, hkey⟩ | hended | hsender
  · exact (hforce hforced).imp_right .inl
  · exact .inr (.inl (howes howed))
  · refine .inr (.inr (.inl ⟨unit, ?_, hkey⟩))
    unfold inFlight at hmem ⊢
    rw [hunits, List.append_nil] at hmem
    exact List.mem_append_left _ hmem
  · exact absurd hended hs
  · exact .inr (.inr (.inr (.inr hsender)))

/-- A request that is put back is still on its way. -/
theorem Recovers.putBack (h : s.Recovers c) (hs : s.capture ≠ .ended) (hunits : s.capture.units = []) (forced : Bool) :
    (s.putBack forced).Recovers c :=
  h.keep hs hunits .polling (fun hforce => .inl (Bool.or_eq_true_iff.2 (.inl hforce))) fun h => h

/-- **A picture that is encoded** brings the keyframe that is owed, or leaves it owed. -/
theorem Recovers.submit (hinv : s.Inv c) (h : s.Recovers c) (hs : s.capture ≠ .ended) (hunits : s.capture.units = [])
    (forced : Bool) (fps : ℕ) (target : Option ℕ) (picture : Capture) (now : ℕ) :
    (s.submit scaler forced fps target picture now).Recovers c := by
  obtain ⟨hcontinues, howes⟩ := FrameEncoder.prepare_spec fps target hinv.continues
  unfold Sharer.submit
  dsimp only
  split
  · exact (h.keep hs hunits s.capture .inl howes).putBack hs hunits forced
  · split
    · exact .inr (.inr (.inr (.inl rfl)))
    · rename_i e he
      have hspec := FrameEncoder.submit_spec hcontinues he
      exact (h.keep hs hunits s.capture .inl fun howed => (hspec.skipped rfl).2 (howes howed)).putBack hs hunits forced
    · rename_i data e he
      have hspec := FrameEncoder.submit_spec hcontinues he
      rcases h with hforce | howed | ⟨unit, hmem, hkey⟩ | hended | hsender
      · exact .inl hforce
      · rcases hspec.owes data rfl (howes howed) with hidr | howed
        · let unit : AccessUnit := ⟨e.opened, s.produced.length, data⟩
          refine .inr (.inr (.inl ⟨unit, ?_, unit.key_of_hasIdr hidr⟩))
          exact List.mem_append_right _ (List.mem_singleton_self unit)
        · exact .inr (.inl howed)
      · refine .inr (.inr (.inl ⟨unit, ?_, hkey⟩))
        unfold inFlight at hmem ⊢
        rw [hunits, List.append_nil] at hmem
        exact List.mem_append_left _ hmem
      · exact absurd hended hs
      · exact .inr (.inr (.inr (.inr hsender)))

/-- A unit that is dropped asks for a keyframe. -/
theorem Recovers.dispatch (hinv : s.Inv c) (h : s.Recovers c) {forced : Bool} {unit : AccessUnit}
    (hs : s.capture = .encoded forced unit) : (s.dispatch forced unit).Recovers c := by
  by_cases hsender : s.sender = .ended
  · have hlost : s.dispatch forced unit = ({ s with forceKeyframe := true } : Sharer b).putBack forced :=
      if_pos (.inl hsender)
    rw [hlost]
    exact .inr (.inr (.inr (.inr (.inl hsender))))
  · rw [dispatch_eq hinv hs hsender]
    rcases h with hforce | howed | ⟨u, hmem, hkey⟩ | hended | hsender
    · exact .inl hforce
    · exact .inr (.inl howed)
    · refine .inr (.inr (.inl ⟨u, ?_, hkey⟩))
      unfold inFlight at hmem ⊢
      rw [hs] at hmem
      simpa only [CapturePhase.units, List.append_assoc, List.append_nil] using hmem
    · rw [hs] at hended
      cases hended
    · exact .inr (.inr (.inr (.inr hsender)))

/-- The capture thread does not read what the sender waits for. -/
theorem submit_awaitingKey (s : Sharer b) (forced : Bool) (fps : ℕ) (target : Option ℕ) (picture : Capture)
    (now : ℕ) : (s.submit scaler forced fps target picture now).awaitingKey = s.awaitingKey := by
  unfold Sharer.submit
  dsimp only
  split
  · rfl
  · split <;> rfl

/-- Nor does a dispatch. -/
theorem dispatch_awaitingKey (s : Sharer b) (forced : Bool) (unit : AccessUnit) :
    (s.dispatch forced unit).awaitingKey = s.awaitingKey := by
  unfold Sharer.dispatch
  split <;> rfl

/-- A sender that drops a unit waits for a keyframe, and asks for it. -/
theorem Hopeful.receive (h : s.Hopeful c) (hs : s.sender = .selecting) {unit : AccessUnit}
    {channel : List AccessUnit} (hchannel : s.channel = unit :: channel) (queued : Option ℕ) :
    (s.receive queued unit channel).Hopeful c := by
  unfold Sharer.receive
  split_ifs with hlate hskip
  · exact fun _ => .inr (.inr (.inr (.inr (.inr rfl))))
  · -- The unit that is dropped is no keyframe.
    intro hwaits
    rcases h hwaits with hforce | howed | ⟨u, hmem, hkey⟩ | hended | hsender
    · exact .inl hforce
    · exact .inr (.inl howed)
    · refine .inr (.inr (.inl ⟨u, ?_, hkey⟩))
      unfold inFlight at hmem ⊢
      rw [hs, hchannel] at hmem
      rcases List.mem_cons.1 hmem with rfl | hmem
      · have hnot := (Bool.and_eq_true_iff.1 hskip).2
        unfold AccessUnit.Key at hkey
        rw [hkey] at hnot
        cases hnot
      · rw [hs]
        exact hmem
    · exact .inr (.inr (.inr (.inl hended)))
    · exact .inr (.inr (.inr (.inr hsender)))
  · intro hwaits
    rcases h hwaits with hforce | howed | ⟨u, hmem, hkey⟩ | hended | hsender
    · exact .inl hforce
    · exact .inr (.inl howed)
    · refine .inr (.inr (.inl ⟨u, ?_, hkey⟩))
      unfold inFlight at hmem ⊢
      rw [hs, hchannel] at hmem
      exact hmem
    · exact .inr (.inr (.inr (.inl hended)))
    · rw [hs] at hsender
      rcases hsender with hsender | hsender <;> cases hsender

/-- **Every action leaves a keyframe on its way** to a sender that waits. -/
theorem Hopeful.step {action : SharerAction} (hinv : s.Inv c) (h : s.Hopeful c)
    (hstep : s.step scaler action = some s') : s'.Hopeful c := by
  cases action with
  | poll =>
    simp only [Sharer.step] at hstep
    split at hstep
    · rename_i hs
      obtain rfl := Option.some.inj hstep
      split_ifs
      · exact h
      · exact fun hwaits => (h hwaits).keep (hs ▸ nofun) (hs ▸ rfl) .polled .inl fun h => h
    · cases hstep
  | takeRequest =>
    simp only [Sharer.step] at hstep
    split at hstep
    · rename_i hs
      obtain rfl := Option.some.inj hstep
      refine fun hwaits => (h hwaits).keep (hs ▸ nofun) (hs ▸ rfl) _ (fun hforce => .inr ?_) fun howes => ?_
      · rw [if_pos hforce]
        exact .inl rfl
      · split_ifs
        · exact .inl rfl
        · exact howes
    · cases hstep
  | skip =>
    simp only [Sharer.step] at hstep
    split at hstep
    · rename_i forced hs
      obtain rfl := Option.some.inj hstep
      exact fun hwaits => (h hwaits).putBack (hs ▸ nofun) (hs ▸ rfl) forced
    · cases hstep
  | submit fps target picture now =>
    simp only [Sharer.step] at hstep
    split at hstep
    · rename_i forced hs
      obtain rfl := Option.some.inj hstep
      intro hwaits
      rw [submit_awaitingKey] at hwaits
      exact (h hwaits).submit hinv (hs ▸ nofun) (hs ▸ rfl) forced fps target picture now
    · cases hstep
  | dispatch =>
    simp only [Sharer.step] at hstep
    split at hstep
    · rename_i forced unit hs
      obtain rfl := Option.some.inj hstep
      intro hwaits
      rw [dispatch_awaitingKey] at hwaits
      exact (h hwaits).dispatch hinv hs
    · cases hstep
  | restart fps bitrate now =>
    simp only [Sharer.step] at hstep
    split at hstep
    · obtain rfl := Option.some.inj hstep
      exact fun _ => .inr (.inl (.inr fun _ h => absurd h (Option.not_mem_none _)))
    · obtain rfl := Option.some.inj hstep
      exact fun _ => .inr (.inl (.inr fun _ h => absurd h (Option.not_mem_none _)))
    · cases hstep
  | endCapture =>
    simp only [Sharer.step] at hstep
    split at hstep
    · cases hstep
    · obtain rfl := Option.some.inj hstep
      exact fun _ => .inr (.inr (.inr (.inl rfl)))
  | receive queued =>
    simp only [Sharer.step] at hstep
    split at hstep
    · rename_i unit channel hs hchannel
      obtain rfl := Option.some.inj hstep
      exact h.receive hs hchannel queued
    · cases hstep
  | requestKeyframe =>
    simp only [Sharer.step] at hstep
    split at hstep
    · obtain rfl := Option.some.inj hstep
      exact fun _ => .inl rfl
    · cases hstep
  | send ok =>
    simp only [Sharer.step] at hstep
    split at hstep
    · obtain rfl := Option.some.inj hstep
      split_ifs
      · exact fun hwaits => Bool.noConfusion hwaits
      · exact fun _ => .inr (.inr (.inr (.inr (.inl rfl))))
    · cases hstep
  | tick queued =>
    simp only [Sharer.step] at hstep
    split at hstep
    · obtain rfl := Option.some.inj hstep
      unfold Sharer.tick
      split_ifs
      · exact fun _ => .inr (.inr (.inr (.inr (.inr rfl))))
      · exact h
      · exact fun _ => .inr (.inr (.inr (.inr (.inr rfl))))
      · exact h
    · cases hstep
  | report shed =>
    obtain rfl := Option.some.inj hstep
    intro hwaits
    exact (h hwaits).imp_left fun hforce => Bool.or_eq_true_iff.2 (.inl hforce)
  | endSender =>
    obtain rfl := Option.some.inj hstep
    exact fun _ => .inr (.inr (.inr (.inr (.inl rfl))))

/-- **A sharer that has stopped sending does not wait in vain**: in any run, while its task
drops what does not stand on its own, a keyframe is asked for, owed by the encoder or on its
way, as long as both threads run. -/
theorem keyframe_on_its_way (scaler : Scaler π) (c : b.Contract) (fps bitrate now : ℕ) (actions : List SharerAction)
    (s : Sharer b) (h : exec (step scaler) (start b fps bitrate now) actions = some s) (hwaits : s.awaitingKey = true) :
    s.Recovers c := by
  let Both : Sharer b → Prop := fun s => s.Inv c ∧ s.Hopeful c
  have hboth : Both s :=
    exec_induct (fun _ _ _ h _ hstep => ⟨h.1.step hstep, h.2.step h.1 hstep⟩)
      ⟨start_inv c fps bitrate now, fun h => Bool.noConfusion h⟩ (meets_true _ _ _) h
  exact hboth.2 hwaits

/-- An openh264 that puts out an IDR when it is new or asked for one, and no GPU. -/
def openh264 : Backend Unit where
  Hardware := Empty
  Software := Bool
  openHardware _ := none
  openSoftware _ := some true
  encodeHardware encoder _ _ := nomatch encoder
  encodeSoftware owes _ keyframe := (some (annexB (if owes || keyframe then [0x65] else [0x41])), false)
  rateHardware encoder _ := encoder
  rateSoftware owes _ := owes

/-- It does what the documentation says. -/
def openh264Contract : openh264.Contract where
  Fresh encoder := encoder = .inr true
  Owes encoder := encoder = .inr true
  fresh_hardware _ encoder := nomatch encoder
  fresh_software _ _ h := congrArg Sum.inr (Option.some.inj h).symm
  fresh_bitrate encoder _ h := by
    cases encoder with
    | inl encoder => exact nomatch encoder
    | inr owes => exact h
  fresh_encode := by
    rintro _ picture keyframe data encoder' rfl h
    obtain ⟨hdata, rfl⟩ := Prod.mk.inj h
    obtain rfl := Option.some.inj hdata
    rw [Bool.true_or]
    exact .inl (by decide +kernel)
  owes_fresh _ h := h
  owes_bitrate encoder _ h := by
    cases encoder with
    | inl encoder => exact nomatch encoder
    | inr owes => exact h
  owes_encode := by
    rintro encoder picture keyframe data encoder' howes h
    cases encoder with
    | inl encoder => exact nomatch encoder
    | inr owes =>
      obtain ⟨hdata, rfl⟩ := Prod.mk.inj h
      obtain rfl := Option.some.inj hdata
      have hkey : (owes || keyframe) = true := by
        rcases howes with howes | rfl
        · rw [Sum.inr.inj howes]
          rfl
        · exact Bool.or_true owes
      rw [hkey]
      exact .inl (by decide +kernel)

/-- The planes are left out. -/
def sizeOnly : Scaler Unit := ⟨fun picture => (picture.width, picture.height), fun _ _ => ()⟩

/-- A picture that comes too late, and the request for another one. -/
theorem keyframe_on_its_way_late :
    ∃ s : Sharer openh264, s.awaitingKey = true ∧ s.Recovers openh264Contract := by
  have hwaits : (exec (step sizeOnly) (start openh264 30 2500000 0) [.poll, .takeRequest,
      .submit 30 none ⟨1, 1, [0, 0, 0, 0]⟩ 0, .dispatch, .receive (some 300), .requestKeyframe]).map (·.awaitingKey) =
        some true := by decide +kernel
  obtain ⟨s, hs, hwaits⟩ := Option.map_eq_some_iff.1 hwaits
  exact ⟨s, hwaits, keyframe_on_its_way sizeOnly openh264Contract 30 2500000 0 _ s hs hwaits⟩

end Sharer

end Why2
