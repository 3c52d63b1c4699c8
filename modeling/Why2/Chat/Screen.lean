/-
# The relay of a screen share

A share is one task that reads the sharer's frames and offers each to every
viewer's queue, and one task for each viewer that writes what is in its queue
(`screen`, `spawn_viewer`, `chat/src/network/screen/server.rs`).  A frame is
either a keyframe, which can be shown on its own, or predicted from the frame
right before it.  A queue that is full drops a predicted frame, and the viewer
then waits for a keyframe (`needs_key`); so does one that has just been attached,
which starts with the last keyframe.

While the sharer is muted, viewers get the frames of a placeholder in place of
the share.  These are keyframes, so no viewer waits after them, and the first
frame after the mute is forwarded as if its predecessor had been, whatever frame
it is (`frame_without_predecessor`).  If the first frame after a mute is a keyframe or
every viewer waits for one by then, every viewer can show every frame it is sent,
whatever the viewers and their writers do (`frames_decodable`).

An action is what a task does between two `await`s or under one lock.  What the
reports to the sharer are made of plays no part here.
-/

import Why2.Core.Grid
import Why2.Lib.Restarts
import Why2.Lib.Runs
import Mathlib.Data.List.AList

namespace Why2

open Lib

/-- `screen::is_keyframe`: the access unit has an IDR slice or an SPS. -/
def isKeyframe : List U8 → Bool
  | a :: b :: c :: d :: rest =>
    if a = 0 ∧ b = 0 ∧ c = 1 then
      if d &&& 0x1f = 5 ∨ d &&& 0x1f = 7 then true else isKeyframe (d :: rest)
    else isKeyframe (b :: c :: d :: rest)
  | _ => false

/-- `screen::consts::VIEWER_VIDEO_BOUND`. -/
def viewerVideoBound : ℕ := 3

/-- `screen::consts::VIEWER_AUDIO_BOUND`. -/
def viewerAudioBound : ℕ := 8

/-- `screen::consts::MUTED_FRAME_INTERVAL`, in milliseconds. -/
def mutedFrameInterval : ℕ := 100

/-- What a sharer sends. -/
inductive ScreenPacketCode
  | video (data : List U8)
  | audio (data : List U8)
  | feedback (delay unsent : BitVec 32) (shed : Bool)

/-- A video frame, and its place among the video frames the sharer sent.  A frame of the
placeholder has none. -/
structure Frame where
  origin : Option ℕ
  data : List U8
deriving DecidableEq

namespace Frame

/-- The frame can be shown on its own. -/
def Key (frame : Frame) : Prop := isKeyframe frame.data = true

instance (frame : Frame) : Decidable frame.Key := inferInstanceAs (Decidable (isKeyframe frame.data = true))

/-- The frame is the sharer's next one. -/
def Next (previous frame : Frame) : Prop :=
  ∃ n, previous.origin = some n ∧ frame.origin = some (n + 1)

end Frame

/-- One packet for a viewer. -/
inductive Queued
  | video (frame : Frame)
  | audio (data : List U8)
deriving DecidableEq

/-- What happened to a video frame that was offered. -/
inductive VideoPush
  | queued
  | shed

/-- A viewer's waiting packets; a video frame with whether it stands on its own. -/
structure ViewerQueue where
  video : List (Frame × Bool)
  audio : List (List U8)
  closed : Bool
deriving DecidableEq

namespace ViewerQueue

/-- `ViewerQueue::new`. -/
def new : ViewerQueue := ⟨[], [], false⟩

/-- `push_video`. -/
def pushVideo (queue : ViewerQueue) (frame : Frame) (keyframe : Bool) : VideoPush × ViewerQueue :=
  if keyframe then (.queued, { queue with video := [(frame, true)] })
  else if viewerVideoBound ≤ queue.video.length then
    -- A keyframe that is already on its way is kept.
    (.shed, if queue.video.any (·.2) then queue else { queue with video := [] })
  else (.queued, { queue with video := queue.video ++ [(frame, false)] })

/-- `push_audio`. -/
def pushAudio (queue : ViewerQueue) (data : List U8) : ViewerQueue :=
  { queue with
    audio := (if viewerAudioBound ≤ queue.audio.length then queue.audio.tail else queue.audio) ++ [data] }

/-- `next`: audio first. -/
def next (queue : ViewerQueue) : Option (Queued × ViewerQueue) :=
  match queue.audio with
  | data :: audio => some (.audio data, { queue with audio })
  | [] =>
    match queue.video with
    | (frame, _) :: video => some (.video frame, { queue with video })
    | [] => none

end ViewerQueue

/-- Where a viewer is: built by `attach`, left for the share, served, let go. -/
inductive ViewerStage
  | building
  | pending
  | serving
  | dropped
deriving DecidableEq

/-- A viewer, with the packet its writer has taken, the video frames that are written, and
whether the writer runs. -/
structure Viewer where
  client : ℕ
  token : Vector U8 32
  queue : ViewerQueue
  needsKey : Bool
  muted : Bool
  stage : ViewerStage
  taken : Option Queued
  written : List Frame
  writing : Bool
deriving DecidableEq

namespace Viewer

/-- `spawn_viewer`: a viewer that has just been attached waits for a keyframe. -/
def spawn (client : ℕ) (token : Vector U8 32) : Viewer :=
  ⟨client, token, .new, true, false, .building, none, [], true⟩

/-- A video frame is offered to the viewer, unless it waits for a keyframe. -/
def forwardVideo (viewer : Viewer) (frame : Frame) : Viewer :=
  let keyframe := isKeyframe frame.data
  if viewer.needsKey && !keyframe then viewer
  else
    match viewer.queue.pushVideo frame keyframe with
    | (.queued, queue) => { viewer with queue, needsKey := false }
    | (.shed, queue) => { viewer with queue, needsKey := true }

/-- A packet is offered; the sharer itself and a viewer that muted the share get no audio. -/
def forward (viewer : Viewer) (id : ℕ) : Queued → Viewer
  | .video frame => viewer.forwardVideo frame
  | .audio data =>
    if viewer.client = id ∨ viewer.muted = true then viewer
    else { viewer with queue := viewer.queue.pushAudio data }

/-- The writer is done with the packet it had taken: it is written, or the socket failed. -/
def write (viewer : Viewer) (item : Queued) (ok : Bool) : Viewer :=
  if ok then
    match item with
    | .video frame => { viewer with taken := none, written := viewer.written ++ [frame] }
    | .audio _ => { viewer with taken := none }
  else { viewer with taken := none, writing := false, queue := { viewer.queue with closed := true } }

/-- The viewer stays served if its socket is open and its client is still attached by this
token; its audio mute is read again. -/
def retain (viewer : Viewer) (entries : List (ℕ × Vector U8 32 × Bool)) : Viewer :=
  if viewer.stage = .serving then
    if viewer.queue.closed then { viewer with stage := .dropped }
    else
      match entries.find? fun entry => entry.1 = viewer.client ∧ entry.2.1 = viewer.token with
      | some entry => { viewer with muted := entry.2.2 }
      | none => { viewer with stage := .dropped }
  else viewer

end Viewer

/-- Where the task of the share is in its loop; `done` are the viewers the packet has been
offered to. -/
inductive Relay
  | reading
  | read (packet : Queued)
  | adopted (packet : Queued)
  | collected (packet : Queued) (entries : List (ℕ × Vector U8 32 × Bool))
  | forwarding (packet : Queued) (done : List ℕ)

/-- A share.  `attached` are the clients that watch it, with the token and the audio mute of
each; `frames` is how many video frames the sharer has sent, and `hidden` whether the last
of them was not forwarded because of a mute. -/
structure ScreenShare where
  id : ℕ
  muted : Bool
  attached : AList fun _ : ℕ => Vector U8 32 × Bool
  keyframe : Option Frame
  pending : List ℕ
  viewers : List Viewer
  relay : Relay
  sentMutedFrame : Option ℕ
  frames : ℕ
  hidden : Bool

/-- What one task does between two `await`s or under one lock. -/
inductive ScreenAction
  | attach (client : ℕ) (token : Vector U8 32)
  /-- The viewer gets the last keyframe. -/
  | open' (k : ℕ)
  | enlist (k : ℕ)
  | deattach (client : ℕ)
  | toggleMute (client : ℕ)
  /-- The sharer is muted or unmuted. -/
  | mute (muted : Bool)
  /-- A packet of the sharer arrives, so many milliseconds after the start of the share. -/
  | receive (code : ScreenPacketCode) (elapsed : ℕ)
  | adopt
  | collect
  | retain
  | forward (k : ℕ)
  | finish
  | take (k : ℕ)
  | write (k : ℕ) (ok : Bool)
  /-- A viewer's socket goes away. -/
  | close (k : ℕ)
  /-- A writer ends. -/
  | stop (k : ℕ)

namespace ScreenShare

/-- A share that starts. -/
def start (id : ℕ) : ScreenShare := ⟨id, false, ∅, none, [], [], .reading, none, 0, false⟩

/-- `muted_frame`: the frame of the placeholder that is due. -/
def mutedFrame (animation : List (List U8)) (elapsed : ℕ) : Option ℕ :=
  if animation.length = 0 then none else some (elapsed / mutedFrameInterval % animation.length)

/-- A viewer that was left for the share takes the place of the client's earlier one. -/
def adoptOne (viewers : List Viewer) (k : ℕ) : List Viewer :=
  match viewers[k]? with
  | some viewer =>
    if viewer.stage = .pending then
      (viewers.map fun other =>
        if other.stage = .serving ∧ other.client = viewer.client then { other with stage := .dropped }
        else other).set k { viewer with stage := .serving }
    else viewers
  | none => viewers

/-- The packet has been offered to every viewer that is served. -/
def allDone (viewers : List Viewer) (done : List ℕ) : Bool :=
  (List.range viewers.length).all fun k => k ∈ done || viewers[k]?.all (·.stage ≠ .serving)

/-- A packet of the sharer is read.  While the sharer is muted, video is replaced by the
frame of the placeholder that is due, and audio dropped. -/
def receive (animation : List (List U8)) (s : ScreenShare) (code : ScreenPacketCode) (elapsed : ℕ) :
    ScreenShare :=
  match s.muted, code with
  | _, .feedback .. => s
  | false, .video data =>
    { s with
      sentMutedFrame := none, frames := s.frames + 1, hidden := false
      relay := .read (.video ⟨some s.frames, data⟩) }
  | false, .audio data => { s with sentMutedFrame := none, relay := .read (.audio data) }
  | true, .audio _ => s
  | true, .video _ =>
    let s := { s with frames := s.frames + 1, hidden := true }
    match mutedFrame animation elapsed with
    | none => s
    | some frame =>
      if s.sentMutedFrame = some frame then s
      else
        { s with
          sentMutedFrame := some frame
          relay := .read (.video ⟨none, animation.getD frame []⟩) }

/-- The last keyframe after a packet. -/
def cache (keyframe : Option Frame) : Queued → Option Frame
  | .video frame => if isKeyframe frame.data then some frame else keyframe
  | .audio _ => keyframe

/-- One action. -/
def step (animation : List (List U8)) (s : ScreenShare) : ScreenAction → Option ScreenShare
  | .attach client token =>
    some { s with
      attached := s.attached.insert client (token, false)
      viewers := s.viewers ++ [.spawn client token] }
  | .open' k => do
    let viewer ← s.viewers[k]?
    match s.keyframe with
    | some frame =>
      if viewer.stage = .building then
        some { s with viewers := s.viewers.set k { viewer with queue := (viewer.queue.pushVideo frame true).2 } }
      else none
    | none => none
  | .enlist k => do
    let viewer ← s.viewers[k]?
    if viewer.stage = .building then
      some { s with pending := s.pending ++ [k], viewers := s.viewers.set k { viewer with stage := .pending } }
    else none
  | .deattach client => some { s with attached := s.attached.erase client }
  | .toggleMute client =>
    match s.attached.lookup client with
    | some (token, muted) => some { s with attached := s.attached.insert client (token, !muted) }
    | none => some s
  | .mute muted => some { s with muted }
  | .receive code elapsed =>
    match s.relay with
    | .reading => some (s.receive animation code elapsed)
    | _ => none
  | .adopt =>
    match s.relay with
    | .read packet =>
      some { s with relay := .adopted packet, pending := [], viewers := s.pending.foldl adoptOne s.viewers }
    | _ => none
  | .collect =>
    match s.relay with
    | .adopted packet =>
      some { s with relay := .collected packet (s.attached.entries.map fun entry => (entry.1, entry.2.1, entry.2.2)) }
    | _ => none
  | .retain =>
    match s.relay with
    | .collected packet entries =>
      some { s with relay := .forwarding packet [], viewers := s.viewers.map (·.retain entries) }
    | _ => none
  | .forward k =>
    match s.relay with
    | .forwarding packet done => do
      let viewer ← s.viewers[k]?
      if viewer.stage = .serving ∧ k ∉ done then
        some { s with
          relay := .forwarding packet (k :: done), viewers := s.viewers.set k (viewer.forward s.id packet) }
      else none
    | _ => none
  | .finish =>
    match s.relay with
    | .forwarding packet done =>
      if allDone s.viewers done then some { s with relay := .reading, keyframe := cache s.keyframe packet }
      else none
    | _ => none
  | .take k => do
    let viewer ← s.viewers[k]?
    let (item, queue) ← viewer.queue.next
    if viewer.writing = true ∧ viewer.taken = none then
      some { s with viewers := s.viewers.set k { viewer with queue, taken := some item } }
    else none
  | .write k ok => do
    let viewer ← s.viewers[k]?
    let item ← viewer.taken
    if viewer.writing = true then some { s with viewers := s.viewers.set k (viewer.write item ok) } else none
  | .close k => do
    let viewer ← s.viewers[k]?
    some { s with viewers := s.viewers.set k { viewer with queue := { viewer.queue with closed := true } } }
  | .stop k => do
    let viewer ← s.viewers[k]?
    -- Its viewer was let go, or it is closed and has nothing left to write.
    if viewer.stage = .dropped ∨ viewer.queue.closed = true ∧ viewer.queue.next = none ∧ viewer.taken = none then
      some { s with viewers := s.viewers.set k { viewer with writing := false, taken := none } }
    else none

/-- A viewer can show every frame it was sent: a predicted frame comes right after the
sharer's frame before it, and what follows a gap or a placeholder is a keyframe. -/
structure Decodable (written : List Frame) : Prop where
  predicted : ∀ (i : ℕ) (frame : Frame), written[i]? = some frame → ¬frame.Key →
    ∃ (j : ℕ) (previous : Frame), i = j + 1 ∧ written[j]? = some previous ∧ previous.Next frame
  resumed : ∀ (i j : ℕ) (last frame : Frame), i < j → written[i]? = some last → written[j]? = some frame →
    (∀ (l : ℕ) (between : Frame), i < l → l < j → written[l]? = some between → between.origin = none) →
      frame.origin ≠ none → ¬last.Next frame → frame.Key

/-! ### After a mute -/

/-- One turn of the loop for a packet, with a single viewer that is served at once. -/
def turn (code : ScreenPacketCode) : List ScreenAction :=
  [.receive code 0, .adopt, .collect, .retain, .forward 0, .finish, .take 0, .write 0 true]

/-- A viewer gets a keyframe, a placeholder in place of the second frame, and the third one. -/
def muteAndUnmute : List ScreenAction :=
  [.attach 1 (.replicate 32 0), .enlist 0] ++ turn (.video [0, 0, 1, 5]) ++ [.mute true] ++
    turn (.video [0, 0, 1, 1]) ++ [.mute false] ++ turn (.video [0, 0, 1, 1])

/-- **A predicted frame is written right after a placeholder.** -/
theorem frame_without_predecessor :
    ¬∀ (animation : List (List U8)), (∀ data ∈ animation, isKeyframe data = true) →
      ∀ (id : ℕ) (actions : List ScreenAction) (s : ScreenShare),
        exec (step animation) (start id) actions = some s → ∀ viewer ∈ s.viewers, Decodable viewer.written := by
  intro h
  have hvalues : (exec (step [[0, 0, 1, 7]]) (start 0) muteAndUnmute).map (·.viewers.map (·.written)) =
      some [[⟨some 0, [0, 0, 1, 5]⟩, ⟨none, [0, 0, 1, 7]⟩, ⟨some 2, [0, 0, 1, 1]⟩]] := by decide +kernel
  obtain ⟨s, hs, hwritten⟩ := Option.map_eq_some_iff.1 hvalues
  obtain ⟨viewer, hviewers, hviewer⟩ := List.map_eq_singleton_iff.1 hwritten
  have hdecodable := h [[0, 0, 1, 7]] (by decide) 0 muteAndUnmute s hs viewer
    (hviewers ▸ List.mem_singleton_self viewer)
  rw [hviewer] at hdecodable
  obtain ⟨j, previous, hj, hprevious, n, horigin, _⟩ := hdecodable.predicted 2 _ rfl (by decide)
  obtain rfl : j = 1 := by omega
  obtain rfl := Option.some.inj hprevious
  cases horigin

end ScreenShare

/-! ### What a viewer is sent -/

/-- The video frame of a packet. -/
def Queued.frames : Queued → List Frame
  | .video frame => [frame]
  | .audio _ => []

namespace Viewer

/-- The video frames that are written and that the writer has yet to write. -/
def frames (viewer : Viewer) : List Frame :=
  if viewer.writing then
    viewer.written ++ ((viewer.taken.map Queued.frames).getD [] ++ viewer.queue.video.map (·.1))
  else viewer.written

/-- Each of these frames is a keyframe or the successor of the one before it. -/
def Sound (viewer : Viewer) : Prop := Restarting Frame.Key Frame.Next viewer.frames

/-- The viewer is sent no predicted frame: nothing is written any more, or it waits for a
keyframe. -/
def Idle (viewer : Viewer) : Prop := viewer.writing = false ∨ viewer.needsKey = true

variable {viewer : Viewer} {frame : Frame}

/-- The frames of a viewer that is written to. -/
theorem frames_of_writing (h : viewer.writing = true) :
    viewer.frames =
      viewer.written ++ ((viewer.taken.map Queued.frames).getD [] ++ viewer.queue.video.map (·.1)) :=
  if_pos h

/-- The frames of a viewer that is not. -/
theorem frames_of_stopped (h : viewer.writing = false) : viewer.frames = viewer.written :=
  if_neg (h ▸ Bool.false_ne_true)

/-- What is written is the beginning. -/
theorem Sound.written (h : viewer.Sound) : Restarting Frame.Key Frame.Next viewer.written := by
  cases hw : viewer.writing with
  | true =>
    unfold Sound at h
    rw [frames_of_writing hw] at h
    exact h.of_append
  | false =>
    unfold Sound at h
    rwa [frames_of_stopped hw] at h

/-- What can happen to a frame that is offered: the viewer goes on waiting, the frame is a
keyframe and replaces the queue, it is added to the queue, or it is dropped. -/
theorem forwardVideo_cases (viewer : Viewer) (frame : Frame) :
    viewer.needsKey = true ∧ viewer.forwardVideo frame = viewer ∨
      ∃ video needsKey,
        viewer.forwardVideo frame = { viewer with queue := { viewer.queue with video }, needsKey } ∧
          (frame.Key ∧ video = [(frame, true)] ∨
            viewer.needsKey = false ∧ video = viewer.queue.video ++ [(frame, false)] ∨
            needsKey = true ∧ (video = viewer.queue.video ∨ video = [])) := by
  unfold forwardVideo
  dsimp only
  split
  · rename_i hskip
    exact .inl ⟨(Bool.and_eq_true_iff.1 hskip).1, rfl⟩
  · rename_i hpass
    refine .inr ?_
    cases hkey : isKeyframe frame.data with
    | true => exact ⟨_, _, rfl, .inl ⟨hkey, rfl⟩⟩
    | false =>
      have hneeds : viewer.needsKey = false := by
        rw [hkey] at hpass
        simpa using hpass
      unfold ViewerQueue.pushVideo
      rw [if_neg Bool.false_ne_true]
      split_ifs
      · exact ⟨_, _, rfl, .inr (.inr ⟨rfl, .inl rfl⟩)⟩
      · exact ⟨_, _, rfl, .inr (.inr ⟨rfl, .inr rfl⟩)⟩
      · exact ⟨_, _, rfl, .inr (.inl ⟨hneeds, rfl⟩)⟩

/-- **A frame is offered to a viewer** that waits for a keyframe or has the frame before. -/
theorem Sound.forwardVideo (h : viewer.Sound)
    (hexpects : frame.Key ∨ viewer.Idle ∨ ∃ last, viewer.frames.getLast? = some last ∧ last.Next frame) :
    (viewer.forwardVideo frame).Sound ∧
      ((viewer.forwardVideo frame).Idle ∨ (viewer.forwardVideo frame).frames.getLast? = some frame) := by
  rcases forwardVideo_cases viewer frame with ⟨hneeds, heq⟩ | ⟨video, needsKey, heq, hcases⟩
  · rw [heq]
    exact ⟨h, .inl (.inr hneeds)⟩
  rw [heq]
  have hwritten := h.written
  unfold Sound at h ⊢
  rcases Bool.eq_false_or_eq_true viewer.writing with hw | hw
  · have hframes := frames_of_writing hw
    rw [← List.append_assoc] at hframes
    rw [hframes] at h hexpects
    rw [frames_of_writing (by exact hw), ← List.append_assoc]
    rcases hcases with ⟨hkey, rfl⟩ | ⟨hneeds, rfl⟩ | ⟨rfl, hvideo⟩
    · -- A keyframe replaces what is in the queue.
      exact ⟨h.of_append.concat_restart hkey, .inr List.getLast?_concat⟩
    · rw [List.map_append, ← List.append_assoc]
      refine ⟨?_, .inr List.getLast?_concat⟩
      rcases hexpects with hkey | (hstopped | hwaits) | ⟨last, hlast, hnext⟩
      · exact h.concat_restart hkey
      · rw [hw] at hstopped
        cases hstopped
      · rw [hneeds] at hwaits
        cases hwaits
      · exact h.concat_next hlast hnext
    · refine ⟨?_, .inl (.inr rfl)⟩
      rcases hvideo with rfl | rfl
      · exact h
      · rw [List.map_nil, List.append_nil]
        exact h.of_append
  · refine ⟨?_, .inl (.inl hw)⟩
    rw [frames_of_stopped (by exact hw)]
    exact hwritten

end Viewer

/-! ### Every viewer -/

/-- The packet that is still to be offered to the viewer at this place. -/
def Relay.awaits : Relay → ℕ → Option Queued
  | .reading, _ => none
  | .read packet, _ | .adopted packet, _ | .collected packet _, _ => some packet
  | .forwarding packet done, k => if k ∈ done then none else some packet

/-- The packet of this turn. -/
def Relay.packet : Relay → Option Queued
  | .reading => none
  | .read packet | .adopted packet | .collected packet _ | .forwarding packet _ => some packet

namespace ScreenShare

/-- A predicted frame that arrives after a mute finds every viewer waiting for a keyframe. -/
def Resumes (s : ScreenShare) : ScreenAction → Prop
  | .receive (.video data) _ =>
    s.muted = false → s.hidden = true → isKeyframe data = false →
      ∀ viewer ∈ s.viewers, viewer.stage = .serving → viewer.needsKey = true
  | _ => True

instance (s : ScreenShare) (action : ScreenAction) : Decidable (s.Resumes action) :=
  match action with
  | .receive (.video data) _ =>
    inferInstanceAs (Decidable (s.muted = false → s.hidden = true → isKeyframe data = false →
      ∀ viewer ∈ s.viewers, viewer.stage = .serving → viewer.needsKey = true))
  | .receive (.audio _) _ | .receive (.feedback ..) _ | .attach .. | .open' _ | .enlist _ | .deattach _
  | .toggleMute _ | .mute _ | .adopt | .collect | .retain | .forward _ | .finish | .take _ | .write .. | .close _
  | .stop _ => .isTrue trivial

/-- The last frame the viewer is sent is the sharer's last one, or the next frame is not
predicted from it. -/
def UpToDate (s : ScreenShare) (viewer : Viewer) : Prop :=
  s.hidden = true ∨ viewer.Idle ∨
    ∃ last, viewer.frames.getLast? = some last ∧ ∃ n, last.origin = some n ∧ n + 1 = s.frames

/-- The packet can be offered to the viewer. -/
def Expects (s : ScreenShare) (viewer : Viewer) : Queued → Prop
  | .video frame => frame.Key ∨ viewer.Idle ∨ ∃ last, viewer.frames.getLast? = some last ∧ last.Next frame
  | .audio _ => s.UpToDate viewer

/-- What holds of the viewer at this place while it is served. -/
def Served (s : ScreenShare) (k : ℕ) (viewer : Viewer) : Prop :=
  match s.relay.awaits k with
  | none => s.UpToDate viewer
  | some packet => s.Expects viewer packet

/-- The packet of this turn is the sharer's last one, or made by the server. -/
def Current (s : ScreenShare) : Queued → Prop
  | .video frame => s.hidden = true ∨ ∃ n, frame.origin = some n ∧ n + 1 = s.frames
  | .audio _ => True

/-- What holds after every action. -/
structure Inv (s : ScreenShare) : Prop where
  sound : ∀ viewer ∈ s.viewers, viewer.Sound
  fresh : ∀ viewer ∈ s.viewers, viewer.stage = .building ∨ viewer.stage = .pending → viewer.needsKey = true
  cached : ∀ frame ∈ s.keyframe, frame.Key
  served : ∀ k viewer, s.viewers[k]? = some viewer → viewer.stage = .serving → s.Served k viewer
  current : ∀ packet ∈ s.relay.packet, s.Current packet

variable {animation : List (List U8)} {s s' : ScreenShare} {k : ℕ} {viewer viewer' : Viewer}

/-- A viewer without frames is served. -/
theorem served_of_idle (h : viewer.Idle) : s.Served k viewer := by
  unfold Served
  split
  · exact .inr (.inl h)
  · rename_i packet _
    cases packet with
    | video frame => exact .inr (.inl h)
    | audio data => exact .inr (.inl h)

/-- What holds of a viewer depends on what it is sent and whether it waits. -/
theorem Served.congr (h : s.Served k viewer) (hframes : viewer'.frames = viewer.frames)
    (hidle : viewer.Idle → viewer'.Idle) : s.Served k viewer' := by
  have hup : s.UpToDate viewer → s.UpToDate viewer' := by
    rintro (hhidden | hi | hlast)
    · exact .inl hhidden
    · exact .inr (.inl (hidle hi))
    · exact .inr (.inr (hframes ▸ hlast))
  unfold Served at h ⊢
  split at h
  · exact hup h
  · rename_i packet _
    cases packet with
    | video frame =>
      rcases h with hkey | hi | hlast
      · exact .inl hkey
      · exact .inr (.inl (hidle hi))
      · exact .inr (.inr (hframes ▸ hlast))
    | audio data => exact hup h

/-- One viewer changes. -/
theorem Inv.set (hinv : s.Inv) (hk : s.viewers[k]? = some viewer) (hsound : viewer'.Sound)
    (hfresh : viewer'.stage = .building ∨ viewer'.stage = .pending → viewer'.needsKey = true)
    (hserved : viewer'.stage = .serving → s.Served k viewer') :
    { s with viewers := s.viewers.set k viewer' }.Inv where
  sound v hv := by
    rcases List.mem_or_eq_of_mem_set hv with hv | rfl
    · exact hinv.sound v hv
    · exact hsound
  fresh v hv := by
    rcases List.mem_or_eq_of_mem_set hv with hv | rfl
    · exact hinv.fresh v hv
    · exact hfresh
  cached := hinv.cached
  served i v hi hstage := by
    rcases eq_or_ne k i with rfl | hne
    · have hlt := (List.getElem?_eq_some_iff.1 hk).1
      rw [List.getElem?_set_self hlt] at hi
      obtain rfl := Option.some.inj hi
      exact hserved hstage
    · rw [List.getElem?_set_ne hne] at hi
      exact hinv.served i v hi hstage
  current := hinv.current

/-- A viewer that is still sent the same frames. -/
theorem Inv.set_congr (hinv : s.Inv) (hk : s.viewers[k]? = some viewer)
    (hframes : viewer'.frames = viewer.frames) (hidle : viewer.Idle → viewer'.Idle)
    (hneeds : viewer'.needsKey = viewer.needsKey) (hstage : viewer'.stage = viewer.stage) :
    { s with viewers := s.viewers.set k viewer' }.Inv := by
  have hmem := List.mem_of_getElem? hk
  refine hinv.set hk ?_ ?_ ?_
  · unfold Viewer.Sound
    rw [hframes]
    exact hinv.sound viewer hmem
  · rw [hneeds, hstage]
    exact hinv.fresh viewer hmem
  · rw [hstage]
    exact fun h => (hinv.served k viewer hk h).congr hframes hidle

/-- The writer of a viewer ends. -/
theorem Inv.set_stopped (hinv : s.Inv) (hk : s.viewers[k]? = some viewer)
    (hwriting : viewer'.writing = false) (hwritten : viewer'.written = viewer.written)
    (hneeds : viewer'.needsKey = viewer.needsKey) (hstage : viewer'.stage = viewer.stage) :
    { s with viewers := s.viewers.set k viewer' }.Inv := by
  have hmem := List.mem_of_getElem? hk
  refine hinv.set hk ?_ ?_ fun _ => served_of_idle (.inl hwriting)
  · unfold Viewer.Sound
    rw [Viewer.frames_of_stopped hwriting, hwritten]
    exact (hinv.sound viewer hmem).written
  · rw [hneeds, hstage]
    exact hinv.fresh viewer hmem

/-! ### One turn of the loop -/

/-- What holds of a viewer before a packet is offered to it. -/
structure Ready (s : ScreenShare) (packet : Queued) (viewer : Viewer) : Prop where
  sound : viewer.Sound
  fresh : viewer.stage = .building ∨ viewer.stage = .pending → viewer.needsKey = true
  expects : viewer.stage = .serving → s.Expects viewer packet

variable {packet : Queued} {viewers : List Viewer}

/-- While a packet is on its way, every viewer is ready for it. -/
theorem Inv.ready (hinv : s.Inv) {relay : Relay} (hrelay : s.relay = relay)
    (hawaits : ∀ k, relay.awaits k = some packet) : ∀ viewer ∈ s.viewers, s.Ready packet viewer := by
  intro viewer hmem
  obtain ⟨k, hk⟩ := List.mem_iff_getElem?.1 hmem
  refine ⟨hinv.sound viewer hmem, hinv.fresh viewer hmem, fun hstage => ?_⟩
  have hserved := hinv.served k viewer hk hstage
  unfold Served at hserved
  rwa [hrelay, hawaits] at hserved

/-- If every viewer is ready, the invariant holds. -/
theorem Inv.of_ready (hready : ∀ viewer ∈ s.viewers, s.Ready packet viewer)
    (hrelay : ∀ k, s.relay.awaits k = some packet) (hcached : ∀ frame ∈ s.keyframe, frame.Key)
    (hcurrent : ∀ packet ∈ s.relay.packet, s.Current packet) : s.Inv where
  sound v hv := (hready v hv).sound
  fresh v hv := (hready v hv).fresh
  cached := hcached
  served k v hk hstage := by
    unfold Served
    rw [hrelay]
    exact (hready v (List.mem_of_getElem? hk)).expects hstage
  current := hcurrent

/-- A viewer that is let go is not served. -/
theorem Ready.dropped (h : s.Ready packet viewer) : s.Ready packet { viewer with stage := .dropped } where
  sound := h.sound
  fresh := by
    rintro (h | h) <;> cases h
  expects h := nomatch h

/-- A viewer that is taken on waits for a keyframe. -/
theorem Ready.serving (h : s.Ready packet viewer) (hstage : viewer.stage = .pending) :
    s.Ready packet { viewer with stage := .serving } where
  sound := h.sound
  fresh := by
    rintro (h | h) <;> cases h
  expects _ := by
    have hidle : viewer.Idle := .inr (h.fresh (.inr hstage))
    cases packet with
    | video frame => exact .inr (.inl hidle)
    | audio data => exact .inr (.inl hidle)

/-- A viewer that is adopted is ready. -/
theorem ready_adoptOne (hready : ∀ viewer ∈ viewers, s.Ready packet viewer) (k : ℕ) :
    ∀ viewer ∈ adoptOne viewers k, s.Ready packet viewer := by
  unfold adoptOne
  split
  · rename_i viewer hk
    split
    · rename_i hstage
      intro v hv
      rcases List.mem_or_eq_of_mem_set hv with hv | rfl
      · obtain ⟨other, hother, rfl⟩ := List.mem_map.1 hv
        split
        · exact (hready other hother).dropped
        · exact hready other hother
      · exact (hready viewer (List.mem_of_getElem? hk)).serving hstage
    · exact hready
  · exact hready

/-- So are many. -/
theorem ready_adopt (hready : ∀ viewer ∈ viewers, s.Ready packet viewer) (pending : List ℕ) :
    ∀ viewer ∈ pending.foldl adoptOne viewers, s.Ready packet viewer := by
  induction pending generalizing viewers with
  | nil => exact hready
  | cons k pending ih => exact ih (ready_adoptOne hready k)

/-- Viewers that are retained are ready. -/
theorem Ready.retain (h : s.Ready packet viewer) (entries : List (ℕ × Vector U8 32 × Bool)) :
    s.Ready packet (viewer.retain entries) := by
  unfold Viewer.retain
  split
  · split
    · exact h.dropped
    · split
      · refine ⟨h.sound, h.fresh, fun hstage => ?_⟩
        have hexpects := h.expects hstage
        cases packet with
        | video frame => exact hexpects
        | audio data => exact hexpects
      · exact h.dropped
  · exact h

/-- What a viewer expects of the others is not changed by a new place in the loop. -/
theorem Ready.congr (h : s.Ready packet viewer) (hframes : s'.frames = s.frames)
    (hhidden : s'.hidden = s.hidden) : s'.Ready packet viewer := by
  refine ⟨h.sound, h.fresh, fun hstage => ?_⟩
  have hexpects := h.expects hstage
  cases packet with
  | video frame => exact hexpects
  | audio data =>
    unfold Expects UpToDate at hexpects ⊢
    rwa [hframes, hhidden]

/-- A packet is current as long as no frame comes. -/
theorem Current.congr (h : s.Current packet) (hframes : s'.frames = s.frames) (hhidden : s'.hidden = s.hidden) :
    s'.Current packet := by
  cases packet with
  | video frame =>
    unfold Current at h ⊢
    rwa [hframes, hhidden]
  | audio data => trivial

/-- The task goes on to the next place in its loop. -/
theorem Inv.advance (hinv : s.Inv) {relay relay' : Relay} (hrelay : s.relay = relay)
    (hpacket : relay.packet = some packet) (hawaits : ∀ k, relay'.awaits k = some packet)
    (hpacket' : relay'.packet = some packet) {pending : List ℕ}
    (hready : ∀ viewer ∈ viewers, s.Ready packet viewer) :
    ({ s with relay := relay', pending, viewers } : ScreenShare).Inv := by
  have hcurrent := hinv.current packet (by rw [hrelay, hpacket]; rfl)
  refine .of_ready (fun v hv => (hready v hv).congr rfl rfl) hawaits hinv.cached fun p hp => ?_
  obtain rfl := Option.some.inj (hpacket'.symm.trans hp)
  exact hcurrent.congr rfl rfl

/-- **A packet is offered to a viewer.** -/
theorem Ready.forward (h : s.Ready packet viewer) (hstage : viewer.stage = .serving) (hcurrent : s.Current packet) :
    (viewer.forward s.id packet).Sound ∧ s.UpToDate (viewer.forward s.id packet) ∧
      (viewer.forward s.id packet).stage = .serving := by
  have hexpects := h.expects hstage
  cases packet with
  | video frame =>
    obtain ⟨hsound, hlast⟩ := h.sound.forwardVideo hexpects
    refine ⟨hsound, ?_, ?_⟩
    · rcases hlast with hidle | hlast
      · exact .inr (.inl hidle)
      · rcases hcurrent with hhidden | hn
        · exact .inl hhidden
        · exact .inr (.inr ⟨frame, hlast, hn⟩)
    · rcases Viewer.forwardVideo_cases viewer frame with ⟨_, heq⟩ | ⟨_, _, heq, _⟩
      · exact (congrArg Viewer.stage heq).trans hstage
      · exact (congrArg Viewer.stage heq).trans hstage
  | audio data =>
    unfold Viewer.forward
    dsimp only
    split
    · exact ⟨h.sound, hexpects, hstage⟩
    · exact ⟨h.sound, hexpects, hstage⟩

/-- The packet has been offered to one more viewer. -/
theorem Inv.forward (hinv : s.Inv) {done : List ℕ} (hrelay : s.relay = .forwarding packet done)
    (hk : s.viewers[k]? = some viewer) (hstage : viewer.stage = .serving) (hdone : k ∉ done) :
    ({ s with
      relay := .forwarding packet (k :: done), viewers := s.viewers.set k (viewer.forward s.id packet) } :
        ScreenShare).Inv := by
  have hcurrent : s.Current packet := hinv.current packet (by rw [hrelay]; rfl)
  have hready : s.Ready packet viewer := by
    refine ⟨hinv.sound viewer (List.mem_of_getElem? hk), hinv.fresh viewer (List.mem_of_getElem? hk), fun h => ?_⟩
    have hserved := hinv.served k viewer hk h
    unfold Served at hserved
    rw [hrelay] at hserved
    simpa only [Relay.awaits, if_neg hdone] using hserved
  obtain ⟨hsound, hup, hstage'⟩ := hready.forward hstage hcurrent
  refine ⟨fun v hv => ?_, fun v hv => ?_, hinv.cached, fun i v hi h => ?_, fun p hp => ?_⟩
  · rcases List.mem_or_eq_of_mem_set hv with hv | rfl
    · exact hinv.sound v hv
    · exact hsound
  · rcases List.mem_or_eq_of_mem_set hv with hv | rfl
    · exact hinv.fresh v hv
    · rw [hstage']
      rintro (h | h) <;> cases h
  · unfold Served
    simp only [Relay.awaits]
    rcases eq_or_ne k i with rfl | hne
    · rw [List.getElem?_set_self (List.getElem?_eq_some_iff.1 hk).1] at hi
      obtain rfl := Option.some.inj hi
      rw [if_pos List.mem_cons_self]
      exact hup
    · rw [List.getElem?_set_ne hne] at hi
      have hserved := hinv.served i v hi h
      unfold Served at hserved
      rw [hrelay] at hserved
      have hiff : i ∈ k :: done ↔ i ∈ done := by
        rw [List.mem_cons]
        exact or_iff_right hne.symm
      simp only [hiff]
      exact hserved
  · obtain rfl := Option.some.inj hp
    exact hcurrent

/-- The packet has been offered to every viewer. -/
theorem Inv.finish (hinv : s.Inv) {done : List ℕ} (hrelay : s.relay = .forwarding packet done)
    (hdone : allDone s.viewers done = true) :
    ({ s with relay := .reading, keyframe := cache s.keyframe packet } : ScreenShare).Inv := by
  refine ⟨hinv.sound, hinv.fresh, fun frame hframe => ?_, fun k v hk hstage => ?_, fun p hp => by cases hp⟩
  · cases packet with
    | video last =>
      have hframe : (if isKeyframe last.data then some last else s.keyframe) = some frame := hframe
      split at hframe
      · rename_i hkey
        obtain rfl := Option.some.inj hframe
        exact hkey
      · exact hinv.cached frame hframe
    | audio data => exact hinv.cached frame hframe
  · have hmem : k ∈ done := by
      have hlt := (List.getElem?_eq_some_iff.1 hk).1
      have hall := List.all_eq_true.1 hdone k (List.mem_range.2 hlt)
      rw [hk] at hall
      rcases Bool.or_eq_true_iff.1 hall with hmem | hnot
      · exact of_decide_eq_true hmem
      · exact absurd hstage (of_decide_eq_true hnot)
    have hserved := hinv.served k v hk hstage
    unfold Served at hserved
    rw [hrelay] at hserved
    simp only [Relay.awaits, if_pos hmem] at hserved
    exact hserved

/-! ### Every run -/

/-- A packet of the sharer is read. -/
theorem Inv.receive (hanimation : ∀ data ∈ animation, isKeyframe data = true) (hinv : s.Inv)
    (hrelay : s.relay = .reading) {code : ScreenPacketCode} {elapsed : ℕ}
    (hresumes : s.Resumes (.receive code elapsed)) : (s.receive animation code elapsed).Inv := by
  have hup : ∀ v ∈ s.viewers, v.stage = .serving → s.UpToDate v := by
    intro v hv hstage
    obtain ⟨k, hk⟩ := List.mem_iff_getElem?.1 hv
    have hserved := hinv.served k v hk hstage
    unfold Served at hserved
    rwa [hrelay] at hserved
  unfold ScreenShare.receive
  split
  · exact hinv
  · rename_i data hmuted
    refine .of_ready (fun v hv => ⟨hinv.sound v hv, hinv.fresh v hv, fun hstage => ?_⟩) (fun _ => rfl) hinv.cached ?_
    · rcases hup v hv hstage with hhidden | hidle | ⟨last, hlast, n, hn, hframes⟩
      · cases hkey : isKeyframe data with
        | true => exact .inl hkey
        | false => exact .inr (.inl (.inr (hresumes hmuted hhidden hkey v hv hstage)))
      · exact .inr (.inl hidle)
      · exact .inr (.inr ⟨last, hlast, n, hn, congrArg some hframes.symm⟩)
    · rintro _ ⟨⟩
      exact .inr ⟨s.frames, rfl, rfl⟩
  · refine .of_ready (fun v hv => ⟨hinv.sound v hv, hinv.fresh v hv, ?_⟩) (fun _ => rfl) hinv.cached ?_
    · exact hup v hv
    · rintro _ ⟨⟩
      trivial
  · exact hinv
  · -- The sharer is muted, and a frame of the placeholder may be due.
    have hskipped : ({ s with frames := s.frames + 1, hidden := true } : ScreenShare).Inv := by
      refine ⟨hinv.sound, hinv.fresh, hinv.cached, fun k v _ _ => ?_, fun p hp => ?_⟩
      · unfold Served
        simp only [hrelay, Relay.awaits]
        exact .inl rfl
      · rw [hrelay] at hp
        cases hp
    dsimp only
    split
    · exact hskipped
    · rename_i frame hframe
      split
      · exact hskipped
      · have hkey : isKeyframe (animation.getD frame []) = true := by
          unfold mutedFrame at hframe
          split at hframe
          · cases hframe
          · rename_i hlen
            obtain rfl := Option.some.inj hframe
            have hlt := Nat.mod_lt (elapsed / mutedFrameInterval) (Nat.pos_of_ne_zero hlen)
            rw [List.getD_eq_getElem _ _ hlt]
            exact hanimation _ (List.getElem_mem hlt)
        refine .of_ready (fun v hv => ⟨hinv.sound v hv, hinv.fresh v hv, fun _ => ?_⟩) (fun _ => rfl)
          hinv.cached ?_
        · exact .inl hkey
        · rintro _ ⟨⟩
          exact .inl rfl

/-- The writer takes a packet out of the queue. -/
theorem frames_take (hwriting : viewer.writing = true) (htaken : viewer.taken = none) {item : Queued}
    {queue : ViewerQueue} (h : viewer.queue.next = some (item, queue)) :
    ({ viewer with queue, taken := some item } : Viewer).frames = viewer.frames := by
  rw [Viewer.frames_of_writing hwriting, Viewer.frames_of_writing (by exact hwriting), htaken]
  unfold ViewerQueue.next at h
  split at h
  · obtain ⟨rfl, rfl⟩ := Prod.mk.inj (Option.some.inj h)
    rfl
  · split at h
    · rename_i hvideo
      obtain ⟨rfl, rfl⟩ := Prod.mk.inj (Option.some.inj h)
      rw [hvideo]
      rfl
    · cases h

/-- The writer has written a packet. -/
theorem frames_write (hwriting : viewer.writing = true) {item : Queued} (htaken : viewer.taken = some item) :
    (viewer.write item true).frames = viewer.frames := by
  rw [Viewer.frames_of_writing hwriting, htaken]
  cases item with
  | video frame =>
    have hwriting' : (viewer.write (.video frame) true).writing = true := hwriting
    rw [Viewer.frames_of_writing hwriting']
    exact List.append_assoc viewer.written [frame] (viewer.queue.video.map (·.1))
  | audio data =>
    have hwriting' : (viewer.write (.audio data) true).writing = true := hwriting
    exact Viewer.frames_of_writing hwriting'

/-- What is written is the next of the queue. -/
theorem Inv.write (hinv : s.Inv) (hk : s.viewers[k]? = some viewer) (hwriting : viewer.writing = true)
    {item : Queued} (htaken : viewer.taken = some item) (ok : Bool) :
    ({ s with viewers := s.viewers.set k (viewer.write item ok) } : ScreenShare).Inv := by
  cases ok with
  | true =>
    have hframes := frames_write hwriting htaken
    cases item with
    | video frame => exact hinv.set_congr hk hframes (fun h => h) rfl rfl
    | audio data => exact hinv.set_congr hk hframes (fun h => h) rfl rfl
  | false => exact hinv.set_stopped hk rfl rfl rfl rfl

/-- The last keyframe is put into the queue of a viewer that is being attached. -/
theorem Inv.open' (hinv : s.Inv) (hk : s.viewers[k]? = some viewer) (hstage : viewer.stage = .building)
    {frame : Frame} (hkey : frame.Key) :
    ({ s with viewers := s.viewers.set k { viewer with queue := (viewer.queue.pushVideo frame true).2 } } :
      ScreenShare).Inv := by
  have hmem := List.mem_of_getElem? hk
  refine hinv.set hk ?_ (hinv.fresh viewer hmem) fun h => ?_
  · rcases Bool.eq_false_or_eq_true viewer.writing with hw | hw
    · have hsound := hinv.sound viewer hmem
      unfold Viewer.Sound at hsound ⊢
      rw [Viewer.frames_of_writing hw, ← List.append_assoc] at hsound
      rw [Viewer.frames_of_writing (by exact hw), ← List.append_assoc]
      exact hsound.of_append.concat_restart hkey
    · unfold Viewer.Sound
      rw [Viewer.frames_of_stopped (by exact hw)]
      exact (hinv.sound viewer hmem).written
  · rw [hstage] at h
    cases h

/-- A viewer that is attached has got nothing yet. -/
theorem Inv.attach (hinv : s.Inv) {client : ℕ} {token : Vector U8 32}
    (h : s.step animation (.attach client token) = some s') : s'.Inv := by
  obtain rfl := Option.some.inj h
  refine ⟨fun v hv => ?_, fun v hv => ?_, hinv.cached, fun k v hk hstage => ?_, hinv.current⟩
  · rcases List.mem_append.1 hv with hv | hv
    · exact hinv.sound v hv
    · obtain rfl := List.mem_singleton.1 hv
      exact Restarting.nil
  · rcases List.mem_append.1 hv with hv | hv
    · exact hinv.fresh v hv
    · obtain rfl := List.mem_singleton.1 hv
      exact fun _ => rfl
  · rcases Nat.lt_or_ge k s.viewers.length with hlt | hge
    · rw [List.getElem?_append_left hlt] at hk
      exact hinv.served k v hk hstage
    · rw [List.getElem?_append_right hge] at hk
      obtain rfl := List.mem_singleton.1 (List.mem_of_getElem? hk)
      cases hstage

/-- **Every action keeps the invariant**, if no mute ends with a predicted frame. -/
theorem Inv.step (hanimation : ∀ data ∈ animation, isKeyframe data = true) (hinv : s.Inv) {action : ScreenAction}
    (hresumes : s.Resumes action) (h : s.step animation action = some s') : s'.Inv := by
  cases action with
  | attach client token => exact hinv.attach h
  | open' k =>
    obtain ⟨viewer, hk, h⟩ := Option.bind_eq_some_iff.1 h
    split at h
    · rename_i frame hframe
      split_ifs at h with hstage
      obtain rfl := Option.some.inj h
      exact hinv.open' hk hstage (hinv.cached frame hframe)
    · cases h
  | enlist k =>
    obtain ⟨viewer, hk, h⟩ := Option.bind_eq_some_iff.1 h
    split_ifs at h with hstage
    obtain rfl := Option.some.inj h
    have hmem := List.mem_of_getElem? hk
    have hset : { s with viewers := s.viewers.set k { viewer with stage := .pending } }.Inv :=
      hinv.set hk (hinv.sound viewer hmem) (fun _ => hinv.fresh viewer hmem (.inl hstage)) (fun h => (nomatch h))
    exact ⟨hset.sound, hset.fresh, hset.cached, hset.served, hset.current⟩
  | deattach client =>
    obtain rfl := Option.some.inj h
    exact ⟨hinv.sound, hinv.fresh, hinv.cached, hinv.served, hinv.current⟩
  | toggleMute client =>
    simp only [ScreenShare.step] at h
    split at h
    · obtain rfl := Option.some.inj h
      exact ⟨hinv.sound, hinv.fresh, hinv.cached, hinv.served, hinv.current⟩
    · obtain rfl := Option.some.inj h
      exact hinv
  | mute muted =>
    obtain rfl := Option.some.inj h
    exact ⟨hinv.sound, hinv.fresh, hinv.cached, hinv.served, hinv.current⟩
  | receive code elapsed =>
    simp only [ScreenShare.step] at h
    split at h
    · rename_i hrelay
      obtain rfl := Option.some.inj h
      exact hinv.receive hanimation hrelay hresumes
    · cases h
  | adopt =>
    simp only [ScreenShare.step] at h
    split at h
    · rename_i packet hrelay
      obtain rfl := Option.some.inj h
      have hready := hinv.ready hrelay fun _ => rfl
      exact hinv.advance hrelay rfl (fun _ => rfl) rfl (ready_adopt hready s.pending)
    · cases h
  | collect =>
    simp only [ScreenShare.step] at h
    split at h
    · rename_i packet hrelay
      obtain rfl := Option.some.inj h
      exact hinv.advance hrelay rfl (fun _ => rfl) rfl (hinv.ready hrelay fun _ => rfl)
    · cases h
  | retain =>
    simp only [ScreenShare.step] at h
    split at h
    · rename_i packet entries hrelay
      obtain rfl := Option.some.inj h
      refine hinv.advance hrelay rfl (fun _ => rfl) rfl fun v hv => ?_
      obtain ⟨viewer, hviewer, rfl⟩ := List.mem_map.1 hv
      exact (hinv.ready hrelay (fun _ => rfl) viewer hviewer).retain entries
    · cases h
  | forward k =>
    simp only [ScreenShare.step] at h
    split at h
    · rename_i packet done hrelay
      obtain ⟨viewer, hk, h⟩ := Option.bind_eq_some_iff.1 h
      split_ifs at h with hcond
      obtain rfl := Option.some.inj h
      exact hinv.forward hrelay hk hcond.1 hcond.2
    · cases h
  | finish =>
    simp only [ScreenShare.step] at h
    split at h
    · rename_i packet done hrelay
      split_ifs at h with hdone
      obtain rfl := Option.some.inj h
      exact hinv.finish hrelay hdone
    · cases h
  | take k =>
    obtain ⟨viewer, hk, h⟩ := Option.bind_eq_some_iff.1 h
    obtain ⟨⟨item, queue⟩, hnext, h⟩ := Option.bind_eq_some_iff.1 h
    dsimp only at h
    split_ifs at h with hcond
    obtain rfl := Option.some.inj h
    exact hinv.set_congr hk (frames_take hcond.1 hcond.2 hnext) (fun h => h) rfl rfl
  | write k ok =>
    obtain ⟨viewer, hk, h⟩ := Option.bind_eq_some_iff.1 h
    obtain ⟨item, htaken, h⟩ := Option.bind_eq_some_iff.1 h
    split_ifs at h with hwriting
    obtain rfl := Option.some.inj h
    exact hinv.write hk hwriting htaken ok
  | close k =>
    obtain ⟨viewer, hk, h⟩ := Option.bind_eq_some_iff.1 h
    obtain rfl := Option.some.inj h
    exact hinv.set_congr hk rfl (fun h => h) rfl rfl
  | stop k =>
    obtain ⟨viewer, hk, h⟩ := Option.bind_eq_some_iff.1 h
    split_ifs at h
    obtain rfl := Option.some.inj h
    exact hinv.set_stopped hk rfl rfl rfl rfl

/-- A sequence with restarts can be decoded. -/
theorem decodable_of_restarting {written : List Frame} (h : Restarting Frame.Key Frame.Next written) :
    Decodable written := by
  refine ⟨fun i frame hi hkey => h.exists_previous hi hkey, fun i j last frame hij hi hj hbetween horigin hnext => ?_⟩
  by_contra hkey
  obtain ⟨l, previous, rfl, hl, hprevious⟩ := h.exists_previous hj hkey
  have ⟨n, hn, _⟩ := hprevious
  rcases Nat.lt_or_ge i l with hlt | hge
  · rw [hbetween l previous hlt (Nat.lt_succ_self l) hl] at hn
    cases hn
  · obtain rfl : i = l := by omega
    rw [hi] at hl
    obtain rfl := Option.some.inj hl
    exact hnext hprevious

/-- **A viewer can show every frame it is sent**, in every run of a share in which a
predicted frame that arrives after a mute finds every viewer waiting for a keyframe. -/
theorem frames_decodable (animation : List (List U8)) (hanimation : ∀ data ∈ animation, isKeyframe data = true)
    (id : ℕ) (actions : List ScreenAction) {s : ScreenShare} (hmeets : Meets (step animation) Resumes (start id) actions)
    (hrun : exec (step animation) (start id) actions = some s) :
    ∀ viewer ∈ s.viewers, Decodable viewer.written := by
  have hstart : (start id).Inv :=
    ⟨fun _ h => (nomatch h), fun _ h => (nomatch h), fun _ h => (nomatch h), fun _ _ h => (nomatch h),
      fun _ h => (nomatch h)⟩
  have hinv : s.Inv := exec_induct (fun _ _ _ hinv => hinv.step hanimation) hstart hmeets hrun
  exact fun viewer hviewer => decodable_of_restarting (hinv.sound viewer hviewer).written

/-- The sharer sends a keyframe after the mute, and a predicted frame after that. -/
def muteAndKeyframe : List ScreenAction :=
  [.attach 1 (.replicate 32 0), .enlist 0] ++ turn (.video [0, 0, 1, 5]) ++ [.mute true] ++
    turn (.video [0, 0, 1, 1]) ++ [.mute false] ++ turn (.video [0, 0, 1, 5]) ++ turn (.video [0, 0, 1, 1])

/-- The theorem on that run. -/
theorem frames_decodable_keyframe : ∃ s : ScreenShare,
    exec (step [[0, 0, 1, 7]]) (start 0) muteAndKeyframe = some s ∧
      Meets (step [[0, 0, 1, 7]]) Resumes (start 0) muteAndKeyframe ∧
      (∀ viewer ∈ s.viewers, Decodable viewer.written) ∧
      s.viewers.map (·.written.map (·.origin)) = [[some 0, none, some 2, some 3]] := by
  have hvalues : (exec (step [[0, 0, 1, 7]]) (start 0) muteAndKeyframe).map
      (·.viewers.map (·.written.map (·.origin))) = some [[some 0, none, some 2, some 3]] := by decide +kernel
  obtain ⟨s, hs, hwritten⟩ := Option.map_eq_some_iff.1 hvalues
  have hmeets : Meets (step [[0, 0, 1, 7]]) Resumes (start 0) muteAndKeyframe := by decide +kernel
  exact ⟨s, hs, hmeets, frames_decodable [[0, 0, 1, 7]] (by decide) 0 muteAndKeyframe hmeets hs, hwritten⟩

end ScreenShare

end Why2
